import Sandcat.Lib.Remote

/-!
# What a program can add to a list in the state

`Adds f ks m` bounds what `m` does to the list `f s` when calls may be lost: it may
drop elements, and it may append some of `ks`, each one at most as often as `ks`
holds it.
-/

namespace Remote

namespace Prog

variable {σ ε α β κ : Type}

def Adds (f : σ → List κ) (ks : List κ) (m : Prog σ ε α) : Prop :=
  ∀ s r t, Faulty m s r t → (f t).Sublist (f s ++ ks)

variable {f : σ → List κ} {ks ks' : List κ}

theorem adds_mono {m : Prog σ ε α} (hm : Adds f ks m) (h : ks.Sublist ks') : Adds f ks' m :=
  fun s r t hf => (hm s r t hf).trans ((List.Sublist.refl _).append h)

theorem adds_of_frame {m : Prog σ ε α} (hm : Frame f m) : Adds f [] m := by
  intro s r t hf
  simp [frame_faulty hm hf]

@[simp] theorem adds_ret (a : α) : Adds f [] (.ret a : Prog σ ε α) := adds_of_frame (frame_ret a)
@[simp] theorem adds_raise (e : ε) : Adds f [] (.raise e : Prog σ ε α) :=
  adds_of_frame (frame_raise e)

/-- Sequencing, where the second program may rely on what the first one answers. -/
theorem adds_bind_of {m : Prog σ ε α} {k : α → Prog σ ε β} {P : α → Prop} (hm : Adds f ks m)
    (hP : ∀ s a t, Faulty m s (.ok a) t → P a) (hk : ∀ a, P a → Adds f ks' (k a)) :
    Adds f (ks ++ ks') (m >>= k) := by
  intro s r u h
  rw [← List.append_assoc]
  obtain ⟨a, t, ha, ht⟩ | ⟨e, he, rfl⟩ := faulty_bind h
  · have hsub := hk a (hP _ _ _ ha) _ _ _ ht
    exact hsub.trans ((hm _ _ _ ha).append (List.Sublist.refl _))
  · exact (hm _ _ _ he).trans (List.sublist_append_left _ _)

theorem adds_bind {m : Prog σ ε α} {k : α → Prog σ ε β} (hm : Adds f ks m)
    (hk : ∀ a, Adds f ks' (k a)) : Adds f (ks ++ ks') (m >>= k) :=
  adds_bind_of (P := fun _ => True) hm (fun _ _ _ _ => trivial) fun a _ => hk a

/-- A first program that leaves the list alone. -/
theorem adds_frame_bind {m : Prog σ ε α} {k : α → Prog σ ε β} (hm : Frame f m)
    (hk : ∀ a, Adds f ks (k a)) : Adds f ks (m >>= k) := adds_bind (adds_of_frame hm) hk

/-- A second program that leaves the list alone. -/
theorem adds_bind_frame {m : Prog σ ε α} {k : α → Prog σ ε β} (hm : Adds f ks m)
    (hk : ∀ a, Frame f (k a)) : Adds f ks (m >>= k) := by
  have h := adds_bind hm fun a => adds_of_frame (hk a)
  rwa [List.append_nil] at h

theorem adds_attempt {m : Prog σ ε α} (hm : Adds f ks m) : Adds f ks (attempt m) := by
  intro s r t h
  obtain ⟨r', -, h'⟩ := faulty_attempt h
  exact hm s r' t h'

theorem adds_request {g : σ → Except ε (α × σ)}
    (hg : ∀ s a t, g s = .ok (a, t) → (f t).Sublist (f s ++ ks)) : Adds f ks (request g) := by
  intro s r t h
  obtain ⟨rfl, -⟩ | ⟨b, hb, -⟩ := faulty_request h
  · exact List.sublist_append_left _ _
  · exact hg s b t hb

theorem adds_each {k : α → Prog σ ε Unit} {key : α → κ} (hk : ∀ a, Adds f [key a] (k a))
    (as : List α) : Adds f (as.map key) (each k as) := by
  induction as with
  | nil => exact adds_ret ()
  | cons a as ih => exact adds_bind (hk a) fun _ => ih

theorem adds_all {k : α → Prog σ ε Unit} {key : α → κ} (hk : ∀ a, Adds f [key a] (k a))
    (as : List α) : Adds f (as.map key) (all (as.map k)) := by
  induction as with
  | nil => exact adds_ret []
  | cons a as ih =>
    apply adds_bind (adds_attempt (hk a))
    intro r
    exact adds_bind_frame ih fun rs => frame_ret _

end Prog

end Remote
