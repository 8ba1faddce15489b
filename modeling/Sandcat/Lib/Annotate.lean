import Sandcat.Lib.Interleave

/-!
# Programs that follow an abstract protocol

An annotation of type `ℓ` says where a program stands in an abstract protocol. A
program follows the protocol `T` from an annotation if every call of it that is
answered is a step of `T`, with an annotation from which the rest of the program
follows it.
-/

namespace Remote

namespace Prog

variable {σ ε α β γ ℓ : Type} {T : ℓ → σ → ℓ → σ → Prop}

def Follows (T : ℓ → σ → ℓ → σ → Prop) :
    Prog σ ε α → ℓ → (Except ε α → ℓ → Prop) → Prop
  | .ret a, x, Q => Q (.ok a) x
  | .raise e, x, Q => Q (.error e) x
  | .call g k, x, Q => ∀ s b t, g s = .ok (b, t) → ∃ y, T x s y t ∧ Follows T (k (.ok b)) y Q

theorem follows_mono {m : Prog σ ε α} {x : ℓ} {Q R : Except ε α → ℓ → Prop}
    (hm : Follows T m x Q) (h : ∀ r y, Q r y → R r y) : Follows T m x R := by
  induction m generalizing x with
  | ret a => exact h _ _ hm
  | raise e => exact h _ _ hm
  | call g k ih =>
    intro s b t hg
    obtain ⟨y, hT, hk⟩ := hm s b t hg
    exact ⟨y, hT, ih _ hk⟩

theorem follows_bind {m : Prog σ ε α} {f : α → Prog σ ε β} {x : ℓ} {Q : Except ε β → ℓ → Prop}
    (hm : Follows T m x fun r y =>
      match r with
      | .ok a => Follows T (f a) y Q
      | .error e => Q (.error e) y) : Follows T (m >>= f) x Q := by
  induction m generalizing x with
  | ret a => exact hm
  | raise e => exact hm
  | call g k ih =>
    intro s b t hg
    obtain ⟨y, hT, hk⟩ := hm s b t hg
    exact ⟨y, hT, ih _ hk⟩

theorem follows_attempt {m : Prog σ ε α} {x : ℓ} {Q : Except ε (Except ε α) → ℓ → Prop}
    (hm : Follows T m x fun r y => Q (.ok r) y) : Follows T (attempt m) x Q := by
  induction m generalizing x with
  | ret a => exact hm
  | raise e => exact hm
  | call g k ih =>
    intro s b t hg
    obtain ⟨y, hT, hk⟩ := hm s b t hg
    exact ⟨y, hT, ih _ hk⟩

theorem follows_request {g : σ → Except ε (β × σ)} {x : ℓ} {Q : Except ε β → ℓ → Prop}
    (hg : ∀ s b t, g s = .ok (b, t) → ∃ y, T x s y t ∧ Q (.ok b) y) :
    Follows T (request g) x Q := hg

theorem follows_update {g : σ → β × σ} {x : ℓ} {Q : Except ε β → ℓ → Prop}
    (hg : ∀ s, ∃ y, T x s y (g s).2 ∧ Q (.ok (g s).1) y) : Follows T (update g) x Q := by
  intro s b t h
  have hs := hg s
  rw [Except.ok.inj h] at hs
  exact hs

theorem follows_void {m : Prog σ ε α} {x : ℓ} {Q : Except ε Unit → ℓ → Prop}
    (hm : Follows T m x fun r y => Q (r.map fun _ => ()) y) : Follows T (void m) x Q := by
  apply follows_bind
  apply follows_mono hm
  intro r y h
  cases r with
  | ok a => exact h
  | error e => exact h

/-- A program that succeeds and leaves the annotation, with what it answers. -/
def Keeps (T : ℓ → σ → ℓ → σ → Prop) (m : Prog σ ε α) (x : ℓ) (P : α → Prop) : Prop :=
  Follows T m x fun r y => y = x ∧ ∃ a, r = .ok a ∧ P a

theorem follows_keeps_bind {m : Prog σ ε α} {f : α → Prog σ ε β} {x : ℓ} {P : α → Prop}
    {Q : Except ε β → ℓ → Prop} (hm : Keeps T m x P) (hf : ∀ a, P a → Follows T (f a) x Q) :
    Follows T (m >>= f) x Q := by
  apply follows_bind
  apply follows_mono hm
  rintro r y ⟨rfl, a, rfl, ha⟩
  exact hf a ha

/-- A loop whose turns all succeed; the annotation tells what is left. -/
theorem follows_each {f : α → Prog σ ε Unit} {L : List α → ℓ}
    (hf : ∀ a as, Follows T (f a) (L (a :: as)) fun r y => r = .ok () ∧ y = L as)
    (as : List α) : Follows T (each f as) (L as) fun r y => r = .ok () ∧ y = L [] := by
  induction as with
  | nil => exact ⟨rfl, rfl⟩
  | cons a as ih =>
    apply follows_bind
    apply follows_mono (hf a as)
    rintro r y ⟨rfl, rfl⟩
    exact ih

/-- What leaves the observed part of the state alone, where such calls need no change of the
annotation. -/
theorem follows_of_frame {f : σ → γ} {x : ℓ} (hT : ∀ s t, f t = f s → T x s x t)
    {m : Prog σ ε α} (hm : Frame f m) : Follows T m x fun _ y => y = x := by
  induction m with
  | ret a => rfl
  | raise e => rfl
  | call g k ih =>
    intro s b t hg
    exact ⟨x, hT s t ((hm (f s)).1 s b t rfl hg), ih _ fun c => (hm c).2 _⟩

/-- A program that follows the protocol also when calls are lost: the service may have acted
on a call whose answer is an error. -/
def Tracks (T : ℓ → σ → ℓ → σ → Prop) : Prog σ ε α → ℓ → (α → ℓ → Prop) → Prop
  | .ret a, x, Q => Q a x
  | .raise _, _, _ => True
  | .call g k, x, Q =>
    (∀ s b t, g s = .ok (b, t) → ∃ y, T x s y t ∧ Tracks T (k (.ok b)) y Q ∧
      ∀ e, Tracks T (k (.error e)) y Q) ∧
    ∀ e, Tracks T (k (.error e)) x Q

section Tracks

theorem tracks_mono {m : Prog σ ε α} {x : ℓ} {Q R : α → ℓ → Prop} (hm : Tracks T m x Q)
    (h : ∀ a y, Q a y → R a y) : Tracks T m x R := by
  induction m generalizing x with
  | ret a => exact h a x hm
  | raise e => trivial
  | call g k ih =>
    refine ⟨?_, fun e => ih _ (hm.2 e)⟩
    intro s b t hg
    obtain ⟨y, hT, hok, herror⟩ := hm.1 s b t hg
    exact ⟨y, hT, ih _ hok, fun e => ih _ (herror e)⟩

theorem tracks_bind {m : Prog σ ε α} {f : α → Prog σ ε β} {x : ℓ} {Q : β → ℓ → Prop}
    (hm : Tracks T m x fun a y => Tracks T (f a) y Q) : Tracks T (m >>= f) x Q := by
  induction m generalizing x with
  | ret a => exact hm
  | raise e => trivial
  | call g k ih =>
    refine ⟨?_, fun e => ih _ (hm.2 e)⟩
    intro s b t hg
    obtain ⟨y, hT, hok, herror⟩ := hm.1 s b t hg
    exact ⟨y, hT, ih _ hok, fun e => ih _ (herror e)⟩

/-- A request whose failure ends the program. -/
theorem tracks_request {g : σ → Except ε (β × σ)} {x : ℓ} {Q : β → ℓ → Prop}
    (hg : ∀ s b t, g s = .ok (b, t) → ∃ y, T x s y t ∧ Q b y) : Tracks T (request g) x Q := by
  refine ⟨?_, fun e => trivial⟩
  intro s b t h
  obtain ⟨y, hT, hQ⟩ := hg s b t h
  exact ⟨y, hT, hQ, fun e => trivial⟩

theorem tracks_update {g : σ → β × σ} {x : ℓ} {Q : β → ℓ → Prop}
    (hg : ∀ s, ∃ y, T x s y (g s).2 ∧ Q (g s).1 y) : Tracks T (update g : Prog σ ε β) x Q := by
  apply tracks_request
  intro s b t h
  have hs := hg s
  rw [Except.ok.inj h] at hs
  exact hs

/-- What leaves the observed part of the state alone leaves the annotation. -/
theorem tracks_of_frame {f : σ → γ} {x : ℓ} (hT : ∀ s t, f t = f s → T x s x t) {m : Prog σ ε α}
    (hm : Frame f m) : Tracks T m x fun _ y => y = x := by
  induction m with
  | ret a => rfl
  | raise e => trivial
  | call g k ih =>
    refine ⟨?_, fun e => ih _ fun c => (hm c).2 _⟩
    intro s b t hg
    exact ⟨x, hT s t ((hm (f s)).1 s b t rfl hg), ih _ fun c => (hm c).2 _,
      fun e => ih _ fun c => (hm c).2 _⟩

theorem tracks_frame_bind {f : σ → γ} {x : ℓ} (hT : ∀ s t, f t = f s → T x s x t)
    {m : Prog σ ε α} {k : α → Prog σ ε β} {Q : β → ℓ → Prop} (hm : Frame f m)
    (hk : ∀ a, Tracks T (k a) x Q) : Tracks T (m >>= k) x Q := by
  apply tracks_bind
  apply tracks_mono (tracks_of_frame hT hm)
  rintro a y rfl
  exact hk a

/-- A call whose outcome, failure included, goes to the caller. -/
theorem tracks_attempt_update {g : σ → β × σ} {x : ℓ} {Q : Except ε β → ℓ → Prop}
    (hg : ∀ s, ∃ y, T x s y (g s).2 ∧ ∀ r, Q r y) (hx : ∀ e, Q (.error e) x) :
    Tracks T (attempt (update g : Prog σ ε β)) x Q := by
  refine ⟨?_, hx⟩
  intro s b t h
  obtain ⟨y, hT, hQ⟩ := hg s
  rw [Except.ok.inj h] at hT
  exact ⟨y, hT, hQ _, fun e => hQ _⟩

theorem tracks_calls {m n : Prog σ ε α} {s t : σ} {x : ℓ} {Q : α → ℓ → Prop}
    (hm : Tracks T m x Q) (h : Calls m s n t) :
    (∃ y, T x s y t ∧ Tracks T n y Q) ∨ t = s ∧ Tracks T n x Q := by
  cases h with
  | answered hg =>
    obtain ⟨y, hT, hok, -⟩ := hm.1 _ _ _ hg
    exact .inl ⟨y, hT, hok⟩
  | unanswered e hg =>
    obtain ⟨y, hT, -, herror⟩ := hm.1 _ _ _ hg
    exact .inl ⟨y, hT, herror e⟩
  | lost e => exact .inr ⟨rfl, hm.2 e⟩

end Tracks

end Prog

end Remote
