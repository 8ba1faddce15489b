import Sandcat.Lib.Interleave

/-!
# Programs among others

Others may act between two calls of a program. What the program relies on holds
whenever it makes a call, and what it guarantees relates the states before and after
each call. A program reaches a condition if it cannot succeed without a call that
establishes it.
-/

namespace Remote

namespace Prog

variable {σ ε α β γ : Type} {R J : σ → Prop} {G H : σ → σ → Prop}

/-- Calls in states with `R` are steps of `G`, and a value that is returned has `Q`. -/
def Guarantees (R : σ → Prop) (G : σ → σ → Prop) : Prog σ ε α → (α → Prop) → Prop
  | .ret a, Q => Q a
  | .raise _, _ => True
  | .call g k, Q =>
    (∀ s b t, R s → g s = .ok (b, t) → G s t ∧ Guarantees R G (k (.ok b)) Q) ∧
      ∀ e, Guarantees R G (k (.error e)) Q

section Guarantees

theorem guarantees_mono {m : Prog σ ε α} {P Q : α → Prop} (hm : Guarantees R G m P)
    (hstep : ∀ s t, R s → G s t → H s t) (h : ∀ a, P a → Q a) : Guarantees R H m Q := by
  induction m with
  | ret a => exact h a hm
  | raise e => trivial
  | call g k ih =>
    refine ⟨?_, fun e => ih _ (hm.2 e)⟩
    intro s b t hs hg
    obtain ⟨hG, hk⟩ := hm.1 s b t hs hg
    exact ⟨hstep s t hs hG, ih _ hk⟩

theorem guarantees_and {m : Prog σ ε α} {P Q : α → Prop} (hG : Guarantees R G m P)
    (hH : Guarantees R H m Q) : Guarantees R (fun s t => G s t ∧ H s t) m fun a => P a ∧ Q a := by
  induction m with
  | ret a => exact ⟨hG, hH⟩
  | raise e => trivial
  | call g k ih =>
    refine ⟨?_, fun e => ih _ (hG.2 e) (hH.2 e)⟩
    intro s b t hs hg
    obtain ⟨hGs, hGk⟩ := hG.1 s b t hs hg
    obtain ⟨hHs, hHk⟩ := hH.1 s b t hs hg
    exact ⟨⟨hGs, hHs⟩, ih _ hGk hHk⟩

theorem guarantees_bind {m : Prog σ ε α} {f : α → Prog σ ε β} {P : α → Prop} {Q : β → Prop}
    (hm : Guarantees R G m P) (hf : ∀ a, P a → Guarantees R G (f a) Q) :
    Guarantees R G (m >>= f) Q := by
  induction m with
  | ret a => exact hf a hm
  | raise e => trivial
  | call g k ih =>
    refine ⟨?_, fun e => ih _ (hm.2 e)⟩
    intro s b t hs hg
    obtain ⟨hG, hk⟩ := hm.1 s b t hs hg
    exact ⟨hG, ih _ hk⟩

theorem guarantees_attempt {m : Prog σ ε α} {P : α → Prop} (hm : Guarantees R G m P) :
    Guarantees R G (attempt m) fun r => ∀ a, r = .ok a → P a := by
  induction m with
  | ret a =>
    intro b hb
    cases hb
    exact hm
  | raise e =>
    intro b hb
    cases hb
  | call g k ih =>
    refine ⟨?_, fun e => ih _ (hm.2 e)⟩
    intro s b t hs hg
    obtain ⟨hG, hk⟩ := hm.1 s b t hs hg
    exact ⟨hG, ih _ hk⟩

theorem guarantees_request {g : σ → Except ε (β × σ)} {Q : β → Prop}
    (hg : ∀ s b t, R s → g s = .ok (b, t) → G s t ∧ Q b) : Guarantees R G (request g) Q :=
  ⟨hg, fun _ => trivial⟩

theorem guarantees_update {g : σ → β × σ} {Q : β → Prop} (hg : ∀ s, R s → G s (g s).2 ∧ Q (g s).1) :
    Guarantees R G (update g : Prog σ ε β) Q := by
  apply guarantees_request
  intro s b t hs h
  have hst := hg s hs
  rw [Except.ok.inj h] at hst
  exact hst

/-- What is left unchanged, whatever the others do. -/
theorem guarantees_of_frame {f : σ → γ} (h : ∀ s t, f t = f s → G s t) {m : Prog σ ε α}
    (hm : Frame f m) : Guarantees R G m fun _ => True := by
  induction m with
  | ret a => trivial
  | raise e => trivial
  | call g k ih =>
    refine ⟨?_, fun e => ih _ fun c => (hm c).2 _⟩
    intro s b t _ hg
    exact ⟨h s t ((hm (f s)).1 s b t rfl hg), ih _ fun c => (hm c).2 _⟩

/-- Without a demand on the steps. -/
theorem guarantees_any (m : Prog σ ε α) : Guarantees R (fun _ _ => True) m fun _ => True := by
  induction m with
  | ret a => trivial
  | raise e => trivial
  | call g k ih => exact ⟨fun s b t _ _ => ⟨trivial, ih _⟩, fun e => ih _⟩

theorem guarantees_onlyIf {c : Bool} {m : Prog σ ε Unit} (hm : Guarantees R G m fun _ => True) :
    Guarantees R G (onlyIf c m) fun _ => True := by
  cases c with
  | true => exact hm
  | false => trivial

theorem guarantees_each {f : α → Prog σ ε Unit} {as : List α}
    (h : ∀ a ∈ as, Guarantees R G (f a) fun _ => True) :
    Guarantees R G (each f as) fun _ => True := by
  induction as with
  | nil => trivial
  | cons a as ih =>
    apply guarantees_bind (h a List.mem_cons_self)
    intro _ _
    exact ih fun b hb => h b (List.mem_cons_of_mem _ hb)

theorem guarantees_all {ms : List (Prog σ ε Unit)}
    (h : ∀ m ∈ ms, Guarantees R G m fun _ => True) : Guarantees R G (all ms) fun _ => True := by
  induction ms with
  | nil => trivial
  | cons m ms ih =>
    apply guarantees_bind (guarantees_attempt (h m List.mem_cons_self))
    intro r _
    apply guarantees_bind (ih fun n hn => h n (List.mem_cons_of_mem _ hn))
    intro rs _
    trivial

theorem guarantees_step {m n : Prog σ ε α} {s t : σ} {Q : α → Prop} (hrefl : ∀ s, G s s)
    (h : step m s = some (n, t)) (hm : Guarantees R G m Q) (hs : R s) : G s t ∧ Guarantees R G n Q := by
  cases m with
  | ret a => cases h
  | raise e => cases h
  | call g k =>
    simp only [step] at h
    cases hg : g s with
    | ok p =>
      rw [hg] at h
      cases h
      exact hm.1 s p.1 p.2 hs hg
    | error e =>
      rw [hg] at h
      cases h
      exact ⟨hrefl s, hm.2 e⟩

theorem guarantees_calls {m n : Prog σ ε α} {s t : σ} {Q : α → Prop} (hrefl : ∀ s, G s s)
    (h : Calls m s n t) (hm : Guarantees R G m Q) (hs : R s) : G s t ∧ Guarantees R G n Q := by
  cases h with
  | answered hg => exact hm.1 _ _ _ hs hg
  | unanswered e hg => exact ⟨(hm.1 _ _ _ hs hg).1, hm.2 e⟩
  | lost e => exact ⟨hrefl s, hm.2 e⟩

end Guarantees

def succeeded : Prog σ ε α → Bool
  | .ret _ => true
  | .raise _ => false
  | .call _ _ => false

/-- The program does not succeed before a call has established `J`, and goes on as in `S`. -/
def Reaches (J : σ → Prop) (S : Prog σ ε α → Prop) : Prog σ ε α → Prop
  | .ret _ => False
  | .raise _ => True
  | .call g k =>
    (∀ s b t, g s = .ok (b, t) → Reaches J S (k (.ok b)) ∨ J t ∧ S (k (.ok b))) ∧
      ∀ e, Reaches J S (k (.error e))

section Reaches

variable {S : Prog σ ε β → Prop}

theorem reaches_bind {m : Prog σ ε α} {f : α → Prog σ ε β} (hf : ∀ a, Reaches J S (f a)) :
    Reaches J S (m >>= f) := by
  induction m with
  | ret a => exact hf a
  | raise e => trivial
  | call g k ih => exact ⟨fun s b t _ => .inl (ih _), fun e => ih _⟩

/-- The condition is reached in the first part. -/
theorem reaches_bind_left {m : Prog σ ε α} {f : α → Prog σ ε β}
    (hm : Reaches J (fun n => S (n >>= f)) m) : Reaches J S (m >>= f) := by
  induction m with
  | ret a => exact hm.elim
  | raise e => trivial
  | call g k ih =>
    refine ⟨?_, fun e => ih _ (hm.2 e)⟩
    intro s b t hg
    obtain hk | hk := hm.1 s b t hg
    · exact .inl (ih _ hk)
    · exact .inr hk

/-- The call that establishes the condition. -/
theorem reaches_update {g : σ → β × σ} (hg : ∀ s, J (g s).2) (hS : ∀ b, S (.ret b)) :
    Reaches J S (update g) := by
  refine ⟨?_, fun e => trivial⟩
  intro s b t h
  have ht : (g s).2 = t := congrArg Prod.snd (Except.ok.inj h)
  exact .inr ⟨ht ▸ hg s, hS b⟩

theorem reaches_step {m n : Prog σ ε β} {s t : σ} (h : step m s = some (n, t))
    (hm : Reaches J S m) : Reaches J S n ∨ J t ∧ S n := by
  cases m with
  | ret a => cases h
  | raise e => cases h
  | call g k =>
    simp only [step] at h
    cases hg : g s with
    | ok p =>
      rw [hg] at h
      cases h
      exact hm.1 s p.1 p.2 hg
    | error e =>
      rw [hg] at h
      cases h
      exact .inl (hm.2 e)

theorem not_succeeded_of_reaches {m : Prog σ ε β} (hm : Reaches J S m) : succeeded m = false := by
  cases m with
  | ret b => exact hm.elim
  | raise e => rfl
  | call g k => rfl

end Reaches

end Prog

end Remote
