import Sandcat.Lib.Remote

/-!
# Programs that do not see a part of the state

A map `φ` adds something to a state. A program is blind to it if its calls answer the
same with and without the addition, and leave the addition as it is. Executions with
and without the addition then run side by side.
-/

namespace Remote

namespace Prog

variable {σ ε α β : Type} {φ : σ → σ}

/-- Blindness, with what the program answers. -/
def Blind (φ : σ → σ) : Prog σ ε α → (α → Prop) → Prop
  | .ret a, Q => Q a
  | .raise _, _ => True
  | .call g k, Q =>
    (∀ s, g (φ s) = (g s).map fun r => (r.1, φ r.2)) ∧
      (∀ s b t, g s = .ok (b, t) → Blind φ (k (.ok b)) Q) ∧ ∀ e, Blind φ (k (.error e)) Q

theorem blind_bind {m : Prog σ ε α} {f : α → Prog σ ε β} {P : α → Prop} {Q : β → Prop}
    (hm : Blind φ m P) (hf : ∀ a, P a → Blind φ (f a) Q) : Blind φ (m >>= f) Q := by
  induction m with
  | ret a => exact hf a hm
  | raise e => trivial
  | call g k ih => exact ⟨hm.1, fun s b t hg => ih _ (hm.2.1 s b t hg), fun e => ih _ (hm.2.2 e)⟩

theorem blind_attempt {m : Prog σ ε α} {P : α → Prop} (hm : Blind φ m P) :
    Blind φ (attempt m) fun r => ∀ a, r = .ok a → P a := by
  induction m with
  | ret a =>
    intro b hb
    cases hb
    exact hm
  | raise e =>
    intro b hb
    cases hb
  | call g k ih => exact ⟨hm.1, fun s b t hg => ih _ (hm.2.1 s b t hg), fun e => ih _ (hm.2.2 e)⟩

theorem blind_request {g : σ → Except ε (β × σ)}
    (hg : ∀ s, g (φ s) = (g s).map fun r => (r.1, φ r.2)) : Blind φ (request g) fun _ => True :=
  ⟨hg, fun _ _ _ _ => trivial, fun _ => trivial⟩

theorem blind_each {f : α → Prog σ ε Unit} {as : List α}
    (h : ∀ a ∈ as, Blind φ (f a) fun _ => True) : Blind φ (each f as) fun _ => True := by
  induction as with
  | nil => trivial
  | cons a as ih =>
    apply blind_bind (h a List.mem_cons_self)
    intro _ _
    exact ih fun b hb => h b (List.mem_cons_of_mem _ hb)

theorem blind_exec {m : Prog σ ε α} {Q : α → Prop} (hm : Blind φ m Q) (s : σ) :
    exec m (φ s) = ((exec m s).1, φ (exec m s).2) := by
  induction m generalizing s with
  | ret a => rfl
  | raise e => rfl
  | call g k ih =>
    simp only [exec, hm.1 s]
    cases hg : g s with
    | ok r => exact ih _ (hm.2.1 s r.1 r.2 hg) r.2
    | error e => exact ih _ (hm.2.2 e) s

end Prog

end Remote
