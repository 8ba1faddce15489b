import Mathlib.Data.List.Basic

/-!
# Runs of a machine

A machine takes one action after another. A condition can be asked of every state that a
run goes through; what a step then keeps, the run keeps.
-/

namespace Runs

variable {σ α : Type}

def run (step : σ → α → σ) (s : σ) (acts : List α) : σ := acts.foldl step s

/-- `P` holds in every state of the run, the first and the last among them. -/
def Along (step : σ → α → σ) (P : σ → Prop) : σ → List α → Prop
  | s, [] => P s
  | s, act :: acts => P s ∧ Along step P (step s act) acts

section

variable {step : σ → α → σ} {P I : σ → Prop} {s : σ} {acts : List α}

@[simp] theorem run_nil (s : σ) : run step s [] = s := rfl

@[simp] theorem run_cons (s : σ) (act : α) (acts : List α) :
    run step s (act :: acts) = run step (step s act) acts := rfl

@[simp] theorem run_append (s : σ) (acts acts' : List α) :
    run step s (acts ++ acts') = run step (run step s acts) acts' := List.foldl_append

theorem Along.head (h : Along step P s acts) : P s := by
  cases acts with
  | nil => exact h
  | cons act acts => exact h.1

theorem Along.last (h : Along step P s acts) : P (run step s acts) := by
  induction acts generalizing s with
  | nil => exact h
  | cons act acts ih => exact ih h.2

theorem Along.mono {Q : σ → Prop} (hPQ : ∀ s, P s → Q s) (h : Along step P s acts) :
    Along step Q s acts := by
  induction acts generalizing s with
  | nil => exact hPQ s h
  | cons act acts ih => exact ⟨hPQ s h.1, ih h.2⟩

/-- An invariant of the steps between states with `P`. -/
theorem Along.invariant (h : Along step P s acts) (hI : I s)
    (hstep : ∀ s act, P s → P (step s act) → I s → I (step s act)) : I (run step s acts) := by
  induction acts generalizing s with
  | nil => exact hI
  | cons act acts ih => exact ih h.2 (hstep s act h.1 h.2.head hI)

/-- Such an invariant holds in every state as well. -/
theorem Along.strengthen (h : Along step P s acts) (hI : I s)
    (hstep : ∀ s act, P s → P (step s act) → I s → I (step s act)) :
    Along step (fun s => P s ∧ I s) s acts := by
  induction acts generalizing s with
  | nil => exact ⟨h, hI⟩
  | cons act acts ih => exact ⟨⟨h.1, hI⟩, ih h.2 (hstep s act h.1 h.2.head hI)⟩

/-- An invariant of every step. -/
theorem invariant (hI : I s) (hstep : ∀ s act, I s → I (step s act)) : I (run step s acts) := by
  induction acts generalizing s with
  | nil => exact hI
  | cons act acts ih => exact ih (hstep s act hI)

/-- What a run has gained it gained at one of its steps. -/
theorem exists_gain (hs : ¬ P s) (h : P (run step s acts)) :
    ∃ before act after, acts = before ++ act :: after ∧ ¬ P (run step s before) ∧
      P (step (run step s before) act) := by
  induction acts generalizing s with
  | nil => exact absurd h hs
  | cons act acts ih =>
    by_cases hnext : P (step s act)
    · exact ⟨[], act, acts, rfl, hs, hnext⟩
    · obtain ⟨before, act', after, rfl, hbefore, hgain⟩ := ih hnext h
      exact ⟨act :: before, act', after, rfl, hbefore, hgain⟩

/-- What a run has lost it lost at one of its steps. -/
theorem exists_loss (hs : P s) (h : ¬ P (run step s acts)) :
    ∃ before act after, acts = before ++ act :: after ∧ P (run step s before) ∧
      ¬ P (step (run step s before) act) := by
  obtain ⟨before, act, after, hacts, hbefore, hloss⟩ :=
    exists_gain (P := fun s => ¬ P s) (not_not.mpr hs) h
  exact ⟨before, act, after, hacts, not_not.mp hbefore, hloss⟩

end

/-- Actions whose keys are all different are told apart by them. -/
theorem eq_of_nodup_keys {κ : Type} {key : α → Option κ} {acts : List α} {k : κ} {a b : α}
    {before before' after after' : List α} (hnodup : (acts.filterMap key).Nodup)
    (h : acts = before ++ a :: after) (h' : acts = before' ++ b :: after') (ha : key a = some k)
    (hb : key b = some k) : before = before' ∧ a = b := by
  induction acts generalizing before before' with
  | nil => simp at h
  | cons c acts ih =>
    rw [List.filterMap_cons] at hnodup
    cases before with
    | nil =>
      cases before' with
      | nil =>
        rw [List.nil_append, List.cons.injEq] at h h'
        exact ⟨rfl, h.1.symm.trans h'.1⟩
      | cons c' before' =>
        obtain ⟨rfl, rfl⟩ := List.cons.inj h
        rw [List.cons_append, List.cons.injEq] at h'
        rw [ha, h'.2, List.filterMap_append, List.filterMap_cons, hb] at hnodup
        simp at hnodup
    | cons d before =>
      rw [List.cons_append, List.cons.injEq] at h
      cases before' with
      | nil =>
        obtain ⟨rfl, rfl⟩ := List.cons.inj h'
        rw [hb, h.2, List.filterMap_append, List.filterMap_cons, ha] at hnodup
        simp at hnodup
      | cons d' before' =>
        rw [List.cons_append, List.cons.injEq] at h'
        obtain ⟨hbefore, hab⟩ := ih (by
          split at hnodup
          · exact hnodup
          · exact hnodup.of_cons) h.2 h'.2
        exact ⟨by rw [← h.1, ← h'.1, hbefore], hab⟩

end Runs
