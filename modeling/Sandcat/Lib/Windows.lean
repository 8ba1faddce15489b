import Mathlib.Data.List.Count

/-!
# Fixed windows

Admissions are counted in windows. A window opens with an admission and lasts for some time, and the
next one opens after it has run out. So many admissions are let in while a window is open.
-/

namespace Windows

/-- An admission at a time, in a window that opened at another. -/
structure Admission where
  start : Nat
  time : Nat

variable {period limit : Nat} {l : List Admission} {s t : Nat}

/-- Admissions in windows. -/
structure Counted (period limit : Nat) (l : List Admission) : Prop where
  within : ∀ a ∈ l, a.start ≤ a.time ∧ a.time < a.start + period
  apart : ∀ a ∈ l, ∀ b ∈ l, a.start < b.start → a.start + period ≤ b.start
  limited : ∀ s, l.countP (fun a => a.start = s) ≤ limit

theorem counted_nil (period limit : Nat) : Counted period limit [] := by
  refine ⟨?_, ?_, fun _ => Nat.zero_le _⟩
  · intro a ha
    cases ha
  · intro a ha
    cases ha

/-- One more, in a window that has room and is apart from the others. -/
theorem Counted.snoc (h : Counted period limit l) (hwithin : s ≤ t ∧ t < s + period)
    (hbefore : ∀ a ∈ l, a.start < s → a.start + period ≤ s)
    (hafter : ∀ a ∈ l, s < a.start → s + period ≤ a.start)
    (hroom : l.countP (fun a => a.start = s) < limit) : Counted period limit (l ++ [⟨s, t⟩]) where
  within := by
    intro b hb
    obtain hb | hb := List.mem_append.mp hb
    · exact h.within b hb
    · rw [List.mem_singleton.mp hb]
      exact hwithin
  apart := by
    intro b hb c hc hlt
    rw [List.mem_append, List.mem_singleton] at hb hc
    obtain hb | rfl := hb
    · obtain hc | rfl := hc
      · exact h.apart b hb c hc hlt
      · exact hbefore b hb hlt
    · obtain hc | rfl := hc
      · exact hafter c hc hlt
      · exact absurd hlt (Nat.lt_irrefl _)
  limited := by
    intro r
    have hold := h.limited r
    by_cases hs : s = r
    · subst hs
      simp only [List.countP_append, List.countP_singleton, decide_true, if_true]
      omega
    · simpa [hs] using hold

/-- One more in the window that is open. -/
theorem Counted.join (h : Counted period limit l) (hopen : ∃ a ∈ l, a.start = s)
    (hwithin : s ≤ t ∧ t < s + period) (hroom : l.countP (fun a => a.start = s) < limit) :
    Counted period limit (l ++ [⟨s, t⟩]) := by
  obtain ⟨a, ha, rfl⟩ := hopen
  exact h.snoc hwithin (fun b hb => h.apart b hb a ha) (fun b hb => h.apart a ha b hb) hroom

/-- When all windows have run out, none opened at the same time. -/
theorem countP_start_eq_zero (hperiod : 0 < period) (hlate : ∀ a ∈ l, a.start + period ≤ t) :
    l.countP (fun a => a.start = t) = 0 := by
  rw [List.countP_eq_zero]
  intro a ha he
  have hle := hlate a ha
  rw [decide_eq_true_eq] at he
  omega

/-- The first one in a new window. -/
theorem Counted.opens (h : Counted period limit l) (hperiod : 0 < period) (hlimit : 0 < limit)
    (hlate : ∀ a ∈ l, a.start + period ≤ t) : Counted period limit (l ++ [⟨t, t⟩]) := by
  have hnone := countP_start_eq_zero hperiod hlate
  have hafter : ∀ a ∈ l, t < a.start → t + period ≤ a.start := by
    intro a ha hlt
    have hle := hlate a ha
    omega
  exact h.snoc ⟨Nat.le_refl t, Nat.lt_add_of_pos_right hperiod⟩ (fun a ha _ => hlate a ha) hafter
    (by omega)

/-- The windows open at one time are one window. -/
theorem Counted.running (h : Counted period limit l) (t : Nat) :
    l.countP (fun a => a.start ≤ t ∧ t < a.start + period) ≤ limit := by
  by_cases hany : ∃ a ∈ l, a.start ≤ t ∧ t < a.start + period
  · obtain ⟨a, ha, hopen⟩ := hany
    have hsame : ∀ b ∈ l, b.start ≤ t ∧ t < b.start + period → b.start = a.start := by
      intro b hb hopenb
      have hab := h.apart a ha b hb
      have hba := h.apart b hb a ha
      omega
    calc l.countP (fun a => a.start ≤ t ∧ t < a.start + period)
        ≤ l.countP (fun b => b.start = a.start) := List.countP_mono_left (by simpa using hsame)
      _ ≤ limit := h.limited a.start
  · rw [List.countP_eq_zero.mpr fun a ha hopen => hany ⟨a, ha, by simpa using hopen⟩]
    exact Nat.zero_le _

theorem countP_le_add {α : Type} {p q r : α → Bool} {l : List α}
    (h : ∀ a ∈ l, p a = true → q a = true ∨ r a = true) :
    l.countP p ≤ l.countP q + l.countP r := by
  induction l with
  | nil => simp
  | cons a l ih =>
    rw [List.forall_mem_cons] at h
    have hrest := ih h.2
    simp only [List.countP_cons]
    by_cases hp : p a = true
    · obtain hq | hr := h.1 hp
      · simp only [hp, hq, if_true]
        omega
      · simp only [hp, hr, if_true]
        omega
    · rw [if_neg hp]
      omega

/-- An interval as long as a window meets two windows at most: those open at its ends. -/
theorem Counted.interval (h : Counted period limit l) (t : Nat) :
    l.countP (fun a => t ≤ a.time ∧ a.time ≤ t + period) ≤ 2 * limit := by
  have hsplit : l.countP (fun a => t ≤ a.time ∧ a.time ≤ t + period) ≤
      l.countP (fun a => a.start ≤ t ∧ t < a.start + period) +
        l.countP (fun a => a.start ≤ t + period ∧ t + period < a.start + period) := by
    apply countP_le_add
    intro a ha
    have hwithin := h.within a ha
    simp only [decide_eq_true_eq]
    omega
  have hfirst := h.running t
  have hlast := h.running (t + period)
  omega

end Windows
