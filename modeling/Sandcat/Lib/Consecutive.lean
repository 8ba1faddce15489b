import Mathlib.Data.List.Basic
import Mathlib.Data.List.Range
import Mathlib.Order.Lattice

/-!
# Consecutive integers

`above c n` lists the `n` integers after `c` in order.
-/

namespace Consecutive

def above (c : Int) (n : Nat) : List Int := (List.range n).map fun i : Nat => c + 1 + (i : Int)

@[simp] theorem above_zero (c : Int) : above c 0 = [] := rfl
@[simp] theorem above_one (c : Int) : above c 1 = [c + 1] := by simp [above]
@[simp] theorem mem_above {c x : Int} {n : Nat} : x ∈ above c n ↔ c < x ∧ x ≤ c + n := by
  simp only [above, List.mem_map, List.mem_range]
  constructor
  · rintro ⟨i, hi, rfl⟩
    omega
  · rintro ⟨hc, hn⟩
    exact ⟨(x - c - 1).toNat, by omega, by omega⟩

theorem above_succ (c : Int) (n : Nat) : above c (n + 1) = (c + 1) :: above (c + 1) n := by
  rw [above, List.range_succ_eq_map, List.map_cons, List.map_map, above, List.cons.injEq]
  refine ⟨by simp, ?_⟩
  apply List.map_congr_left
  intro i _
  simp only [Function.comp]
  omega

theorem above_add (c : Int) (m n : Nat) : above c (m + n) = above c m ++ above (c + m) n := by
  induction m generalizing c with
  | zero => simp
  | succ m ih =>
    have hc : c + 1 + (m : Int) = c + ((m + 1 : Nat) : Int) := by omega
    rw [show m + 1 + n = m + n + 1 from by omega, above_succ, above_succ, ih, List.cons_append, hc]

theorem pairwise_above (c : Int) (n : Nat) : (above c n).Pairwise (· < ·) := by
  rw [above, List.pairwise_map]
  apply List.pairwise_lt_range.imp
  intro a b hab
  omega

end Consecutive
