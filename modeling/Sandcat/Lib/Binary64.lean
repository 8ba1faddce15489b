import Mathlib.Algebra.Ring.Int.Defs
import Mathlib.Algebra.Ring.Nat
import Mathlib.Data.Nat.Log

/-!
# Integers as doubles

A double has a significand of 53 bits. An integer beyond them is rounded to the nearest double, and to the
one with the even significand where two are equally near.
-/

namespace Binary64

/-- The distance of the doubles about a number. -/
def spacing (n : Nat) : Nat := 2 ^ (n.log2 - 52)

def nearestNat (n : Nat) : Nat :=
  let low := n / spacing n
  let rest := n % spacing n
  if 2 * rest < spacing n ∨ 2 * rest = spacing n ∧ low % 2 = 0 then low * spacing n
  else (low + 1) * spacing n

/-- The double that stands for an integer. -/
def nearest (n : Int) : Int := n.sign * nearestNat n.natAbs

/-- The integers that doubles count one by one. -/
def Exact (n : Int) : Prop := n.natAbs ≤ 2 ^ 53

instance (n : Int) : Decidable (Exact n) := inferInstanceAs (Decidable (_ ≤ _))

theorem exact_iff {n : Int} : Exact n ↔ -2 ^ 53 ≤ n ∧ n ≤ 2 ^ 53 := by
  unfold Exact
  omega

theorem nearestNat_of_dvd {n : Nat} (h : spacing n ∣ n) : nearestNat n = n := by
  have hrest : n % spacing n = 0 := Nat.mod_eq_zero_of_dvd h
  have hpos : 0 < spacing n := Nat.two_pow_pos _
  rw [nearestNat]
  rw [hrest, if_pos (.inl hpos), Nat.div_mul_cancel h]

theorem nearestNat_of_le {n : Nat} (h : n ≤ 2 ^ 53) : nearestNat n = n := by
  apply nearestNat_of_dvd
  obtain hlt | rfl := Nat.lt_or_eq_of_le h
  · have hlog : n.log2 - 52 = 0 := by
      by_cases hzero : n = 0
      · subst hzero
        decide
      · have := (Nat.log2_lt hzero).mpr hlt
        omega
    rw [spacing, hlog]
    exact Nat.one_dvd n
  · decide

@[simp] theorem nearest_of_exact {n : Int} (h : Exact n) : nearest n = n := by
  rw [nearest, nearestNat_of_le h, Int.sign_mul_natAbs]

/-- Of two doubles that are equally near the one with the even significand is taken. -/
example : nearest (2 ^ 53 + 1) = 2 ^ 53 ∧ nearest (2 ^ 53 + 3) = 2 ^ 53 + 4 := by decide

end Binary64
