import Mathlib.Data.Nat.Basic

/-!
# Decimal texts of integers

What a text of decimal digits, with a sign in front of a negative number, stands for.
-/

namespace Decimal

/-- The number that some digits stand for. -/
def digits (cs : List Char) : Option Nat :=
  if cs ≠ [] ∧ cs.all Char.isDigit then some (Nat.ofDigitChars 10 cs 0) else none

/-- The integer that a text stands for. -/
def parse (s : String) : Option Int :=
  match s.toList with
  | '-' :: cs => (digits cs).map Int.negOfNat
  | cs => (digits cs).map Int.ofNat

theorem isDigit_of_mem {n : Nat} {c : Char} (h : c ∈ Nat.toDigits 10 n) : c.isDigit = true :=
  Nat.isDigit_of_mem_toDigits (by decide) (by decide) h

theorem digits_toDigits (n : Nat) : digits (Nat.toDigits 10 n) = some n := by
  have hall : (Nat.toDigits 10 n).all Char.isDigit = true :=
    List.all_eq_true.mpr fun _ hc => isDigit_of_mem hc
  rw [digits, if_pos ⟨Nat.toDigits_ne_nil, hall⟩, Nat.ofDigitChars_ten_toDigits]

/-- An integer is read back from its text. -/
@[simp] theorem parse_repr (n : Int) : parse n.repr = some n := by
  have htext : ∀ k : Nat, (toString k).toList = Nat.toDigits 10 k := by
    intro k
    rw [Nat.toString_eq_repr, Nat.toList_repr]
  cases n with
  | ofNat k =>
    have hk : (Int.ofNat k).repr.toList = Nat.toDigits 10 k := htext k
    have hsign : '-' ∉ Nat.toDigits 10 k := fun hmem => by cases isDigit_of_mem hmem
    have hdigits := digits_toDigits k
    unfold parse
    rw [hk]
    split
    · rename_i cs hcs
      rw [hcs] at hsign
      exact absurd List.mem_cons_self hsign
    · rw [hdigits]
      rfl
  | negSucc k =>
    have hk : (Int.negSucc k).repr.toList = '-' :: Nat.toDigits 10 (k + 1) := by
      rw [← htext (k + 1)]
      exact String.toList_append
    unfold parse
    rw [hk]
    change (digits (Nat.toDigits 10 (k + 1))).map Int.negOfNat = _
    rw [digits_toDigits]
    rfl

section Order

/-- Texts with beginnings of one length. -/
theorem append_lt_append_iff {α : Type} [LT α] {a b x y : List α} (h : a.length = b.length) :
    a ++ x < b ++ y ↔ a < b ∨ a = b ∧ x < y := by
  induction a generalizing b with
  | nil =>
    cases b with
    | nil => simp
    | cons d b => cases h
  | cons c a ih =>
    cases b with
    | nil => cases h
    | cons d b =>
      rw [List.cons_append, List.cons_append, List.cons_lt_cons_iff, List.cons_lt_cons_iff,
        ih (Nat.succ.inj h), List.cons.injEq, and_or_left, or_assoc, and_assoc]

theorem toNat_bounds {c : Char} (h : c.isDigit = true) : 48 ≤ c.toNat ∧ c.toNat ≤ 57 := by
  rw [Char.isDigit, Bool.and_eq_true, decide_eq_true_eq, decide_eq_true_eq] at h
  exact h

/-- Digits of one length are in the order of the numbers that they stand for. -/
theorem ofDigitChars_lt_iff {cs ds : List Char} (hlength : cs.length = ds.length)
    (hcs : ∀ c ∈ cs, c.isDigit = true) (hds : ∀ d ∈ ds, d.isDigit = true) (a b : Nat) :
    Nat.ofDigitChars 10 cs a < Nat.ofDigitChars 10 ds b ↔ a < b ∨ a = b ∧ cs < ds := by
  induction cs generalizing ds a b with
  | nil =>
    cases ds with
    | nil => simp
    | cons d ds => cases hlength
  | cons c cs ih =>
    cases ds with
    | nil => cases hlength
    | cons d ds =>
      rw [List.forall_mem_cons] at hcs hds
      have hc := toNat_bounds hcs.1
      have hd := toNat_bounds hds.1
      have hlt : c < d ↔ c.toNat < d.toNat := Iff.rfl
      have heq : c = d ↔ c.toNat = d.toNat := Char.toNat_inj.symm
      have hzero : '0'.toNat = 48 := rfl
      rw [Nat.ofDigitChars_cons, Nat.ofDigitChars_cons, ih (Nat.succ.inj hlength) hcs.2 hds.2,
        List.cons_lt_cons_iff, hlt, heq, hzero]
      by_cases hrest : cs < ds
      · simp only [hrest, and_true]
        omega
      · simp only [hrest, and_false, or_false]
        omega

end Order

end Decimal
