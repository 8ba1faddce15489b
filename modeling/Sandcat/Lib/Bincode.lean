import Mathlib.Data.List.Basic
import Mathlib.Algebra.Ring.Nat

/-!
# The bincode wire format

The standard configuration of bincode: unsigned integers of variable width with
the tag bytes 251, 252 and 253 for two, four and eight little-endian bytes,
signed integers in zigzag form, strings and vectors after their length. A decoder
consumes a prefix of the input and leaves the rest.
-/

namespace Bincode

abbrev Bytes := List UInt8

abbrev Decoder (α : Type) := Bytes → Option (α × Bytes)

/-- The value of little-endian bytes. -/
def leValue : Bytes → Nat
  | [] => 0
  | b :: bs => b.toNat + 256 * leValue bs

/-- The low `width` bytes of a number, little end first. -/
def leBytes : Nat → Nat → Bytes
  | 0, _ => []
  | width + 1, n => UInt8.ofNat (n % 256) :: leBytes width (n / 256)

def fixed (width : Nat) : Decoder Nat := fun bs =>
  if width ≤ bs.length then some (leValue (bs.take width), bs.drop width) else none

def unsigned : Decoder Nat
  | [] => none
  | b :: bs =>
    if b.toNat < 251 then some (b.toNat, bs)
    else if b.toNat = 251 then fixed 2 bs
    else if b.toNat = 252 then fixed 4 bs
    else if b.toNat = 253 then fixed 8 bs
    else none

def encodeUnsigned (n : Nat) : Bytes :=
  if n < 251 then [UInt8.ofNat n]
  else if n < 2 ^ 16 then 251 :: leBytes 2 n
  else if n < 2 ^ 32 then 252 :: leBytes 4 n
  else 253 :: leBytes 8 n

def signed : Decoder Int := fun bs =>
  (unsigned bs).map fun r =>
    (if r.1 % 2 = 0 then (r.1 / 2 : Int) else -((r.1 / 2 : Int) + 1), r.2)

def string : Decoder String := fun bs =>
  (unsigned bs).bind fun r =>
    if r.1 ≤ r.2.length then
      (String.fromUTF8? ⟨(r.2.take r.1).toArray⟩).map fun s => (s, r.2.drop r.1)
    else none

def encodeString (s : String) : Bytes :=
  encodeUnsigned s.toByteArray.size ++ s.toByteArray.data.toList

def repeated (d : Decoder α) : Nat → Decoder (List α)
  | 0, bs => some ([], bs)
  | n + 1, bs =>
    (d bs).bind fun r => (repeated d n r.2).map fun q => (r.1 :: q.1, q.2)

def vec (d : Decoder α) : Decoder (List α) := fun bs =>
  (unsigned bs).bind fun r => repeated d r.1 r.2

def encodeVec (e : α → Bytes) (as : List α) : Bytes :=
  encodeUnsigned as.length ++ as.flatMap e

@[simp] theorem length_leBytes (width n : Nat) : (leBytes width n).length = width := by
  induction width generalizing n with
  | zero => rfl
  | succ width ih => simp [leBytes, ih]

theorem leValue_leBytes (width n : Nat) : leValue (leBytes width n) = n % 256 ^ width := by
  induction width generalizing n with
  | zero => simp [leBytes, leValue, Nat.mod_one]
  | succ width ih =>
    have hb : (UInt8.ofNat (n % 256)).toNat = n % 256 := by
      simp
    rw [leBytes, leValue, ih, hb, Nat.pow_succ', Nat.mod_mul]

theorem fixed_leBytes (width n : Nat) (h : n < 256 ^ width) (rest : Bytes) :
    fixed width (leBytes width n ++ rest) = some (n, rest) := by
  have hlen := length_leBytes width n
  simp [fixed, List.take_left' hlen, List.drop_left' hlen, leValue_leBytes, Nat.mod_eq_of_lt h]

theorem unsigned_encode {n : Nat} (h : n < 2 ^ 64) (rest : Bytes) :
    unsigned (encodeUnsigned n ++ rest) = some (n, rest) := by
  unfold encodeUnsigned
  split
  · rename_i hn
    have hb : (UInt8.ofNat n).toNat = n := by
      simp only [UInt8.toNat_ofNat']
      omega
    simp [unsigned, hb, hn]
  · split
    · rename_i hn
      simpa [unsigned] using fixed_leBytes 2 n hn rest
    · split
      · rename_i hn
        simpa [unsigned] using fixed_leBytes 4 n hn rest
      · simpa [unsigned] using fixed_leBytes 8 n h rest

/-- A text is read back from its bytes. -/
@[simp] theorem fromUTF8_toByteArray (s : String) :
    String.fromUTF8? ⟨s.toByteArray.data⟩ = some s := by
  unfold String.fromUTF8?
  rw [dif_pos s.isValidUTF8]
  rfl

theorem string_encode {s : String} (h : s.toByteArray.size < 2 ^ 64) (rest : Bytes) :
    string (encodeString s ++ rest) = some (s, rest) := by
  have hlen : s.toByteArray.data.toList.length = s.toByteArray.size := rfl
  simp only [string, encodeString, List.append_assoc, unsigned_encode h, Option.bind_some]
  rw [if_pos (by simp [hlen]), List.take_left' hlen, List.drop_left' hlen]
  simp

theorem repeated_encode {d : Decoder α} {e : α → Bytes} (as : List α)
    (hd : ∀ a ∈ as, ∀ rest, d (e a ++ rest) = some (a, rest)) (rest : Bytes) :
    repeated d as.length (as.flatMap e ++ rest) = some (as, rest) := by
  induction as with
  | nil => rfl
  | cons a as ih =>
    have ha := hd a (by simp) (as.flatMap e ++ rest)
    have has := ih fun b hb => hd b (by simp [hb])
    simp only [List.length_cons, List.flatMap_cons, List.append_assoc, repeated, ha,
      Option.bind_some, has, Option.map_some]

/-- Vectors read back what was written, whatever follows. -/
theorem vec_encode {d : Decoder α} {e : α → Bytes} (as : List α) (h : as.length < 2 ^ 64)
    (hd : ∀ a ∈ as, ∀ rest, d (e a ++ rest) = some (a, rest)) (rest : Bytes) :
    vec d (encodeVec e as ++ rest) = some (as, rest) := by
  simp only [vec, encodeVec, List.append_assoc, unsigned_encode h, Option.bind_some]
  exact repeated_encode as hd rest

end Bincode
