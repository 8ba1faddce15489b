import Sandcat.Untracking

/-!
# Weeks of ISO 8601

Weeks are numbered through, from the week of 1 January 1970. The year of a week is the one its
Thursday is in, and its number counts the Thursdays of that year. Years of four digits and weeks of
two are in the order of their texts.
-/

namespace Sandcat.IsoWeek

open Chrono

/-- The week that a day is in; day 0 is a Thursday. -/
def weekOf (day : Int) : Int := (day + 3) / 7

def monday (week : Int) : Int := 7 * week - 3

def thursday (week : Int) : Int := 7 * week

/-- The first of January of a year: its March is the tenth month before. -/
def newYear (year : Int) : Int := daysBefore (year - 1) + 306 - 719468

/-- `IYYY`. -/
def isoYear (week : Int) : Int := (yearMonth (thursday week)).1

/-- `IW`. -/
def isoWeek (week : Int) : Int := (thursday week - newYear (isoYear week)) / 7 + 1

/-- `to_char(..., 'IYYY_IW')`, for a year after the first. -/
def toChar (week : Int) : String :=
  padded 4 (isoYear week).toNat ++ "_" ++ padded 2 (isoWeek week).toNat

-- 31 December 2024 is in the first week of 2025, and 1 January 2021 in the last of 2020
example : toChar (weekOf 20088) = "2025_01" ∧ toChar (weekOf 18628) = "2020_53" := by decide

section Years

/-- A day is in its calendar year. -/
theorem newYear_bounds (day : Int) :
    newYear (yearMonth day).1 ≤ day ∧ day < newYear ((yearMonth day).1 + 1) := by
  obtain ⟨hlow, hnext, hhigh⟩ := dayOfYear_bounds day
  have hday : dayOfYear day = day + 719468 - daysBefore (marchYear day) := rfl
  have hlast : daysBefore (marchYear day - 1) + 365 ≤ daysBefore (marchYear day) := by
    have hadd := daysBefore_add_years (show marchYear day - 1 ≤ marchYear day by omega)
    omega
  rw [yearMonth_eq]
  -- January and February belong to the March year before
  by_cases hmarch : (5 * dayOfYear day + 2) / 153 < 10
  · have hyear : (fromMarch (marchYear day) ((5 * dayOfYear day + 2) / 153)).1 = marchYear day := by
      simp only [fromMarch, hmarch, if_true]
      omega
    rw [hyear, newYear, newYear, Int.add_sub_cancel]
    omega
  · have hyear : (fromMarch (marchYear day) ((5 * dayOfYear day + 2) / 153)).1 =
        marchYear day + 1 := by
      simp only [fromMarch, hmarch, if_false]
      omega
    rw [hyear, newYear, newYear, Int.add_sub_cancel, Int.add_sub_cancel]
    omega

theorem newYear_add_years {y z : Int} (h : y ≤ z) : newYear y + 365 * (z - y) ≤ newYear z := by
  have hadd := daysBefore_add_years (show y - 1 ≤ z - 1 by omega)
  simp only [newYear]
  omega

/-- The Thursday of a week is in its year. -/
theorem thursday_bounds (week : Int) :
    newYear (isoYear week) ≤ thursday week ∧ thursday week < newYear (isoYear week + 1) :=
  newYear_bounds (thursday week)

/-- Years do not go back. -/
theorem isoYear_mono {a b : Int} (h : a ≤ b) : isoYear a ≤ isoYear b := by
  by_contra hlt
  have ha := (thursday_bounds a).1
  have hb := (thursday_bounds b).2
  have hadd := newYear_add_years (show isoYear b + 1 ≤ isoYear a by omega)
  simp only [thursday] at ha hb
  omega

theorem newYear_succ (y : Int) : newYear (y + 1) ≤ newYear y + 366 := by
  simp only [newYear, daysBefore]
  omega

theorem isoWeek_bounds (week : Int) : 1 ≤ isoWeek week ∧ isoWeek week ≤ 53 := by
  obtain ⟨hlow, hhigh⟩ := thursday_bounds week
  have hsucc := newYear_succ (isoYear week)
  rw [isoWeek]
  omega

/-- In one year the weeks are numbered one by one. -/
theorem isoWeek_sub {a b : Int} (h : isoYear a = isoYear b) : isoWeek b - isoWeek a = b - a := by
  rw [isoWeek, isoWeek, h, thursday, thursday]
  omega

/-- Weeks are in the order of their years and numbers. -/
theorem lt_iff (a b : Int) :
    a < b ↔ isoYear a < isoYear b ∨ isoYear a = isoYear b ∧ isoWeek a < isoWeek b := by
  constructor
  · intro h
    obtain hlt | heq := Int.lt_or_eq_of_le (isoYear_mono (Int.le_of_lt h))
    · exact .inl hlt
    · have hsub := isoWeek_sub heq
      exact .inr ⟨heq, by omega⟩
  · rintro (hlt | ⟨heq, hlt⟩)
    · by_contra hle
      have hmono := isoYear_mono (Int.not_lt.mp hle)
      omega
    · have hsub := isoWeek_sub heq
      omega

end Years

section Texts

/-- A year of four digits. -/
def FourDigits (week : Int) : Prop := 1000 ≤ isoYear week ∧ isoYear week ≤ 9999

instance (week : Int) : Decidable (FourDigits week) := inferInstanceAs (Decidable (_ ∧ _))

variable {a b : Int}

theorem FourDigits.of_le_of_le {c : Int} (ha : FourDigits a) (hc : FourDigits c) (hab : a ≤ b)
    (hbc : b ≤ c) : FourDigits b :=
  ⟨ha.1.trans (isoYear_mono hab), (isoYear_mono hbc).trans hc.2⟩

theorem toList_toChar (week : Int) : (toChar week).toList =
    (padded 4 (isoYear week).toNat).toList ++ '_' :: (padded 2 (isoWeek week).toNat).toList := by
  have hsep : "_".toList = ['_'] := by simp
  rw [toChar, String.toList_append, String.toList_append, hsep, List.append_assoc,
    List.singleton_append]

/-- Texts of weeks are in the order of the weeks. -/
theorem toChar_lt_iff (ha : FourDigits a) (hb : FourDigits b) :
    (toChar a).toList < (toChar b).toList ↔ a < b := by
  have hwa := isoWeek_bounds a
  have hwb := isoWeek_bounds b
  obtain ⟨hya, hya'⟩ := ha
  obtain ⟨hyb, hyb'⟩ := hb
  have hlt : ∀ {n : Int}, n ≤ 9999 → n.toNat < 10 ^ 4 := by
    intro n hn
    omega
  have hlt' : ∀ {n : Int}, n ≤ 53 → n.toNat < 10 ^ 2 := by
    intro n hn
    omega
  have hlength := (padded_length (by decide : 0 < 4) (hlt hya')).trans
    (padded_length (by decide : 0 < 4) (hlt hyb')).symm
  rw [toList_toChar, toList_toChar, Decimal.append_lt_append_iff hlength, List.cons_lt_cons_iff,
    padded_lt_iff (by decide) (hlt hya') (hlt hyb'), padded_lt_iff (by decide) (hlt' hwa.2) (hlt' hwb.2),
    lt_iff a b]
  have heq : (padded 4 (isoYear a).toNat).toList = (padded 4 (isoYear b).toNat).toList ↔
      isoYear a = isoYear b := by
    constructor
    · intro h
      have hnat := padded_inj (String.toList_inj.mp h)
      omega
    · intro h
      rw [h]
  rw [heq]
  simp only [Char.lt_irrefl, false_or, true_and]
  omega

theorem toChar_inj (ha : FourDigits a) (hb : FourDigits b) (h : toChar a = toChar b) : a = b := by
  have hab := toChar_lt_iff ha hb
  have hba := toChar_lt_iff hb ha
  rw [h] at hab hba
  have hiff := hab.symm.trans hba
  omega

end Texts

end Sandcat.IsoWeek
