import Sandcat.Mongo
import Mathlib.Data.Fintype.Basic

/-!
# Months and the names of collections

Months are numbered through. The number of a month grows with the day, a month has
at most 31 days, and going back a number of months subtracts from the number, from
whatever day of a month. Different months and shards have different collections.
-/

namespace Sandcat

namespace Chrono

/-- The number of a month, counted from January of the year 0. -/
def monthIndex (ym : Int × Int) : Int := ym.1 * 12 + (ym.2 - 1)

/-- A year and month of the calendar. -/
def IsMonth (ym : Int × Int) : Prop := 1 ≤ ym.2 ∧ ym.2 ≤ 12

instance (ym : Int × Int) : Decidable (IsMonth ym) := inferInstanceAs (Decidable (_ ∧ _))

theorem monthIndex_inj {a b : Int × Int} (ha : IsMonth a) (hb : IsMonth b)
    (h : monthIndex a = monthIndex b) : a = b := by
  obtain ⟨y, m⟩ := a
  obtain ⟨y', m'⟩ := b
  simp only [IsMonth, monthIndex] at ha hb h
  have hm : m = m' := by omega
  have hy : y = y' := by omega
  rw [hy, hm]

section Years

/-- The year of an era that a day of the era falls in. -/
def yearOfEra (doe : Int) : Int := (doe - doe / 1460 + doe / 36524 - doe / 146096) / 365

/-- The days before the first of March of a year. -/
def daysBefore (y : Int) : Int := 365 * y + y / 4 - y / 100 + y / 400

/-- The year of a day, counted from March. -/
def marchYear (day : Int) : Int :=
  yearOfEra ((day + 719468) % 146097) + (day + 719468) / 146097 * 400

/-- The number of a day in its year, counted from March. -/
def dayOfYear (day : Int) : Int := day + 719468 - daysBefore (marchYear day)

theorem yearOfEra_mono {a b : Int} (h : a ≤ b) : yearOfEra a ≤ yearOfEra b := by
  have hstep : ∀ d : Int, d - d / 1460 + d / 36524 - d / 146096 ≤
      d + 1 - (d + 1) / 1460 + (d + 1) / 36524 - (d + 1) / 146096 := by
    intro d
    omega
  obtain ⟨n, rfl⟩ := Int.le.dest h
  apply Int.ediv_le_ediv (by omega)
  induction n with
  | zero => simp
  | succ n ih =>
    have hn := hstep (a + n)
    rw [Int.add_assoc] at hn
    exact (ih (by omega)).trans (by exact_mod_cast hn)

/-- A year of an era has its first and its last day in it. -/
theorem yearOfEra_ends (y : Fin 400) :
    yearOfEra (daysBefore y.val) = y.val ∧ yearOfEra (daysBefore (y.val + 1) - 1) = y.val := by
  revert y
  decide +kernel

theorem yearOfEra_bounds {doe : Int} (h₀ : 0 ≤ doe) (h₁ : doe < 146097) :
    0 ≤ yearOfEra doe ∧ yearOfEra doe < 400 := by
  unfold yearOfEra
  omega

theorem daysBefore_yearOfEra {doe : Int} (h₀ : 0 ≤ doe) (h₁ : doe < 146097) :
    daysBefore (yearOfEra doe) ≤ doe ∧ doe < daysBefore (yearOfEra doe + 1) := by
  obtain ⟨hlow, hhigh⟩ := yearOfEra_bounds h₀ h₁
  obtain ⟨n, hn⟩ := Int.eq_ofNat_of_zero_le hlow
  constructor
  · by_contra hlt
    cases n with
    | zero =>
      rw [hn] at hlt
      exact hlt h₀
    | succ n =>
      have hlast := (yearOfEra_ends ⟨n, by omega⟩).2
      have hle : doe ≤ daysBefore ((n : Int) + 1) - 1 := by
        rw [hn] at hlt
        push_cast at hlt
        omega
      have hmono := yearOfEra_mono hle
      dsimp only at hlast
      omega
  · by_contra hge
    by_cases hend : n = 399
    · rw [hn, hend] at hge
      exact hge h₁
    · have hfirst := (yearOfEra_ends ⟨n + 1, by omega⟩).1
      have hle : daysBefore ((n : Int) + 1) ≤ doe := by
        rw [hn] at hge
        omega
      have hmono := yearOfEra_mono hle
      dsimp only at hfirst
      push_cast at hfirst
      omega

theorem daysBefore_add_eras (y era : Int) : daysBefore (y + era * 400) = daysBefore y + era * 146097 := by
  unfold daysBefore
  omega

theorem daysBefore_mono {a b : Int} (h : a ≤ b) : daysBefore a ≤ daysBefore b := by
  unfold daysBefore
  omega

/-- A day is in its year. -/
theorem dayOfYear_bounds (day : Int) :
    0 ≤ dayOfYear day ∧ day + 719468 < daysBefore (marchYear day + 1) ∧ dayOfYear day ≤ 365 := by
  have h₀ : 0 ≤ (day + 719468) % 146097 := by omega
  have h₁ : (day + 719468) % 146097 < 146097 := by omega
  obtain ⟨hlow, hhigh⟩ := daysBefore_yearOfEra h₀ h₁
  have hnext : daysBefore (marchYear day + 1) = daysBefore (yearOfEra ((day + 719468) % 146097) + 1) +
      (day + 719468) / 146097 * 146097 := by
    rw [marchYear, Int.add_right_comm, daysBefore_add_eras]
  have hsucc : daysBefore (marchYear day + 1) ≤ daysBefore (marchYear day) + 366 := by
    unfold daysBefore
    omega
  rw [dayOfYear]
  rw [marchYear, daysBefore_add_eras] at *
  omega

theorem marchYear_mono {a b : Int} (h : a ≤ b) : marchYear a ≤ marchYear b := by
  by_contra hlt
  have ha := (dayOfYear_bounds a).1
  have hb := (dayOfYear_bounds b).2.1
  have hle : daysBefore (marchYear b + 1) ≤ daysBefore (marchYear a) := daysBefore_mono (by omega)
  rw [dayOfYear] at ha
  omega

end Years

/-- The month of the calendar with a given place in a year that starts in March. -/
def fromMarch (y mp : Int) : Int × Int :=
  let month := if mp < 10 then mp + 3 else mp - 9
  (y + if month ≤ 2 then 1 else 0, month)

theorem yearMonth_eq (day : Int) :
    yearMonth day = fromMarch (marchYear day) ((5 * dayOfYear day + 2) / 153) := by
  have hb : 0 ≤ yearOfEra ((day + 719468) % 146097) ∧ yearOfEra ((day + 719468) % 146097) < 400 :=
    yearOfEra_bounds (by omega) (by omega)
  have hdoy : (day + 719468) % 146097 - (365 * yearOfEra ((day + 719468) % 146097) +
      yearOfEra ((day + 719468) % 146097) / 4 - yearOfEra ((day + 719468) % 146097) / 100) =
      dayOfYear day := by
    rw [dayOfYear, marchYear, daysBefore_add_eras, daysBefore]
    omega
  rw [← hdoy]
  rfl

theorem place_bounds (day : Int) :
    0 ≤ (5 * dayOfYear day + 2) / 153 ∧ (5 * dayOfYear day + 2) / 153 ≤ 11 := by
  obtain ⟨hlow, -, hhigh⟩ := dayOfYear_bounds day
  omega

theorem isMonth_yearMonth (day : Int) : IsMonth (yearMonth day) := by
  have hp := place_bounds day
  rw [yearMonth_eq, IsMonth, fromMarch]
  dsimp only
  split <;> omega

theorem monthIndex_yearMonth (day : Int) : monthIndex (yearMonth day) =
    12 * marchYear day + (5 * dayOfYear day + 2) / 153 + 2 := by
  have hp := place_bounds day
  rw [yearMonth_eq, monthIndex, fromMarch]
  dsimp only
  split <;> split <;> omega

theorem monthIndex_mono {a b : Int} (h : a ≤ b) :
    monthIndex (yearMonth a) ≤ monthIndex (yearMonth b) := by
  rw [monthIndex_yearMonth, monthIndex_yearMonth]
  have hyear := marchYear_mono h
  have ha := place_bounds a
  have hb := place_bounds b
  by_cases he : marchYear a = marchYear b
  · have hday : dayOfYear a ≤ dayOfYear b := by
      rw [dayOfYear, dayOfYear, he]
      omega
    omega
  · omega

/-- A month has at most 31 days. -/
theorem lt_of_same_month {a b : Int} (h : monthIndex (yearMonth a) = monthIndex (yearMonth b)) :
    b < a + 31 := by
  rw [monthIndex_yearMonth, monthIndex_yearMonth] at h
  have ha := place_bounds a
  have hb := place_bounds b
  have hy : marchYear a = marchYear b := by omega
  have hda : dayOfYear a = a + 719468 - daysBefore (marchYear a) := rfl
  have hdb : dayOfYear b = b + 719468 - daysBefore (marchYear a) := by rw [hy]; rfl
  omega

/-- The number of the month of an instant. -/
def monthOf (secs : Int) : Int := monthIndex (yearMonth (secs / 86400))

theorem monthOf_mono {a b : Int} (h : a ≤ b) : monthOf a ≤ monthOf b :=
  monthIndex_mono (Int.ediv_le_ediv (by omega) h)

/-- Clocks start in 1970. -/
theorem le_monthOf {now : Int} (h : 0 ≤ now) : 23640 ≤ monthOf now := by
  have hzero : monthOf 0 = 23640 := by decide
  rw [← hzero]
  exact monthOf_mono h

section SubMonths

variable {n : Nat} {ym : Int × Int}

theorem isMonth_subMonths (h : IsMonth ym) : IsMonth (subMonths n ym) := by
  unfold subMonths
  dsimp only
  split
  · rw [IsMonth]
    dsimp only
    omega
  · exact h

theorem monthIndex_subMonths (h : n ≤ monthIndex ym) :
    monthIndex (subMonths n ym) = monthIndex ym - n := by
  simp only [monthIndex] at *
  unfold subMonths
  dsimp only
  split
  · dsimp only
    omega
  · omega

end SubMonths

section Names

/-- The value of a padded number. -/
theorem padded_digits (width n : Nat) : Nat.ofDigitChars 10 (padded width n).toList 0 = n := by
  simp [padded, Nat.ofDigitChars_append]

theorem isDigit_of_mem_padded {width n : Nat} {c : Char} (h : c ∈ (padded width n).toList) :
    c.isDigit = true := by
  simp only [padded, String.toList_append, String.toList_ofList, List.mem_append,
    List.mem_replicate] at h
  obtain ⟨-, rfl⟩ | h := h
  · rfl
  · simp only [Nat.toString_eq_repr, Nat.toList_repr] at h
    exact Nat.isDigit_of_mem_toDigits (by decide) (by decide) h

theorem padded_inj {width m n : Nat} (h : padded width m = padded width n) : m = n := by
  rw [← padded_digits width m, h, padded_digits]

/-- The year in `format("%Y_%m")`. -/
def yearText (y : Int) : String :=
  if 0 ≤ y ∧ y ≤ 9999 then padded 4 y.toNat
  else if y < 0 then "-" ++ padded 4 y.natAbs
  else "+" ++ padded 4 y.toNat

theorem formatYearMonth_eq (ym : Int × Int) :
    formatYearMonth ym = yearText ym.1 ++ "_" ++ padded 2 ym.2.toNat := rfl

theorem sign_ne_padded {s : String} {c : Char} (hs : s.toList = [c]) (hc : c.isDigit = false)
    (width m n : Nat) : s ++ padded width m ≠ padded width n := by
  intro h
  have hl := congrArg String.toList h
  rw [String.toList_append, hs] at hl
  have hmem : c ∈ (padded width n).toList := by
    rw [← hl]
    simp
  have hd := isDigit_of_mem_padded hmem
  rw [hc] at hd
  cases hd

theorem sign_padded_inj {s : String} {width m n : Nat} (h : s ++ padded width m = s ++ padded width n) :
    m = n := by
  have hl := congrArg String.toList h
  rw [String.toList_append, String.toList_append] at hl
  exact padded_inj (String.toList_inj.mp (List.append_cancel_left hl))

theorem yearText_inj {y z : Int} (h : yearText y = yearText z) : y = z := by
  have hminus : ∀ m n, "-" ++ padded 4 m ≠ padded 4 n := sign_ne_padded rfl rfl 4
  have hplus : ∀ m n, "+" ++ padded 4 m ≠ padded 4 n := sign_ne_padded rfl rfl 4
  have hsigns : ∀ m n, "-" ++ padded 4 m ≠ "+" ++ padded 4 n := by
    intro m n he
    have hl := congrArg String.toList he
    rw [String.toList_append, String.toList_append] at hl
    cases hl
  unfold yearText at h
  split at h
  · split at h
    · have := padded_inj h
      omega
    · split at h
      · exact absurd h.symm (hminus _ _)
      · exact absurd h.symm (hplus _ _)
  · split at h
    · split at h
      · exact absurd h (hminus _ _)
      · split at h
        · have := sign_padded_inj h
          omega
        · exact absurd h (hsigns _ _)
    · split at h
      · exact absurd h (hplus _ _)
      · split at h
        · exact absurd h.symm (hsigns _ _)
        · have := sign_padded_inj h
          omega

/-- No part of a name has the separator in it. -/
theorem not_mem_padded (width n : Nat) : '_' ∉ (padded width n).toList := by
  intro h
  cases isDigit_of_mem_padded h

theorem not_mem_yearText (y : Int) : '_' ∉ (yearText y).toList := by
  have hsign : ∀ (s : String) (n : Nat), '_' ∉ s.toList → '_' ∉ (s ++ padded 4 n).toList := by
    intro s n hs
    rw [String.toList_append, List.mem_append]
    rintro (h | h)
    · exact hs h
    · exact not_mem_padded _ _ h
  unfold yearText
  split
  · exact not_mem_padded _ _
  · split
    · exact hsign _ _ (by decide)
    · exact hsign _ _ (by decide)

end Names

end Chrono

/-- Texts without the separator are read off their concatenation. -/
theorem append_separator_inj {c : Char} {a b x y : List Char} (ha : c ∉ a) (hb : c ∉ b)
    (h : a ++ c :: x = b ++ c :: y) : a = b ∧ x = y := by
  induction a generalizing b with
  | nil =>
    cases b with
    | nil => exact ⟨rfl, (List.cons.inj h).2⟩
    | cons d b => exact absurd (List.cons.inj h).1 (fun he => hb (he ▸ List.mem_cons_self))
  | cons d a ih =>
    cases b with
    | nil => exact absurd (List.cons.inj h).1 (fun he => ha (he ▸ List.mem_cons_self))
    | cons e b =>
      obtain ⟨hde, h⟩ := List.cons.inj h
      obtain ⟨hab, hxy⟩ := ih (fun hm => ha (List.mem_cons_of_mem _ hm))
        (fun hm => hb (List.mem_cons_of_mem _ hm)) h
      exact ⟨by rw [hde, hab], hxy⟩

/-- The month and the shard are read off the name of a collection. -/
theorem collectionName_inj {a b : Int × Int} {r s : Nat} (ha : Chrono.IsMonth a)
    (hb : Chrono.IsMonth b) (h : collectionName a r = collectionName b s) : a = b ∧ r = s := by
  have hsep : "_".toList = ['_'] := by simp
  have hl := congrArg String.toList h
  simp only [collectionName, Chrono.formatYearMonth_eq, String.toList_append, List.append_assoc,
    List.append_cancel_left_eq, hsep, List.singleton_append] at hl
  obtain ⟨hyear, hl⟩ := append_separator_inj (Chrono.not_mem_yearText _) (Chrono.not_mem_yearText _) hl
  obtain ⟨hmonth, hrange⟩ := append_separator_inj (Chrono.not_mem_padded _ _)
    (Chrono.not_mem_padded _ _) hl
  have hy := Chrono.yearText_inj (String.toList_inj.mp hyear)
  have hm := Chrono.padded_inj (String.toList_inj.mp hmonth)
  have hr : r = s := by
    have hd := congrArg (fun l => Nat.ofDigitChars 10 l 0) hrange
    simpa using hd
  refine ⟨Prod.ext hy ?_, hr⟩
  rw [Chrono.IsMonth] at ha hb
  omega

theorem collectionName_eq_iff {a b : Int × Int} {r s : Nat} (ha : Chrono.IsMonth a)
    (hb : Chrono.IsMonth b) :
    collectionName a r = collectionName b s ↔
      r = s ∧ Chrono.monthIndex a = Chrono.monthIndex b := by
  constructor
  · intro h
    obtain ⟨rfl, rfl⟩ := collectionName_inj ha hb h
    exact ⟨rfl, rfl⟩
  · rintro ⟨rfl, h⟩
    rw [Chrono.monthIndex_inj ha hb h]

end Sandcat
