import Sandcat.Calendar
import Sandcat.Maintenance
import Sandcat.Lib.Decimal

/-!
# Which collections the cleaner forgets

The year and month in the name of a collection are compared with a threshold as texts. Years of four
digits are in the order of their texts, and a threshold after the year 9999 comes before all of
them, with its sign. A threshold is so many months back that the whole of every earlier month is past
the retention period.
-/

namespace Sandcat

namespace Chrono

section Order

theorem padded_length {width n : Nat} (hwidth : 0 < width) (hn : n < 10 ^ width) :
    (padded width n).toList.length = width := by
  have hle : (toString n).length ≤ width := (Nat.length_repr_le_iff hwidth).mpr hn
  rw [padded, String.toList_append, String.toList_ofList, List.length_append, List.length_replicate,
    String.length_toList]
  omega

theorem padded_lt_iff {width m n : Nat} (hwidth : 0 < width) (hm : m < 10 ^ width) (hn : n < 10 ^ width) :
    (padded width m).toList < (padded width n).toList ↔ m < n := by
  have h := Decimal.ofDigitChars_lt_iff
    ((padded_length hwidth hm).trans (padded_length hwidth hn).symm)
    (fun _ => isDigit_of_mem_padded) (fun _ => isDigit_of_mem_padded) 0 0
  rw [padded_digits, padded_digits] at h
  simpa using h.symm

/-- The year and month of a name as they are compared. -/
def yearMonthText (ym : Int × Int) : List Char :=
  (yearText ym.1).toList ++ '_' :: (padded 2 ym.2.toNat).toList

theorem toList_formatYearMonth (ym : Int × Int) : (formatYearMonth ym).toList = yearMonthText ym := by
  have hsep : "_".toList = ['_'] := by simp
  rw [formatYearMonth_eq, String.toList_append, String.toList_append, hsep, List.append_assoc,
    yearMonthText, List.singleton_append]

/-- A digit comes after both signs. -/
theorem not_digits_lt_sign {sign : Char} (hsign : sign.toNat < 48) {width n : Nat} (hwidth : 0 < width)
    (hn : n < 10 ^ width) (x y : List Char) : ¬ (padded width n).toList ++ x < sign :: y := by
  cases hdigits : (padded width n).toList with
  | nil =>
    have hlength := padded_length hwidth hn
    rw [hdigits] at hlength
    exact absurd hlength (Nat.ne_of_lt hwidth)
  | cons d ds =>
    have hmem : d ∈ (padded width n).toList := by
      rw [hdigits]
      exact List.mem_cons_self
    have hd := Decimal.toNat_bounds (isDigit_of_mem_padded hmem)
    rw [List.cons_append, List.cons_lt_cons_iff]
    rintro (hlt | ⟨rfl, -⟩)
    · have hlt : d.toNat < sign.toNat := hlt
      omega
    · omega

/-- Texts of months are in the order of the months, up to the year 9999. -/
theorem yearMonthText_lt_iff {a b : Int × Int} (ha : IsMonth a) (hb : IsMonth b)
    (hyear : 0 ≤ a.1 ∧ a.1 ≤ 9999) :
    yearMonthText a < yearMonthText b ↔ b.1 ≤ 9999 ∧ monthIndex a < monthIndex b := by
  rw [IsMonth] at ha hb
  have htext : yearText a.1 = padded 4 a.1.toNat := if_pos hyear
  rw [yearMonthText, htext, yearMonthText, yearText]
  simp only [monthIndex]
  split
  · have hlength : (padded 4 a.1.toNat).toList.length = (padded 4 b.1.toNat).toList.length :=
      (padded_length (by decide) (by omega)).trans (padded_length (by decide) (by omega)).symm
    rw [Decimal.append_lt_append_iff hlength, padded_lt_iff (by decide) (by omega) (by omega),
      String.toList_inj, List.cons_lt_cons_iff]
    have hsame : padded 4 a.1.toNat = padded 4 b.1.toNat ↔ a.1.toNat = b.1.toNat :=
      ⟨padded_inj, fun h => by rw [h]⟩
    rw [hsame, padded_lt_iff (by decide) (by omega) (by omega)]
    have hsep : ¬ '_' < '_' := by decide
    simp only [hsep, false_or, true_and]
    omega
  · have hsign : ∀ (sign : String) (c : Char) (n : Nat) (y : List Char), sign.toList = [c] →
        c.toNat < 48 → ¬ (padded 4 a.1.toNat).toList ++ '_' :: (padded 2 a.2.toNat).toList <
          (sign ++ padded 4 n).toList ++ y := by
      intro sign c n y htoList hc
      rw [String.toList_append, htoList, List.append_assoc, List.singleton_append]
      exact not_digits_lt_sign hc (by decide) (by omega) _ _
    split
    · simp only [hsign "-" '-' _ _ rfl (by decide), false_iff]
      omega
    · simp only [hsign "+" '+' _ _ rfl (by decide), false_iff]
      omega

end Order

section Lengths

/-- A year has at least 365 days. -/
theorem daysBefore_add_years {y z : Int} (h : y ≤ z) : daysBefore y + 365 * (z - y) ≤ daysBefore z := by
  unfold daysBefore
  omega

/-- Months are thirty days long on average, up to a month and two days. -/
theorem days_of_months {a b : Int} (h : monthIndex (yearMonth a) ≤ monthIndex (yearMonth b)) :
    30 * (monthIndex (yearMonth b) - monthIndex (yearMonth a)) - 32 ≤ b - a := by
  rw [monthIndex_yearMonth, monthIndex_yearMonth] at *
  have ha := place_bounds a
  have hb := place_bounds b
  have hda : dayOfYear a = a + 719468 - daysBefore (marchYear a) := rfl
  have hdb : dayOfYear b = b + 719468 - daysBefore (marchYear b) := rfl
  have hyear : marchYear a ≤ marchYear b := by omega
  have hdays := daysBefore_add_years hyear
  omega

end Lengths

/-- `checked_sub_months` where it does not go before the first year. -/
theorem monthIndex_subMonths_of_le {n : Nat} {ym : Int × Int} (h : -262143 ≤ (monthIndex ym - n) / 12) :
    monthIndex (subMonths n ym) = monthIndex ym - n := by
  simp only [monthIndex] at *
  unfold subMonths
  dsimp only
  rw [if_pos h]
  dsimp only
  omega

end Chrono

/-- The number of the month from which on collections stay tracked, at an instant in
milliseconds. -/
def firstTracked (now period : Int) : Int := Chrono.monthOf (now / 1000) - (period / 30 + 2)

/-- The date arithmetic of a pass stays in the calendar. -/
structure NoOverflow (now period : Int) : Prop where
  instant : (Chrono.fromTimestamp (now / 1000)).isSome
  cutoff : (Chrono.fromTimestamp (now / 1000 - period * 86400)).isSome
  threshold : -262143 ≤ firstTracked now period / 12

namespace HybridShardedMsgBox

open Chrono

/-- What is compared of the name of a collection. -/
theorem outdated_collectionName (threshold : String) (ym : Int × Int) (shard : Nat) :
    outdated threshold (collectionName ym shard) = some true ↔
      yearMonthText ym < threshold.toList := by
  have hsep : "_".toList = ['_'] := by simp
  have hbox : "msg_box_".toList = ['m', 's', 'g', '_', 'b', 'o', 'x', '_'] := by simp
  have hname : (collectionName ym shard).toList = ['m', 's', 'g'] ++ '_' :: (['b', 'o', 'x'] ++ '_' ::
      ((yearText ym.1).toList ++ '_' :: ((padded 2 ym.2.toNat).toList ++ '_' ::
        (toString shard).toList))) := by
    simp only [collectionName, formatYearMonth_eq, String.toList_append, hsep, hbox,
      List.append_assoc, List.cons_append, List.nil_append]
  have hshard : '_' ∉ (toString shard).toList := by
    rw [Nat.toString_eq_repr, Nat.toList_repr]
    exact fun hmem => by cases Decimal.isDigit_of_mem hmem
  have hsplit : (collectionName ym shard).toList.splitOn '_' = [['m', 's', 'g'], ['b', 'o', 'x'],
      (yearText ym.1).toList, (padded 2 ym.2.toNat).toList, (toString shard).toList] := by
    rw [hname, List.splitOn_append_cons_self_of_not_mem (by decide),
      List.splitOn_append_cons_self_of_not_mem (by decide),
      List.splitOn_append_cons_self_of_not_mem (not_mem_yearText _),
      List.splitOn_append_cons_self_of_not_mem (not_mem_padded _ _),
      List.splitOn_eq_singleton hshard]
  simp only [outdated, hsplit, yearMonthText, Option.some.injEq, decide_eq_true_eq]

theorem outdatedThreshold_eq {now period : Int} (hperiod : 0 ≤ period) (h : NoOverflow now period) :
    ∃ tm, IsMonth tm ∧ monthIndex tm = firstTracked now period ∧
      (outdatedThreshold (now / 1000) period).toList = yearMonthText tm := by
  have hmonth : monthOf (now / 1000) < 262143 * 12 := by
    have hnow := h.instant
    have hisMonth := isMonth_yearMonth (now / 1000 / 86400)
    unfold fromTimestamp at hnow
    dsimp only at hnow
    rw [IsMonth] at hisMonth
    rw [monthOf, monthIndex]
    split at hnow
    · omega
    · cases hnow
  have hthreshold := h.threshold
  have hmonths : (((period.tdiv 30 + 2) % 2 ^ 32).toNat : Int) = period / 30 + 2 := by
    rw [Int.tdiv_eq_ediv_of_nonneg hperiod]
    unfold firstTracked at hthreshold
    omega
  rw [outdatedThreshold]
  generalize ((period.tdiv 30 + 2) % 2 ^ 32).toNat = months at hmonths
  refine ⟨subMonths months (yearMonth (now / 1000 / 86400)), isMonth_subMonths (isMonth_yearMonth _),
    ?_, toList_formatYearMonth _⟩
  rw [monthIndex_subMonths_of_le, hmonths]
  · rfl
  · rw [hmonths]
    exact hthreshold

theorem outdated_iff {now period : Int} (hperiod : 0 ≤ period) (h : NoOverflow now period)
    {ym : Int × Int} (hmonth : IsMonth ym) (hyear : 1000 ≤ ym.1 ∧ ym.1 ≤ 9999) (shard : Nat) :
    outdated (outdatedThreshold (now / 1000) period) (collectionName ym shard) = some true ↔
      firstTracked now period / 12 ≤ 9999 ∧ monthIndex ym < firstTracked now period := by
  obtain ⟨tm, htm, hindex, htext⟩ := outdatedThreshold_eq hperiod h
  have hyearOf : firstTracked now period / 12 = tm.1 := by
    rw [IsMonth] at htm
    rw [← hindex, monthIndex]
    omega
  rw [outdated_collectionName, htext,
    yearMonthText_lt_iff hmonth htm (by omega), hindex, hyearOf]

end HybridShardedMsgBox

/-- A threshold of a year of four digits takes the names of the months before it, and every instant
of a month whose names it takes is past the retention period. -/
theorem untracks_iff (now period : Int) (hperiod : 0 ≤ period) (h : NoOverflow now period)
    (ym : Int × Int) (hmonth : Chrono.IsMonth ym) (hyear : 1000 ≤ ym.1 ∧ ym.1 ≤ 9999) (shard : Nat) :
    (firstTracked now period / 12 ≤ 9999 →
      (HybridShardedMsgBox.outdated (HybridShardedMsgBox.outdatedThreshold (now / 1000) period)
        (collectionName ym shard) = some true ↔ Chrono.monthIndex ym < firstTracked now period)) ∧
    (HybridShardedMsgBox.outdated (HybridShardedMsgBox.outdatedThreshold (now / 1000) period)
        (collectionName ym shard) = some true →
      ∀ t, Chrono.yearMonth (t / 86400000) = ym → t < now - period * 86400000) := by
  rw [HybridShardedMsgBox.outdated_iff hperiod h hmonth hyear]
  refine ⟨fun hfour => ⟨fun hout => hout.2, fun hlt => ⟨hfour, hlt⟩⟩, ?_⟩
  rintro ⟨-, hlt⟩ t rfl
  have hday : now / 1000 / 86400 = now / 86400000 := by omega
  rw [firstTracked, Chrono.monthOf, hday] at hlt
  have hdays := Chrono.days_of_months (a := t / 86400000) (b := now / 86400000) (by omega)
  omega

/-- In June 2025 the names of January are taken, and all of January is more than thirty days ago. -/
theorem untracks_january :
    HybridShardedMsgBox.outdated (HybridShardedMsgBox.outdatedThreshold (1750000000000 / 1000) 30)
        (collectionName (2025, 1) 0) = some true ∧
      ∀ t, Chrono.yearMonth (t / 86400000) = (2025, 1) → t < 1750000000000 - 30 * 86400000 := by
  obtain ⟨htaken, hpast⟩ := untracks_iff 1750000000000 30 (by decide)
    ⟨by decide, by decide, by decide⟩ (2025, 1) (by decide) (by decide) 0
  have hout := (htaken (by decide)).mpr (by decide)
  exact ⟨hout, hpast hout⟩

/-- At the beginning of the year 10001 the names of 9999 are not taken. -/
theorem five_digits_keep : ¬ ∀ (now period : Int), 0 ≤ period → NoOverflow now period →
    ∀ ym : Int × Int, Chrono.IsMonth ym → 1000 ≤ ym.1 ∧ ym.1 ≤ 9999 → ∀ shard : Nat,
      (HybridShardedMsgBox.outdated (HybridShardedMsgBox.outdatedThreshold (now / 1000) period)
        (collectionName ym shard) = some true ↔ Chrono.monthIndex ym < firstTracked now period) := by
  intro h
  have hiff := h 253433923200000 0 (by decide) ⟨by decide, by decide, by decide⟩ (9999, 1) (by decide)
    (by decide) 0
  have hout := hiff.mpr (by decide)
  revert hout
  decide

end Sandcat
