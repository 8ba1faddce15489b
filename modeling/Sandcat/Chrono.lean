import Mathlib.Data.Int.Basic

/-!
# Calendar arithmetic of chrono

A UTC instant is a number of seconds since 1970-01-01. The date of an instant is
computed in the proleptic Gregorian calendar, counting years from March so that
the leap day comes last. Dates exist for the years -262143 to 262142.
-/

namespace Sandcat.Chrono

/-- Year and month of a day counted from 1970-01-01. -/
def yearMonth (day : Int) : Int × Int :=
  let z := day + 719468
  let era := z / 146097
  let doe := z % 146097
  let yoe := (doe - doe / 1460 + doe / 36524 - doe / 146096) / 365
  let doy := doe - (365 * yoe + yoe / 4 - yoe / 100)
  let mp := (5 * doy + 2) / 153
  let month := if mp < 10 then mp + 3 else mp - 9
  (yoe + era * 400 + if month ≤ 2 then 1 else 0, month)

/-- `DateTime::from_timestamp(secs, 0)`, as year and month. -/
def fromTimestamp (secs : Int) : Option (Int × Int) :=
  let ym := yearMonth (secs / 86400)
  if -262143 ≤ ym.1 ∧ ym.1 ≤ 262142 then some ym else none

/-- `checked_sub_months`, or the month itself below the first year. -/
def subMonths (n : Nat) (ym : Int × Int) : Int × Int :=
  let months := ym.1 * 12 + (ym.2 - 1) - n
  if -262143 ≤ months / 12 then (months / 12, months % 12 + 1) else ym

/-- A number in decimal with leading zeros. -/
def padded (width n : Nat) : String :=
  let digits := toString n
  String.ofList (List.replicate (width - digits.length) '0') ++ digits

/-- `format("%Y_%m")`. -/
def formatYearMonth (ym : Int × Int) : String :=
  let year :=
    if 0 ≤ ym.1 ∧ ym.1 ≤ 9999 then padded 4 ym.1.toNat
    else if ym.1 < 0 then "-" ++ padded 4 ym.1.natAbs
    else "+" ++ padded 4 ym.1.toNat
  year ++ "_" ++ padded 2 ym.2.toNat

example : yearMonth 0 = (1970, 1) ∧ yearMonth 19782 = (2024, 2) ∧ yearMonth (-1) = (1969, 12) := by
  decide

end Sandcat.Chrono
