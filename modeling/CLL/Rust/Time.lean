import CLL.Lib.Decimal
import CLL.Rust.Log

/-!
# Times in Rust

`Timestamp` of `log/time.rs`: the text that `Date.toISOString` writes, and its parser, over a calendar in
arithmetic. No step of the arithmetic leaves the range of an `i64`.
-/

namespace CLL.Rust.Log

/-- `MILLIS_PER_DAY`. -/
def millisPerDay : ℤ := 86400000

/-- `days_from_civil`. -/
def daysFromCivil (year month day : ℤ) : ℤ :=
  let year := if month ≤ 2 then year - 1 else year
  let era := year / 400
  let yearOfEra := year - era * 400
  let monthIndex := (month + 9) % 12
  let dayOfYear := (153 * monthIndex + 2) / 5 + day - 1
  let dayOfEra := yearOfEra * 365 + yearOfEra / 4 - yearOfEra / 100 + dayOfYear
  era * 146097 + dayOfEra - 719468

/-- `civil_from_days`. -/
def civilFromDays (days : ℤ) : ℤ × ℤ × ℤ :=
  let days := days + 719468
  let era := days / 146097
  let dayOfEra := days - era * 146097
  let yearOfEra := (dayOfEra - dayOfEra / 1460 + dayOfEra / 36524 - dayOfEra / 146096) / 365
  let dayOfYear := dayOfEra - (365 * yearOfEra + yearOfEra / 4 - yearOfEra / 100)
  let monthIndex := (5 * dayOfYear + 2) / 153
  let day := dayOfYear - (153 * monthIndex + 2) / 5 + 1
  let month := if monthIndex < 10 then monthIndex + 3 else monthIndex - 9
  let year := yearOfEra + era * 400 + if month ≤ 2 then 1 else 0
  (year, month, day)

/-- The year of `format_unchecked`. -/
def yearText (year : ℤ) : Str :=
  if 0 ≤ year ∧ year ≤ 9999 then Decimal.pad 4 year.toNat
  else if year < 0 then 45 :: Decimal.pad 6 (-year).toNat
  else 43 :: Decimal.pad 6 year.toNat

/-- `format_unchecked`. -/
def formatUnchecked (millis : ℤ) : Str :=
  let days := millis / millisPerDay
  let ofDay := (millis % millisPerDay).toNat
  let (year, month, day) := civilFromDays days
  yearText year ++ 45 :: (Decimal.pad 2 month.toNat ++ 45 :: (Decimal.pad 2 day.toNat ++
    84 :: (Decimal.pad 2 (ofDay / 3600000) ++ 58 :: (Decimal.pad 2 (ofDay / 60000 % 60) ++
    58 :: (Decimal.pad 2 (ofDay / 1000 % 60) ++ 46 :: (Decimal.pad 3 (ofDay % 1000) ++ [90]))))))

/-- `to_iso_string`. -/
def Timestamp.toIsoString (t : Timestamp) : Res Str := do
  reject (¬t.isPortable) (invalid "time is outside the portable range")
  .ok (formatUnchecked t.millis.toInt)

/-- `number` of `parse`. -/
def number (text : Str) (start length : ℕ) : Option ℤ :=
  let digits := (text.drop start).take length
  if digits.length = length ∧ digits.all Decimal.isDigit then some (Decimal.value digits) else none

/-- The separators of `parse`, with their offsets. -/
def separators : List (ℕ × ℕ) := [(0, 45), (3, 45), (6, 84), (9, 58), (12, 58), (15, 46), (19, 90)]

/-- The first character of `parse`: the sign of the year and its digits. -/
def yearForm : Str → Option (ℤ × ℕ)
  | [] => none
  | 43 :: _ => some (1, 6)
  | 45 :: _ => some (-1, 6)
  | _ => some (1, 4)

/-- `parse`. -/
def parse (text : Str) : Option Timestamp := do
  let (sign, yearDigits) ← yearForm text
  let yearStart := if yearDigits = 6 then 1 else 0
  let rest := yearStart + yearDigits
  guard (text.length = rest + 20)
  guard (∀ s ∈ separators, text[rest + s.1]? = some s.2)
  let year ← number text yearStart yearDigits
  let year := sign * year
  let month ← number text (rest + 1) 2
  let day ← number text (rest + 4) 2
  let hour ← number text (rest + 7) 2
  let minute ← number text (rest + 10) 2
  let second ← number text (rest + 13) 2
  let milli ← number text (rest + 16) 3
  guard (1 ≤ month ∧ month ≤ 12 ∧ 1 ≤ day ∧ hour ≤ 23 ∧ minute ≤ 59 ∧ second ≤ 59)
  let days := daysFromCivil year month day
  guard (civilFromDays days = (year, month, day))
  let millis := days * millisPerDay + ((hour * 60 + minute) * 60 + second) * 1000 + milli
  guard (formatUnchecked millis = text)
  some ⟨.ofInt millis⟩

/-- `Timestamp::parse`. -/
def Timestamp.parse (text : Str) : Res Timestamp :=
  okOr (Log.parse text) (invalid (.debug text " is not a Date.toISOString() time"))

example : formatUnchecked 1788264000000 = Str.lit "2026-09-01T12:00:00.000Z" := by rfl

example : parse (Str.lit "-271821-04-19T23:59:59.999Z") = some ⟨-8640000000000001⟩ := by rfl

end CLL.Rust.Log
