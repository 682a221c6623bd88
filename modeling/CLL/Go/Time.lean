import CLL.Lib.Calendar
import CLL.Lib.Decimal
import CLL.Go.Value

/-!
# RFC 3339 times in Go

`time.Parse` and `Time.Format` with the layout `time.RFC3339Nano`. The parser reads one or two digits of the
hour, a fraction of any length after a point or a comma, and an offset up to 24:60. What is formatted is
the instant in UTC, without trailing zeros in the fraction.
-/

namespace CLL.Go
open Calendar Decimal

/-- An instant. The seconds are counted on the days of `Calendar`, 400 years of which are put before the
year 0, so that an offset never takes them below zero. -/
structure Time where
  seconds : ℕ
  nanos : ℕ
deriving DecidableEq

/-- The years put before the year 0: a whole cycle of the calendar. -/
def yearShift : ℕ := 400

/-- `getnum`. -/
def getNum (fixed : Bool) : Str → Option (ℕ × Str)
  | a :: b :: rest =>
    if ¬ isDigit a then none
    else if isDigit b then some (value [a, b], rest)
    else if fixed then none
    else some (value [a], b :: rest)
  | [a] => if isDigit a ∧ ¬ fixed then some (value [a], []) else none
  | [] => none

/-- `skip` of a prefix of one character. -/
def skip (c : ℕ) : Str → Option Str
  | d :: rest => if d = c then some rest else none
  | [] => none

/-- The four digits of the year. -/
def parseYear : Str → Option (ℕ × Str)
  | a :: b :: c :: d :: rest =>
    if isDigit a ∧ isDigit b ∧ isDigit c ∧ isDigit d then some (value [a, b, c, d], rest) else none
  | _ => none

/-- The fraction after the seconds in nanoseconds; digits after the ninth are dropped. -/
def parseFraction : Str → ℕ × Str
  | point :: digit :: rest =>
    if (point = 46 ∨ point = 44) ∧ isDigit digit then
      let digits := (digit :: rest).takeWhile isDigit
      let kept := digits.take 9
      (value kept * 10 ^ (9 - kept.length), (digit :: rest).dropWhile isDigit)
    else (0, point :: digit :: rest)
  | value => (0, value)

/-- `Z`, or an offset in seconds east of UTC. -/
def parseZone : Str → Option (ℤ × Str)
  | 90 :: rest => some (0, rest)
  | sign :: h :: h' :: colon :: m :: m' :: rest => do
    guard (colon = 58)
    let (hr, _) ← getNum true [h, h']
    let (mm, _) ← getNum true [m, m']
    guard (hr ≤ 24 ∧ mm ≤ 60)
    let offset : ℤ := (hr * 60 + mm) * 60
    if sign = 43 then some (offset, rest)
    else if sign = 45 then some (-offset, rest)
    else none
  | _ => none

/-- `time.Parse(time.RFC3339Nano, value)`. -/
def parseTime (value : Str) : Option Time := do
  let (year, value) ← parseYear value
  let value ← skip 45 value
  let (month, value) ← getNum true value
  guard (1 ≤ month ∧ month ≤ 12)
  let value ← skip 45 value
  let (day, value) ← getNum true value
  let value ← skip 84 value
  let (hour, value) ← getNum false value
  guard (hour < 24)
  let value ← skip 58 value
  let (minute, value) ← getNum true value
  guard (minute < 60)
  let value ← skip 58 value
  let (second, value) ← getNum true value
  guard (second < 60)
  let (nanos, value) := parseFraction value
  let (offset, value) ← parseZone value
  guard (value = [])
  guard (1 ≤ day ∧ day ≤ daysInMonth (isLeap year) month)
  let local_ := toOrdinal ⟨year + yearShift, month, day⟩ * 86400 + hour * 3600 + minute * 60 + second
  some ⟨(local_ - offset).toNat, nanos⟩

/-- The fraction of `time.RFC3339Nano`: nine digits without trailing zeros, none of zero. -/
def formatFraction (nanos : ℕ) : Str :=
  if nanos = 0 then [] else 46 :: ((pad 9 nanos).reverse.dropWhile (· = 48)).reverse

/-- `value.UTC().Format(time.RFC3339Nano)`, for years that have four digits. -/
def format (t : Time) : Str :=
  let date := fromOrdinal (t.seconds / 86400)
  let ofDay := t.seconds % 86400
  pad 4 (date.year - yearShift) ++ 45 :: pad 2 date.month ++ 45 :: pad 2 date.day ++ 84 ::
    pad 2 (ofDay / 3600) ++ 58 :: pad 2 (ofDay / 60 % 60) ++ 58 :: pad 2 (ofDay % 60) ++
    formatFraction t.nanos ++ [90]

/-- `formatTimestamp` of `checkpoint.go`. -/
def formatTimestamp (t : Time) : Result Str := do
  let year := (fromOrdinal (t.seconds / 86400)).year
  check (yearShift ≤ year ∧ year ≤ 9999 + yearShift) "invalid checkpoint timestamp"
  .ok (format t)

/-- An offset moves the hour and the date, the fraction loses its zeros. -/
example : (parseTime (.lit "2026-01-01T00:30:05.120+01:00")).map format =
    some (.lit "2025-12-31T23:30:05.12Z") := by rfl

end CLL.Go
