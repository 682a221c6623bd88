import CLL.Lib.IsoDate
import Mathlib.Algebra.Order.Ring.Rat

/-!
# RFC 3339 times

The instant that a text of RFC 3339 names, as a number of seconds: one instant has many spellings, in other
zones or with more digits of the fraction.
-/

namespace CLL.Rfc3339
open Calendar Decimal

/-- `hh:mm:ss`. -/
def clockPattern : List (Option ℕ) :=
  List.replicate 2 none ++ some 58 :: (List.replicate 2 none ++ some 58 :: List.replicate 2 none)

/-- `hh:mm`. -/
def zonePattern : List (Option ℕ) := List.replicate 2 none ++ some 58 :: List.replicate 2 none

/-- The day of a full date, in the years from 0000 on. -/
def day (s : List ℕ) : Option ℤ :=
  let d : CivilDate := ⟨value (s.take 4), value ((s.drop 5).take 2), value ((s.drop 8).take 2)⟩
  if IsoDate.fits isDigit IsoDate.pattern s = true ∧ d.valid = true then some (toDay d) else none

/-- The seconds of a time of day; a leap second is the 60th. -/
def clock (s : List ℕ) : Option ℕ :=
  let hour := value (s.take 2)
  let minute := value ((s.drop 3).take 2)
  let second := value (s.drop 6)
  if IsoDate.fits isDigit clockPattern s = true ∧ hour < 24 ∧ minute < 60 ∧ second ≤ 60 then
    some ((hour * 60 + minute) * 60 + second)
  else none

/-- The fraction of a second, if there is one, and what follows. -/
def fraction : List ℕ → Option (ℚ × List ℕ)
  | 46 :: s =>
    let digits := s.takeWhile isDigit
    if digits = [] then none else some (value digits / 10 ^ digits.length, s.dropWhile isDigit)
  | s => some (0, s)

/-- The seconds that a zone is ahead of UTC. -/
def offset : List ℕ → Option ℤ
  | [] => none
  | sign :: s =>
    if s = [] ∧ (sign = 90 ∨ sign = 122) then some 0
    else
      let hour := value (s.take 2)
      let minute := value (s.drop 3)
      if (sign = 43 ∨ sign = 45) ∧ IsoDate.fits isDigit zonePattern s = true ∧ hour < 24 ∧ minute < 60 then
        some ((if sign = 45 then -1 else 1) * ((hour * 60 + minute) * 60 : ℕ))
      else none

/-- The instant of a text, if it is one of RFC 3339. -/
def instant (s : List ℕ) : Option ℚ := do
  let day ← day (s.take 10)
  let mark ← s[10]?
  guard (mark = 84 ∨ mark = 116 ∨ mark = 32)
  let clock ← clock ((s.drop 11).take 8)
  let (part, zone) ← fraction (s.drop 19)
  let offset ← offset zone
  some ((day * 86400 + clock - offset : ℤ) + part)

end CLL.Rfc3339
