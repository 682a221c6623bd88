import Mathlib.Data.Int.Notation
import Mathlib.Data.List.Basic

/-!
# The proleptic Gregorian calendar

Day 1 is 0001-01-01. `fromOrdinal` and `toOrdinal` are the two directions that Python's `datetime` uses;
`toOrdinal_fromOrdinal` and `fromOrdinal_toOrdinal` say that they are inverse, `valid_fromOrdinal` and
`toOrdinal_le` that the valid dates are those of the years 0001..9999.
-/

namespace CLL.Calendar

/-- A date. -/
structure Date where
  year : ℕ
  month : ℕ
  day : ℕ
  deriving DecidableEq, Repr

def isLeap (year : ℕ) : Bool := year % 4 = 0 && (year % 100 ≠ 0 || year % 400 = 0)

/-- Days before the first of a month in a common year. -/
def daysBefore (month : ℕ) : ℕ :=
  [0, 0, 31, 59, 90, 120, 151, 181, 212, 243, 273, 304, 334].getD month 0

def daysInMonth (leap : Bool) (month : ℕ) : ℕ :=
  [0, 31, 28, 31, 30, 31, 30, 31, 31, 30, 31, 30, 31].getD month 0 +
    if month = 2 ∧ leap then 1 else 0

/-- Days before the first of January. -/
def daysBeforeYear (year : ℕ) : ℕ :=
  (year - 1) * 365 + (year - 1) / 4 - (year - 1) / 100 + (year - 1) / 400

/-- Days of the year before the first of the month. -/
def daysBeforeMonth (leap : Bool) (month : ℕ) : ℕ :=
  daysBefore month + if 2 < month ∧ leap then 1 else 0

/-- The number of a date. -/
def toOrdinal (d : Date) : ℕ :=
  daysBeforeYear d.year + daysBeforeMonth (isLeap d.year) d.month + d.day

/-- Month and day of the day `n` of a year, counted from 0. -/
def monthDay (leap : Bool) (n : ℕ) : ℕ × ℕ :=
  let month := (n + 50) / 32
  if daysBeforeMonth leap month > n then (month - 1, n - daysBeforeMonth leap (month - 1) + 1)
  else (month, n - daysBeforeMonth leap month + 1)

/-- The date of a day. -/
def fromOrdinal (n : ℕ) : Date :=
  let n := n - 1
  let n400 := n / 146097
  let n := n % 146097
  let n100 := n / 36524
  let n := n % 36524
  let n4 := n / 1461
  let n := n % 1461
  let n1 := n / 365
  let n := n % 365
  let year := n400 * 400 + 1 + n100 * 100 + n4 * 4 + n1
  if n1 = 4 ∨ n100 = 4 then ⟨year - 1, 12, 31⟩
  else
    let leap := n1 = 3 && (n4 ≠ 24 || n100 = 3)
    ⟨year, (monthDay leap n).1, (monthDay leap n).2⟩

/-- `datetime` takes the date. -/
def Date.valid (d : Date) : Bool :=
  1 ≤ d.year && d.year ≤ 9999 && 1 ≤ d.month && d.month ≤ 12 && 1 ≤ d.day &&
    d.day ≤ daysInMonth (isLeap d.year) d.month

/-- The last day of the year 9999. -/
def maxOrdinal : ℕ := 3652059

/-- The month and day of a day of the year. -/
lemma monthDay_spec : ∀ leap : Bool, ∀ n < 365,
    1 ≤ (monthDay leap n).1 ∧ (monthDay leap n).1 ≤ 12 ∧ 1 ≤ (monthDay leap n).2 ∧
      (monthDay leap n).2 ≤ daysInMonth leap (monthDay leap n).1 ∧
      daysBeforeMonth leap (monthDay leap n).1 + (monthDay leap n).2 = n + 1 := by
  decide +kernel

/-- Days before a year, by the parts that `fromOrdinal` cuts the year into. -/
lemma daysBeforeYear_parts {a b c d : ℕ} (hb : b ≤ 3) (hc : c ≤ 24) (hd : d ≤ 3) :
    daysBeforeYear (a * 400 + 1 + b * 100 + c * 4 + d) =
      146097 * a + 36524 * b + 1461 * c + 365 * d := by
  unfold daysBeforeYear
  omega

/-- A leap year in the cycles of 400, 100 and 4 years. -/
lemma isLeap_parts {a b c d : ℕ} (hb : b ≤ 3) (hc : c ≤ 24) (hd : d ≤ 3) :
    isLeap (a * 400 + 1 + b * 100 + c * 4 + d) = (d = 3 && (c ≠ 24 || b = 3) : Bool) := by
  unfold isLeap
  rw [Bool.eq_iff_iff]
  simp only [Bool.and_eq_true, Bool.or_eq_true, decide_eq_true_eq]
  omega

/-- The last day of a leap year. -/
lemma toOrdinal_last {year : ℕ} (leap : isLeap year = true) :
    toOrdinal ⟨year, 12, 31⟩ = daysBeforeYear year + 366 := by
  rw [toOrdinal, leap]
  rfl

/-- A day is counted back from its date. -/
theorem toOrdinal_fromOrdinal {n : ℕ} (pos : 0 < n) : toOrdinal (fromOrdinal n) = n := by
  unfold fromOrdinal
  dsimp only
  generalize ea : (n - 1) / 146097 = a
  generalize er : (n - 1) % 146097 = r
  generalize eb : r / 36524 = b
  generalize es : r % 36524 = s
  generalize ec : s / 1461 = c
  generalize et : s % 1461 = t
  generalize ed : t / 365 = d
  generalize eu : t % 365 = u
  have bound : c ≤ 24 ∧ b ≤ 4 ∧ d ≤ 4 := by omega
  split
  · rename_i last
    -- the last day of a leap year, written as day 365 of the year before
    have parts : ∃ b' c', b' ≤ 3 ∧ c' ≤ 24 ∧ (c' ≠ 24 ∨ b' = 3) ∧
        a * 400 + 1 + b * 100 + c * 4 + d - 1 = a * 400 + 1 + b' * 100 + c' * 4 + 3 ∧
        146097 * a + 36524 * b' + 1461 * c' + 365 * 3 + 366 = n := by
      by_cases four : b = 4
      · exact ⟨3, 24, by omega, by omega, by omega, by omega, by omega⟩
      · exact ⟨b, c, by omega, by omega, by omega, by omega, by omega⟩
    obtain ⟨b', c', hb, hc, hleap, year, sum⟩ := parts
    have leap : isLeap (a * 400 + 1 + b' * 100 + c' * 4 + 3) = true := by
      rw [isLeap_parts hb hc (by omega)]
      simpa using hleap
    rw [year, toOrdinal_last leap, daysBeforeYear_parts hb hc (by omega), sum]
  · rename_i inside
    have spec := (monthDay_spec (d = 3 && (c ≠ 24 || b = 3)) u (by omega)).2.2.2.2
    rw [toOrdinal]
    dsimp only
    rw [isLeap_parts (by omega) bound.1 (by omega), daysBeforeYear_parts (by omega) bound.1 (by omega),
      Nat.add_assoc, spec]
    omega

/-- The date of a day is valid. -/
theorem valid_fromOrdinal {n : ℕ} (pos : 0 < n) (le : n ≤ maxOrdinal) :
    (fromOrdinal n).valid = true := by
  unfold fromOrdinal
  unfold maxOrdinal at le
  dsimp only
  generalize ea : (n - 1) / 146097 = a
  generalize er : (n - 1) % 146097 = r
  generalize eb : r / 36524 = b
  generalize es : r % 36524 = s
  generalize ec : s / 1461 = c
  generalize et : s % 1461 = t
  generalize ed : t / 365 = d
  generalize eu : t % 365 = u
  have bound : c ≤ 24 ∧ b ≤ 4 ∧ d ≤ 4 := by omega
  split
  · rename_i last
    have year : 1 ≤ a * 400 + 1 + b * 100 + c * 4 + d - 1 ∧
        a * 400 + 1 + b * 100 + c * 4 + d - 1 ≤ 9999 := by omega
    simp [Date.valid, year, daysInMonth]
  · rename_i inside
    obtain ⟨month, month', day, day', -⟩ :=
      monthDay_spec (d = 3 && (c ≠ 24 || b = 3)) u (by omega)
    have year : a * 400 + 1 + b * 100 + c * 4 + d ≤ 9999 := by omega
    have leap := isLeap_parts (a := a) (b := b) (c := c) (d := d) (by omega) bound.1 (by omega)
    simp only [Date.valid, leap, Bool.and_eq_true, decide_eq_true_eq]
    exact ⟨⟨⟨⟨⟨by omega, year⟩, month⟩, month'⟩, day⟩, day'⟩

/-- Months and days of any year. -/
lemma fromOrdinal_bounds (n : ℕ) : 1 ≤ (fromOrdinal n).month ∧ (fromOrdinal n).month ≤ 12 ∧
    1 ≤ (fromOrdinal n).day ∧ (fromOrdinal n).day ≤ 31 := by
  have short : ∀ leap : Bool, ∀ month ≤ 12, daysInMonth leap month ≤ 31 := by decide
  unfold fromOrdinal
  dsimp only
  split
  · simp
  · obtain ⟨month, month', day, day', -⟩ := monthDay_spec
      ((n - 1) % 146097 % 36524 % 1461 / 365 = 3 && ((n - 1) % 146097 % 36524 / 1461 ≠ 24 ||
        (n - 1) % 146097 / 36524 = 3)) ((n - 1) % 146097 % 36524 % 1461 % 365) (Nat.mod_lt _ (by decide))
    exact ⟨month, month', day, Nat.le_trans day' (short _ _ month')⟩

/-- The days of a month end within the year. -/
lemma daysInMonth_le : ∀ leap : Bool, ∀ month ≤ 12,
    daysBeforeMonth leap month + daysInMonth leap month ≤ 365 + if leap then 1 else 0 := by
  decide

/-- The dates that `datetime` takes have the numbers 1 to `maxOrdinal`. -/
lemma toOrdinal_le {d : Date} (valid : d.valid = true) :
    0 < toOrdinal d ∧ toOrdinal d ≤ maxOrdinal := by
  simp only [Date.valid, Bool.and_eq_true, decide_eq_true_eq] at valid
  obtain ⟨⟨⟨⟨⟨year, year'⟩, -⟩, month⟩, day⟩, day'⟩ := valid
  have inYear := daysInMonth_le (isLeap d.year) d.month month
  refine ⟨by unfold toOrdinal; omega, ?_⟩
  unfold toOrdinal
  cases leap : isLeap d.year with
  | true =>
    have last : d.year ≤ 9996 := by
      simp only [isLeap, Bool.and_eq_true, decide_eq_true_eq] at leap
      omega
    rw [leap] at inYear day'
    simp only [if_true] at inYear
    unfold daysBeforeYear maxOrdinal
    omega
  | false =>
    rw [leap] at inYear day'
    simp only [Bool.false_eq_true, if_false] at inYear
    unfold daysBeforeYear maxOrdinal
    omega

/-- A month ends before a later one begins. -/
lemma daysBeforeMonth_add_le : ∀ leap : Bool, ∀ n ≤ 12, ∀ m < n, 1 ≤ m →
    daysBeforeMonth leap m + daysInMonth leap m ≤ daysBeforeMonth leap n := by
  decide

/-- The days before the next year are those of this year more. -/
lemma daysBeforeYear_succ {year : ℕ} (pos : 1 ≤ year) :
    daysBeforeYear (year + 1) = daysBeforeYear year + (365 + if isLeap year then 1 else 0) := by
  obtain ⟨y, rfl⟩ : ∃ y, year = y + 1 := ⟨year - 1, by omega⟩
  have le : y / 100 ≤ y / 4 := Nat.div_le_div_left (by decide) (by decide)
  unfold daysBeforeYear isLeap
  simp only [Nat.add_sub_cancel, Nat.succ_div, Nat.dvd_iff_mod_eq_zero]
  by_cases four : (y + 1) % 4 = 0
  · by_cases century : (y + 1) % 100 = 0
    · by_cases cycle : (y + 1) % 400 = 0
      · simp [four, century, cycle]
        omega
      · simp [four, century, cycle]
        omega
    · have cycle : (y + 1) % 400 ≠ 0 := by omega
      simp [four, century, cycle]
      omega
  · have century : (y + 1) % 100 ≠ 0 := by omega
    have cycle : (y + 1) % 400 ≠ 0 := by omega
    simp [four, century, cycle]
    omega

/-- Later years have more days before them. -/
lemma daysBeforeYear_mono {a b : ℕ} (le : a ≤ b) : daysBeforeYear a ≤ daysBeforeYear b := by
  induction le with
  | refl => exact Nat.le_refl _
  | @step b _ ih =>
    refine Nat.le_trans ih ?_
    rcases Nat.eq_zero_or_pos b with rfl | pos
    · exact Nat.zero_le _
    · rw [daysBeforeYear_succ pos]
      exact Nat.le_add_right _ _

/-- The year of a date is that of its number. -/
lemma toOrdinal_within {d : Date} (valid : d.valid = true) :
    daysBeforeYear d.year < toOrdinal d ∧ toOrdinal d ≤ daysBeforeYear (d.year + 1) := by
  simp only [Date.valid, Bool.and_eq_true, decide_eq_true_eq] at valid
  obtain ⟨⟨⟨⟨⟨year, -⟩, -⟩, month⟩, day⟩, day'⟩ := valid
  have inYear := daysInMonth_le (isLeap d.year) d.month month
  rw [daysBeforeYear_succ year]
  unfold toOrdinal
  omega

/-- Different dates have different numbers. -/
theorem toOrdinal_injective {d e : Date} (hd : d.valid = true) (he : e.valid = true)
    (same : toOrdinal d = toOrdinal e) : d = e := by
  obtain ⟨dLow, dHigh⟩ := toOrdinal_within hd
  obtain ⟨eLow, eHigh⟩ := toOrdinal_within he
  have year : d.year = e.year := by
    rcases Nat.lt_trichotomy d.year e.year with lt | eq | lt
    · have := daysBeforeYear_mono (show d.year + 1 ≤ e.year from lt)
      omega
    · exact eq
    · have := daysBeforeYear_mono (show e.year + 1 ≤ d.year from lt)
      omega
  obtain ⟨y, m, n⟩ := d
  obtain ⟨z, k, l⟩ := e
  dsimp only at year
  subst year
  simp only [Date.valid, Bool.and_eq_true, decide_eq_true_eq] at hd he
  obtain ⟨⟨⟨⟨-, m1⟩, m12⟩, n1⟩, nLast⟩ := hd
  obtain ⟨⟨⟨⟨-, k1⟩, k12⟩, l1⟩, lLast⟩ := he
  unfold toOrdinal at same
  dsimp only at same
  rcases Nat.lt_trichotomy m k with lt | rfl | lt
  · have := daysBeforeMonth_add_le (isLeap y) k k12 m lt m1
    omega
  · obtain rfl : n = l := by omega
    rfl
  · have := daysBeforeMonth_add_le (isLeap y) m m12 k lt k1
    omega

/-- The date of a date's number is the date. -/
theorem fromOrdinal_toOrdinal {d : Date} (valid : d.valid = true) : fromOrdinal (toOrdinal d) = d := by
  obtain ⟨pos, le⟩ := toOrdinal_le valid
  exact toOrdinal_injective (valid_fromOrdinal pos le) valid (toOrdinal_fromOrdinal pos)
/-- A date of any year. -/
structure CivilDate where
  year : ℤ
  month : ℕ
  day : ℕ
deriving DecidableEq

/-- The days of 400 years, after which the calendar repeats itself. -/
def cycleDays : ℤ := 146097

/-- The date of any day. -/
def ofDay (n : ℤ) : CivilDate :=
  let d := fromOrdinal ((n - 1) % cycleDays + 1).toNat
  ⟨(n - 1) / cycleDays * 400 + d.year, d.month, d.day⟩

/-- The number of any date. -/
def toDay (d : CivilDate) : ℤ :=
  (d.year - 1) / 400 * cycleDays + toOrdinal ⟨((d.year - 1) % 400 + 1).toNat, d.month, d.day⟩

/-- The first cycle has the years 1 to 400. -/
lemma year_fromOrdinal {n : ℕ} (pos : 0 < n) (le : n ≤ 146097) :
    1 ≤ (fromOrdinal n).year ∧ (fromOrdinal n).year ≤ 400 := by
  unfold fromOrdinal
  dsimp only
  split <;> dsimp only <;> omega

/-- A day is counted back from its civil date. -/
theorem toDay_ofDay (n : ℤ) : toDay (ofDay n) = n := by
  have pos : 0 < ((n - 1) % cycleDays + 1).toNat := by unfold cycleDays; omega
  have le : ((n - 1) % cycleDays + 1).toNat ≤ 146097 := by unfold cycleDays; omega
  obtain ⟨low, high⟩ := year_fromOrdinal pos le
  have cycle : ((n - 1) / cycleDays * 400 + (fromOrdinal ((n - 1) % cycleDays + 1).toNat).year - 1) / 400 =
      (n - 1) / cycleDays := by omega
  have year : (((n - 1) / cycleDays * 400 + (fromOrdinal ((n - 1) % cycleDays + 1).toNat).year - 1) % 400 +
      1).toNat = (fromOrdinal ((n - 1) % cycleDays + 1).toNat).year := by omega
  rw [toDay, ofDay]
  dsimp only
  rw [cycle, year, toOrdinal_fromOrdinal pos]
  unfold cycleDays
  omega

/-- The month of the year has the day. -/
def CivilDate.valid (d : CivilDate) : Bool :=
  Date.valid ⟨((d.year - 1) % 400 + 1).toNat, d.month, d.day⟩

/-- A valid civil date is counted back from its day. -/
theorem ofDay_toDay {d : CivilDate} (valid : d.valid = true) : ofDay (toDay d) = d := by
  have year : ((d.year - 1) % 400 + 1).toNat ≤ 400 := by omega
  obtain ⟨pos, -⟩ := toOrdinal_le valid
  obtain ⟨-, high⟩ := toOrdinal_within valid
  have le := Nat.le_trans high (daysBeforeYear_mono (Nat.succ_le_succ year))
  change _ ≤ 146097 at le
  have days := fromOrdinal_toOrdinal valid
  unfold ofDay toDay
  generalize toOrdinal ⟨((d.year - 1) % 400 + 1).toNat, d.month, d.day⟩ = n at pos le days
  have within : ((d.year - 1) / 400 * cycleDays + n - 1) % cycleDays = n - 1 := by unfold cycleDays; omega
  have cycle : ((d.year - 1) / 400 * cycleDays + n - 1) / cycleDays = (d.year - 1) / 400 := by
    unfold cycleDays
    omega
  have number : ((n : ℤ) - 1 + 1).toNat = n := by omega
  rw [within, cycle, number, days]
  dsimp only
  have same : (d.year - 1) / 400 * 400 + (((d.year - 1) % 400 + 1).toNat : ℤ) = d.year := by omega
  rw [same]

/-- The month and day of a civil date are within bounds. -/
lemma ofDay_bounds (n : ℤ) : 1 ≤ (ofDay n).month ∧ (ofDay n).month ≤ 12 ∧ 1 ≤ (ofDay n).day ∧
    (ofDay n).day ≤ 31 := fromOrdinal_bounds _

/-- Bounds of a cycle of years are bounds of its days. -/
lemma natAbs_year_ofDay {n : ℤ} (low : -146097000 < n) (high : n < 146097000) :
    (ofDay n).year.natAbs < 1000000 := by
  obtain ⟨first, last⟩ := year_fromOrdinal (n := ((n - 1) % cycleDays + 1).toNat)
    (by unfold cycleDays; omega) (by unfold cycleDays; omega)
  simp only [ofDay]
  unfold cycleDays at first last ⊢
  omega

end CLL.Calendar
