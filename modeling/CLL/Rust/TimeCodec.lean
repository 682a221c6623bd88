import CLL.Lib.Calendar
import CLL.Lib.Checked
import CLL.Rust.Time
import Mathlib.Tactic.Ring

/-!
# The time codec in Rust

`days_from_civil` and `civil_from_days` are the two directions of the calendar of `Lib/Calendar`, over all
years.
-/

namespace CLL.Rust.Log
open Calendar Checked

/-- Days of a year that begins in March, up to the first of a month. -/
def marchDays (monthIndex : ℤ) : ℤ := (153 * monthIndex + 2) / 5

/-- A day of an era has a century, a cycle of four years, a year and a day of it. -/
lemma exists_parts (doe : ℤ) (low : 0 ≤ doe) (high : doe ≤ 146096) :
    ∃ c q r d : ℤ, doe = 36524 * c + 1461 * q + 365 * r + d ∧ 0 ≤ c ∧ c ≤ 3 ∧ 0 ≤ q ∧ q ≤ 24 ∧ 0 ≤ r ∧
      r ≤ 3 ∧ 0 ≤ d ∧ d ≤ 365 ∧ (d = 365 → r = 3 ∧ (q ≠ 24 ∨ c = 3)) := by
  let c := min (doe / 36524) 3
  let q := (doe - 36524 * c) / 1461
  let r := min ((doe - 36524 * c - 1461 * q) / 365) 3
  refine ⟨c, q, r, doe - 36524 * c - 1461 * q - 365 * r, ?_, ?_, ?_, ?_, ?_, ?_, ?_, ?_, ?_, ?_⟩
  all_goals simp only [c, q, r]
  all_goals omega

/-- The year of an era that a day is in. -/
lemma yearOfEra_parts {c q r d : ℤ} (hc : 0 ≤ c ∧ c ≤ 3) (hq : 0 ≤ q ∧ q ≤ 24) (hr : 0 ≤ r ∧ r ≤ 3)
    (hd : 0 ≤ d ∧ d ≤ 365) (leap : d = 365 → r = 3 ∧ (q ≠ 24 ∨ c = 3)) :
    let doe := 36524 * c + 1461 * q + 365 * r + d
    (doe - doe / 1460 + doe / 36524 - doe / 146096) / 365 = 100 * c + 4 * q + r := by
  intro doe
  -- Only the last day of an era counts in both of the last two quotients.
  have century : doe / 36524 - doe / 146096 = c := by
    rcases Int.lt_or_le doe 146096 with lt | last
    · have whole : doe / 146096 = 0 := by omega
      have within : 36524 * c ≤ doe ∧ doe < 36524 * (c + 1) := by omega
      omega
    · have parts : c = 3 ∧ doe = 146096 := by omega
      omega
  rcases Int.lt_or_le (24 * c + q + 365 * r + d) 1460 with lt | ge
  · have cycle : doe / 1460 = 25 * c + q := by omega
    omega
  · have cycle : doe / 1460 = 25 * c + q + 1 := by omega
    omega

/-- Days from the first of March of the year 0 to that of a year. -/
def marchYear (year : ℤ) : ℤ := 365 * year + year / 4 - year / 100 + year / 400

/-- A day is counted from the first of March. -/
lemma daysFromCivil_march (year month day : ℤ) : daysFromCivil year month day =
    marchYear (if month ≤ 2 then year - 1 else year) + marchDays ((month + 9) % 12) + day - 719469 := by
  unfold daysFromCivil
  generalize (if month ≤ 2 then year - 1 else year) = y
  have four : y / 4 = 100 * (y / 400) + (y - y / 400 * 400) / 4 := by omega
  have century : y / 100 = 4 * (y / 400) + (y - y / 400 * 400) / 100 := by omega
  unfold marchYear marchDays
  dsimp only
  omega

/-- The years are counted in cycles of 400, 100 and 4 years. -/
lemma marchYear_parts {e c q r : ℤ} (hc : 0 ≤ c) (hc' : c ≤ 3) (hq : 0 ≤ q) (hq' : q ≤ 24) (hr : 0 ≤ r)
    (hr' : r ≤ 3) : marchYear (100 * c + 4 * q + r + e * 400) =
      e * 146097 + 36524 * c + 1461 * q + 365 * r := by
  have four : (100 * c + 4 * q + r + e * 400) / 4 = 100 * e + 25 * c + q := by omega
  have century : (100 * c + 4 * q + r + e * 400) / 100 = 4 * e + c := by omega
  have cycle : (100 * c + 4 * q + r + e * 400) / 400 = e := by omega
  unfold marchYear
  omega

/-- The year of the cycle of 400 years that a year is. -/
def cycleYear (year : ℤ) : ℕ := ((year - 1) % 400 + 1).toNat

/-- A day of the proleptic calendar is counted from the first of March. -/
lemma toDay_march (d : CivilDate) :
    toDay d = marchYear (d.year - 1) + daysBeforeMonth (isLeap (cycleYear d.year)) d.month + d.day := by
  have cycle : ((cycleYear d.year - 1 : ℕ) : ℤ) = (d.year - 1) % 400 := by unfold cycleYear; omega
  have before : (daysBeforeYear (cycleYear d.year) : ℤ) = marchYear ((d.year - 1) % 400) := by
    unfold daysBeforeYear marchYear
    omega
  have parts : marchYear (d.year - 1) = (d.year - 1) / 400 * cycleDays + marchYear ((d.year - 1) % 400) := by
    unfold marchYear cycleDays
    omega
  show (d.year - 1) / 400 * cycleDays + (toOrdinal ⟨cycleYear d.year, d.month, d.day⟩ : ℤ) = _
  rw [toOrdinal, parts]
  push_cast
  rw [before]
  ring

/-- A year from March on has 365 days or, when leap, 366. -/
lemma marchYear_succ (year : ℤ) :
    marchYear year = marchYear (year - 1) + 365 + if isLeap (cycleYear year) then 1 else 0 := by
  have leap : isLeap (cycleYear year) = true ↔ year % 4 = 0 ∧ (year % 100 ≠ 0 ∨ year % 400 = 0) := by
    simp only [isLeap, Bool.and_eq_true, Bool.or_eq_true, decide_eq_true_eq]
    unfold cycleYear
    omega
  unfold marchYear
  split
  · next yes =>
    have := leap.mp yes
    omega
  · next no =>
    have := mt leap.mpr no
    omega

/-- The number of a date in arithmetic is that of the calendar. -/
theorem daysFromCivil_eq {d : CivilDate} (first : 1 ≤ d.month) (last : d.month ≤ 12) :
    daysFromCivil d.year d.month d.day = toDay d - 719163 := by
  rw [daysFromCivil_march, toDay_march]
  have months : ∀ m : ℕ, 1 ≤ m → m ≤ 12 → marchDays ((m + 9) % 12) + (if (m : ℤ) ≤ 2 then 0 else 365) =
      daysBefore m + 306 := by decide
  have month := months d.month first last
  by_cases early : (d.month : ℤ) ≤ 2
  · rw [if_pos early] at month ⊢
    rw [daysBeforeMonth, if_neg (by omega)]
    omega
  · rw [if_neg early] at month ⊢
    rw [marchYear_succ, daysBeforeMonth]
    have late : 2 < d.month := by omega
    simp only [late, true_and]
    push_cast
    omega

/-- A year is leap by the rule of 4, 100 and 400. -/
lemma isLeap_cycleYear {year : ℤ} :
    isLeap (cycleYear year) = true ↔ year % 4 = 0 ∧ (year % 100 ≠ 0 ∨ year % 400 = 0) := by
  simp only [isLeap, Bool.and_eq_true, Bool.or_eq_true, decide_eq_true_eq]
  unfold cycleYear
  omega

/-- The months of a year that begins in March are as long as those of the calendar. -/
lemma daysInMonth_march : ∀ leap : Bool, ∀ i : ℕ, i ≤ 10 →
    marchDays (i + 1) - marchDays i = daysInMonth leap (if i < 10 then i + 3 else i - 9) := by
  decide

/-- The month of a day of a year that begins in March. -/
lemma exists_monthIndex {d : ℤ} (low : 0 ≤ d) (high : d ≤ 365) : ∃ i : ℕ, i ≤ 11 ∧
    (5 * d + 2) / 153 = i ∧ marchDays i ≤ d ∧ d < marchDays (i + 1) := by
  refine ⟨((5 * d + 2) / 153).toNat, ?_⟩
  unfold marchDays
  omega

/-- The day of the year within the cycles. -/
lemma dayOfYear_parts {c q r : ℤ} (hq : 0 ≤ q ∧ q ≤ 24) (hr : 0 ≤ r ∧ r ≤ 3) (d : ℤ) :
    36524 * c + 1461 * q + 365 * r + d - (365 * (100 * c + 4 * q + r) + (100 * c + 4 * q + r) / 4 -
      (100 * c + 4 * q + r) / 100) = d := by
  have four : (100 * c + 4 * q + r) / 4 = 25 * c + q := by omega
  have century : (100 * c + 4 * q + r) / 100 = c := by omega
  omega

/-- The date of a day of a year that begins in March. -/
lemma valid_march {e c q r d : ℤ} (hq : 0 ≤ q ∧ q ≤ 24) (hr : 0 ≤ r ∧ r ≤ 3)
    (hd : 0 ≤ d ∧ d ≤ 365) (leap : d = 365 → r = 3 ∧ (q ≠ 24 ∨ c = 3)) {i : ℕ} (le : i ≤ 11)
    (low : marchDays i ≤ d) (high : d < marchDays (i + 1)) :
    (CivilDate.valid ⟨100 * c + 4 * q + r + e * 400 + if i < 10 then 0 else 1,
      if i < 10 then i + 3 else i - 9, (d - marchDays i + 1).toNat⟩) = true := by
  have month : 1 ≤ (if i < 10 then i + 3 else i - 9) ∧ (if i < 10 then i + 3 else i - 9) ≤ 12 := by
    split <;> omega
  simp only [CivilDate.valid, Date.valid, Bool.and_eq_true, decide_eq_true_eq]
  change ((((1 ≤ cycleYear _ ∧ cycleYear _ ≤ 9999) ∧ _) ∧ _) ∧ _) ∧ _ ≤ daysInMonth (isLeap (cycleYear _)) _
  have year (y : ℤ) : 1 ≤ cycleYear y ∧ cycleYear y ≤ 9999 := by unfold cycleYear; omega
  refine ⟨⟨⟨⟨year _, month.1⟩, month.2⟩, by omega⟩, ?_⟩
  rcases Nat.lt_or_ge i 11 with lt | ge
  · have length := daysInMonth_march (isLeap (cycleYear
      (100 * c + 4 * q + r + e * 400 + if i < 10 then 0 else 1))) i (by omega)
    omega
  · obtain rfl : i = 11 := by omega
    have first : marchDays (11 : ℕ) = 337 := rfl
    rcases Int.lt_or_le d 365 with common | last
    · have length : 28 ≤ daysInMonth (isLeap (cycleYear
          (100 * c + 4 * q + r + e * 400 + if 11 < 10 then 0 else 1))) 2 := Nat.le_add_right _ _
      show _ ≤ daysInMonth _ 2
      omega
    -- The year after the one that begins in March is a leap year.
    · obtain ⟨rfl, other⟩ := leap (by omega)
      have leapYear : isLeap (cycleYear (100 * c + 4 * q + 3 + e * 400 + if 11 < 10 then 0 else 1)) =
          true := by
        rw [isLeap_cycleYear, if_neg (by decide)]
        omega
      rw [leapYear]
      show _ ≤ 29
      omega

/-- `civil_from_days` gives the date of the calendar. -/
theorem civilFromDays_eq (n : ℤ) : civilFromDays n = ((ofDay (n + 719163)).year,
    ((ofDay (n + 719163)).month : ℤ), ((ofDay (n + 719163)).day : ℤ)) := by
  obtain ⟨c, q, r, d, parts, hc, hc', hq, hq', hr, hr', hd, hd', leap⟩ :=
    exists_parts (n + 719468 - (n + 719468) / 146097 * 146097) (by omega) (by omega)
  have yearOfEra := yearOfEra_parts ⟨hc, hc'⟩ ⟨hq, hq'⟩ ⟨hr, hr'⟩ ⟨hd, hd'⟩ leap
  have dayOfYear := dayOfYear_parts (c := c) ⟨hq, hq'⟩ ⟨hr, hr'⟩ d
  obtain ⟨i, le, index, low, high⟩ := exists_monthIndex hd hd'
  have valid := valid_march (e := (n + 719468) / 146097) ⟨hq, hq'⟩ ⟨hr, hr'⟩ ⟨hd, hd'⟩ leap le low high
  generalize date : CivilDate.mk (100 * c + 4 * q + r + (n + 719468) / 146097 * 400 + if i < 10 then 0 else 1)
    (if i < 10 then i + 3 else i - 9) (d - marchDays i + 1).toNat = D at valid
  have civil : civilFromDays n = (D.year, (D.month : ℤ), (D.day : ℤ)) := by
    unfold civilFromDays
    dsimp only
    rw [parts, yearOfEra, dayOfYear, index, ← date]
    unfold marchDays at low ⊢
    clear yearOfEra dayOfYear leap
    refine Prod.ext ?_ (Prod.ext ?_ ?_) <;> dsimp only
    · split_ifs <;> omega
    · split_ifs <;> omega
    · omega
  have month : 1 ≤ D.month ∧ D.month ≤ 12 := by
    rw [← date]
    dsimp only
    split <;> omega
  have march : (if (D.month : ℤ) ≤ 2 then D.year - 1 else D.year) =
      100 * c + 4 * q + r + (n + 719468) / 146097 * 400 := by
    rw [← date]
    dsimp only
    split <;> split <;> omega
  have monthIndex : ((D.month : ℤ) + 9) % 12 = i := by
    rw [← date]
    dsimp only
    split <;> omega
  have day : (D.day : ℤ) = d - marchDays i + 1 := by
    rw [← date]
    dsimp only
    omega
  have number : toDay D = n + 719163 := by
    have days := daysFromCivil_eq month.1 month.2
    rw [daysFromCivil_march, march, monthIndex, marchYear_parts hc hc' hq hq' hr hr', day] at days
    omega
  rw [← number, ofDay_toDay valid, civil]

/-- `days_from_civil`, with every operation checked. -/
def daysFromCivilChecked (year month day : ℤ) : Option ℤ := do
  let year ← (if month ≤ 2 then i64.sub year 1 else some year : Option ℤ)
  let era := year / 400
  let yearOfEra ← i64.sub year (← i64.mul era 400)
  let monthIndex := (← i64.add month 9).tmod 12
  let dayOfYear ← i64.sub (← i64.add ((← i64.add (← i64.mul 153 monthIndex) 2).tdiv 5) day) 1
  let dayOfEra ← i64.add (← i64.sub (← i64.add (← i64.mul yearOfEra 365) (yearOfEra.tdiv 4))
    (yearOfEra.tdiv 100)) dayOfYear
  i64.sub (← i64.add (← i64.mul era 146097) dayOfEra) 719468

/-- The days of a date within bounds do not overflow. -/
lemma daysFromCivilChecked_eq {year month day : ℤ} (year_ : -1000000 ≤ year ∧ year ≤ 1000000)
    (month_ : 1 ≤ month ∧ month ≤ 12) (day_ : 0 ≤ day ∧ day ≤ 99) :
    daysFromCivilChecked year month day = some (daysFromCivil year month day) := by
  obtain ⟨y, low, high, exact_, checked⟩ : ∃ y, -1000001 ≤ y ∧ y ≤ 1000000 ∧
      (if month ≤ 2 then year - 1 else year) = y ∧
      (if month ≤ 2 then i64.sub year 1 else some year) = some y := by
    split
    · exact ⟨year - 1, by omega, by omega, rfl, i64_check (by omega) (by omega)⟩
    · exact ⟨year, by omega, by omega, rfl, rfl⟩
  obtain ⟨era, hera⟩ : ∃ era, y / 400 = era := ⟨_, rfl⟩
  obtain ⟨yearOfEra, hyear⟩ : ∃ yearOfEra, y - era * 400 = yearOfEra := ⟨_, rfl⟩
  have within : 0 ≤ yearOfEra ∧ yearOfEra ≤ 399 ∧ -2501 ≤ era ∧ era ≤ 2500 := by omega
  obtain ⟨monthIndex, hmonth⟩ : ∃ monthIndex, (month + 9) % 12 = monthIndex := ⟨_, rfl⟩
  have index : 0 ≤ monthIndex ∧ monthIndex ≤ 11 := by omega
  clear year_
  unfold daysFromCivilChecked daysFromCivil
  rw [checked, Option.bind_eq_bind, Option.bind_some]
  dsimp only
  rw [exact_]
  have four : yearOfEra.tdiv 4 = yearOfEra / 4 := Int.tdiv_eq_ediv_of_nonneg within.1
  have century : yearOfEra.tdiv 100 = yearOfEra / 100 := Int.tdiv_eq_ediv_of_nonneg within.1
  have months : (153 * monthIndex + 2).tdiv 5 = (153 * monthIndex + 2) / 5 :=
    Int.tdiv_eq_ediv_of_nonneg (by omega)
  have modulo : (month + 9).tmod 12 = monthIndex := by rw [Int.tmod_eq_emod_of_nonneg (by omega), hmonth]
  simp only [Range.add, Range.sub, Range.mul, hera]
  rw [i64_check (by omega) (by omega), Option.bind_some, hyear, i64_check (by omega) (by omega),
    Option.bind_some, i64_check (by omega) (by omega), Option.bind_some, modulo, hmonth]
  rw [i64_check (by omega) (by omega), Option.bind_some, i64_check (by omega) (by omega), Option.bind_some,
    months]
  repeat rw [i64_check (by omega) (by omega), Option.bind_some]
  rw [i64_check (by omega) (by omega), four, century]

/-- `civil_from_days`, with every operation checked. -/
def civilFromDaysChecked (days : ℤ) : Option (ℤ × ℤ × ℤ) := do
  let days ← i64.add days 719468
  let era := days / 146097
  let dayOfEra ← i64.sub days (← i64.mul era 146097)
  let yearOfEra := (← i64.sub (← i64.add (← i64.sub dayOfEra (dayOfEra.tdiv 1460))
    (dayOfEra.tdiv 36524)) (dayOfEra.tdiv 146096)).tdiv 365
  let dayOfYear ← i64.sub dayOfEra
    (← i64.sub (← i64.add (← i64.mul 365 yearOfEra) (yearOfEra.tdiv 4)) (yearOfEra.tdiv 100))
  let monthIndex := (← i64.add (← i64.mul 5 dayOfYear) 2).tdiv 153
  let day ← i64.add (← i64.sub dayOfYear ((← i64.add (← i64.mul 153 monthIndex) 2).tdiv 5)) 1
  let month ← (if monthIndex < 10 then i64.add monthIndex 3 else i64.sub monthIndex 9 : Option ℤ)
  let year ← i64.add (← i64.add yearOfEra (← i64.mul era 400)) (if month ≤ 2 then 1 else 0)
  some (year, month, day)

/-- The date of days within bounds does not overflow. -/
lemma civilFromDaysChecked_eq {days : ℤ} (low : -1000000000000 ≤ days) (high : days ≤ 1000000000000) :
    civilFromDaysChecked days = some (civilFromDays days) := by
  obtain ⟨shifted, hdays⟩ : ∃ shifted, days + 719468 = shifted := ⟨_, rfl⟩
  obtain ⟨era, hera⟩ : ∃ era, shifted / 146097 = era := ⟨_, rfl⟩
  obtain ⟨doe, hdoe⟩ : ∃ doe, shifted - era * 146097 = doe := ⟨_, rfl⟩
  have inEra : 0 ≤ doe ∧ doe ≤ 146096 ∧ -7000000 ≤ era ∧ era ≤ 7000000 := by omega
  obtain ⟨c, q, r, d, parts, hc, hc', hq, hq', hr, hr', hd, hd', leap⟩ := exists_parts doe inEra.1 inEra.2.1
  obtain ⟨yoe, hyoe, inYears⟩ : ∃ yoe, 100 * c + 4 * q + r = yoe ∧ 0 ≤ yoe ∧ yoe ≤ 399 :=
    ⟨_, rfl, by omega, by omega⟩
  obtain ⟨monthIndex, hmonth, index⟩ : ∃ monthIndex, (5 * d + 2) / 153 = monthIndex ∧
    0 ≤ monthIndex ∧ monthIndex ≤ 11 := ⟨_, rfl, by omega, by omega⟩
  have yearOfEra := yearOfEra_parts ⟨hc, hc'⟩ ⟨hq, hq'⟩ ⟨hr, hr'⟩ ⟨hd, hd'⟩ leap
  have dayOfYear := dayOfYear_parts (c := c) ⟨hq, hq'⟩ ⟨hr, hr'⟩ d
  dsimp only at yearOfEra
  rw [← parts, hyoe] at yearOfEra dayOfYear
  clear leap hyoe parts low high hc hc' hq hq' hr hr'
  -- Every quotient is of a number that is not negative, so `tdiv` is the floor.
  have quotients : 0 ≤ doe / 1460 ∧ doe / 1460 ≤ doe ∧ 0 ≤ doe / 36524 ∧ doe / 36524 ≤ 4 ∧
      0 ≤ doe / 146096 ∧ doe / 146096 ≤ 1 := by omega
  have years : (doe - doe / 1460 + doe / 36524 - doe / 146096).tdiv 365 = yoe := by
    rw [Int.tdiv_eq_ediv_of_nonneg (by omega), yearOfEra]
  have first : doe.tdiv 1460 = doe / 1460 := Int.tdiv_eq_ediv_of_nonneg inEra.1
  have second : doe.tdiv 36524 = doe / 36524 := Int.tdiv_eq_ediv_of_nonneg inEra.1
  have third : doe.tdiv 146096 = doe / 146096 := Int.tdiv_eq_ediv_of_nonneg inEra.1
  have four : yoe.tdiv 4 = yoe / 4 := Int.tdiv_eq_ediv_of_nonneg inYears.1
  have century : yoe.tdiv 100 = yoe / 100 := Int.tdiv_eq_ediv_of_nonneg inYears.1
  have index' : (5 * d + 2).tdiv 153 = monthIndex := by
    rw [Int.tdiv_eq_ediv_of_nonneg (by omega), hmonth]
  have before : (153 * monthIndex + 2).tdiv 5 = (153 * monthIndex + 2) / 5 :=
    Int.tdiv_eq_ediv_of_nonneg (by omega)
  have exact_ : civilFromDays days = (yoe + era * 400 +
      (if (if monthIndex < 10 then monthIndex + 3 else monthIndex - 9) ≤ 2 then 1 else 0),
      if monthIndex < 10 then monthIndex + 3 else monthIndex - 9, d - (153 * monthIndex + 2) / 5 + 1) := by
    unfold civilFromDays
    dsimp only
    rw [hdays, hera, hdoe, yearOfEra, dayOfYear, hmonth]
  rw [exact_]
  -- One line for each operation of the source, in its order.
  refine i64_bind hdays (by omega) (by omega) ?_
  refine i64_bind (congrArg (· * 146097) hera) (by omega) (by omega) ?_
  refine i64_bind hdoe (by omega) (by omega) ?_
  refine i64_bind (congrArg (doe - ·) first) (by omega) (by omega) ?_
  refine i64_bind (congrArg (_ + ·) second) (by omega) (by omega) ?_
  refine i64_bind (congrArg (_ - ·) third) (by omega) (by omega) ?_
  refine i64_bind (congrArg (365 * ·) years) (by omega) (by omega) ?_
  rw [years, hera, four, century]
  refine i64_bind rfl (by omega) (by omega) ?_
  refine i64_bind rfl (by omega) (by omega) ?_
  refine i64_bind dayOfYear (by omega) (by omega) ?_
  refine i64_bind rfl (by omega) (by omega) ?_
  refine i64_bind rfl (by omega) (by omega) ?_
  rw [index']
  refine i64_bind rfl (by omega) (by omega) ?_
  refine i64_bind rfl (by omega) (by omega) ?_
  rw [before]
  refine i64_bind rfl (by omega) (by omega) ?_
  refine i64_bind rfl (by omega) (by omega) ?_
  clear hmonth index' before yearOfEra dayOfYear years first second third four century exact_ quotients
  have year (month : ℤ) : (do
      let eras ← i64.mul era 400
      let sum ← i64.add yoe eras
      let year ← i64.add sum (if month ≤ 2 then 1 else 0)
      some (year, month, d - (153 * monthIndex + 2) / 5 + 1)) =
      some (yoe + era * 400 + (if month ≤ 2 then 1 else 0), month, d - (153 * monthIndex + 2) / 5 + 1) := by
    refine i64_bind rfl (by omega) (by omega) ?_
    refine i64_bind rfl (by omega) (by omega) ?_
    exact i64_bind rfl (by split <;> omega) (by split <;> omega) rfl
  split
  · exact i64_bind rfl (by omega) (by omega) (year _)
  · exact i64_bind rfl (by omega) (by omega) (year _)

/-- `format_unchecked`, with every operation checked. -/
def formatChecked (millis : ℤ) : Option Str := do
  let days := millis / millisPerDay
  let ofDay := (millis % millisPerDay).toNat
  let (year, month, day) ← civilFromDaysChecked days
  let magnitude ← (if year < 0 then i64.neg year else some year : Option ℤ)
  let text := if 0 ≤ year ∧ year ≤ 9999 then Decimal.pad 4 magnitude.toNat
    else if year < 0 then 45 :: Decimal.pad 6 magnitude.toNat
    else 43 :: Decimal.pad 6 magnitude.toNat
  some (text ++ 45 :: (Decimal.pad 2 month.toNat ++ 45 :: (Decimal.pad 2 day.toNat ++
    84 :: (Decimal.pad 2 (ofDay / 3600000) ++ 58 :: (Decimal.pad 2 (ofDay / 60000 % 60) ++
    58 :: (Decimal.pad 2 (ofDay / 1000 % 60) ++ 46 :: (Decimal.pad 3 (ofDay % 1000) ++ [90])))))))

/-- `number` of `parse`, with every operation checked. -/
def numberChecked (text : Str) (start length : ℕ) : OptionT Option ℤ := do
  let digits := (text.drop start).take length
  guard (digits.length = length)
  digits.foldlM (fun acc b => do
    guard (Decimal.isDigit b)
    let tens ← OptionT.lift (i64.mul acc 10)
    OptionT.lift (i64.add tens (b - 48))) 0

/-- `parse`, with every operation checked. -/
def parseChecked (text : Str) : OptionT Option Timestamp := do
  let (sign, yearDigits) ← OptionT.mk (some (yearForm text))
  let yearStart := if yearDigits = 6 then 1 else 0
  let rest := yearStart + yearDigits
  guard (text.length = rest + 20)
  guard (∀ s ∈ separators, text[rest + s.1]? = some s.2)
  let year ← numberChecked text yearStart yearDigits
  let year ← OptionT.lift (i64.mul sign year)
  let month ← numberChecked text (rest + 1) 2
  let day ← numberChecked text (rest + 4) 2
  let hour ← numberChecked text (rest + 7) 2
  let minute ← numberChecked text (rest + 10) 2
  let second ← numberChecked text (rest + 13) 2
  let milli ← numberChecked text (rest + 16) 3
  guard (1 ≤ month ∧ month ≤ 12 ∧ 1 ≤ day ∧ hour ≤ 23 ∧ minute ≤ 59 ∧ second ≤ 59)
  let days ← OptionT.lift (daysFromCivilChecked year month day)
  let date ← OptionT.lift (civilFromDaysChecked days)
  guard (date = (year, month, day))
  let date ← OptionT.lift (i64.mul days millisPerDay)
  let minutes ← OptionT.lift (do i64.add (← i64.mul hour 60) minute)
  let seconds ← OptionT.lift (do i64.add (← i64.mul minutes 60) second)
  let date ← OptionT.lift (do i64.add date (← i64.mul seconds 1000))
  let millis ← OptionT.lift (i64.add date milli)
  let again ← OptionT.lift (formatChecked millis)
  guard (again = text)
  pure ⟨.ofInt millis⟩

/-- The year of days within bounds is within bounds. -/
lemma year_civilFromDays {days : ℤ} (low : -1000000000000 ≤ days) (high : days ≤ 1000000000000) :
    -3000000000 ≤ (civilFromDays days).1 ∧ (civilFromDays days).1 ≤ 3000000000 := by
  have cycle := year_fromOrdinal (n := ((days + 719163 - 1) % cycleDays + 1).toNat)
    (by unfold cycleDays; omega) (by unfold cycleDays; omega)
  rw [civilFromDays_eq]
  simp only [ofDay]
  unfold cycleDays at cycle ⊢
  omega

/-- A time within bounds is formatted without overflow. -/
lemma formatChecked_eq {n : ℤ} (low : -86400000000000000000 ≤ n) (high : n ≤ 86400000000000000000) :
    formatChecked n = some (formatUnchecked n) := by
  have days : -1000000000000 ≤ n / millisPerDay ∧ n / millisPerDay ≤ 1000000000000 := by
    unfold millisPerDay
    omega
  have within := year_civilFromDays days.1 days.2
  have date := civilFromDaysChecked_eq days.1 days.2
  generalize e : civilFromDays (n / millisPerDay) = civil at within date
  obtain ⟨year, month, day⟩ := civil
  dsimp only at within
  have magnitude : (if year < 0 then i64.neg year else some year) = some (if year < 0 then -year else year) := by
    split
    · exact i64_check (by omega) (by omega)
    · exact rfl
  unfold formatChecked formatUnchecked yearText
  dsimp only
  rw [date, e, Option.bind_eq_bind, Option.bind_some, magnitude, Option.bind_eq_bind, Option.bind_some]
  dsimp only
  split
  · next common => rw [if_neg (by omega)]
  · split <;> rfl

/-- A digit is read without an overflow. -/
lemma digit_runs {acc : ℤ} {b : ℕ} (low : 0 ≤ acc) (high : acc < 10 ^ 17) :
    Runs (do
      guard (Decimal.isDigit b)
      let tens ← OptionT.lift (i64.mul acc 10)
      OptionT.lift (i64.add tens (b - 48)))
      (if Decimal.isDigit b then some (acc * 10 + (b - 48)) else none) := by
  by_cases digit : Decimal.isDigit b = true
  · have range := digit
    simp only [Decimal.isDigit, Bool.and_eq_true, decide_eq_true_eq] at range
    have tens : i64.mul acc 10 = some (acc * 10) := i64_check (by omega) (by omega)
    have sum : i64.add (acc * 10) (b - 48) = some (acc * 10 + (b - 48)) := i64_check (by omega) (by omega)
    rw [if_pos digit, tens]
    simp only [guard, if_pos digit]
    change Runs (OptionT.lift (i64.add (acc * 10) (b - 48))) _
    rw [sum]
    exact rfl
  · rw [if_neg digit]
    simp only [guard, if_neg digit]
    exact rfl

/-- The digits of a number are read without an overflow, up to eighteen of them. -/
lemma digits_runs {s : Str} {acc : ℤ} {read : ℕ} (low : 0 ≤ acc) (high : acc < 10 ^ read)
    (short : read + s.length ≤ 18) :
    Runs (s.foldlM (fun acc b => do
      guard (Decimal.isDigit b)
      let tens ← OptionT.lift (i64.mul acc 10)
      OptionT.lift (i64.add tens (b - 48))) acc)
      (if s.all Decimal.isDigit then some (acc * 10 ^ s.length + Decimal.value s) else none) := by
  induction s generalizing acc read with
  | nil => exact congrArg some (by simp [Decimal.value])
  | cons b s ih =>
    rw [List.length_cons] at short
    have power : (10 : ℤ) ^ read ≤ 10 ^ 17 := pow_le_pow_right₀ (by decide) (by omega)
    have first := digit_runs (b := b) low (Int.lt_of_lt_of_le high power)
    have whole := first.bind fun next e => by
      -- The digit read is one more of the eighteen.
      have range : 0 ≤ next ∧ next < 10 ^ (read + 1) := by
        rw [Option.ite_none_right_eq_some] at e
        obtain ⟨digit, e⟩ := e
        simp only [Decimal.isDigit, Bool.and_eq_true, decide_eq_true_eq] at digit
        cases e
        rw [pow_succ]
        omega
      exact ih range.1 range.2 (by omega)
    · rw [List.foldlM_cons]
      refine (congrArg (Runs _) ?_).mp whole
      by_cases digit : Decimal.isDigit b = true
      · have range := digit
        simp only [Decimal.isDigit, Bool.and_eq_true, decide_eq_true_eq] at range
        have value : (acc * 10 + (b - 48)) * 10 ^ s.length + Decimal.value s =
            acc * 10 ^ (s.length + 1) + (Decimal.value (b :: s) : ℤ) := by
          rw [Decimal.value_cons]
          push_cast [range.1]
          ring
        rw [if_pos digit, List.all_cons, digit, Bool.true_and, List.length_cons, ← value]
        exact rfl
      · rw [if_neg digit, List.all_cons, eq_false_of_ne_true digit]
        exact rfl

/-- A short number is read without overflow. -/
lemma number_runs (text : Str) (start : ℕ) {length : ℕ} (short : length ≤ 17) :
    Runs (numberChecked text start length) (number text start length) := by
  unfold numberChecked number
  by_cases whole : ((text.drop start).take length).length = length
  · have digits := digits_runs (s := (text.drop start).take length) (le_refl (0 : ℤ))
      (by decide : (0 : ℤ) < 10 ^ 0) (by omega)
    simp only [guard, whole, true_and]
    rw [Int.zero_mul, Int.zero_add] at digits
    exact digits
  · simp only [guard, whole, false_and, if_false]
    exact rfl

/-- A number of some digits is below the next power of ten. -/
lemma number_bounds {text : Str} {start length : ℕ} {n : ℤ} (e : number text start length = some n) :
    0 ≤ n ∧ n < 10 ^ length := by
  rw [number, Option.ite_none_right_eq_some] at e
  obtain ⟨⟨whole, digits⟩, e⟩ := e
  have lt := Decimal.value_lt (List.all_eq_true.mp digits)
  rw [whole] at lt
  cases e
  exact ⟨Int.natCast_nonneg _, mod_cast lt⟩

/-- A year has a sign and four or six digits. -/
lemma yearForm_cases {text : Str} {sign : ℤ} {digits : ℕ} (e : yearForm text = some (sign, digits)) :
    (sign = 1 ∨ sign = -1) ∧ (digits = 4 ∨ digits = 6) := by
  unfold yearForm at e
  split at e
  · cases e
  all_goals cases e; decide

/-- The days of a date within bounds are within bounds. -/
lemma daysFromCivil_bounds {year day : ℤ} (month : ℤ) (hy : -1000000 ≤ year ∧ year ≤ 1000000)
    (hd : 0 ≤ day ∧ day ≤ 99) :
    -400000000 ≤ daysFromCivil year month day ∧ daysFromCivil year month day ≤ 400000000 := by
  rw [daysFromCivil_march]
  unfold marchYear marchDays
  split <;> omega

/-- The arithmetic of the parser after the fields are read. -/
lemma millis_runs {days hour minute second milli : ℤ} (hdays : -400000000 ≤ days ∧ days ≤ 400000000)
    (hhour : 0 ≤ hour ∧ hour < 100) (hminute : 0 ≤ minute ∧ minute < 100)
    (hsecond : 0 ≤ second ∧ second < 100) (hmilli : 0 ≤ milli ∧ milli < 1000) (text : Str) :
    Runs (do
      let date ← OptionT.lift (i64.mul days millisPerDay)
      let minutes ← OptionT.lift (do i64.add (← i64.mul hour 60) minute)
      let seconds ← OptionT.lift (do i64.add (← i64.mul minutes 60) second)
      let date ← OptionT.lift (do i64.add date (← i64.mul seconds 1000))
      let millis ← OptionT.lift (i64.add date milli)
      let again ← OptionT.lift (formatChecked millis)
      guard (again = text)
      pure (⟨.ofInt millis⟩ : Timestamp))
      (do
        let millis := days * millisPerDay + ((hour * 60 + minute) * 60 + second) * 1000 + milli
        guard (formatUnchecked millis = text)
        some ⟨.ofInt millis⟩) := by
  rw [show millisPerDay = 86400000 from rfl]
  refine Runs.step (i64_check (by omega) (by omega)) ?_
  refine Runs.step (i64_bind rfl (by omega) (by omega) (i64_check (by omega) (by omega))) ?_
  refine Runs.step (i64_bind rfl (by omega) (by omega) (i64_check (by omega) (by omega))) ?_
  refine Runs.step (i64_bind rfl (by omega) (by omega) (i64_check (by omega) (by omega))) ?_
  refine Runs.step (i64_check (by omega) (by omega)) ?_
  refine Runs.step (formatChecked_eq (by omega) (by omega)) ?_
  exact (Runs.test _).bind fun _ _ => Runs.done _

/-- No operation of the parser overflows, whatever the text. -/
theorem parse_runs (text : Str) : Runs (parseChecked text) (parse text) := by
  unfold parseChecked parse
  refine Runs.bind rfl fun form hform => ?_
  obtain ⟨sign, digits⟩ := form
  obtain ⟨hsign, hdigits⟩ := yearForm_cases hform
  dsimp only
  refine (Runs.test _).bind fun _ _ => ?_
  refine (Runs.test _).bind fun _ _ => ?_
  refine (number_runs _ _ (by omega)).bind fun year hyear => ?_
  have bounds := number_bounds hyear
  have power : (10 : ℤ) ^ digits ≤ 1000000 := by rcases hdigits with rfl | rfl <;> decide
  have signed : -1000000 ≤ sign * year ∧ sign * year ≤ 1000000 := by
    rcases hsign with rfl | rfl <;> omega
  refine Runs.step (i64_check (by omega) (by omega)) ?_
  refine (number_runs _ _ (by decide)).bind fun month _ => ?_
  refine (number_runs _ _ (by decide)).bind fun day hday => ?_
  refine (number_runs _ _ (by decide)).bind fun hour hhour => ?_
  refine (number_runs _ _ (by decide)).bind fun minute hminute => ?_
  refine (number_runs _ _ (by decide)).bind fun second hsecond => ?_
  refine (number_runs _ _ (by decide)).bind fun milli hmilli => ?_
  refine (Runs.test _).bind fun _ htest => ?_
  obtain ⟨low, high, -⟩ := (Option.guard_eq_some' _).mp htest
  have day := number_bounds hday
  have days := daysFromCivil_bounds month signed ⟨day.1, by omega⟩
  refine Runs.step (daysFromCivilChecked_eq signed ⟨low, high⟩ ⟨day.1, by omega⟩) ?_
  refine Runs.step (civilFromDaysChecked_eq (by omega) (by omega)) ?_
  refine (Runs.test _).bind fun _ _ => ?_
  exact millis_runs days (number_bounds hhour) (number_bounds hminute) (number_bounds hsecond)
    (number_bounds hmilli) text

/-- `-%02d-%02dT%02d:%02d:%02d.%03dZ` of `format_unchecked`. -/
def dateText (month day hour minute second millis : ℕ) : Str :=
  45 :: (Decimal.pad 2 month ++ 45 :: (Decimal.pad 2 day ++ 84 :: (Decimal.pad 2 hour ++
    58 :: (Decimal.pad 2 minute ++ 58 :: (Decimal.pad 2 second ++ 46 :: (Decimal.pad 3 millis ++ [90]))))))

/-- A date text has twenty characters, the separators among them. -/
lemma dateText_form {month day hour minute second millis : ℕ} (hmonth : month < 100)
    (hday : day < 100) (hhour : hour < 100) (hminute : minute < 100) (hsecond : second < 100)
    (hmillis : millis < 1000) :
    (dateText month day hour minute second millis).length = 20 ∧
      ∀ p ∈ separators, (dateText month day hour minute second millis)[p.1]? = some p.2 := by
  obtain ⟨a, b, eMonth⟩ := Decimal.pad_two hmonth
  obtain ⟨c, d, eDay⟩ := Decimal.pad_two hday
  obtain ⟨e, f, eHour⟩ := Decimal.pad_two hhour
  obtain ⟨g, h, eMinute⟩ := Decimal.pad_two hminute
  obtain ⟨i, j, eSecond⟩ := Decimal.pad_two hsecond
  obtain ⟨k, l, m, eMillis⟩ := Decimal.pad_three hmillis
  rw [dateText, eMonth, eDay, eHour, eMinute, eSecond, eMillis]
  simp [separators]

/-- The fields behind the year are read where they stand. -/
lemma number_tail {head : Str} (tail : Str) (start length : ℕ) :
    number (head ++ tail) (head.length + start) length = number tail start length := by
  simp only [number, List.drop_append, Nat.add_sub_cancel_left]
  rw [List.drop_eq_nil_of_le (Nat.le_add_right _ _), List.nil_append]

/-- A number that was filled up to its width is read as what it was. -/
lemma number_pad {w n : ℕ} (pos : 0 < w) (lt : n < 10 ^ w) (head tail : Str) :
    number (head ++ (Decimal.pad w n ++ tail)) head.length w = some (n : ℤ) := by
  have length := Decimal.length_pad pos lt
  have digits : (Decimal.pad w n).all Decimal.isDigit = true :=
    List.all_eq_true.mpr fun c hc => Decimal.isDigit_pad hc
  rw [number, List.drop_left, List.take_left' length, if_pos ⟨length, digits⟩, Decimal.value_pad]

/-- The year of a text is read as what it was. -/
lemma number_yearText {year : ℤ} (small : year.natAbs < 1000000) (tail : Str) :
    ∃ sign digits value, yearForm (yearText year ++ tail) = some (sign, digits) ∧
      (if digits = 6 then 1 else 0) + digits = (yearText year).length ∧
      number (yearText year ++ tail) (if digits = 6 then 1 else 0) digits = some value ∧
      sign * value = year := by
  unfold yearText
  split
  · next common =>
    have length : (Decimal.pad 4 year.toNat).length = 4 := Decimal.length_pad (by decide) (by omega)
    refine ⟨1, 4, year.toNat, ?_, length.symm, number_pad (by decide) (by omega) [] tail, by omega⟩
    cases e : Decimal.pad 4 year.toNat with
    | nil => rw [e] at length; cases length
    | cons c s =>
      have digit : Decimal.isDigit c = true := Decimal.isDigit_pad (e ▸ List.mem_cons_self)
      simp only [Decimal.isDigit, Bool.and_eq_true, decide_eq_true_eq] at digit
      rw [List.cons_append]
      unfold yearForm
      split
      · next h => cases h
      · next h => cases h; omega
      · next h => cases h; omega
      · exact rfl
  · split
    · next neg =>
      have lt : (-year).toNat < 10 ^ 6 := by omega
      exact ⟨-1, 6, (-year).toNat, rfl, congrArg (· + 1) (Decimal.length_pad (by decide) lt).symm |>.trans rfl,
        number_pad (by decide) lt [45] tail, by omega⟩
    · next pos =>
      have lt : year.toNat < 10 ^ 6 := by omega
      exact ⟨1, 6, year.toNat, rfl, congrArg (· + 1) (Decimal.length_pad (by decide) lt).symm |>.trans rfl,
        number_pad (by decide) lt [43] tail, by omega⟩

/-- The fields of a date text are what it was made of. -/
lemma number_dateText {month day hour minute second millis : ℕ} (hmonth : month < 100) (hday : day < 100)
    (hhour : hour < 100) (hminute : minute < 100) (hsecond : second < 100) (hmillis : millis < 1000) :
    let tail := dateText month day hour minute second millis
    number tail 1 2 = some (month : ℤ) ∧ number tail 4 2 = some (day : ℤ) ∧
      number tail 7 2 = some (hour : ℤ) ∧ number tail 10 2 = some (minute : ℤ) ∧
      number tail 13 2 = some (second : ℤ) ∧ number tail 16 3 = some (millis : ℤ) := by
  obtain ⟨a, b, eMonth⟩ := Decimal.pad_two hmonth
  obtain ⟨c, d, eDay⟩ := Decimal.pad_two hday
  obtain ⟨e, f, eHour⟩ := Decimal.pad_two hhour
  obtain ⟨g, h, eMinute⟩ := Decimal.pad_two hminute
  obtain ⟨i, j, eSecond⟩ := Decimal.pad_two hsecond
  obtain ⟨k, l, m, eMillis⟩ := Decimal.pad_three hmillis
  intro tail
  have text : tail = [45, a, b, 45, c, d, 84, e, f, 58, g, h, 58, i, j, 46, k, l, m, 90] := by
    simp only [tail]
    rw [dateText, eMonth, eDay, eHour, eMinute, eSecond, eMillis]
    rfl
  have two {n x y : ℕ} (lt : n < 100) (same : Decimal.pad 2 n = [x, y]) : number [x, y] 0 2 = some (n : ℤ) :=
    same ▸ List.append_nil (Decimal.pad 2 n) ▸ number_pad (by decide) lt [] []
  have three : number [k, l, m] 0 3 = some (millis : ℤ) :=
    eMillis ▸ List.append_nil (Decimal.pad 3 millis) ▸ number_pad (by decide) hmillis [] []
  rw [text]
  exact ⟨two hmonth eMonth, two hday eDay, two hhour eHour, two hminute eMinute, two hsecond eSecond, three⟩

/-- A time is parsed from its text. -/
theorem parse_formatUnchecked {n : ℤ} (low : -10000000000000000 ≤ n) (high : n ≤ 10000000000000000) :
    parse (formatUnchecked n) = some ⟨.ofInt n⟩ := by
  obtain ⟨month, month', first, day⟩ := ofDay_bounds (n / millisPerDay + 719163)
  have year : (ofDay (n / millisPerDay + 719163)).year.natAbs < 1000000 :=
    natAbs_year_ofDay (by unfold millisPerDay; omega) (by unfold millisPerDay; omega)
  have days := (daysFromCivil_eq month month').trans
    ((congrArg (· - 719163) (toDay_ofDay _)).trans (add_sub_cancel_right _ _))
  have civil := civilFromDays_eq (n / millisPerDay)
  have whole : formatUnchecked n = yearText (ofDay (n / millisPerDay + 719163)).year ++ dateText
      (ofDay (n / millisPerDay + 719163)).month (ofDay (n / millisPerDay + 719163)).day
      ((n % millisPerDay).toNat / 3600000) ((n % millisPerDay).toNat / 60000 % 60)
      ((n % millisPerDay).toNat / 1000 % 60) ((n % millisPerDay).toNat % 1000) := by
    unfold formatUnchecked
    dsimp only
    rw [civil]
    exact rfl
  generalize ofDay (n / millisPerDay + 719163) = d at month month' first day year days civil whole
  have hour : (n % millisPerDay).toNat / 3600000 < 24 := by unfold millisPerDay; omega
  have minute : (n % millisPerDay).toNat / 60000 % 60 < 60 := Nat.mod_lt _ (by decide)
  have second : (n % millisPerDay).toNat / 1000 % 60 < 60 := Nat.mod_lt _ (by decide)
  have milli : (n % millisPerDay).toNat % 1000 < 1000 := Nat.mod_lt _ (by decide)
  -- The fields of the time of day make up the milliseconds again.
  have millis : n / millisPerDay * millisPerDay + ((((n % millisPerDay).toNat / 3600000 : ℕ) * 60 +
      ((n % millisPerDay).toNat / 60000 % 60 : ℕ)) * 60 + ((n % millisPerDay).toNat / 1000 % 60 : ℕ)) * 1000 +
      ((n % millisPerDay).toNat % 1000 : ℕ) = n := by
    unfold millisPerDay
    omega
  generalize (n % millisPerDay).toNat / 3600000 = hh at hour whole millis
  generalize (n % millisPerDay).toNat / 60000 % 60 = mm at minute whole millis
  generalize (n % millisPerDay).toNat / 1000 % 60 = ss at second whole millis
  generalize (n % millisPerDay).toNat % 1000 = ms at milli whole millis
  generalize tail_ : dateText d.month d.day hh mm ss ms = tail at whole
  have month_ : d.month < 100 := by omega
  have day_ : d.day < 100 := by omega
  have hour_ : hh < 100 := by omega
  have minute_ : mm < 100 := by omega
  have second_ : ss < 100 := by omega
  obtain ⟨length, marks⟩ := dateText_form month_ day_ hour_ minute_ second_ milli
  obtain ⟨atMonth, atDay, atHour, atMinute, atSecond, atMillis⟩ :=
    number_dateText month_ day_ hour_ minute_ second_ milli
  rw [tail_] at length marks atMonth atDay atHour atMinute atSecond atMillis
  obtain ⟨sign, digits, value, form, width, atYear, signed⟩ := number_yearText year tail
  have form' : (yearText d.year ++ tail).length = (yearText d.year).length + 20 := by
    rw [List.length_append, length]
  -- The marks stand at fixed places after the year.
  have marks' : ∀ s ∈ separators, (yearText d.year ++ tail)[(yearText d.year).length + s.1]? = some s.2 := by
    intro s mem
    rw [List.getElem?_append_right (Nat.le_add_right _ _), Nat.add_sub_cancel_left]
    exact marks s mem
  have fields : 1 ≤ (d.month : ℤ) ∧ (d.month : ℤ) ≤ 12 ∧ 1 ≤ (d.day : ℤ) ∧ (hh : ℤ) ≤ 23 ∧ (mm : ℤ) ≤ 59 ∧
      (ss : ℤ) ≤ 59 := by
    clear days civil whole form width atYear signed form' marks' millis
    omega
  unfold parse
  rw [whole, form, Option.bind_eq_bind, Option.bind_some]
  dsimp only
  rw [width, atYear, number_tail, number_tail, number_tail, number_tail, number_tail, number_tail, atMonth,
    atDay, atHour, atMinute, atSecond, atMillis]
  have ok {p : Prop} [Decidable p] (holds : p) : (guard p : Option Unit) = some () := if_pos holds
  simp only [ok form', ok marks', ok fields, Option.bind_eq_bind, Option.bind_some, signed, days, ok civil,
    millis, ok whole]

/-- A parsed text is the text of the time, whose milliseconds are far inside the range. -/
lemma parse_canonical {text : Str} {t : Timestamp} (parsed : parse text = some t) :
    ∃ n : ℤ, -40000000000000000 ≤ n ∧ n ≤ 40000000000000000 ∧ t = ⟨.ofInt n⟩ ∧ formatUnchecked n = text := by
  unfold parse at parsed
  simp only [Option.bind_eq_bind, Option.bind_eq_some_iff, Option.guard_eq_some'] at parsed
  obtain ⟨⟨sign, digits⟩, hform, -, -, -, -, year, hyear, month, -, day, hday, hour, hhour, minute, hminute,
    second, hsecond, milli, hmilli, -, -, -, -, -, canonical, e⟩ := parsed
  obtain ⟨hsign, hdigits⟩ := yearForm_cases hform
  dsimp only at hyear canonical e
  have signed : -1000000 ≤ sign * year ∧ sign * year ≤ 1000000 := by
    have bounds := number_bounds hyear
    have power : (10 : ℤ) ^ digits ≤ 1000000 := by rcases hdigits with rfl | rfl <;> decide
    rcases hsign with rfl | rfl <;> omega
  have days := number_bounds hday
  have days := daysFromCivil_bounds month signed (⟨days.1, by omega⟩ : 0 ≤ day ∧ day ≤ 99)
  have hours := number_bounds hhour
  have minutes := number_bounds hminute
  have seconds := number_bounds hsecond
  have millis := number_bounds hmilli
  have scale : daysFromCivil (sign * year) month day * millisPerDay =
    daysFromCivil (sign * year) month day * 86400000 := rfl
  exact ⟨_, by omega, by omega, (Option.some.inj e).symm, canonical⟩

/-- A count that fits is its own word. -/
lemma toInt_ofInt {n : ℤ} (low : -40000000000000000 ≤ n) (high : n ≤ 40000000000000000) :
    (Int64.ofInt n).toInt = n :=
  Int64.toInt_ofInt_of_le (by omega) (by omega)

/-- Years of four digits are portable. -/
lemma portable_of_year {n : ℤ} (low : 0 ≤ (civilFromDays (n / millisPerDay)).1)
    (high : (civilFromDays (n / millisPerDay)).1 ≤ 9999) : -8640000000000000 ≤ n ∧ n ≤ 8640000000000000 := by
  rw [civilFromDays_eq] at low high
  simp only [ofDay] at low high
  have cycle := year_fromOrdinal (n := ((n / millisPerDay + 719163 - 1) % cycleDays + 1).toNat)
    (by unfold cycleDays; omega) (by unfold cycleDays; omega)
  unfold millisPerDay cycleDays at *
  omega

/-- `parse` and `format_unchecked` are inverse on the years of four digits, only the text of a time is
accepted, the calendar is a bijection of the days and the dates of all years, and no operation overflows. -/
theorem timestamp_codec :
    (∀ t : Timestamp, 0 ≤ (civilFromDays (t.millis.toInt / millisPerDay)).1 →
      (civilFromDays (t.millis.toInt / millisPerDay)).1 ≤ 9999 →
        formatChecked t.millis.toInt = some (formatUnchecked t.millis.toInt) ∧
          t.toIsoString = .ok (formatUnchecked t.millis.toInt) ∧
          Timestamp.parse (formatUnchecked t.millis.toInt) = .ok t) ∧
    (∀ text t, Timestamp.parse text = .ok t → formatUnchecked t.millis.toInt = text) ∧
    (∀ days, daysFromCivil (civilFromDays days).1 (civilFromDays days).2.1 (civilFromDays days).2.2 = days) ∧
    (∀ d : CivilDate, d.valid = true →
      civilFromDays (daysFromCivil d.year d.month d.day) = (d.year, (d.month : ℤ), (d.day : ℤ))) ∧
    ∀ text, Runs (parseChecked text) (parse text) := by
  refine ⟨fun t low high => ?_, fun text t e => ?_, fun days => ?_, fun d valid => ?_, parse_runs⟩
  · obtain ⟨low, high⟩ := portable_of_year low high
    have parsed := parse_formatUnchecked (n := t.millis.toInt) (by omega) (by omega)
    rw [Int64.ofInt_toInt] at parsed
    refine ⟨formatChecked_eq (by omega) (by omega), ?_, congrArg (okOr · _) parsed⟩
    have portable : t.isPortable = true := by
      rw [Timestamp.isPortable, Bool.and_eq_true, decide_eq_true_eq, decide_eq_true_eq]
      exact ⟨low, high⟩
    rw [Timestamp.toIsoString, reject_of_not (not_not.mpr portable)]
    exact rfl
  · have parsed : parse text = some t := by
      unfold Timestamp.parse okOr at e
      split at e
      · next same => cases e; exact same
      · cases e
    obtain ⟨n, low, high, rfl, canonical⟩ := parse_canonical parsed
    rw [toInt_ofInt low high, canonical]
  · obtain ⟨month, month', -⟩ := ofDay_bounds (days + 719163)
    rw [civilFromDays_eq, daysFromCivil_eq month month', toDay_ofDay, Int.add_sub_cancel]
  · have month : 1 ≤ d.month ∧ d.month ≤ 12 := by
      simp only [CivilDate.valid, Date.valid, Bool.and_eq_true, decide_eq_true_eq] at valid
      exact ⟨valid.1.1.1.2, valid.1.1.2⟩
    rw [civilFromDays_eq, daysFromCivil_eq month.1 month.2, Int.sub_add_cancel, ofDay_toDay valid]

/-- The last day of February of 2000. -/
theorem timestamp_codec_leapDay :
    formatUnchecked 951782400000 = Str.lit "2000-02-29T00:00:00.000Z" ∧
      Timestamp.parse (Str.lit "2000-02-29T00:00:00.000Z") = .ok ⟨951782400000⟩ := by
  have text : formatUnchecked 951782400000 = Str.lit "2000-02-29T00:00:00.000Z" := by rfl
  have codec := (timestamp_codec.1 ⟨951782400000⟩ (by decide) (by decide)).2.2
  exact ⟨text, text ▸ codec⟩

end CLL.Rust.Log
