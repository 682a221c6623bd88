import Mathlib.Data.List.DropRight
import CLL.Log.Wire

/-!
# Times in TypeScript

`formatTime` of `ts/src/checkpoint-verify.ts` over the dates of JavaScript. A time value may lie in a year
before 0 or after 9999, which is written with a sign and six digits. What `Date.parse` does with a string is
a parameter. `formatTime_idem_iff` says that a formatted time is formatted as itself exactly if its year has
four digits.
-/

namespace CLL.Ts
open Calendar Decimal
open CLL.Log (digitsThen)

/-- A time value: milliseconds since 1970-01-01T00:00:00Z. -/
abbrev TimeValue := {t : ℤ // -8640000000000000 ≤ t ∧ t ≤ 8640000000000000}

/-- The years put before the year 0, a multiple of the cycle of the calendar. -/
def yearShift : ℕ := 280000

/-- The number of 1970-01-01 in the calendar with those years. -/
def epochOrdinal : ℕ := 102987063

/-- The date in that calendar. -/
def dateOf (t : TimeValue) : Calendar.Date := fromOrdinal (t.1 / 86400000 + epochOrdinal).toNat

/-- `getUTCFullYear`. -/
def yearOf (t : TimeValue) : ℤ := (dateOf t).year - yearShift

/-- The milliseconds of the day. -/
def timeOfDay (t : TimeValue) : ℕ := (t.1 % 86400000).toNat

/-- The year as `toISOString` writes it. -/
def yearText (year : ℤ) : Str :=
  if 0 ≤ year ∧ year ≤ 9999 then pad 4 year.toNat
  else (if year < 0 then 45 else 43) :: pad 6 year.natAbs

/-- `toISOString` up to the seconds. -/
def isoSeconds (t : TimeValue) : Str :=
  yearText (yearOf t) ++ 45 :: (pad 2 (dateOf t).month ++ 45 :: (pad 2 (dateOf t).day ++ 84 ::
    (pad 2 (timeOfDay t / 3600000) ++ 58 :: (pad 2 (timeOfDay t / 60000 % 60) ++ 58 ::
      pad 2 (timeOfDay t / 1000 % 60)))))

/-- `toISOString`. -/
def toISOString (t : TimeValue) : Str := isoSeconds t ++ 46 :: (pad 3 (timeOfDay t % 1000) ++ [90])

/-- `Date | string`; `none` is an invalid date. -/
inductive Timestamp where
  | date (t : Option TimeValue)
  | text (value : Str)

/-- The character `0`. -/
def isZero (c : ℕ) : Bool := c = 48

/-- `.replace(/\.000Z$/u, "Z")`. -/
def replaceZeroMillis (s : Str) : Str :=
  if s.drop (s.length - 5) = Str.lit ".000Z" then s.take (s.length - 5) ++ [90] else s

/-- What stands before the zeros and the last character, reversed. -/
def beforeZeros (s : Str) : Str := s.reverse.tail.dropWhile isZero

/-- `.replace(/(\.\d*?[1-9])0+Z$/u, "$1Z")`. -/
def replaceTrailingZeros (s : Str) : Str :=
  if s.reverse.head? = some 90 ∧ (beforeZeros s).length + 1 < s.length ∧
      (beforeZeros s).head?.any isDigit = true ∧ ((beforeZeros s).dropWhile isDigit).head? = some 46 then
    (beforeZeros s).reverse ++ [90]
  else s

/-- `.replace(/0+$/u, "")`. -/
def trimZeros (s : Str) : Str := (s.reverse.dropWhile isZero).reverse

/-- A date and a time of day, `none` for a digit. -/
def secondsPattern : List (Option ℕ) :=
  [none, none, none, none, some 45, none, none, some 45, none, none, some 84, none, none, some 58, none, none,
    some 58, none, none]

/-- `[+-]\d\d:\d\d` after the sign. -/
def offsetPattern : List (Option ℕ) := [none, none, some 58, none, none]

/-- The characters are those of a pattern. -/
def fits : List (Option ℕ) → Str → Bool
  | [], [] => true
  | none :: pattern, c :: s => isDigit c && fits pattern s
  | some d :: pattern, c :: s => c = d && fits pattern s
  | _, _ => false

/-- `Z|[+-]\d\d:\d\d`. -/
def isZone : Str → Bool
  | [90] => true
  | sign :: offset => (sign = 43 || sign = 45) && fits offsetPattern offset
  | [] => false

/-- `(?:\.(\d{1,9}))?` and what follows it. -/
def matchFraction : Str → Option (Str × Str)
  | 46 :: rest =>
    let digits := rest.takeWhile isDigit
    if 1 ≤ digits.length ∧ digits.length ≤ 9 then some (digits, rest.dropWhile isDigit) else none
  | rest => some ([], rest)

/-- The groups of the pattern of `formatTime`. -/
def matchTime (value : Str) : Option (Str × Str × Str) := do
  guard (fits secondsPattern (value.take 19) = true)
  let (fraction, zone) ← matchFraction (value.drop 19)
  guard (isZone zone = true)
  some (value.take 19, fraction, zone)

/-- `.padEnd(9, "0")`. -/
def padEnd (s : Str) : Str := s ++ List.replicate (9 - s.length) 48

variable (parse : Str → Option TimeValue)

/-- A fraction as it is written, none if it is empty. -/
def fractionText (trimmed : Str) : Str := if trimmed = [] then [] else 46 :: trimmed

/-- `formatTime`. -/
def formatTime : Timestamp → Option Str
  | .date t => t.map fun t => replaceTrailingZeros (replaceZeroMillis (toISOString t))
  | .text value => do
    let (seconds, fraction, zone) ← matchTime value
    let fraction := padEnd fraction
    let parsed ← parse (seconds ++ 46 :: (fraction.take 3 ++ zone))
    let trimmed := trimZeros fraction
    some ((toISOString parsed).take 19 ++ (fractionText trimmed ++ [90]))

/-- The time value that a timestamp stands for, `none` where `formatTime` throws. -/
def instantOf : Timestamp → Option TimeValue
  | .date t => t
  | .text value => do
    let (seconds, fraction, zone) ← matchTime value
    parse (seconds ++ 46 :: ((padEnd fraction).take 3 ++ zone))

/-- The year has four digits. -/
def HasFourDigits (t : TimeValue) : Prop := 0 ≤ yearOf t ∧ yearOf t ≤ 9999

instance (t : TimeValue) : Decidable (HasFourDigits t) := instDecidableAnd

/-- `Date.parse` reads back what `toISOString` writes in the years of four digits. -/
def ReadsIso : Prop := ∀ t, HasFourDigits t → parse (toISOString t) = some t

/-- Padded digits fit their pattern. -/
lemma fits_pad {w n : ℕ} (pos : 0 < w) (lt : n < 10 ^ w) (pattern : List (Option ℕ)) (rest : Str) :
    fits (List.replicate w none ++ pattern) (pad w n ++ rest) = fits pattern rest := by
  have length := length_pad pos lt
  have digits : ∀ c ∈ pad w n, isDigit c = true := fun c hc => isDigit_pad hc
  generalize pad w n = s at length digits
  clear pos lt
  induction w generalizing s with
  | zero =>
    obtain rfl := List.length_eq_zero_iff.mp length
    rfl
  | succ w ih =>
    cases s with
    | nil => cases length
    | cons c s =>
      rw [List.replicate_succ, List.cons_append, List.cons_append, fits, digits c List.mem_cons_self,
        Bool.true_and]
      exact ih s (by simpa using length) fun c hc => digits c (List.mem_cons_of_mem _ hc)

/-- A mark fits its pattern. -/
lemma fits_mark (c : ℕ) (pattern : List (Option ℕ)) (rest : Str) :
    fits (some c :: pattern) (c :: rest) = fits pattern rest := by
  rw [fits, decide_eq_true rfl, Bool.true_and]

/-- The month, day and time of day are within bounds. -/
lemma dateOf_bounds (t : TimeValue) :
    (dateOf t).month < 100 ∧ (dateOf t).day < 100 ∧ timeOfDay t < 86400000 := by
  obtain ⟨-, month, -, day⟩ := fromOrdinal_bounds (t.1 / 86400000 + epochOrdinal).toNat
  unfold timeOfDay dateOf
  omega

/-- With a year of four digits the text has nineteen characters, those of the pattern. -/
lemma isoSeconds_fits {t : TimeValue} (four : HasFourDigits t) :
    fits secondsPattern (isoSeconds t) = true ∧ (isoSeconds t).length = 19 := by
  obtain ⟨month, day, ofDay⟩ := dateOf_bounds t
  obtain ⟨ge, le⟩ := four
  have year : (yearOf t).toNat < 10 ^ 4 := by omega
  have hour : timeOfDay t / 3600000 < 10 ^ 2 := by omega
  have minute : timeOfDay t / 60000 % 60 < 10 ^ 2 := by omega
  have second : timeOfDay t / 1000 % 60 < 10 ^ 2 := by omega
  have pattern : secondsPattern = List.replicate 4 none ++ some 45 :: (List.replicate 2 none ++ some 45 ::
      (List.replicate 2 none ++ some 84 :: (List.replicate 2 none ++ some 58 :: (List.replicate 2 none ++
        some 58 :: (List.replicate 2 none ++ []))))) := rfl
  rw [isoSeconds, yearText, if_pos ⟨ge, le⟩]
  constructor
  · rw [pattern, fits_pad (by norm_num) year, fits_mark, fits_pad (by norm_num) month, fits_mark,
      fits_pad (by norm_num) day, fits_mark, fits_pad (by norm_num) hour, fits_mark,
      fits_pad (by norm_num) minute, fits_mark, ← List.append_nil (pad 2 (timeOfDay t / 1000 % 60)),
      fits_pad (by norm_num) second]
    rfl
  · have two {n : ℕ} (lt : n < 10 ^ 2) : (pad 2 n).length = 2 := length_pad (by norm_num) lt
    have four : (pad 4 (yearOf t).toNat).length = 4 := length_pad (by norm_num) year
    simp only [List.length_append, List.length_cons, four, two month, two day, two hour, two minute,
      two second]

/-- With another year the text begins with a sign. -/
lemma isoSeconds_signed {t : TimeValue} (other : ¬HasFourDigits t) :
    ∃ sign rest, (sign = 43 ∨ sign = 45) ∧ isoSeconds t = sign :: rest := by
  unfold isoSeconds yearText
  rw [if_neg (show ¬(0 ≤ yearOf t ∧ yearOf t ≤ 9999) from other)]
  split
  · exact ⟨45, _, .inr rfl, rfl⟩
  · exact ⟨43, _, .inl rfl, rfl⟩

/-- Trailing zeros are trimmed. -/
lemma trimZeros_replicate (s : Str) (n : ℕ) : trimZeros (s ++ List.replicate n 48) = trimZeros s := by
  have zeros : (List.replicate n 48).dropWhile isZero = [] := by
    rw [List.dropWhile_eq_nil_iff]
    intro c hc
    exact decide_eq_true (List.eq_of_mem_replicate hc)
  rw [trimZeros, List.reverse_append, List.reverse_replicate, List.dropWhile_append, zeros]
  rfl

/-- Trimming twice trims once. -/
lemma trimZeros_trimZeros (s : Str) : trimZeros (trimZeros s) = trimZeros s := by
  rw [trimZeros, trimZeros, List.reverse_reverse, List.dropWhile_idempotent]

/-- Padded zeros are trimmed. -/
lemma trimZeros_padEnd (s : Str) : trimZeros (padEnd s) = trimZeros s := trimZeros_replicate s _

/-- What is left after trimming was there. -/
lemma mem_of_mem_trimZeros {s : Str} {c : ℕ} (mem : c ∈ trimZeros s) : c ∈ s :=
  List.mem_reverse.mp ((List.dropWhile_sublist _).mem (List.mem_reverse.mp mem))

/-- Trimming makes no text longer. -/
lemma length_trimZeros_le (s : Str) : (trimZeros s).length ≤ s.length := by
  rw [trimZeros, List.length_reverse]
  exact (List.dropWhile_sublist _).length_le.trans (List.length_reverse).le

/-- A fraction before the `Z` is read up to it. -/
lemma matchFraction_text {f : Str} (digits : ∀ c ∈ f, isDigit c = true) (le : f.length ≤ 9) :
    matchFraction (fractionText f ++ [90]) = some (f, [90]) := by
  unfold fractionText
  split
  · rename_i nil
    rw [nil]
    rfl
  · rename_i some_
    have take : (f ++ [90]).takeWhile isDigit = f := by
      rw [List.takeWhile_append_of_pos digits]
      simp [isDigit]
    have drop : (f ++ [90]).dropWhile isDigit = [90] := by
      rw [List.dropWhile_append_of_pos digits]
      rfl
    rw [List.cons_append, matchFraction, take, drop, if_pos ⟨List.length_pos_iff.mpr some_, le⟩]

/-- What the pattern finds in a formatted time. -/
lemma matchTime_text {t : TimeValue} (four : HasFourDigits t) {f : Str}
    (digits : ∀ c ∈ f, isDigit c = true) (le : f.length ≤ 9) :
    matchTime (isoSeconds t ++ (fractionText f ++ [90])) = some (isoSeconds t, f, [90]) := by
  obtain ⟨pattern, length⟩ := isoSeconds_fits four
  rw [matchTime, List.take_left' length, List.drop_left' length, pattern, matchFraction_text digits le]
  rfl

/-- What stands before the zeros of a text that ends in digits after a mark. -/
lemma beforeZeros_digits (a : Str) {mark : ℕ} (notZero : isZero mark = false) (d : Str) :
    beforeZeros (a ++ mark :: (d ++ [90])) = d.reverse.dropWhile isZero ++ mark :: a.reverse := by
  have reversed : (a ++ mark :: (d ++ [90])).reverse = 90 :: (d.reverse ++ mark :: a.reverse) := by simp
  rw [beforeZeros, reversed, List.tail_cons, List.dropWhile_append]
  split
  · rename_i nil
    rw [List.isEmpty_iff.mp nil, List.dropWhile_cons_of_neg (by simpa using notZero)]
    rfl
  · rfl

/-- The digits at the end stand after the mark. -/
lemma mark_digits (a : Str) {mark : ℕ} (notDigit : isDigit mark = false) {d : Str}
    (digits : ∀ c ∈ d, isDigit c = true) :
    ((d.reverse.dropWhile isZero ++ mark :: a.reverse).dropWhile isDigit).head? = some mark := by
  have kept : ∀ c ∈ d.reverse.dropWhile isZero, isDigit c = true := fun c hc =>
    digits c (List.mem_reverse.mp ((List.dropWhile_sublist _).mem hc))
  rw [List.dropWhile_append_of_pos kept, List.dropWhile_cons_of_neg (by simpa using notDigit)]
  rfl

/-- Zeros at the end of a fraction are dropped. -/
lemma replaceTrailingZeros_fraction (a : Str) {d : Str} (digits : ∀ c ∈ d, isDigit c = true)
    (some_ : trimZeros d ≠ []) :
    replaceTrailingZeros (a ++ 46 :: (d ++ [90])) = a ++ 46 :: (trimZeros d ++ [90]) := by
  have before := beforeZeros_digits a (show isZero 46 = false from rfl) d
  have point := mark_digits a (show isDigit 46 = false from rfl) digits
  have head : (d.reverse.dropWhile isZero ++ 46 :: a.reverse).head?.any isDigit = true := by
    cases e : d.reverse.dropWhile isZero with
    | nil => exact absurd (by rw [trimZeros, e]; rfl) some_
    | cons c s =>
      have mem : c ∈ d.reverse.dropWhile isZero := by rw [e]; exact List.mem_cons_self
      exact digits c (List.mem_reverse.mp ((List.dropWhile_sublist _).mem mem))
  unfold replaceTrailingZeros
  rw [before]
  split
  · simp [trimZeros]
  · rename_i whole
    -- Nothing was dropped.
    have same : d.reverse.dropWhile isZero = d.reverse := by
      refine (List.dropWhile_suffix _).eq_of_length_le ?_
      by_contra less
      refine whole ⟨by simp, ?_, head, point⟩
      simp only [List.length_append, List.length_cons, List.length_reverse, List.length_nil] at less ⊢
      omega
    rw [trimZeros, same, List.reverse_reverse]

/-- Without a fraction nothing is dropped. -/
lemma replaceTrailingZeros_seconds (a : Str) {d : Str} (digits : ∀ c ∈ d, isDigit c = true) :
    replaceTrailingZeros (a ++ 58 :: (d ++ [90])) = a ++ 58 :: (d ++ [90]) := by
  have before := beforeZeros_digits a (show isZero 58 = false from rfl) d
  have mark := mark_digits a (show isDigit 58 = false from rfl) digits
  unfold replaceTrailingZeros
  rw [before, mark, if_neg]
  rintro ⟨-, -, -, point⟩
  cases point

/-- What `formatTime` makes of a valid date. -/
lemma formatTime_date (t : TimeValue) :
    formatTime parse (.date (some t)) =
      some (isoSeconds t ++ (fractionText (trimZeros (pad 3 (timeOfDay t % 1000))) ++ [90])) := by
  have millis : timeOfDay t % 1000 < 10 ^ 3 := Nat.mod_lt _ (by norm_num)
  have length := length_pad (w := 3) (by norm_num) millis
  have digits : ∀ c ∈ pad 3 (timeOfDay t % 1000), isDigit c = true := fun c hc => isDigit_pad hc
  have last : (toISOString t).drop ((toISOString t).length - 5) = 46 :: (pad 3 (timeOfDay t % 1000) ++ [90]) ∧
      (toISOString t).take ((toISOString t).length - 5) = isoSeconds t := by
    have total : (toISOString t).length - 5 = (isoSeconds t).length := by
      simp [toISOString, length]
    rw [total, toISOString]
    exact ⟨List.drop_left' rfl, List.take_left' rfl⟩
  rw [formatTime, Option.map_some, replaceZeroMillis, last.1, last.2]
  congr 1
  split
  · rename_i zero
    have zero : pad 3 (timeOfDay t % 1000) = [48, 48, 48] := by
      have := List.cons.inj zero
      exact List.append_cancel_right this.2
    obtain ⟨a, d, hd, split⟩ : ∃ a d, (∀ c ∈ d, isDigit c = true) ∧ isoSeconds t = a ++ 58 :: d := by
      refine ⟨yearText (yearOf t) ++ 45 :: (pad 2 (dateOf t).month ++ 45 :: (pad 2 (dateOf t).day ++ 84 ::
        (pad 2 (timeOfDay t / 3600000) ++ 58 :: pad 2 (timeOfDay t / 60000 % 60)))),
        pad 2 (timeOfDay t / 1000 % 60), fun c hc => isDigit_pad hc, ?_⟩
      simp [isoSeconds]
    rw [split, List.append_assoc, List.cons_append, replaceTrailingZeros_seconds a hd, zero]
    exact (List.append_assoc a (58 :: d) [90]).symm
  · rename_i other
    have some_ : trimZeros (pad 3 (timeOfDay t % 1000)) ≠ [] := by
      intro nil
      have zeros : ∀ c ∈ pad 3 (timeOfDay t % 1000), c = 48 := by
        intro c hc
        rw [trimZeros, List.reverse_eq_nil_iff, List.dropWhile_eq_nil_iff] at nil
        exact of_decide_eq_true (nil c (List.mem_reverse.mpr hc))
      have same : pad 3 (timeOfDay t % 1000) = List.replicate 3 48 :=
        List.eq_replicate_iff.mpr ⟨length, zeros⟩
      exact other (by rw [same]; rfl)
    rw [toISOString, replaceTrailingZeros_fraction _ digits some_, fractionText, if_neg some_]
    rfl

/-- Every millisecond of a second has its own time value. -/
lemma exists_millis {t : TimeValue} (four : HasFourDigits t) {m : ℕ} (lt : m < 1000) :
    ∃ t', HasFourDigits t' ∧ isoSeconds t' = isoSeconds t ∧
      toISOString t' = isoSeconds t ++ 46 :: (pad 3 m ++ [90]) := by
  have bound : t.1 < 8640000000000000 := by
    by_contra last
    have le := t.2.2
    have last : t = ⟨8640000000000000, by norm_num⟩ := Subtype.ext (by show t.1 = 8640000000000000; omega)
    have year : yearOf ⟨8640000000000000, by norm_num⟩ = 275760 := by decide +kernel
    rw [last, HasFourDigits, year] at four
    omega
  have range := t.2
  let t' : TimeValue := ⟨t.1 - t.1 % 1000 + m, by omega⟩
  have days : t'.1 / 86400000 = t.1 / 86400000 := by
    show (t.1 - t.1 % 1000 + m) / 86400000 = _
    omega
  have ofDay : timeOfDay t' = timeOfDay t / 1000 * 1000 + m := by
    show ((t.1 - t.1 % 1000 + m) % 86400000).toNat = (t.1 % 86400000).toNat / 1000 * 1000 + m
    omega
  have date : dateOf t' = dateOf t := by rw [dateOf, days, dateOf]
  have year : yearOf t' = yearOf t := by rw [yearOf, date, yearOf]
  have seconds : isoSeconds t' = isoSeconds t := by
    have hour : timeOfDay t' / 3600000 = timeOfDay t / 3600000 := by omega
    have minute : timeOfDay t' / 60000 % 60 = timeOfDay t / 60000 % 60 := by omega
    have second : timeOfDay t' / 1000 % 60 = timeOfDay t / 1000 % 60 := by omega
    rw [isoSeconds, date, year, hour, minute, second, isoSeconds]
  have millis : timeOfDay t' % 1000 = m := by omega
  refine ⟨t', by rw [HasFourDigits, year]; exact four, seconds, ?_⟩
  rw [toISOString, seconds, millis]

variable {parse}

/-- The fraction that a formatted time has. -/
structure IsFraction (f : Str) : Prop where
  digits : ∀ c ∈ f, isDigit c = true
  length : f.length ≤ 9
  trimmed : trimZeros f = f

/-- A trimmed fraction is a fraction. -/
lemma isFraction_trimZeros {s : Str} (digits : ∀ c ∈ s, isDigit c = true) (length : s.length ≤ 9) :
    IsFraction (trimZeros s) :=
  ⟨fun c hc => digits c (mem_of_mem_trimZeros hc), (length_trimZeros_le s).trans length, trimZeros_trimZeros s⟩

/-- A matched fraction has at most nine digits. -/
lemma matchFraction_fraction {s fraction zone : Str} (found : matchFraction s = some (fraction, zone)) :
    (∀ c ∈ fraction, isDigit c = true) ∧ fraction.length ≤ 9 := by
  unfold matchFraction at found
  split at found
  · dsimp only at found
    split at found
    · rename_i bounds
      cases found
      exact ⟨fun c hc => List.mem_takeWhile_imp hc, bounds.2⟩
    · cases found
  · cases found
    exact ⟨fun c hc => (List.not_mem_nil hc).elim, Nat.zero_le 9⟩

/-- The pattern finds at most nine digits. -/
lemma matchTime_fraction {value seconds fraction zone : Str}
    (found : matchTime value = some (seconds, fraction, zone)) :
    (∀ c ∈ fraction, isDigit c = true) ∧ fraction.length ≤ 9 := by
  obtain ⟨-, -, found⟩ := Option.bind_eq_some_iff.mp found
  obtain ⟨⟨fraction', zone'⟩, inFraction, found⟩ := Option.bind_eq_some_iff.mp found
  obtain ⟨-, -, found⟩ := Option.bind_eq_some_iff.mp found
  cases found
  exact matchFraction_fraction inFraction

/-- A fraction filled up to nine digits. -/
lemma padEnd_fraction {f : Str} (digits : ∀ c ∈ f, isDigit c = true) (le : f.length ≤ 9) :
    (∀ c ∈ padEnd f, isDigit c = true) ∧ (padEnd f).length = 9 := by
  constructor
  · intro c hc
    rcases List.mem_append.mp hc with hc | hc
    · exact digits c hc
    · rw [List.eq_of_mem_replicate hc]
      rfl
  · rw [padEnd, List.length_append, List.length_replicate]
    omega

/-- A formatted time shows its second and a fraction, or begins with a sign. -/
lemma formatTime_eq_some {x : Timestamp} {s : Str} (formatted : formatTime parse x = some s) :
    ∃ t, instantOf parse x = some t ∧
      ((HasFourDigits t ∧ ∃ f, IsFraction f ∧ s = isoSeconds t ++ (fractionText f ++ [90])) ∨
        ¬HasFourDigits t ∧ ∃ sign rest, (sign = 43 ∨ sign = 45) ∧ s = sign :: rest) := by
  cases x with
  | date t =>
    cases t with
    | none => cases formatted
    | some t =>
      rw [formatTime_date] at formatted
      cases formatted
      refine ⟨t, rfl, ?_⟩
      by_cases four : HasFourDigits t
      · have millis : timeOfDay t % 1000 < 10 ^ 3 := Nat.mod_lt _ (by norm_num)
        have length : (pad 3 (timeOfDay t % 1000)).length ≤ 9 := by
          rw [length_pad (by norm_num) millis]
          norm_num
        exact .inl ⟨four, _, isFraction_trimZeros (fun c hc => isDigit_pad hc) length, rfl⟩
      · obtain ⟨sign, rest, isSign, text⟩ := isoSeconds_signed four
        exact .inr ⟨four, sign, _, isSign, by rw [text]; rfl⟩
  | text value =>
    obtain ⟨⟨seconds, fraction, zone⟩, found, formatted⟩ := Option.bind_eq_some_iff.mp formatted
    obtain ⟨t, parsed, formatted⟩ := Option.bind_eq_some_iff.mp formatted
    cases formatted
    refine ⟨t, Option.bind_eq_some_iff.mpr ⟨_, found, parsed⟩, ?_⟩
    by_cases four : HasFourDigits t
    · obtain ⟨digits, le⟩ := matchTime_fraction found
      obtain ⟨digits, length⟩ := padEnd_fraction digits le
      refine .inl ⟨four, _, isFraction_trimZeros digits length.le, ?_⟩
      rw [toISOString, List.take_left' (isoSeconds_fits four).2]
    · obtain ⟨sign, rest, isSign, text⟩ := isoSeconds_signed four
      exact .inr ⟨four, sign, _, isSign, by rw [toISOString, text]; rfl⟩

/-- A formatted time is formatted as itself exactly if its year has four digits. -/
theorem formatTime_idem_iff (reads : ReadsIso parse) {x : Timestamp} {s : Str} {t : TimeValue}
    (formatted : formatTime parse x = some s) (instant : instantOf parse x = some t) :
    formatTime parse (.text s) = some s ↔ HasFourDigits t := by
  obtain ⟨t', instant', shape⟩ := formatTime_eq_some formatted
  cases instant.symm.trans instant'
  rcases shape with ⟨four, f, fraction, rfl⟩ | ⟨other, sign, rest, isSign, rfl⟩
  · refine iff_of_true ?_ four
    obtain ⟨filled, length⟩ := padEnd_fraction fraction.digits fraction.length
    have three : ((padEnd f).take 3).length = 3 := by
      rw [List.length_take, length]
      rfl
    have digits : ∀ c ∈ (padEnd f).take 3, isDigit c = true := fun c hc => filled c (List.mem_of_mem_take hc)
    have lt : value ((padEnd f).take 3) < 1000 := by
      have := value_lt digits
      rwa [three] at this
    obtain ⟨t', four', seconds, text⟩ := exists_millis four lt
    rw [pad_value (by norm_num) three digits] at text
    have parsed := reads t' four'
    rw [text] at parsed
    have head : (toISOString t').take 19 = isoSeconds t := by
      rw [toISOString, seconds]
      exact List.take_left' (isoSeconds_fits four).2
    rw [formatTime, matchTime_text four fraction.digits fraction.length]
    simp only [Option.bind_eq_bind, Option.bind_some]
    rw [parsed, Option.bind_some, trimZeros_padEnd, fraction.trimmed, head]
  · refine iff_of_false (fun again => ?_) other
    have notDigit : isDigit sign = false := by rcases isSign with rfl | rfl <;> rfl
    have fails : matchTime (sign :: rest) = none := by
      rw [matchTime, List.take_succ_cons, secondsPattern, fits, notDigit]
      rfl
    rw [formatTime, fails] at again
    cases again

/-- The seconds of a time are ASCII. -/
lemma isoSeconds_ascii (t : TimeValue) : ∀ c ∈ isoSeconds t, c < 128 := by
  have pads {w n c : ℕ} (hc : c ∈ pad w n) : c < 128 := Decimal.lt_of_isDigit (isDigit_pad hc)
  have year : ∀ c ∈ yearText (yearOf t), c < 128 := by
    intro c hc
    unfold yearText at hc
    split at hc
    · exact pads hc
    · rcases List.mem_cons.mp hc with rfl | hc
      · split <;> norm_num
      · exact pads hc
  intro c hc
  simp only [isoSeconds, List.mem_append, List.mem_cons] at hc
  rcases hc with hc | rfl | hc | rfl | hc | rfl | hc | rfl | hc | rfl | hc
  · exact year c hc
  · norm_num
  · exact pads hc
  · norm_num
  · exact pads hc
  · norm_num
  · exact pads hc
  · norm_num
  · exact pads hc
  · norm_num
  · exact pads hc

/-- The text of a fraction is ASCII. -/
lemma fractionText_ascii {f : Str} (digits : ∀ c ∈ f, isDigit c = true) : ∀ c ∈ fractionText f ++ [90], c < 128 := by
  intro c hc
  rcases List.mem_append.mp hc with hc | hc
  · unfold fractionText at hc
    split at hc
    · cases hc
    · rcases List.mem_cons.mp hc with rfl | hc
      · norm_num
      · exact Decimal.lt_of_isDigit (digits c hc)
  · rw [List.mem_singleton.mp hc]
    norm_num

/-- A formatted time is ASCII. -/
lemma formatTime_ascii {x : Timestamp} {s : Str} (formatted : formatTime parse x = some s) :
    ∀ c ∈ s, c < 128 := by
  have millis {w n c : ℕ} (hc : c ∈ pad w n) : isDigit c = true := isDigit_pad hc
  cases x with
  | date t =>
    cases t with
    | none => cases formatted
    | some t =>
      rw [formatTime_date] at formatted
      cases formatted
      intro c hc
      rcases List.mem_append.mp hc with hc | hc
      · exact isoSeconds_ascii t c hc
      · exact fractionText_ascii (fun c hc => millis (mem_of_mem_trimZeros hc)) c hc
  | text value =>
    obtain ⟨⟨seconds, fraction, zone⟩, found, formatted⟩ := Option.bind_eq_some_iff.mp formatted
    obtain ⟨t, parsed, formatted⟩ := Option.bind_eq_some_iff.mp formatted
    cases formatted
    obtain ⟨digits, le⟩ := matchTime_fraction found
    obtain ⟨digits, -⟩ := padEnd_fraction digits le
    intro c hc
    rcases List.mem_append.mp hc with hc | hc
    · rcases List.mem_append.mp (List.mem_of_mem_take hc) with hc | hc
      · exact isoSeconds_ascii t c hc
      · simp only [List.mem_cons, List.mem_append, List.not_mem_nil, or_false] at hc
        rcases hc with rfl | hc | rfl
        · norm_num
        · exact Decimal.lt_of_isDigit (millis hc)
        · norm_num
    · exact fractionText_ascii (fun c hc => digits c (mem_of_mem_trimZeros hc)) c hc

/-- The time value, if it is in range. -/
def timeValue (t : ℤ) : Option TimeValue :=
  if bounds : -8640000000000000 ≤ t ∧ t ≤ 8640000000000000 then some ⟨t, bounds⟩ else none

/-- A time within bounds is a value. -/
lemma timeValue_eq (t : TimeValue) : timeValue t.1 = some t := dif_pos t.2

/-- The milliseconds since 1970 that the fields of a time say. -/
def fieldsValue (f : CLL.Log.TimeFields) : ℤ :=
  ((toOrdinal ⟨f.year + yearShift, f.month, f.day⟩ : ℤ) - epochOrdinal) * 86400000 +
    (f.hour * 3600000 + f.minute * 60000 + f.second * 1000 + f.millis : ℕ)

/-- A reader of the times of `toISOString` in the years of four digits. -/
def parseIso (s : Str) : Option TimeValue := (CLL.Log.matchTime s).bind fun f => timeValue (fieldsValue f)

/-- The reference parser reads what is written. -/
lemma readsIso_parseIso : ReadsIso parseIso := by
  rintro t ⟨ge, le⟩
  obtain ⟨month, day, ofDay⟩ := dateOf_bounds t
  obtain ⟨lo, hi⟩ := t.2
  have two {n : ℕ} (lt : n < 100) (c : ℕ) (rest : Str) : digitsThen 2 c (pad 2 n ++ c :: rest) = some (n, rest) :=
    CLL.Log.digitsThen_pad (by norm_num) lt rest
  have four := fun rest => CLL.Log.digitsThen_pad (w := 4) (n := (yearOf t).toNat) (c := 45) (by norm_num)
    (by omega) rest
  have three := CLL.Log.digitsThen_pad (w := 3) (n := timeOfDay t % 1000) (c := 90) (by norm_num) (by omega) []
  have found : CLL.Log.matchTime (toISOString t) = some ⟨(yearOf t).toNat, (dateOf t).month, (dateOf t).day,
      timeOfDay t / 3600000, timeOfDay t / 60000 % 60, timeOfDay t / 1000 % 60, timeOfDay t % 1000⟩ := by
    simp only [toISOString, isoSeconds, yearText, if_pos (And.intro ge le), List.append_assoc, List.cons_append,
      CLL.Log.matchTime, four, three, two month, two day, two (show timeOfDay t / 3600000 < 100 by omega),
      two (show timeOfDay t / 60000 % 60 < 100 by omega), two (show timeOfDay t / 1000 % 60 < 100 by omega),
      Option.bind_some, if_true]
  have year : (yearOf t).toNat + yearShift = (dateOf t).year := by
    unfold yearOf at ge ⊢
    omega
  have pos : 0 < (t.1 / 86400000 + epochOrdinal).toNat := by
    unfold epochOrdinal
    omega
  have ordinal : (toOrdinal (dateOf t) : ℤ) = t.1 / 86400000 + epochOrdinal := by
    rw [dateOf, toOrdinal_fromOrdinal pos]
    omega
  have eta : (⟨(dateOf t).year, (dateOf t).month, (dateOf t).day⟩ : Calendar.Date) = dateOf t := by
    cases dateOf t
    rfl
  have same : fieldsValue ⟨(yearOf t).toNat, (dateOf t).month, (dateOf t).day, timeOfDay t / 3600000,
      timeOfDay t / 60000 % 60, timeOfDay t / 1000 % 60, timeOfDay t % 1000⟩ = t.1 := by
    rw [fieldsValue, year, eta, ordinal]
    dsimp only
    rw [timeOfDay]
    omega
  rw [parseIso, found, Option.bind_some, same, timeValue_eq]

end CLL.Ts
