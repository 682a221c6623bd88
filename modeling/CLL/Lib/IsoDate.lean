import CLL.Lib.Calendar
import CLL.Lib.Decimal

/-!
# Calendar dates as text

The form `YYYY-MM-DD` of a date, as a list of code points. `parse_eq_some` says that what is parsed is the
text of a valid date, `append_lt_append` that texts are ordered as the days they name, whatever follows
them.
-/

namespace CLL.IsoDate
open Calendar Decimal

/-- A text of the pattern: a digit for each `none`, and each mark as it is. -/
def fits (digit : ℕ → Bool) : List (Option ℕ) → List ℕ → Bool
  | [], [] => true
  | none :: pattern, c :: s => digit c && fits digit pattern s
  | some mark :: pattern, c :: s => c == mark && fits digit pattern s
  | _, _ => false

attribute [local simp] fits

/-- The pattern `YYYY-MM-DD`. -/
def pattern : List (Option ℕ) :=
  List.replicate 4 none ++ some 45 :: (List.replicate 2 none ++ some 45 :: List.replicate 2 none)

/-- `YYYY-MM-DD` of a date. -/
def text (d : Date) : List ℕ := pad 4 d.year ++ 45 :: (pad 2 d.month ++ 45 :: pad 2 d.day)

/-- The date that a text names, if there is one. -/
def parse (s : List ℕ) : Option Date :=
  let d : Date := ⟨value (s.take 4), value ((s.drop 5).take 2), value ((s.drop 8).take 2)⟩
  if fits isDigit pattern s = true ∧ d.valid = true then some d else none

variable {digit : ℕ → Bool}

/-- A text fits two patterns one after the other. -/
lemma fits_append {p q : List (Option ℕ)} {s : List ℕ} (ok : fits digit (p ++ q) s = true) :
    ∃ a b, s = a ++ b ∧ fits digit p a = true ∧ fits digit q b = true := by
  induction p generalizing s with
  | nil => exact ⟨[], s, rfl, rfl, ok⟩
  | cons mark p ih =>
    cases s with
    | nil => cases mark <;> cases ok
    | cons c s =>
      cases mark with
      | none =>
        simp only [List.cons_append, fits, Bool.and_eq_true] at ok
        obtain ⟨a, b, rfl, ha, hb⟩ := ih ok.2
        exact ⟨c :: a, b, rfl, by simp [fits, ok.1, ha], hb⟩
      | some m =>
        simp only [List.cons_append, fits, Bool.and_eq_true] at ok
        obtain ⟨a, b, rfl, ha, hb⟩ := ih ok.2
        exact ⟨c :: a, b, rfl, by simp only [fits, ok.1, ha, Bool.and_self], hb⟩

/-- A text that fits `w` digits has `w` digits. -/
lemma fits_digits {w : ℕ} {s : List ℕ} (ok : fits digit (List.replicate w none) s = true) :
    s.length = w ∧ ∀ c ∈ s, digit c = true := by
  induction w generalizing s with
  | zero =>
    cases s with
    | nil => exact ⟨rfl, nofun⟩
    | cons c s => cases ok
  | succ w ih =>
    cases s with
    | nil => cases ok
    | cons c s =>
      simp only [List.replicate_succ, fits, Bool.and_eq_true] at ok
      obtain ⟨length, digits⟩ := ih ok.2
      exact ⟨by rw [List.length_cons, length], List.forall_mem_cons.mpr ⟨ok.1, digits⟩⟩

/-- A text that fits a mark begins with it. -/
lemma fits_mark {m : ℕ} {p : List (Option ℕ)} {s : List ℕ} (ok : fits digit (some m :: p) s = true) :
    ∃ t, s = m :: t ∧ fits digit p t = true := by
  cases s with
  | nil => cases ok
  | cons c t =>
    simp only [fits, Bool.and_eq_true, beq_iff_eq] at ok
    exact ⟨t, by rw [ok.1], ok.2⟩

/-- The parts of a text of the pattern. -/
lemma fits_pattern {s : List ℕ} (ok : fits digit pattern s = true) :
    ∃ y m d, s = y ++ 45 :: (m ++ 45 :: d) ∧ (y.length = 4 ∧ ∀ c ∈ y, digit c = true) ∧
      (m.length = 2 ∧ ∀ c ∈ m, digit c = true) ∧ d.length = 2 ∧ ∀ c ∈ d, digit c = true := by
  obtain ⟨y, rest, rfl, year, ok⟩ := fits_append ok
  obtain ⟨rest, rfl, ok⟩ := fits_mark ok
  obtain ⟨m, rest, rfl, month, ok⟩ := fits_append ok
  obtain ⟨d, rfl, day⟩ := fits_mark ok
  exact ⟨y, m, d, rfl, fits_digits year, fits_digits month, fits_digits day⟩

/-- Only the text of a valid date is parsed. -/
theorem parse_eq_some {s : List ℕ} {d : Date} (ok : parse s = some d) : s = text d ∧ d.valid = true := by
  unfold parse at ok
  dsimp only at ok
  split at ok
  · rename_i good
    obtain ⟨fits, valid⟩ := good
    cases ok
    refine ⟨?_, valid⟩
    obtain ⟨y, m, d, rfl, ⟨year, yDigits⟩, ⟨month, mDigits⟩, day, dDigits⟩ := fits_pattern fits
    have takeYear : (y ++ 45 :: (m ++ 45 :: d)).take 4 = y := List.take_left' year
    have dropYear : (y ++ 45 :: (m ++ 45 :: d)).drop 5 = m ++ 45 :: d := by
      rw [List.drop_append, year, List.drop_of_length_le (by omega)]
      rfl
    have takeMonth : (m ++ 45 :: d).take 2 = m := List.take_left' month
    have dropMonth : (y ++ 45 :: (m ++ 45 :: d)).drop 8 = d := by
      rw [List.drop_append, year, List.drop_of_length_le (by omega)]
      show (45 :: (m ++ 45 :: d)).drop 4 = d
      rw [List.drop_succ_cons, List.drop_append, month, List.drop_of_length_le (by omega)]
      rfl
    rw [text]
    dsimp only
    rw [takeYear, dropYear, takeMonth, dropMonth, List.take_of_length_le (by omega),
      pad_value (by norm_num) year yDigits, pad_value (by norm_num) month mDigits,
      pad_value (by norm_num) day dDigits]
  · cases ok

/-- Days are ordered by year, month and day. -/
lemma lt_of_toOrdinal_lt {d e : Date} (hd : d.valid = true) (he : e.valid = true)
    (lt : toOrdinal d < toOrdinal e) :
    d.year < e.year ∨ d.year = e.year ∧ (d.month < e.month ∨ d.month = e.month ∧ d.day < e.day) := by
  obtain ⟨dLow, dHigh⟩ := toOrdinal_within hd
  obtain ⟨eLow, eHigh⟩ := toOrdinal_within he
  rcases Nat.lt_trichotomy d.year e.year with year | year | year
  · exact .inl year
  · refine .inr ⟨year, ?_⟩
    simp only [Date.valid, Bool.and_eq_true, decide_eq_true_eq] at hd he
    obtain ⟨⟨⟨⟨-, -⟩, dMonth⟩, -⟩, -⟩ := hd
    obtain ⟨⟨⟨⟨-, eFirst⟩, -⟩, dayPos⟩, eDay⟩ := he
    unfold toOrdinal at lt
    rw [year] at lt
    rcases Nat.lt_trichotomy d.month e.month with month | month | month
    · exact .inl month
    · rw [month] at lt
      exact .inr ⟨month, by omega⟩
    · have := daysBeforeMonth_add_le (isLeap e.year) d.month dMonth e.month month eFirst
      omega
  · have := daysBeforeYear_mono (show e.year + 1 ≤ d.year from year)
    omega

/-- Texts with one head are compared by their tails. -/
lemma cons_lt_cons (c : ℕ) {s t : List ℕ} (lt : s < t) : c :: s < c :: t :=
  List.cons_lt_cons_iff.mpr (.inr ⟨rfl, lt⟩)

/-- Texts are ordered as the days they name, whatever follows them. -/
theorem append_lt_append {d e : Date} (hd : d.valid = true) (he : e.valid = true)
    (lt : toOrdinal d < toOrdinal e) (u v : List ℕ) : text d ++ u < text e ++ v := by
  have less := lt_of_toOrdinal_lt hd he lt
  have short : ∀ leap : Bool, ∀ month ≤ 12, daysInMonth leap month ≤ 31 := by decide
  simp only [Date.valid, Bool.and_eq_true, decide_eq_true_eq] at hd he
  obtain ⟨⟨⟨⟨⟨-, dYear⟩, -⟩, dMonth⟩, -⟩, dDay⟩ := hd
  obtain ⟨⟨⟨⟨⟨-, eYear⟩, -⟩, eMonth⟩, -⟩, eDay⟩ := he
  have dDay := dDay.trans (short _ _ dMonth)
  have eDay := eDay.trans (short _ _ eMonth)
  have pads {w m n : ℕ} (pos : 0 < w) (hm : m < 10 ^ w) (hn : n < 10 ^ w) (lt : m < n) (u v : List ℕ) :
      pad w m ++ u < pad w n ++ v := by
    refine Decimal.append_lt_append ((length_pad pos hm).trans (length_pad pos hn).symm)
      (fun c hc => isDigit_pad hc) (fun c hc => isDigit_pad hc) ?_ u v
    rw [value_pad, value_pad]
    exact lt
  simp only [text, List.append_assoc, List.cons_append]
  obtain year | ⟨year, month | ⟨month, day⟩⟩ := less
  · exact pads (by norm_num) (by omega) (by omega) year _ _
  · rw [year]
    exact List.append_left_lt (cons_lt_cons _
      (pads (by norm_num) (by omega) (by omega) month _ _))
  · rw [year, month]
    exact List.append_left_lt (cons_lt_cons _ (List.append_left_lt (cons_lt_cons _
      (pads (by norm_num) (by omega) (by omega) day _ _))))

end CLL.IsoDate
