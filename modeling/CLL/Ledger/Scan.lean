import Mathlib
import CLL.Ledger.Queries
import CLL.Lib.IsoDate

/-!
# Scans with a query

`scan` of `ledger/store.py` with a `ScanQuery`. Time bounds are compared twice: as the text of a date with
the timestamp column, in SQL, and as instants with the parsed timestamp of every row that is left.
`prefilter_iff` says which timestamps the text comparison lets through, `scan_exact_iff` when a scan
returns the records within its bounds.
-/

namespace CLL.Ledger
open CLL.Core

/-- `ScanQuery`. -/
structure ScanQuery where
  agent : Option Str
  since : Option Str
  until_ : Option Str
  counterparty : Option Str
  verdict : Option Str
  actionType : Option Str
  limit : Option ℤ

/-- Microseconds of a day. -/
def dayMicros : ℕ := 86400000000

/-- The instant of an aware `datetime`, in microseconds. -/
def instantOf (t : DateTime) : ℤ := t.clock - t.offset.getD 0

/-- The day on the clock of a `datetime`, counted from 0. -/
def dayOf (t : DateTime) : ℕ := t.clock / dayMicros

/-- `s.strip()`. -/
def strip (s : Str) : Str := ((s.dropWhile Text.isSpace).reverse.dropWhile Text.isSpace).reverse

/-- The clock of a date and a time of day, if `datetime` takes them. -/
def clockOf (d : Calendar.Date) (hour minute second micros : ℕ) :
    Option {clock : ℕ // clock < maxMicros} :=
  if h : d.valid = true ∧ hour < 24 ∧ minute < 60 ∧ second < 60 ∧ micros < 1000000 then
    some ⟨(Calendar.toOrdinal d - 1) * dayMicros + ((hour * 60 + minute) * 60 + second) * 1000000 + micros, by
      obtain ⟨valid, hour, minute, second, micros⟩ := h
      obtain ⟨pos, le⟩ := Calendar.toOrdinal_le valid
      unfold Calendar.maxOrdinal at le
      simp only [maxMicros, dayMicros]
      omega⟩
  else none

/-- `\d\d:\d\d:\d\d`. -/
def clockPattern : List (Option ℕ) := [none, none, some 58, none, none, some 58, none, none]

/-- `\d\d:\d\d`. -/
def zonePattern : List (Option ℕ) := [none, none, some 58, none, none]

/-- The groups of `_RFC3339`; `fraction` is empty when it is absent. -/
structure Rfc3339 where
  date : Str
  clock : Str
  fraction : Str
  zone : Option Str

section
-- The digits beyond ASCII that `\d` matches.
variable (decimal : ℕ → Bool)

/-- `\d`. -/
def isDecimal (c : ℕ) : Bool := if c < 128 then Decimal.isDigit c else decimal c

/-- `([Zz]|[+-]\d\d:\d\d)?` up to the end. -/
def matchZone : Str → Option (Option Str)
  | [] => some none
  | [90] => some (some [90])
  | [122] => some (some [122])
  | sign :: offset =>
    if (sign = 43 ∨ sign = 45) ∧ IsoDate.fits (isDecimal decimal) zonePattern offset = true then
      some (some (sign :: offset))
    else none

/-- `(?:\.(\d+))?` and the rest. -/
def matchFraction : Str → Str × Str
  | 46 :: s =>
    if s.takeWhile (isDecimal decimal) = [] then ([], 46 :: s)
    else (s.takeWhile (isDecimal decimal), s.dropWhile (isDecimal decimal))
  | s => ([], s)

/-- `_RFC3339.fullmatch`. -/
def matchRfc3339 (s : Str) : Option Rfc3339 :=
  match s.drop 10 with
  | mark :: rest =>
    if IsoDate.fits (isDecimal decimal) IsoDate.pattern (s.take 10) = true ∧
        (mark = 84 ∨ mark = 116 ∨ mark = 32) ∧
        IsoDate.fits (isDecimal decimal) clockPattern (rest.take 8) = true then
      let (fraction, zone) := matchFraction decimal (rest.drop 8)
      (matchZone decimal zone).map fun zone => ⟨s.take 10, rest.take 8, fraction, zone⟩
    else none
  | [] => none

/-- The offset of a zone in microseconds, which `timezone` takes below one day. -/
def zoneOffset : Option Str → Option ℤ
  | some (sign :: offset) =>
    if offset = [] then some 0
    else
      let minutes := Decimal.value (offset.take 2) * 60 + Decimal.value (offset.drop 3)
      if IsoDate.fits Decimal.isDigit zonePattern offset = true ∧ minutes < 1440 then
        some ((if sign = 45 then -1 else 1) * (minutes * 60000000 : ℕ))
      else none
  | _ => some 0

/-- `datetime.fromisoformat` of the groups, put together with six fraction digits. -/
def fromIsoFormat (m : Rfc3339) : Option DateTime :=
  let micros := (m.fraction.take 6) ++ List.replicate (6 - m.fraction.length) 48
  if IsoDate.fits Decimal.isDigit clockPattern m.clock = true ∧ micros.all Decimal.isDigit = true then
    (IsoDate.parse m.date).bind fun date =>
    (clockOf date (Decimal.value (m.clock.take 2)) (Decimal.value ((m.clock.drop 3).take 2))
      (Decimal.value (m.clock.drop 6)) (Decimal.value micros)).bind fun clock =>
    (zoneOffset m.zone).map fun offset => ⟨clock.1, clock.2, some offset⟩
  else none

/-- `_instant` of a `str`, with `zoneless_is_utc`. -/
def instant (value : Str) : Option DateTime := (matchRfc3339 decimal (strip value)).bind fromIsoFormat

/-- Midnight of a date, in UTC. -/
def midnight (date : Calendar.Date) : Option DateTime :=
  (clockOf date 0 0 0 0).map fun clock => ⟨clock.1, clock.2, some 0⟩

/-- `_bound_instant`. -/
def boundInstant (name : String) (value : Str) : Py DateTime :=
  match (IsoDate.parse (strip value)).bind midnight with
  | some bound => .ok bound
  | none =>
    match instant decimal value with
    | some bound => .ok bound
    | none => raise .valueError s!"ScanQuery.{name} is not an RFC 3339 time or date"

/-- An optional bound. -/
def boundInstant? (name : String) : Option Str → Py (Option DateTime)
  | none => .ok none
  | some value => (boundInstant decimal name value).map some

end

/-- `isoformat()` of a day. -/
def dateText (day : ℕ) : Str := IsoDate.text (Calendar.fromOrdinal (day + 1))

/-- `(since - timedelta(days=1)).date().isoformat()`. -/
def lowerDate (since : DateTime) : Py Str := do
  require (dayMicros ≤ since.clock) .overflowError "date value out of range"
  .ok (dateText ((since.clock - dayMicros) / dayMicros))

/-- `(until + timedelta(days=2)).date().isoformat()`. -/
def upperDate (until_ : DateTime) : Py Str := do
  require (until_.clock + 2 * dayMicros < maxMicros) .overflowError "date value out of range"
  .ok (dateText ((until_.clock + 2 * dayMicros) / dayMicros))

/-- The text of an optional bound. -/
def dateBound? (text : DateTime → Py Str) : Option DateTime → Py (Option Str)
  | none => .ok none
  | some bound => (text bound).map some

/-- `column = ?`, when it is asked for. -/
def columnIs (column : Cell) : Option Str → Bool
  | none => true
  | some value => column = some value

namespace ScanQuery

/-- The filters but those on the time. -/
def selects (q : ScanQuery) (row : Row) : Bool :=
  columnIs row.columns.developer q.agent && columnIs row.columns.operator q.counterparty &&
    columnIs row.columns.verdictClass q.verdict && columnIs row.columns.actionType q.actionType

/-- The texts that these filters bind. -/
def texts (q : ScanQuery) : List Str :=
  q.agent.toList ++ q.counterparty.toList ++ q.verdict.toList ++ q.actionType.toList

end ScanQuery

/-- `timestamp >= ?` and `timestamp < ?`, when they are asked for. -/
def prefilter (lower upper : Option Str) (timestamp : Cell) : Bool :=
  lower.all (fun lower => timestamp.any fun t => lower ≤ t) &&
    upper.all fun upper => timestamp.any fun t => t < upper

/-- Not before `since` and not after `until`. -/
def within (since until_ : Option DateTime) (stamped : DateTime) : Bool :=
  since.all (fun since => instantOf since ≤ instantOf stamped) &&
    until_.all fun until_ => instantOf stamped ≤ instantOf until_

/-- A row's timestamp parses and lies within the bounds. -/
def inBounds (decimal : ℕ → Bool) (since until_ : Option DateTime) (row : Row) : Bool :=
  (row.columns.timestamp.bind (instant decimal)).any (within since until_)

/-- What a query asks of a row. -/
def ScanQuery.finds (q : ScanQuery) (decimal : ℕ → Bool) (since until_ : Option DateTime) (row : Row) : Bool :=
  q.selects row && (since.isNone && until_.isNone || inBounds decimal since until_ row)

namespace Store

variable {κ : Type} (cfg : Config) (decimal : ℕ → Bool)

/-- `for row in cur` of a scan with a time bound. -/
def scanLoop (s : Store κ) (since until_ : Option DateTime) (limit : Option ℤ)
    (records : List LedgerRecord) : List Row → Py (List LedgerRecord)
  | [] => .ok records
  | row :: rows =>
    if inBounds decimal since until_ row = false then scanLoop s since until_ limit records rows
    else if limit.any (fun n => n ≤ (records.length : ℤ)) = true then .ok records
    else do
      let record ← s.rowToRecord cfg row
      scanLoop s since until_ limit (records ++ [record]) rows

/-- `LIMIT ?`: a negative limit is none. -/
def limited (limit : Option ℤ) (rows : List Row) : List Row :=
  match limit with
  | some n => if n < 0 then rows else rows.take n.toNat
  | none => rows

/-- `scan`. -/
def scanQuery (s : Store κ) (q : ScanQuery) : Py (List LedgerRecord) := do
  let since ← boundInstant? decimal "since" q.since
  let until_ ← boundInstant? decimal "until" q.until_
  let lower ← dateBound? lowerDate since
  let upper ← dateBound? upperDate until_
  let timed := since.isSome || until_.isSome
  q.texts.forM fun v => bind_ (.str v)
  let rows := s.rows.filter fun row => q.selects row && prefilter lower upper row.columns.timestamp
  if timed then scanLoop cfg decimal s since until_ q.limit [] rows
  else do
    q.limit.toList.forM fun n => bind_ (.int n)
    (limited q.limit rows).mapM (s.rowToRecord cfg)

end Store

/-- The day of a time is before the last one. -/
lemma dayOf_lt (t : DateTime) : dayOf t < Calendar.maxOrdinal := by
  have lt := t.clock_lt
  unfold maxMicros at lt
  unfold dayOf dayMicros Calendar.maxOrdinal
  omega

/-- The day of a clock is its date. -/
lemma clockOf_eq_some {d : Calendar.Date} {hour minute second micros : ℕ}
    {clock : {clock : ℕ // clock < maxMicros}} (ok : clockOf d hour minute second micros = some clock) :
    clock.1 / dayMicros + 1 = Calendar.toOrdinal d := by
  unfold clockOf at ok
  split at ok
  · rename_i h
    obtain ⟨valid, hour, minute, second, micros⟩ := h
    have pos := (Calendar.toOrdinal_le valid).1
    cases ok
    simp only [dayMicros]
    omega
  · cases ok

/-- A parsed time begins with the text of its own day. -/
lemma instant_eq_some {decimal : ℕ → Bool} {value : Str} {stamped : DateTime}
    (ok : instant decimal value = some stamped) :
    ∃ d rest, strip value = IsoDate.text d ++ rest ∧ d.valid = true ∧
      Calendar.toOrdinal d = dayOf stamped + 1 := by
  obtain ⟨groups, matched, ok⟩ := Option.bind_eq_some_iff.mp ok
  have date : groups.date = (strip value).take 10 := by
    unfold matchRfc3339 at matched
    split at matched
    · split at matched
      · obtain ⟨zone, -, rfl⟩ := Option.map_eq_some_iff.mp matched
        rfl
      · cases matched
    · cases matched
  unfold fromIsoFormat at ok
  dsimp only at ok
  split at ok
  · obtain ⟨d, parsed, ok⟩ := Option.bind_eq_some_iff.mp ok
    obtain ⟨clock, timed, ok⟩ := Option.bind_eq_some_iff.mp ok
    obtain ⟨offset, -, rfl⟩ := Option.map_eq_some_iff.mp ok
    obtain ⟨text, valid⟩ := IsoDate.parse_eq_some parsed
    refine ⟨d, (strip value).drop 10, ?_, valid, (clockOf_eq_some timed).symm⟩
    rw [← text, date, List.take_append_drop]
  · cases ok

/-- A text without leading white space begins with its stripped form. -/
lemma strip_prefix {value : Str} (flush : value.dropWhile Text.isSpace = value) :
    ∃ rest, value = strip value ++ rest := by
  obtain ⟨init, e⟩ := List.dropWhile_suffix (l := value.reverse) Text.isSpace
  refine ⟨init.reverse, ?_⟩
  have back := congrArg List.reverse e
  rw [List.reverse_append, List.reverse_reverse] at back
  rw [strip, flush]
  exact back.symm

/-- The date of a day. -/
lemma date_of_day {day : ℕ} (lt : day < Calendar.maxOrdinal) :
    (Calendar.fromOrdinal (day + 1)).valid = true ∧
      Calendar.toOrdinal (Calendar.fromOrdinal (day + 1)) = day + 1 :=
  ⟨Calendar.valid_fromOrdinal (Nat.succ_pos _) lt, Calendar.toOrdinal_fromOrdinal (Nat.succ_pos _)⟩

/-- A text that begins with a date is before the text of a day if its date is. -/
lemma lt_dateText_iff {d : Calendar.Date} {rest : Str} {day : ℕ} (valid : d.valid = true)
    (lt : day < Calendar.maxOrdinal) :
    IsoDate.text d ++ rest < dateText day ↔ Calendar.toOrdinal d < day + 1 := by
  obtain ⟨valid', ordinal⟩ := date_of_day lt
  constructor
  · intro less
    by_contra le
    rcases Nat.lt_or_eq_of_le (Nat.le_of_not_lt le) with more | same
    · have greater := IsoDate.append_lt_append valid' valid (by rw [ordinal]; exact more) [] rest
      rw [List.append_nil] at greater
      exact lt_asymm less greater
    · have equal : d = Calendar.fromOrdinal (day + 1) :=
        Calendar.toOrdinal_injective valid valid' (by rw [ordinal, same])
      rw [dateText, ← equal] at less
      exact List.le_append_left less
  · intro less
    have below := IsoDate.append_lt_append valid valid' (by rw [ordinal]; exact less) rest []
    rwa [List.append_nil] at below

/-- Whether the text of a timestamp that parses lies within the dates of the bounds: its own date is at
most one day before that of `since` and at most one day after that of `until`. White space before it sorts
before every digit if it is ASCII, and after them if it is not. -/
def admits (since until_ : Option DateTime) (t : Str) (stamped : DateTime) : Bool :=
  match t with
  | [] => true
  | c :: _ =>
    if Text.isSpace c then if c < 48 then since.isNone else until_.isNone
    else since.all (fun since => dayOf since ≤ dayOf stamped + 1) &&
      until_.all fun until_ => dayOf stamped ≤ dayOf until_ + 1

/-- The lower date is the day before. -/
lemma lowerDate_eq_ok {since : DateTime} {text : Str} (ok : lowerDate since = .ok text) :
    ∃ day, day + 1 = dayOf since ∧ text = dateText day := by
  obtain ⟨_, late, ok⟩ := bind_eq_ok.mp ok
  have late := require_eq_ok.mp late
  cases ok
  refine ⟨dayOf since - 1, ?_, ?_⟩
  · unfold dayOf dayMicros at *
    omega
  · refine congrArg dateText ?_
    unfold dayOf dayMicros at *
    omega

/-- The upper date is two days after, where there is one. -/
lemma upperDate_eq_ok {until_ : DateTime} {text : Str} (ok : upperDate until_ = .ok text) :
    dayOf until_ + 2 < Calendar.maxOrdinal ∧ text = dateText (dayOf until_ + 2) := by
  obtain ⟨_, early, ok⟩ := bind_eq_ok.mp ok
  have early := require_eq_ok.mp early
  cases ok
  constructor
  · unfold maxMicros at early
    unfold dayOf dayMicros Calendar.maxOrdinal at *
    omega
  · refine congrArg dateText ?_
    unfold dayOf dayMicros
    omega

/-- The text of a date begins with a digit. -/
lemma exists_text_cons (d : Calendar.Date) : ∃ c rest, IsoDate.text d = c :: rest ∧ 48 ≤ c ∧ c ≤ 57 := by
  cases e : Decimal.pad 4 d.year with
  | nil =>
    have empty := congrArg List.length e
    simp only [Decimal.pad, List.length_append, List.length_nil] at empty
    exact absurd (List.length_eq_zero_iff.mp (by omega)) (Decimal.text_ne_nil d.year)
  | cons c rest =>
    have digit : Decimal.isDigit c = true := Decimal.isDigit_pad (e ▸ List.mem_cons_self)
    simp only [Decimal.isDigit, Bool.and_eq_true, decide_eq_true_eq] at digit
    exact ⟨c, _, by rw [IsoDate.text, e]; rfl, digit⟩

/-- A space is no digit. -/
lemma isSpace_cases {c : ℕ} (space : Text.isSpace c = true) : c < 48 ∨ 57 < c := by
  simp only [Text.isSpace, Bool.or_eq_true, Bool.and_eq_true, decide_eq_true_eq, beq_iff_eq] at space
  omega

/-- White space sorts to one side of every date. -/
lemma space_lt_dateText {c : ℕ} {rest : Str} (space : Text.isSpace c = true) (day : ℕ) :
    c :: rest < dateText day ↔ c < 48 := by
  obtain ⟨d, tail, e, low, high⟩ := exists_text_cons (Calendar.fromOrdinal (day + 1))
  rw [dateText, e, List.cons_lt_cons_iff]
  rcases isSpace_cases space with less | more
  · exact ⟨fun _ => less, fun _ => .inl (by omega)⟩
  · constructor
    · rintro (less | ⟨rfl, -⟩) <;> omega
    · intro less
      omega

/-- The text of a timestamp that parses against that of a day. -/
lemma timestamp_lt_dateText {decimal : ℕ → Bool} {c : ℕ} {rest : Str} {stamped : DateTime}
    (ok : instant decimal (c :: rest) = some stamped) {day : ℕ} (lt : day < Calendar.maxOrdinal) :
    c :: rest < dateText day ↔ if Text.isSpace c = true then c < 48 else dayOf stamped < day := by
  by_cases space : Text.isSpace c = true
  · rw [if_pos space]
    exact space_lt_dateText space day
  · rw [if_neg space]
    obtain ⟨d, tail, text, valid, ordinal⟩ := instant_eq_some ok
    have flush : (c :: rest).dropWhile Text.isSpace = c :: rest := by rw [List.dropWhile_cons, if_neg space]
    obtain ⟨trailing, whole⟩ := strip_prefix flush
    rw [whole, text, List.append_assoc, lt_dateText_iff valid lt, ordinal]
    omega

/-- The text comparison lets through exactly the timestamps that `admits` names. -/
theorem prefilter_iff {decimal : ℕ → Bool} {since until_ : Option DateTime} {lower upper : Option Str}
    (hl : dateBound? lowerDate since = .ok lower) (hu : dateBound? upperDate until_ = .ok upper)
    {t : Str} {stamped : DateTime} (ok : instant decimal t = some stamped) :
    prefilter lower upper (some t) = admits since until_ t stamped := by
  cases t with
  | nil =>
    obtain ⟨d, rest, text, -⟩ := instant_eq_some ok
    obtain ⟨c, tail, e, -⟩ := exists_text_cons d
    rw [e] at text
    cases text
  | cons c rest =>
    have low : lower.all (fun lower => decide (lower ≤ c :: rest)) =
        if Text.isSpace c then decide (57 < c) || since.isNone
        else since.all fun since => dayOf since ≤ dayOf stamped + 1 := by
      cases since with
      | none =>
        cases hl
        cases Text.isSpace c <;> simp
      | some since =>
        rw [dateBound?] at hl
        obtain ⟨text, bound, rfl⟩ := map_eq_ok.mp hl
        obtain ⟨day, e, rfl⟩ := lowerDate_eq_ok bound
        have lt := dayOf_lt since
        have less := timestamp_lt_dateText ok (Nat.lt_trans (Nat.lt_of_lt_of_eq (Nat.lt_succ_self day) e) lt)
        rw [Option.all_some, Option.all_some]
        by_cases space : Text.isSpace c = true
        -- A leading space is below every digit, so the comparison does not see the date.
        · rw [if_pos space] at less ⊢
          have sides := isSpace_cases space
          simp only [← not_lt, less, Option.isNone_some, Bool.or_false, decide_eq_decide]
          omega
        · rw [if_neg space] at less ⊢
          simp only [← not_lt, less, decide_eq_decide]
          omega
    have high : upper.all (fun upper => decide (c :: rest < upper)) =
        if Text.isSpace c then decide (c < 48) || until_.isNone
        else until_.all fun until_ => dayOf stamped ≤ dayOf until_ + 1 := by
      cases until_ with
      | none =>
        cases hu
        cases Text.isSpace c <;> simp
      | some until_ =>
        rw [dateBound?] at hu
        obtain ⟨text, bound, rfl⟩ := map_eq_ok.mp hu
        obtain ⟨lt, rfl⟩ := upperDate_eq_ok bound
        have less := timestamp_lt_dateText ok lt
        rw [Option.all_some, Option.all_some]
        by_cases space : Text.isSpace c = true
        · rw [if_pos space] at less ⊢
          simp only [less, Option.isNone_some, Bool.or_false]
        · rw [if_neg space] at less ⊢
          simp only [less, decide_eq_decide]
          omega
    simp only [prefilter, Option.any_some, low, high, admits]
    by_cases space : Text.isSpace c = true
    · have sides := isSpace_cases space
      rw [if_pos space, if_pos space, if_pos space]
      by_cases ascii : c < 48
      · simp [ascii, show ¬57 < c by omega]
      · simp [ascii, show 57 < c by omega]
    · rw [if_neg space, if_neg space, if_neg space]

/-- The first `limit` items, all of them without one. -/
def takeLimit {α : Type} (limit : Option ℤ) (l : List α) : List α :=
  match limit with
  | some n => l.take n.toNat
  | none => l

/-- A condition that holds of the first items that another finds lets all of them through, and only then
gives the same ones. -/
lemma takeLimit_filter_iff {α : Type} (limit : Option ℤ) (p k : α → Bool) (l : List α) :
    takeLimit limit (l.filter fun x => p x && k x) = takeLimit limit (l.filter p) ↔
      ∀ x ∈ takeLimit limit (l.filter p), k x = true := by
  have first (n : ℕ) (l : List α) : ((l.filter fun x => p x && k x).take n) = (l.filter p).take n ↔
      ∀ x ∈ (l.filter p).take n, k x = true := by
    constructor
    · intro same x mem
      rw [← same] at mem
      have found := (List.mem_filter.mp (List.mem_of_mem_take mem)).2
      exact (Bool.and_eq_true _ _ ▸ found).2
    · intro all
      induction l generalizing n with
      | nil => rfl
      | cons x l ih =>
        cases hp : p x with
        | false =>
          simp only [List.filter_cons, hp, Bool.false_and, Bool.false_eq_true, if_false] at all ⊢
          exact ih n all
        | true =>
          cases n with
          | zero => rfl
          | succ n =>
            simp only [List.filter_cons, hp, if_true, List.take_succ_cons, List.forall_mem_cons] at all
            simp only [List.filter_cons, hp, all.1, Bool.and_self, if_true, List.take_succ_cons, ih n all.2]
  cases limit with
  | some n => exact first n.toNat l
  | none =>
    have whole := first l.length l
    rwa [List.take_of_length_le (List.length_filter_le _ _),
      List.take_of_length_le (List.length_filter_le _ _)] at whole

namespace Store

variable {κ : Type} {cfg : Config} {decimal : ℕ → Bool}

/-- A limit that is not negative takes the first rows. -/
lemma limited_eq {limit : Option ℤ} (nonneg : ∀ n ∈ limit, 0 ≤ n) (rows : List Row) :
    limited limit rows = takeLimit limit rows := by
  cases limit with
  | none => rfl
  | some n => exact if_neg (not_lt.mpr (nonneg n rfl))

/-- The loop reads the records of the rows within the bounds until it has as many as it may return. -/
lemma scanLoop_eq (s : Store κ) (since until_ : Option DateTime) (limit : Option ℤ)
    (records : List LedgerRecord) (rows : List Row) :
    scanLoop cfg decimal s since until_ limit records rows =
      ((takeLimit (limit.map (· - (records.length : ℤ)))
        (rows.filter (inBounds decimal since until_))).mapM (s.rowToRecord cfg)).map (records ++ ·) := by
  induction rows generalizing records with
  | nil =>
    cases limit <;> simp [scanLoop, takeLimit, Except.map]
  | cons row rows ih =>
    unfold scanLoop
    by_cases inside : inBounds decimal since until_ row = true
    · rw [if_neg (by rw [inside]; decide), List.filter_cons, if_pos inside]
      by_cases full : limit.any (fun n => n ≤ (records.length : ℤ)) = true
      · rw [if_pos full]
        cases limit with
        | none => cases full
        | some n =>
          have none_ : (n - (records.length : ℤ)).toNat = 0 := by
            have le : n ≤ (records.length : ℤ) := by simpa using full
            omega
          simp [takeLimit, none_, Except.map]
      · rw [if_neg full]
        have first : takeLimit (limit.map (· - (records.length : ℤ)))
            (row :: rows.filter (inBounds decimal since until_)) =
              row :: takeLimit (limit.map (· - ((records.length + 1 : ℕ) : ℤ)))
                (rows.filter (inBounds decimal since until_)) := by
          cases limit with
          | none => rfl
          | some n =>
            have more : (records.length : ℤ) < n := by simpa using full
            have succ : (n - (records.length : ℤ)).toNat =
                (n - ((records.length + 1 : ℕ) : ℤ)).toNat + 1 := by omega
            simp only [takeLimit, Option.map_some, succ, List.take_succ_cons]
        rw [first, List.mapM_cons]
        cases s.rowToRecord cfg row with
        | error e => rfl
        | ok record =>
          rw [ok_bind, ok_bind, ih, List.length_append, List.length_singleton]
          cases (takeLimit (limit.map (· - ((records.length + 1 : ℕ) : ℤ)))
              (rows.filter (inBounds decimal since until_))).mapM (s.rowToRecord cfg) with
          | error e => rfl
          | ok more => simp [Except.map]
    · have outside : inBounds decimal since until_ row = false := Bool.eq_false_iff.mpr inside
      rw [if_pos outside, ih, List.filter_cons, if_neg inside]

variable {E : Env κ} {s : Store κ} {init : List Segment} {last : Segment}

/-- A scan whose bounds parse, with both filters of every row together. -/
lemma scanQuery_eq {q : ScanQuery} {since until_ : Option DateTime}
    (hs : boundInstant? decimal "since" q.since = .ok since)
    (hu : boundInstant? decimal "until" q.until_ = .ok until_) (nonneg : ∀ n ∈ q.limit, 0 ≤ n) :
    s.scanQuery cfg decimal q =
      (dateBound? lowerDate since >>= fun lower =>
      dateBound? upperDate until_ >>= fun upper =>
      (q.texts.forM fun v => bind_ (.str v)) >>= fun _ =>
      (if (since.isSome || until_.isSome) = true then .ok () else q.limit.toList.forM fun n => bind_ (.int n)) >>=
        fun _ =>
      (takeLimit q.limit (s.rows.filter fun row => q.finds decimal since until_ row &&
        prefilter lower upper row.columns.timestamp)).mapM (s.rowToRecord cfg)) := by
  unfold scanQuery
  rw [hs, ok_bind, hu, ok_bind]
  cases hl : dateBound? lowerDate since with
  | error e => rfl
  | ok lower =>
    cases hr : dateBound? upperDate until_ with
    | error e => rfl
    | ok upper =>
      rw [ok_bind, ok_bind, ok_bind, ok_bind]
      refine bind_congr fun _ => ?_
      cases timed : since.isSome || until_.isSome with
      | true =>
        have bounded : (since.isNone && until_.isNone) = false := by
          cases since <;> cases until_ <;> simp_all
        simp only [if_true, ok_bind, scanLoop_eq, List.filter_filter,
          ScanQuery.finds, bounded, Bool.false_or]
        have whole : q.limit.map (· - (([] : List LedgerRecord).length : ℤ)) = q.limit := by
          cases q.limit <;> simp
        have rows : (fun row => inBounds decimal since until_ row &&
            (q.selects row && prefilter lower upper row.columns.timestamp)) = fun row =>
              q.selects row && inBounds decimal since until_ row &&
                prefilter lower upper row.columns.timestamp := by
          funext row
          rw [← Bool.and_assoc, Bool.and_comm (inBounds decimal since until_ row)]
        rw [whole, rows]
        cases (takeLimit q.limit (s.rows.filter fun row => q.selects row &&
          inBounds decimal since until_ row && prefilter lower upper row.columns.timestamp)).mapM
            (s.rowToRecord cfg) <;> rfl
      | false =>
        have unbounded : (since.isNone && until_.isNone) = true := by
          cases since <;> cases until_ <;> simp_all
        simp only [Bool.false_eq_true, if_false, limited_eq nonneg, ScanQuery.finds, unbounded, Bool.true_or,
          Bool.and_true]

/-- The stored record of a row, wherever its segment lies. -/
def recordAt (s : Store κ) (cfg : Config) (row : Row) : LedgerRecord :=
  ⟨row.seq, row.capsuleId, .obj (s.capsuleAt cfg row), row.segment, row.consequential, row.authenticity,
    bundledEnvelopes (s.capsuleAt cfg row) row.authenticity⟩

/-- The rows that a query asks for: those its filters select whose timestamp parses and lies within its
bounds, up to its limit. -/
def wanted (s : Store κ) (decimal : ℕ → Bool) (q : ScanQuery) (since until_ : Option DateTime) : List Row :=
  takeLimit q.limit (s.rows.filter (q.finds decimal since until_))

/-- When a scan returns what its query asks for. -/
structure Scans (cfg : Config) (decimal : ℕ → Bool) (s : Store κ) (q : ScanQuery)
    (since until_ : Option DateTime) : Prop where
  texts : ∀ v ∈ q.texts, encodable v = true
  limit : since = none → until_ = none → ∀ n ∈ q.limit, isInt64 n = true
  start : ∀ bound ∈ since, dayMicros ≤ bound.clock
  stop : ∀ bound ∈ until_, bound.clock + 2 * dayMicros < maxMicros
  mounted : ∀ row ∈ s.wanted decimal q since until_, s.isArchived cfg row.segment = false
  admitted : ∀ row ∈ s.wanted decimal q since until_, ∀ t ∈ row.columns.timestamp,
    ∀ stamped ∈ instant decimal t, admits since until_ t stamped = true

/-- A list of checks passes exactly where each does. -/
lemma forM_eq_ok {α : Type} {f : α → Py Unit} {xs : List α} :
    xs.forM f = .ok () ↔ ∀ x ∈ xs, f x = .ok () := by
  induction xs with
  | nil => exact ⟨fun _ => nofun, fun _ => rfl⟩
  | cons x xs ih =>
    show f x >>= (fun _ => xs.forM f) = .ok () ↔ _
    rw [bind_eq_ok, List.forall_mem_cons, ← ih]
    constructor
    · rintro ⟨_, head, tail⟩
      exact ⟨head, tail⟩
    · rintro ⟨head, tail⟩
      exact ⟨(), head, tail⟩

/-- A bound has a date exactly where it is absent or has one. -/
lemma dateBound?_eq_ok {text : DateTime → Py Str} {bound : Option DateTime} :
    (∃ date, dateBound? text bound = .ok date) ↔ ∀ b ∈ bound, ∃ date, text b = .ok date := by
  cases bound with
  | none => simp [dateBound?]
  | some b => simp [dateBound?, map_eq_ok]

/-- A lower date exists from the second day on. -/
lemma exists_lowerDate {since : DateTime} : (∃ date, lowerDate since = .ok date) ↔ dayMicros ≤ since.clock := by
  constructor
  · rintro ⟨date, ok⟩
    obtain ⟨_, late, -⟩ := bind_eq_ok.mp ok
    exact require_eq_ok.mp late
  · intro late
    exact ⟨_, by rw [lowerDate, require_of late, ok_bind]⟩

/-- An upper date exists up to two days before the end. -/
lemma exists_upperDate {until_ : DateTime} :
    (∃ date, upperDate until_ = .ok date) ↔ until_.clock + 2 * dayMicros < maxMicros := by
  constructor
  · rintro ⟨date, ok⟩
    obtain ⟨_, early, -⟩ := bind_eq_ok.mp ok
    exact require_eq_ok.mp early
  · intro early
    exact ⟨_, by rw [upperDate, require_of early, ok_bind]⟩

/-- A row is read when its segment is mounted, and only then. -/
lemma Holds.rowToRecord_iff (holds : s.Holds E cfg init last) {row : Row} (mem : row ∈ s.rows) :
    (s.isArchived cfg row.segment = false → s.rowToRecord cfg row = .ok (s.recordAt cfg row)) ∧
      (s.isArchived cfg row.segment = true → ∃ e, s.rowToRecord cfg row = .error e) := by
  refine ⟨fun mounted => ?_, rowToRecord_unmounted⟩
  rw [holds.rows] at mem
  obtain ⟨p, hp, rfl⟩ := List.mem_map.mp mem
  rw [holds.rowToRecord hp mounted, recordAt, holds.capsuleAt hp]
  rfl

/-- The rows are in the order of their numbers. -/
lemma Holds.pairwise_seq (holds : s.Holds E cfg init last) : (s.rows.map Row.seq).Pairwise (· < ·) := by
  have seqs : s.rows.map Row.seq = (place 1 (init ++ [last])).map Placed.seq := by
    rw [holds.rows, List.map_map]
    rfl
  rw [seqs, map_seq_place]
  exact List.pairwise_lt_range'

/-- Rows of the store are told apart by the records on them. -/
lemma Holds.rows_eq_of_records (holds : s.Holds E cfg init last) {rows more : List Row}
    (sub : ∀ row ∈ rows, row ∈ s.rows) (sub' : ∀ row ∈ more, row ∈ s.rows)
    (same : rows.map (s.recordAt cfg) = more.map (s.recordAt cfg)) : rows = more := by
  have nodup : (s.rows.map Row.seq).Nodup := holds.pairwise_seq.imp fun lt => ne_of_lt lt
  have inj := List.inj_on_of_nodup_map nodup
  induction rows generalizing more with
  | nil => exact (List.map_eq_nil_iff.mp same.symm).symm
  | cons row rows ih =>
    cases more with
    | nil => cases same
    | cons row' more =>
      rw [List.map_cons, List.map_cons, List.cons.injEq] at same
      have seq : row.seq = row'.seq := congrArg LedgerRecord.seq same.1
      rw [inj (sub row List.mem_cons_self) (sub' row' List.mem_cons_self) seq,
        ih (fun r mem => sub r (List.mem_cons_of_mem _ mem)) (fun r mem => sub' r (List.mem_cons_of_mem _ mem))
          same.2]

/-- What is taken is in the list. -/
lemma mem_of_mem_takeLimit {α : Type} {limit : Option ℤ} {l : List α} {x : α} (mem : x ∈ takeLimit limit l) :
    x ∈ l := by
  cases limit with
  | none => exact mem
  | some n => exact List.mem_of_mem_take mem

/-- Of the rows that a query asks for, the text comparison lets through those that `admits` names. -/
lemma prefilter_of_finds {q : ScanQuery} {since until_ : Option DateTime} {lower upper : Option Str}
    (hl : dateBound? lowerDate since = .ok lower) (hu : dateBound? upperDate until_ = .ok upper) {row : Row}
    (finds : q.finds decimal since until_ row = true) :
    prefilter lower upper row.columns.timestamp = true ↔ ∀ t ∈ row.columns.timestamp,
      ∀ stamped ∈ instant decimal t, admits since until_ t stamped = true := by
  have found := (Bool.and_eq_true _ _ ▸ finds).2
  rcases Bool.or_eq_true _ _ ▸ found with unbounded | bounded
  · obtain ⟨rfl, rfl⟩ : since = none ∧ until_ = none := by simpa using unbounded
    cases hl
    cases hu
    refine ⟨fun _ t _ stamped _ => ?_, fun _ => rfl⟩
    unfold admits
    split
    · rfl
    · simp
  · obtain ⟨stamped, parsed, -⟩ := (Option.any_eq_true _ _).mp bounded
    obtain ⟨t, text, parsed⟩ := Option.bind_eq_some_iff.mp parsed
    rw [text, prefilter_iff hl hu parsed]
    constructor
    · intro admitted t' own stamped' parsed'
      cases own
      rw [parsed] at parsed'
      cases parsed'
      exact admitted
    · intro all
      exact all t rfl stamped parsed

/-- A scan of a store returns the records that its query asks for exactly under the condition stated. -/
lemma Holds.scanQuery_iff (holds : s.Holds E cfg init last) {q : ScanQuery}
    {since until_ : Option DateTime} (hs : boundInstant? decimal "since" q.since = .ok since)
    (hu : boundInstant? decimal "until" q.until_ = .ok until_) (nonneg : ∀ n ∈ q.limit, 0 ≤ n) :
    s.scanQuery cfg decimal q =
        .ok ((s.wanted decimal q since until_).map (s.recordAt cfg)) ↔
      Scans cfg decimal s q since until_ := by
  have bindText (v : Str) : bind_ (.str v) = .ok () ↔ encodable v = true := require_eq_ok
  have bindLimit (n : ℤ) : bind_ (.int n) = .ok () ↔ isInt64 n = true := require_eq_ok
  have own {rows : List Row} (sub : ∀ row ∈ rows, row ∈ s.rows.filter (q.finds decimal since until_)) :
      ∀ row ∈ rows, row ∈ s.rows := fun row mem => List.mem_of_mem_filter (sub row mem)
  have wantedOwn : ∀ row ∈ s.wanted decimal q since until_, row ∈ s.rows :=
    own fun row mem => mem_of_mem_takeLimit mem
  rw [scanQuery_eq hs hu nonneg]
  constructor
  · intro ok
    obtain ⟨lower, hl, ok⟩ := bind_eq_ok.mp ok
    obtain ⟨upper, hr, ok⟩ := bind_eq_ok.mp ok
    obtain ⟨_, texts, ok⟩ := bind_eq_ok.mp ok
    obtain ⟨_, limit, ok⟩ := bind_eq_ok.mp ok
    have inRows : ∀ row ∈ takeLimit q.limit (s.rows.filter fun row => q.finds decimal since until_ row &&
        prefilter lower upper row.columns.timestamp), row ∈ s.rows :=
      fun row mem => List.mem_of_mem_filter (mem_of_mem_takeLimit mem)
    -- A row of an unmounted segment raises.
    have mounted : ∀ row ∈ takeLimit q.limit (s.rows.filter fun row => q.finds decimal since until_ row &&
        prefilter lower upper row.columns.timestamp), s.isArchived cfg row.segment = false := by
      intro row mem
      by_contra archived
      obtain ⟨e, he⟩ := mapM_error mem
        ((holds.rowToRecord_iff (inRows row mem)).2 (Bool.eq_true_of_not_eq_false archived))
      rw [he] at ok
      cases ok
    rw [mapM_ok fun row mem => (holds.rowToRecord_iff (inRows row mem)).1 (mounted row mem)] at ok
    have same := holds.rows_eq_of_records inRows wantedOwn (Except.ok.inj ok)
    refine ⟨fun v mem => (bindText v).mp (forM_eq_ok.mp texts v mem), ?_, ?_, ?_, ?_, ?_⟩
    · rintro rfl rfl n mem
      exact (bindLimit n).mp (forM_eq_ok.mp limit n (Option.mem_toList.mpr mem))
    · exact fun b mem => exists_lowerDate.mp (dateBound?_eq_ok.mp ⟨lower, hl⟩ b mem)
    · exact fun b mem => exists_upperDate.mp (dateBound?_eq_ok.mp ⟨upper, hr⟩ b mem)
    · intro row mem
      exact mounted row (same ▸ mem)
    · intro row mem
      -- The answers are equal exactly where the prefilter lets every wanted row through.
      have through := (takeLimit_filter_iff q.limit _ _ _).mp same row mem
      have finds := (List.mem_filter.mp (mem_of_mem_takeLimit mem)).2
      exact (prefilter_of_finds hl hr finds).mp through
  · rintro ⟨texts, limit, start, stop, mounted, admitted⟩
    obtain ⟨lower, hl⟩ := dateBound?_eq_ok.mpr fun b mem => exists_lowerDate.mpr (start b mem)
    obtain ⟨upper, hr⟩ := dateBound?_eq_ok.mpr fun b mem => exists_upperDate.mpr (stop b mem)
    have bound : (if (since.isSome || until_.isSome) = true then .ok ()
        else q.limit.toList.forM fun n => bind_ (.int n)) = (.ok () : Py Unit) := by
      split
      · rfl
      · rename_i untimed
        obtain ⟨rfl, rfl⟩ : since = none ∧ until_ = none := by simpa using untimed
        exact forM_eq_ok.mpr fun n mem =>
          (bindLimit n).mpr (limit rfl rfl n (Option.mem_toList.mp mem))
    have same := (takeLimit_filter_iff q.limit (q.finds decimal since until_)
      (fun row => prefilter lower upper row.columns.timestamp) s.rows).mpr (by
        intro row mem
        have finds := (List.mem_filter.mp (mem_of_mem_takeLimit mem)).2
        exact (prefilter_of_finds hl hr finds).mpr (admitted row mem))
    rw [hl, ok_bind, hr, ok_bind, forM_eq_ok.mpr fun v mem => (bindText v).mpr (texts v mem), ok_bind, bound,
      ok_bind, same]
    exact mapM_ok fun row mem => (holds.rowToRecord_iff (wantedOwn row mem)).1 (mounted row mem)

/-- After every history, a scan whose bounds parse and whose limit is not negative returns exactly the
records that its query asks for, in the order of their `seq`, if and only if its filters can be bound, the
widened dates are in the calendar, and each of these records is in a mounted segment and has a timestamp
that the text comparison lets through. -/
theorem scan_exact_iff (lawful : E.aac.Lawful) (cfg : Config) (checkpointer : Option κ) (calls : List Call)
    (decimal : ℕ → Bool) (q : ScanQuery) {since until_ : Option DateTime}
    (hs : boundInstant? decimal "since" q.since = .ok since)
    (hu : boundInstant? decimal "until" q.until_ = .ok until_) (nonneg : ∀ n ∈ q.limit, 0 ≤ n) :
    let s := Run.run (step E cfg) (fresh cfg checkpointer) calls
    (s.rows.map Row.seq).Pairwise (· < ·) ∧
      (s.scanQuery cfg decimal q =
          .ok ((s.wanted decimal q since until_).map (s.recordAt cfg)) ↔
        Scans cfg decimal s q since until_) := by
  obtain ⟨init, last, holds, -⟩ := sound_run lawful cfg checkpointer calls
  exact ⟨holds.pairwise_seq, holds.scanQuery_iff hs hu nonneg⟩

/-- The store after one append of the sample capsule. -/
def stampedStore : Store MmrCheckpointer :=
  Run.run (step sampleEnv sampleConfig) (fresh sampleConfig none) [.append stampedCapsule true .unsigned]

/-- A query for what is not before a time. -/
def sinceQuery (since : Str) : ScanQuery := ⟨none, some since, none, none, none, none, some 10⟩

/-- The time of the capsule, on a clock fourteen hours ahead of UTC. -/
def aheadQuery : ScanQuery := sinceQuery (Str.lit "2026-03-10T00:00:00+14:00")

/-- The same time in UTC. -/
def utcQuery : ScanQuery := sinceQuery (Str.lit "2026-03-09T10:00:00Z")

/-- The bound of a query, if it has one that parses. -/
def sinceOf (q : ScanQuery) : Option DateTime := (boundInstant? (fun _ => false) "since" q.since).toOption.join

/-- The sample query parses. -/
lemma utcQuery_parses : boundInstant? (fun _ => false) "since" utcQuery.since = .ok (sinceOf utcQuery) := by
  have some_ : (boundInstant? (fun _ => false) "since" utcQuery.since).toBool = true := by decide +kernel
  rw [sinceOf, Py.eq_ok_val some_]
  rfl

/-- The record is found by its time in UTC. -/
theorem scan_exact_iff_sample :
    stampedStore.scanQuery sampleConfig (fun _ => false) utcQuery =
        .ok ((stampedStore.wanted (fun _ => false) utcQuery (sinceOf utcQuery) none).map
          (stampedStore.recordAt sampleConfig)) ↔
      Scans sampleConfig (fun _ => false) stampedStore utcQuery (sinceOf utcQuery) none :=
  (scan_exact_iff sampleAac_lawful sampleConfig none [.append stampedCapsule true .unsigned] (fun _ => false)
    utcQuery utcQuery_parses rfl (by rintro n ⟨⟩; decide)).2

/-- With the same instant as its bound on another clock, the scan does not return the record that its query
asks for. -/
theorem scan_drops_record :
    (boundInstant? (fun _ => false) "since" aheadQuery.since).toBool = true ∧
      (stampedStore.wanted (fun _ => false) aheadQuery (sinceOf aheadQuery) none).map Row.seq = [1] ∧
      (stampedStore.scanQuery sampleConfig (fun _ => false) aheadQuery).toOption.map
        (List.map LedgerRecord.seq) = some [] := by
  decide +kernel

end Store

end CLL.Ledger
