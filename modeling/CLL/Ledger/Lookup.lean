import CLL.Ledger.Admission
import Mathlib.Data.List.Sort

/-!
# The lookup index

`ledger/lookup.py`: the tables of `index.sqlite` as rows in the order of their key, and each SQL
statement as the function it computes on them. `record` binds one value after another, so that a failure
leaves what was inserted before it.

`rebuild_eq` says that rebuilding from records succeeds exactly if their correlation ids can be encoded, and
then gives the index that recording them one after the other gives.
-/

namespace CLL.Ledger

/-- A value in a `TEXT` column. -/
abbrev Cell := Option Str

/-- `value.encode("utf-8")` succeeds. -/
def encodable (s : Str) : Bool := (Utf8.encode s).isSome

/-- The integers that SQLite holds. -/
def isInt64 (n : ℤ) : Bool := -9223372036854775808 ≤ n && n ≤ 9223372036854775807

/-- Binding a Python value to a parameter. -/
def bind_ (value : Json) : Py Unit :=
  match value with
  | .str s => require (encodable s) .valueError "surrogates not allowed"
  | .int n => require (isInt64 n) .overflowError "Python int too large to convert to SQLite INTEGER"
  | .null | .bool _ | .float _ => .ok ()
  | .arr _ | .obj _ => raise .database "type is not supported"

/-- What a `TEXT` column holds after a value was stored; `realText` renders a float. -/
def toCell (realText : Str → Cell) : Json → Cell
  | .str s => some s
  | .int n => some (Json.dumpInt n)
  | .bool b => some (if b then [49] else [48])
  | .float literal => realText literal
  | .null | .arr _ | .obj _ => none

/-- `for part in field_name.split("."): …`. -/
def follow : Json → List Str → Json
  | value, [] => value
  | .obj fields, part :: parts => follow ((Json.get? fields part).getD .null) parts
  | _, _ :: _ => .null

/-- The strings that a declared field contributes. -/
def idStrings : Json → List Str
  | .str s => [s]
  | .arr xs => xs.filterMap fun
    | .str s => some s
    | _ => none
  | _ => []

/-- `extract_correlation_ids`. -/
def extractCorrelationIds (record : Fields) (correlationFields : List Str) : List Str :=
  correlationFields.flatMap fun fieldName => idStrings (follow (.obj record) (fieldName.splitOn 46))

/-- A row of `records`. -/
structure LookupRow where
  seq : ℕ
  ts : Cell
  recordDigest : Str
  segment : Str
  byteOffset : ℕ
  deriving DecidableEq

/-- `LookupIndex`, with the rows of `correlations` in the order they were inserted. -/
structure LookupIndex where
  records : List LookupRow
  correlations : List (Str × ℕ)
  deriving DecidableEq

/-- The order of the primary key. -/
abbrev LookupRow.SeqLe (a b : LookupRow) : Prop := a.seq ≤ b.seq

/-- The arguments of `LookupIndex.record`, and a row of `LookupIndex.rebuild`. -/
structure LookupInput where
  seq : ℕ
  ts : Json
  recordDigest : Str
  segment : Str
  byteOffset : ℕ
  capsule : Fields

namespace LookupIndex

variable (realText : Str → Cell) (correlationFields : List Str)

/-- A fresh index. -/
def empty : LookupIndex := ⟨[], []⟩

/-- The row of one input. -/
def rowOf (input : LookupInput) : LookupRow :=
  ⟨input.seq, toCell realText input.ts, input.recordDigest, input.segment, input.byteOffset⟩

/-- The parameters of `INSERT INTO records` are bound; `seq` is a row id already, or counts lines. -/
def bindRow (input : LookupInput) : Py Unit := do
  bind_ input.ts
  bind_ (.str input.recordDigest)
  bind_ (.str input.segment)
  bind_ (.int input.byteOffset)

/-- `for cid in extract_correlation_ids(…): INSERT INTO correlations`. -/
def insertIds (ix : LookupIndex) (seq : ℕ) : List Str → Py Unit × LookupIndex
  | [] => (.ok (), ix)
  | cid :: ids =>
    match bind_ (.str cid) with
    | .error e => (.error e, ix)
    | .ok _ => insertIds { ix with correlations := ix.correlations ++ [(cid, seq)] } seq ids

/-- `record`. -/
def record (ix : LookupIndex) (input : LookupInput) : Py Unit × LookupIndex :=
  match bindRow input with
  | .error e => (.error e, ix)
  | .ok _ =>
    let kept := ix.records.filter fun r => r.seq ≠ input.seq
    insertIds
      ⟨kept.orderedInsert LookupRow.SeqLe (rowOf realText input),
        ix.correlations.filter fun c => c.2 ≠ input.seq⟩
      input.seq (extractCorrelationIds input.capsule correlationFields)

/-- The inserts of `rebuild`. -/
def insertAll (ix : LookupIndex) : List LookupInput → Py Unit × LookupIndex
  | [] => (.ok (), ix)
  | input :: rows =>
    match bindRow input with
    | .error e => (.error e, ix)
    | .ok _ =>
      if ix.records.any fun r => r.seq = input.seq then
        (raise .database "UNIQUE constraint failed: records.seq", ix)
      else
        match insertIds
            { ix with records := ix.records.orderedInsert LookupRow.SeqLe (rowOf realText input) }
            input.seq (extractCorrelationIds input.capsule correlationFields) with
        | (.error e, ix) => (.error e, ix)
        | (.ok _, ix) => insertAll ix rows

/-- `rebuild`. -/
def rebuild (rows : List LookupInput) : Py Unit × LookupIndex :=
  insertAll realText correlationFields .empty rows

/-- `(seq, segment, byte_offset)`. -/
abbrev Hit := ℕ × Str × ℕ

/-- The columns that a query returns. -/
def hit (r : LookupRow) : Hit := (r.seq, r.segment, r.byteOffset)

/-- `ts >= ?` and `ts <= ?`, neither true of `NULL`. -/
def inTime (start end_ : Option Str) (ts : Cell) : Bool :=
  (match start with
    | none => true
    | some s => ts.any fun t => s ≤ t) &&
  match end_ with
  | none => true
  | some e => ts.any fun t => t ≤ e

/-- Binding an optional bound. -/
def bindBound (bound : Option Str) : Py Unit :=
  match bound with
  | none => .ok ()
  | some s => bind_ (.str s)

/-- `by_time`. -/
def byTime (ix : LookupIndex) (start end_ : Option Str) : Py (List Hit) := do
  bindBound start
  bindBound end_
  .ok ((ix.records.filter fun r => inTime start end_ r.ts).map hit)

/-- `by_digest`. -/
def byDigest (ix : LookupIndex) (recordDigest : Str) : Py (Option Hit) := do
  bind_ (.str recordDigest)
  .ok ((ix.records.find? fun r => r.recordDigest = recordDigest).map hit)

/-- `by_correlation`, one row for every pair that the join finds. -/
def byCorrelation (ix : LookupIndex) (correlationId : Str) : Py (List Hit) := do
  bind_ (.str correlationId)
  .ok (ix.records.flatMap fun r =>
    (ix.correlations.filter fun c => c.1 = correlationId ∧ c.2 = r.seq).map fun _ => hit r)

/-- `by_seq_range`. -/
def bySeqRange (ix : LookupIndex) (first last : ℤ) : Py (List Hit) := do
  bind_ (.int first)
  bind_ (.int last)
  .ok ((ix.records.filter fun r => first ≤ r.seq ∧ (r.seq : ℤ) ≤ last).map hit)

variable {realText correlationFields}

/-- The ids of a record that `correlations` holds: those before the first one that cannot be bound. -/
def storedIds (correlationFields : List Str) (capsule : Fields) : List Str :=
  (extractCorrelationIds capsule correlationFields).takeWhile encodable

/-- The index of a list of records. -/
def ofInputs (realText : Str → Cell) (correlationFields : List Str) (inputs : List LookupInput) :
    LookupIndex where
  records := inputs.map (rowOf realText)
  correlations := inputs.flatMap fun i =>
    (storedIds correlationFields i.capsule).map fun cid => (cid, i.seq)

/-- A text is bound exactly where it is encodable. -/
lemma bind_str_eq_ok {s : Str} (u : Unit) : bind_ (.str s) = .ok u ↔ encodable s = true :=
  require_eq_ok

/-- Ids are inserted up to the first one that is not encodable. -/
lemma insertIds_eq (ix : LookupIndex) (seq : ℕ) (ids : List Str) :
    (insertIds ix seq ids).2 =
        { ix with correlations := ix.correlations ++ (ids.takeWhile encodable).map (·, seq) } ∧
      ((insertIds ix seq ids).1 = .ok () ↔ ∀ cid ∈ ids, encodable cid = true) := by
  induction ids generalizing ix with
  | nil => simp [insertIds]
  | cons cid ids ih =>
    rw [insertIds]
    cases e : bind_ (.str cid) with
    | error err =>
      have refused : encodable cid = false := by
        rw [← Bool.not_eq_true]
        intro ok
        rw [(bind_str_eq_ok ()).mpr ok] at e
        cases e
      simp [refused]
    | ok u =>
      have taken := (bind_str_eq_ok u).mp e
      obtain ⟨state, result⟩ := ih { ix with correlations := ix.correlations ++ [(cid, seq)] }
      dsimp only
      rw [state, result]
      simp [taken]

/-- An id that is not inserted cannot be encoded. -/
lemma insertIds_raises {ix : LookupIndex} {seq : ℕ} {ids : List Str} {e : Error}
    (err : (insertIds ix seq ids).1 = .error e) : e.kind = .valueError := by
  induction ids generalizing ix with
  | nil => cases err
  | cons cid ids ih =>
    rw [insertIds] at err
    cases bound : bind_ (.str cid) with
    | error e' =>
      rw [bound] at err
      cases err
      unfold bind_ require at bound
      dsimp only at bound
      split at bound
      · cases bound
      · cases bound
        rfl
    | ok u =>
      rw [bound] at err
      exact ih err

/-- A bound record raises only a value error. -/
lemma record_raises {ix : LookupIndex} {input : LookupInput} {e : Error}
    (bound : bindRow input = .ok ())
    (err : (ix.record realText correlationFields input).1 = .error e) : e.kind = .valueError := by
  rw [record, bound] at err
  exact insertIds_raises err

/-- The row with the largest number is inserted last. -/
lemma orderedInsert_last {rows : List LookupRow} {row : LookupRow} (lt : ∀ r ∈ rows, r.seq < row.seq) :
    rows.orderedInsert LookupRow.SeqLe row = rows ++ [row] := by
  induction rows with
  | nil => rfl
  | cons r rows ih =>
    have own := lt r List.mem_cons_self
    rw [List.orderedInsert_cons, if_neg (by omega), ih fun s hs => lt s (List.mem_cons_of_mem _ hs)]
    rfl

/-- One more input adds its row and its ids. -/
lemma ofInputs_append (inputs : List LookupInput) (input : LookupInput) :
    ofInputs realText correlationFields (inputs ++ [input]) =
      ⟨(ofInputs realText correlationFields inputs).records ++ [rowOf realText input],
        (ofInputs realText correlationFields inputs).correlations ++
          (storedIds correlationFields input.capsule).map fun cid => (cid, input.seq)⟩ := by
  simp [ofInputs]

/-- `record` of the next record gives the index of one record more, whether it fails or not. -/
lemma record_next {inputs : List LookupInput} {input : LookupInput}
    (lt : ∀ i ∈ inputs, i.seq < input.seq) (bound : bindRow input = .ok ()) :
    ((ofInputs realText correlationFields inputs).record realText correlationFields input).2 =
        ofInputs realText correlationFields (inputs ++ [input]) ∧
      (((ofInputs realText correlationFields inputs).record realText correlationFields input).1 = .ok () ↔
        ∀ cid ∈ extractCorrelationIds input.capsule correlationFields, encodable cid = true) := by
  have rows : ∀ r ∈ (ofInputs realText correlationFields inputs).records, r.seq < input.seq := by
    intro r hr
    obtain ⟨i, hi, rfl⟩ := List.mem_map.mp hr
    exact lt i hi
  have pairs : ∀ c ∈ (ofInputs realText correlationFields inputs).correlations, c.2 < input.seq := by
    intro c hc
    obtain ⟨i, hi, hc⟩ := List.mem_flatMap.mp hc
    obtain ⟨cid, -, rfl⟩ := List.mem_map.mp hc
    exact lt i hi
  have kept : ((ofInputs realText correlationFields inputs).records.filter
      fun r => r.seq ≠ input.seq) = (ofInputs realText correlationFields inputs).records := by
    rw [List.filter_eq_self]
    intro r hr
    have := rows r hr
    simp only [ne_eq, decide_not, Bool.not_eq_true', decide_eq_false_iff_not]
    omega
  have keptPairs : ((ofInputs realText correlationFields inputs).correlations.filter
      fun c => c.2 ≠ input.seq) = (ofInputs realText correlationFields inputs).correlations := by
    rw [List.filter_eq_self]
    intro c hc
    have := pairs c hc
    simp only [ne_eq, decide_not, Bool.not_eq_true', decide_eq_false_iff_not]
    omega
  rw [record, bound]
  dsimp only
  rw [kept, keptPairs, orderedInsert_last rows]
  obtain ⟨state, result⟩ := insertIds_eq
    ⟨(ofInputs realText correlationFields inputs).records ++ [rowOf realText input],
      (ofInputs realText correlationFields inputs).correlations⟩ input.seq
    (extractCorrelationIds input.capsule correlationFields)
  rw [state, ofInputs_append]
  exact ⟨rfl, result⟩

/-- The inputs are those of a ledger: bindable, and numbered upwards. -/
structure Sequential (inputs : List LookupInput) : Prop where
  bound : ∀ i ∈ inputs, bindRow i = .ok ()
  increasing : inputs.Pairwise fun i j => i.seq < j.seq

/-- One more input is inserted after the others. -/
lemma insertAll_append (ix : LookupIndex) (inputs : List LookupInput) (input : LookupInput) :
    insertAll realText correlationFields ix (inputs ++ [input]) =
      match insertAll realText correlationFields ix inputs with
      | (.error e, ix) => (.error e, ix)
      | (.ok _, ix) => insertAll realText correlationFields ix [input] := by
  induction inputs generalizing ix with
  | nil => rfl
  | cons i inputs ih =>
    rw [List.cons_append, insertAll, insertAll]
    cases bindRow i with
    | error e => rfl
    | ok u =>
      dsimp only
      split
      · rfl
      · split
        · rfl
        · exact ih _

/-- Rebuilding succeeds exactly if every correlation id can be encoded, and gives the index of the records. -/
theorem rebuild_eq {inputs : List LookupInput} (sequential : Sequential inputs) :
    ((rebuild realText correlationFields inputs).1 = .ok () ↔
        ∀ i ∈ inputs, ∀ cid ∈ extractCorrelationIds i.capsule correlationFields,
          encodable cid = true) ∧
      ((rebuild realText correlationFields inputs).1 = .ok () →
        (rebuild realText correlationFields inputs).2 =
          ofInputs realText correlationFields inputs) := by
  unfold rebuild
  induction inputs using List.reverseRecOn with
  | nil => simp [insertAll, ofInputs, empty]
  | append_singleton inputs input ih =>
    obtain ⟨increasing, -, last⟩ := List.pairwise_append.mp sequential.increasing
    obtain ⟨result, state⟩ := ih
      ⟨fun i hi => sequential.bound i (List.mem_append_left _ hi), increasing⟩
    have bound := sequential.bound input (List.mem_append_right _ (List.mem_singleton_self _))
    rw [insertAll_append]
    simp only [List.mem_append, List.mem_singleton, or_imp, forall_and, forall_eq]
    rcases e : insertAll realText correlationFields empty inputs with ⟨r, ix⟩
    rw [e] at result state
    cases r with
    | error err =>
      dsimp only at result ⊢
      rw [← result]
      simp
    | ok u =>
      have all := result.mp rfl
      have ix_eq := state rfl
      dsimp only at ix_eq ⊢
      subst ix_eq
      -- Sequence numbers increase, so no row is replaced and the new one comes last.
      have fresh : ((ofInputs realText correlationFields inputs).records.any
          fun r => decide (r.seq = input.seq)) = false := by
        rw [List.any_eq_false]
        intro r hr same
        obtain ⟨i, hi, rfl⟩ := List.mem_map.mp hr
        have less : i.seq < input.seq := last i hi input (List.mem_singleton_self _)
        exact less.ne (of_decide_eq_true same)
      have rows : ∀ r ∈ (ofInputs realText correlationFields inputs).records,
          r.seq < (rowOf realText input).seq := by
        intro r hr
        obtain ⟨i, hi, rfl⟩ := List.mem_map.mp hr
        exact last i hi input (List.mem_singleton_self _)
      obtain ⟨state, result⟩ := insertIds_eq
        ⟨(ofInputs realText correlationFields inputs).records ++ [rowOf realText input],
          (ofInputs realText correlationFields inputs).correlations⟩ input.seq
        (extractCorrelationIds input.capsule correlationFields)
      rw [insertAll, bound]
      dsimp only
      rw [fresh, orderedInsert_last rows]
      simp only [Bool.false_eq_true, if_false]
      rcases e' : insertIds _ input.seq (extractCorrelationIds input.capsule correlationFields) with
        ⟨r', ix'⟩
      rw [e'] at state result
      cases r' with
      | error err =>
        simp only [reduceCtorEq, false_iff] at result
        simp [result]
      | ok u' =>
        have ids := result.mp rfl
        dsimp only at state
        refine ⟨⟨fun _ => ⟨all, ids⟩, fun _ => rfl⟩, fun _ => ?_⟩
        rw [state, ofInputs_append]
        rfl

end LookupIndex

end CLL.Ledger
