import CLL.Ledger.Store

/-!
# The content of a store

The segments of a store as lists of entries, each entry at its place: the `seq`, the segment and the offset
that it was given. Segment files, index rows, lookup rows and scanned records are views of the places.
-/

namespace CLL.Ledger
open CLL.Core

/-- A record as it was stored, and how it was admitted. -/
structure Entry where
  capsule : Fields
  capsuleId : Str
  consequential : Bool
  authenticity : Authenticity

/-- A segment and what it holds. -/
structure Segment where
  name : Str
  entries : List Entry

/-- A segment with one more entry. -/
def Segment.add (segment : Segment) (e : Entry) : Segment := ⟨segment.name, segment.entries ++ [e]⟩

/-- An entry at its place. -/
structure Placed where
  seq : ℕ
  segment : Str
  offset : ℕ
  entry : Entry

/-- The bytes of a segment file. -/
def bytesOf (entries : List Entry) : Bytes := entries.flatMap fun e => lineOf e.capsule

/-- The places of the entries of one segment from an offset on. -/
def placeEntries (name : Str) (seq offset : ℕ) : List Entry → List Placed
  | [] => []
  | e :: entries =>
    ⟨seq, name, offset, e⟩ ::
      placeEntries name (seq + 1) (offset + (lineOf e.capsule).length) entries

/-- The places of the entries of all segments. -/
def place (seq : ℕ) : List Segment → List Placed
  | [] => []
  | segment :: segments =>
    placeEntries segment.name seq 0 segment.entries ++ place (seq + segment.entries.length) segments

/-- The bytes of entries are those of both parts. -/
lemma bytesOf_append (entries more : List Entry) :
    bytesOf (entries ++ more) = bytesOf entries ++ bytesOf more := List.flatMap_append

/-- The bytes of entries are those of the first and the rest. -/
lemma bytesOf_cons (e : Entry) (entries : List Entry) :
    bytesOf (e :: entries) = lineOf e.capsule ++ bytesOf entries := List.flatMap_cons

/-- There is one place for each entry. -/
@[simp] lemma length_placeEntries (name : Str) (seq offset : ℕ) (entries : List Entry) :
    (placeEntries name seq offset entries).length = entries.length := by
  induction entries generalizing seq offset with
  | nil => rfl
  | cons e entries ih => rw [placeEntries, List.length_cons, ih, List.length_cons]

/-- Later entries are placed after earlier ones. -/
lemma placeEntries_append (name : Str) (seq offset : ℕ) (entries more : List Entry) :
    placeEntries name seq offset (entries ++ more) =
      placeEntries name seq offset entries ++
        placeEntries name (seq + entries.length) (offset + (bytesOf entries).length) more := by
  induction entries generalizing seq offset with
  | nil => rfl
  | cons e entries ih =>
    rw [List.cons_append, placeEntries, placeEntries, ih, List.cons_append, bytesOf_cons,
      List.length_append, List.length_cons]
    congr 3 <;> omega

/-- Later segments are placed after earlier ones. -/
lemma place_append (seq : ℕ) (segments more : List Segment) :
    place seq (segments ++ more) =
      place seq segments ++ place (seq + (place seq segments).length) more := by
  induction segments generalizing seq with
  | nil => rfl
  | cons segment segments ih =>
    rw [List.cons_append, place, place, ih, List.append_assoc, List.length_append,
      length_placeEntries, Nat.add_assoc]

/-- One segment is placed by its entries. -/
lemma place_singleton (seq : ℕ) (segment : Segment) :
    place seq [segment] = placeEntries segment.name seq 0 segment.entries := List.append_nil _

/-- A new segment adds no place. -/
lemma place_open (seq : ℕ) (segments : List Segment) (name : Str) :
    place seq (segments ++ [⟨name, []⟩]) = place seq segments := by
  rw [place_append, place_singleton, placeEntries, List.append_nil]

/-- An opened segment adds its name. -/
lemma map_name_open (segments : List Segment) (name : Str) :
    (segments ++ [(⟨name, []⟩ : Segment)]).map Segment.name = segments.map Segment.name ++ [name] := by
  rw [List.map_append]
  rfl

/-- A new entry of the last segment gets the next place. -/
lemma place_write (segments : List Segment) (last : Segment) (e : Entry) :
    place 1 (segments ++ [last.add e]) =
      place 1 (segments ++ [last]) ++
        [⟨(place 1 (segments ++ [last])).length + 1, last.name, (bytesOf last.entries).length, e⟩] := by
  rw [place_append, place_append, place_singleton, place_singleton, Segment.add, placeEntries_append,
    List.append_assoc, Nat.zero_add, List.length_append, length_placeEntries, placeEntries, placeEntries]
  congr 4
  omega

/-- Placing entries keeps them. -/
lemma map_entry_placeEntries (name : Str) (seq offset : ℕ) (entries : List Entry) :
    (placeEntries name seq offset entries).map Placed.entry = entries := by
  induction entries generalizing seq offset with
  | nil => rfl
  | cons e entries ih => rw [placeEntries, List.map_cons, ih]

/-- Placing segments keeps their entries. -/
lemma map_entry_place (seq : ℕ) (segments : List Segment) :
    (place seq segments).map Placed.entry = segments.flatMap Segment.entries := by
  induction segments generalizing seq with
  | nil => rfl
  | cons segment segments ih =>
    rw [place, List.map_append, map_entry_placeEntries, ih, List.flatMap_cons]

/-- Places are numbered consecutively. -/
lemma map_seq_placeEntries (name : Str) (seq offset : ℕ) (entries : List Entry) :
    (placeEntries name seq offset entries).map Placed.seq = List.range' seq entries.length := by
  induction entries generalizing seq offset with
  | nil => rfl
  | cons e entries ih => rw [placeEntries, List.map_cons, ih, List.length_cons, List.range'_succ]

/-- Places are numbered one after another. -/
lemma map_seq_place (seq : ℕ) (segments : List Segment) :
    (place seq segments).map Placed.seq = List.range' seq (place seq segments).length := by
  induction segments generalizing seq with
  | nil => rfl
  | cons segment segments ih =>
    rw [place, List.map_append, map_seq_placeEntries, ih, List.length_append, length_placeEntries,
      ← List.range'_append_1]

/-- A place stands after the entries before it. -/
lemma mem_placeEntries {name : Str} {seq offset : ℕ} {entries : List Entry} {p : Placed}
    (mem : p ∈ placeEntries name seq offset entries) :
    ∃ before after, entries = before ++ p.entry :: after ∧ p.segment = name ∧
      p.seq = seq + before.length ∧ p.offset = offset + (bytesOf before).length := by
  induction entries generalizing seq offset with
  | nil => cases mem
  | cons e entries ih =>
    cases mem with
    | head => exact ⟨[], entries, rfl, rfl, rfl, rfl⟩
    | tail _ mem =>
      obtain ⟨before, after, split, segment, hseq, hoffset⟩ := ih mem
      refine ⟨e :: before, after, by rw [split, List.cons_append], segment, ?_, ?_⟩
      · rw [hseq, List.length_cons]
        omega
      · rw [hoffset, bytesOf_cons, List.length_append]
        omega

/-- An entry stands in its segment behind the bytes that its offset counts. -/
lemma mem_place {seq : ℕ} {segments : List Segment} {p : Placed} (mem : p ∈ place seq segments) :
    ∃ segment ∈ segments, segment.name = p.segment ∧ ∃ before after,
      segment.entries = before ++ p.entry :: after ∧ p.offset = (bytesOf before).length := by
  induction segments generalizing seq with
  | nil => cases mem
  | cons segment segments ih =>
    cases List.mem_append.mp mem with
    | inl mem =>
      obtain ⟨before, after, split, name, -, offset⟩ := mem_placeEntries mem
      exact ⟨segment, List.mem_cons_self, name.symm, before, after, split, by omega⟩
    | inr mem =>
      obtain ⟨other, hother, rest⟩ := ih mem
      exact ⟨other, List.mem_cons_of_mem _ hother, rest⟩

/-- A portable capsule is written in one line. -/
lemma notMem_ascii {fields : Fields} (ok : Json.portable (.obj fields) = true) :
    ∀ c ∈ Text.ascii (Json.dumpsAscii (.obj fields)), c ≠ 10 ∧ c ≠ 13 := by
  intro c hc
  obtain ⟨n, hn, rfl⟩ := List.mem_map.mp hc
  have range := Json.printable_dumpsAscii _ ok n hn
  have value := Utf8.toNat_ofNat (n := n) (by omega)
  constructor
  · intro e
    rw [e] at value
    have : (10 : UInt8).toNat = 10 := rfl
    omega
  · intro e
    rw [e] at value
    have : (13 : UInt8).toNat = 13 := rfl
    omega

/-- A portable capsule is written in ASCII. -/
lemma small_dumpsAscii {fields : Fields} (ok : Json.portable (.obj fields) = true) :
    ∀ c ∈ Json.dumpsAscii (.obj fields), c < 128 := by
  intro c hc
  have := Json.printable_dumpsAscii _ ok c hc
  omega

/-- A line is read where it begins. -/
lemma readLine_line {fields : Fields} (ok : Json.portable (.obj fields) = true) (before rest : Bytes) :
    readLine (before ++ (lineOf fields ++ rest)) before.length =
      .ok (Json.dumpsAscii (.obj fields)) := by
  have cut : (lineOf fields ++ rest).takeWhile (fun c => c ≠ 10 && c ≠ 13) =
      Text.ascii (Json.dumpsAscii (.obj fields)) := by
    rw [lineOf, List.append_assoc, List.takeWhile_append_of_pos]
    · simp
    · intro c hc
      simpa using notMem_ascii ok c hc
  rw [readLine, List.drop_left, cut, decodeUtf8_eq_ok]
  exact Text.decode_ascii (small_dumpsAscii ok)

/-- What was written is what `json.loads` gives back. -/
lemma loads_line {fields : Fields} (ok : Json.portable (.obj fields) = true) {rest : Str}
    (space : Json.skipSpace rest = []) :
    loads (Json.dumpsAscii (.obj fields) ++ rest) = .ok (.obj fields) :=
  loads_eq_ok.mpr (Json.loads_dumpsAscii ok space)

/-- A file of entries is cut into their lines. -/
lemma rawLines_bytesOf {entries : List Entry}
    (ok : ∀ e ∈ entries, Json.portable (.obj e.capsule) = true) :
    rawLines (bytesOf entries) = entries.map fun e => lineOf e.capsule := by
  have joined : bytesOf entries =
      Lines.join 10 (entries.map fun e => Text.ascii (Json.dumpsAscii (.obj e.capsule))) ++ [] := by
    rw [List.append_nil, Lines.join, List.flatMap_map]
    rfl
  have cut : Lines.splitLines 10
      (Lines.join 10 (entries.map fun e => Text.ascii (Json.dumpsAscii (.obj e.capsule))) ++ []) =
        (entries.map fun e => Text.ascii (Json.dumpsAscii (.obj e.capsule)), []) := by
    refine Lines.splitLines_join (fun line hline mem => ?_) List.not_mem_nil
    obtain ⟨e, he, rfl⟩ := List.mem_map.mp hline
    exact (notMem_ascii (ok e he) 10 mem).1 rfl
  rw [rawLines, joined, cut]
  simp [lineOf]

/-- The fields of an object. -/
def fieldsOf : Json → Fields
  | .obj fields => fields
  | _ => []

/-- The values of a record that its index row binds. -/
def indexedValues (capsule : Fields) : List Json :=
  let chain := fieldsOf (orEmpty (capsule.get "chain"))
  let disposition := fieldsOf (orEmpty (capsule.get "disposition"))
  [capsule.get "timestamp", capsule.get "operator", capsule.get "developer", capsule.get "action_type",
    Fields.get disposition "verdict_class", Fields.get chain "parent_capsule_id",
    Fields.get chain "relation"]

/-- The columns of a record. -/
def columnsOf (realText : Str → Cell) (capsule : Fields) : Columns :=
  let chain := fieldsOf (orEmpty (capsule.get "chain"))
  let disposition := fieldsOf (orEmpty (capsule.get "disposition"))
  ⟨toCell realText (capsule.get "timestamp"), toCell realText (capsule.get "operator"),
    toCell realText (capsule.get "developer"), toCell realText (capsule.get "action_type"),
    toCell realText (Fields.get disposition "verdict_class"),
    toCell realText (Fields.get chain "parent_capsule_id"), toCell realText (Fields.get chain "relation")⟩

/-- `isinstance(value, dict)`. -/
def isObject : Json → Bool
  | .obj _ => true
  | _ => false

/-- A record that the index can hold. -/
structure Recordable (capsule : Fields) : Prop where
  chain : isObject (orEmpty (capsule.get "chain")) = true
  disposition : isObject (orEmpty (capsule.get "disposition")) = true
  values : ∀ v ∈ indexedValues capsule, indexable v = true

/-- A value is an object exactly where it has fields. -/
lemma isObject_eq_true {j : Json} : isObject j = true ↔ ∃ fields, j = .obj fields := by
  cases j <;> simp [isObject]

/-- When an index row can be written, and which. -/
lemma recordParams_eq_ok {realText : Str → Cell} {capsule : Fields} {capsuleId segment : Str}
    {offset : ℕ} {consequential : Bool} {authenticity : Authenticity} {params : Params} :
    recordParams realText capsule capsuleId segment offset consequential authenticity = .ok params ↔
      Recordable capsule ∧ encodable capsuleId = true ∧ encodable segment = true ∧
        isInt64 offset = true ∧ params =
          ⟨capsuleId, segment, offset, columnsOf realText capsule, consequential, authenticity⟩ := by
  have one : isInt64 1 = true := by decide
  have zero : isInt64 0 = true := by decide
  have flag : indexable (.int (if consequential then 1 else 0)) = true := by
    cases consequential
    · exact zero
    · exact one
  have text : indexable (.str authenticity.text) = true := by cases authenticity <;> decide
  constructor
  · intro ok
    unfold recordParams at ok
    split at ok
    · rename_i chain disposition hchain hdisposition
      obtain ⟨_, all, ok⟩ := bind_eq_ok.mp ok
      have all := require_eq_ok.mp all
      have e := (Except.ok.inj ok).symm
      simp only [List.all_append, List.all_cons, List.all_nil, Bool.and_true, Bool.and_eq_true] at all
      obtain ⟨⟨⟨hid, hsegment, hoffset⟩, hvalues⟩, -⟩ := all
      refine ⟨⟨by rw [hchain]; rfl, by rw [hdisposition]; rfl, ?_⟩, hid, hsegment, hoffset, ?_⟩
      · simp only [indexedValues, hchain, hdisposition, fieldsOf, List.forall_mem_cons]
        simpa using hvalues
      · rw [e, columnsOf, hchain, hdisposition]
        rfl
    · cases ok
  · rintro ⟨recordable, hid, hsegment, hoffset, rfl⟩
    obtain ⟨chain, hchain⟩ := isObject_eq_true.mp recordable.chain
    obtain ⟨disposition, hdisposition⟩ := isObject_eq_true.mp recordable.disposition
    have values := recordable.values
    simp only [indexedValues, hchain, hdisposition, fieldsOf, List.forall_mem_cons] at values
    unfold recordParams
    rw [hchain, hdisposition]
    dsimp only
    rw [require_of (by
      simp only [List.all_append, List.all_cons, List.all_nil, Bool.and_true, Bool.and_eq_true]
      exact ⟨⟨⟨hid, hsegment, hoffset⟩, by simpa using values⟩, flag, text⟩)]
    simp only [columnsOf, hchain, hdisposition]
    rfl

/-- The index row of a placed entry. -/
def Placed.row (realText : Str → Cell) (p : Placed) : Row :=
  ⟨⟨p.entry.capsuleId, p.segment, p.offset, columnsOf realText p.entry.capsule, p.entry.consequential,
    p.entry.authenticity⟩, p.seq⟩

/-- What the lookup index is told of a placed entry. -/
def Placed.input (p : Placed) : LookupInput :=
  ⟨p.seq, p.entry.capsule.get "timestamp", p.entry.capsuleId, p.segment, p.offset, p.entry.capsule⟩

/-- The record that is read back at a place. -/
def Placed.record (p : Placed) : LedgerRecord :=
  ⟨p.seq, p.entry.capsuleId, .obj p.entry.capsule, p.segment, p.entry.consequential,
    p.entry.authenticity, bundledEnvelopes p.entry.capsule p.entry.authenticity⟩

/-- What `_leaves` yields at a place. -/
def Placed.leaf (p : Placed) : Leaf := ⟨p.segment, p.offset, p.entry.capsule, p.entry.capsuleId⟩

/-- What `append` ensures of an entry. -/
structure Entry.Stored (aac : Aac) (e : Entry) : Prop where
  portable : Json.portable (.obj e.capsule) = true
  id : carriedOrComputed aac e.capsule = .ok (.str e.capsuleId)
  idProblem : lineIdProblem e.capsule = none
  encodable : encodable e.capsuleId = true
  recordable : Recordable e.capsule
  signed : e.authenticity = .signed → CarriesProof aac e.capsule

end CLL.Ledger
