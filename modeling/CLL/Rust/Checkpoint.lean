import CLL.Checkpoint.Record

/-!
# Checkpoint records in Rust

`WitnessRecord` and `CheckpointRecord` of `checkpoint.rs`, whose canonical JSON is written by hand: one
key order for each struct and an escape for each `char`. Escapes, numbers and the order of a checkpoint's
own keys are Python's, so the signing digests agree. A witness record has `ts_url` before `tree_size`,
which is not the order of these keys, so `entryDigest_agrees` holds of unwitnessed checkpoints only.
-/

namespace CLL.Rust
open CLL.Core (HashFunction toHex)
open CLL.Json (dumpInt hex4 unicodeEscape commas)

/-- A Rust `String`: its `char`s are Unicode scalar values. -/
abbrev Text := {s : Str // ∀ c ∈ s, Utf8.isScalar c = true}

/-- `json_escape` of one `char`. -/
def jsonEscapeChar (c : ℕ) : Str :=
  if c = 34 then [92, 34]
  else if c = 92 then [92, 92]
  else if c = 8 then [92, 98]
  else if c = 12 then [92, 102]
  else if c = 10 then [92, 110]
  else if c = 13 then [92, 114]
  else if c = 9 then [92, 116]
  else if c < 0x20 then unicodeEscape c
  else if c < 0x7F then [c]
  else if c ≤ 0xFFFF then unicodeEscape c
  else
    let v := c - 0x10000
    unicodeEscape (0xD800 + v >>> 10) ++ unicodeEscape (0xDC00 + (v &&& 0x3FF))

/-- `json_escape`. -/
def jsonEscape (s : Text) : Str := s.1.flatMap jsonEscapeChar

/-- `json_str`. -/
def jsonStr (s : Text) : Str := 34 :: (jsonEscape s ++ [34])

/-- `format!("{}", n)`. -/
def display (n : ℤ) : Str := dumpInt n

/-- `format!("\"key\":…")`. -/
def field (key : String) (value : Str) : Str := 34 :: (Str.lit key ++ 34 :: 58 :: value)

/-- `format!("{{{}}}", fields.join(","))`. -/
def braces (fields : List Str) : Str := 123 :: (commas fields ++ [125])

structure WitnessRecord where
  tsUrl : Text
  entryHash : Text
  receiptB64 : Text
  leafIndex : Int64
  treeSize : Int64
  isStub : Bool

structure CheckpointRecord where
  v : UInt32
  kind : Text
  logId : Text
  mmrSize : UInt64
  root : Text
  prevSize : UInt64
  prevRoot : Text
  keyId : Text
  timestamp : Text
  signature : Text
  witnesses : List WitnessRecord

/-- `WitnessRecord::canonical_json`. -/
def WitnessRecord.canonicalJson (w : WitnessRecord) : Str :=
  let fields := [field "entry_hash" (jsonStr w.entryHash),
    field "leaf_index" (display w.leafIndex.toInt), field "receipt_b64" (jsonStr w.receiptB64),
    field "ts_url" (jsonStr w.tsUrl), field "tree_size" (display w.treeSize.toInt)]
  braces (if w.isStub then fields.insertIdx 1 (field "is_stub" (Str.lit "true")) else fields)

namespace CheckpointRecord

/-- `canonical_json`. -/
def canonicalJson (cp : CheckpointRecord) : Str :=
  let fields := [field "key_id" (jsonStr cp.keyId), field "kind" (jsonStr cp.kind),
    field "log_id" (jsonStr cp.logId), field "mmr_size" (display cp.mmrSize.toNat),
    field "prev_root" (jsonStr cp.prevRoot), field "prev_size" (display cp.prevSize.toNat),
    field "root" (jsonStr cp.root), field "signature" (jsonStr cp.signature),
    field "timestamp" (jsonStr cp.timestamp), field "v" (display cp.v.toNat)]
  let witnesses := field "witnesses" (91 :: (commas (cp.witnesses.map (·.canonicalJson)) ++ [93]))
  braces (if cp.witnesses.isEmpty then fields else fields ++ [witnesses])

/-- `sha256_hex(s.as_bytes())`. -/
def sha256Hex (H : HashFunction) (s : Str) : Str := toHex (H.digest (s.flatMap Utf8.encodeChar))

/-- `entry_digest`. -/
def entryDigest (H : HashFunction) (cp : CheckpointRecord) : Str := sha256Hex H cp.canonicalJson

end CheckpointRecord

/-- The same record in Python. -/
def WitnessRecord.toPython (w : WitnessRecord) : Checkpoint.WitnessRecord :=
  ⟨w.tsUrl, w.entryHash, w.receiptB64, w.leafIndex.toInt, w.treeSize.toInt, w.isStub⟩

/-- The same record in Python. -/
def CheckpointRecord.toPython (cp : CheckpointRecord) : Checkpoint.CheckpointRecord :=
  ⟨cp.v.toNat, cp.kind, cp.logId, cp.mmrSize.toNat, cp.root, cp.prevSize.toNat, cp.prevRoot, cp.keyId,
    cp.timestamp, cp.signature, cp.witnesses.map (·.toPython)⟩

/-- Rust escapes a `char` as Python escapes it. -/
lemma jsonEscapeChar_eq {c : ℕ} (scalar : Utf8.isScalar c = true) :
    jsonEscapeChar c = Json.escapeAscii c := by
  have lt : c < 0x110000 := by
    simp only [Utf8.isScalar, Bool.or_eq_true, Bool.and_eq_true, decide_eq_true_eq] at scalar
    omega
  by_cases astral : 0x10000 ≤ c
  · -- the high half has no bits beyond ten, so Python's mask leaves it alone
    have hi : (c - 0x10000) / 1024 % 1024 = (c - 0x10000) / 1024 := Nat.mod_eq_of_lt (by omega)
    have shift : (c - 0x10000) >>> 10 = (c - 0x10000) / 1024 := Nat.shiftRight_eq_div_pow _ 10
    rw [Json.escapeAscii_astral astral, hi]
    unfold jsonEscapeChar
    rw [if_neg (by omega), if_neg (by omega), if_neg (by omega), if_neg (by omega),
      if_neg (by omega), if_neg (by omega), if_neg (by omega), if_neg (by omega),
      if_neg (by omega), if_neg (by omega)]
    dsimp only
    rw [shift, Json.and_low]
  by_cases short : c ∈ [34, 92, 8, 12, 10, 13, 9]
  · have all : ∀ c ∈ [34, 92, 8, 12, 10, 13, 9], jsonEscapeChar c = Json.escapeAscii c := by decide
    exact all c short
  · simp only [List.mem_cons, List.not_mem_nil, or_false, not_or] at short
    obtain ⟨h1, h2, h3, h4, h5, h6, h7⟩ := short
    unfold jsonEscapeChar Json.escapeAscii
    rw [if_neg h1, if_neg h2, if_neg h3, if_neg h4, if_neg h5, if_neg h6, if_neg h7, if_neg h2,
      if_neg h1, if_neg h3, if_neg h4, if_neg h5, if_neg h6, if_neg h7]
    by_cases control : c < 0x20
    · rw [if_pos control, if_neg (by omega), if_pos (by omega)]
    by_cases printable : c < 0x7F
    · rw [if_neg control, if_pos printable, if_pos (by omega)]
    · rw [if_neg control, if_neg printable, if_pos (by omega), if_neg (by omega), if_pos (by omega)]

/-- A string is escaped as in Python. -/
lemma jsonStr_eq (s : Text) : jsonStr s = Json.dumpAscii s.1 := by
  rw [jsonStr, Json.dumpAscii, jsonEscape]
  congr 2
  exact List.flatMap_congr fun c hc => jsonEscapeChar_eq (s.2 c hc)

/-- Keys are plain text. -/
lemma field_eq {key : String} (plain : (Str.lit key).flatMap Json.escapeAscii = Str.lit key)
    (value : Str) : field key value = Json.dumpAscii (Str.lit key) ++ 58 :: value := by
  rw [field, Json.dumpAscii, plain]
  simp

/-- The first of several texts comes before a comma. -/
@[simp] lemma commas_cons_cons (s t : Str) (texts : List Str) :
    commas (s :: t :: texts) = s ++ 44 :: commas (t :: texts) := by
  simp [commas]

/-- A single text has no comma. -/
@[simp] lemma commas_singleton (s : Str) : commas [s] = s := by
  simp [commas]

/-- The fields of a witness record in the order of their keys. -/
lemma sortKeys_witness (w : Checkpoint.WitnessRecord) : Json.sortKeys w.toDict =
    .obj ([(Str.lit "entry_hash", .str w.entryHash)] ++
      (if w.isStub then [(Str.lit "is_stub", .bool true)] else []) ++
      [(Str.lit "leaf_index", .int w.leafIndex), (Str.lit "receipt_b64", .str w.receiptB64),
        (Str.lit "tree_size", .int w.treeSize), (Str.lit "ts_url", .str w.tsUrl)]) := by
  obtain ⟨tsUrl, entryHash, receiptB64, leafIndex, treeSize, isStub⟩ := w
  cases isStub with
  | false => rfl
  | true => rfl

/-- The fields of a persisted record in the order of their keys. -/
lemma sortKeys_record (cp : Checkpoint.CheckpointRecord) : Json.sortKeys cp.toDict =
    .obj ([(Str.lit "key_id", .str cp.keyId), (Str.lit "kind", .str cp.kind),
      (Str.lit "log_id", .str cp.logId), (Str.lit "mmr_size", .int cp.mmrSize),
      (Str.lit "prev_root", .str cp.prevRoot), (Str.lit "prev_size", .int cp.prevSize),
      (Str.lit "root", .str cp.root), (Str.lit "signature", .str cp.signature),
      (Str.lit "timestamp", .str cp.timestamp), (Str.lit "v", .int cp.v)] ++
      if cp.witnesses ≠ [] then
        [(Str.lit "witnesses", .arr (cp.witnesses.map fun w => Json.sortKeys w.toDict))]
      else []) := by
  obtain ⟨v, kind, logId, mmrSize, root, prevSize, prevRoot, keyId, timestamp, signature, ws⟩ := cp
  cases ws with
  | nil => rfl
  | cons w ws =>
    have items : Json.sortItems ((w :: ws).map Checkpoint.WitnessRecord.toDict) =
        (w :: ws).map fun w => Json.sortKeys w.toDict := by
      rw [Json.sortItems_eq_map, List.map_map]
      rfl
    rw [if_pos (List.cons_ne_nil w ws), ← items]
    rfl

/-- Texts are joined one list after the other. -/
lemma commas_append {ss ts : List Str} (hs : ss ≠ []) (ht : ts ≠ []) :
    commas (ss ++ ts) = commas ss ++ 44 :: commas ts := by
  induction ss with
  | nil => exact absurd rfl hs
  | cons s ss ih =>
    cases ss with
    | nil =>
      obtain ⟨t, ts, rfl⟩ := List.exists_cons_of_ne_nil ht
      simp
    | cons s' ss =>
      have ih := ih (List.cons_ne_nil s' ss)
      simp only [List.cons_append, commas_cons_cons, List.append_assoc] at ih ⊢
      rw [ih]

/-- Python writes an object in braces. -/
lemma dumpsAscii_obj (fields : List (Str × Json)) : Json.dumpsAscii (.obj fields) =
    braces (fields.map fun f => Json.dumpAscii f.1 ++ 58 :: Json.dumpsAscii f.2) := by
  rw [Json.dumpsAscii, Json.dumpsFields_eq_map, braces]

/-- Python's field with a string. -/
lemma field_str {key : String} (plain : (Str.lit key).flatMap Json.escapeAscii = Str.lit key)
    (s : Text) : Json.dumpAscii (Str.lit key) ++ 58 :: Json.dumpsAscii (.str s.1) =
      field key (jsonStr s) := by
  rw [field_eq plain, jsonStr_eq, Json.dumpsAscii]

/-- Python's field with a number. -/
lemma field_int {key : String} (plain : (Str.lit key).flatMap Json.escapeAscii = Str.lit key)
    (n : ℤ) : Json.dumpAscii (Str.lit key) ++ 58 :: Json.dumpsAscii (.int n) =
      field key (display n) := by
  rw [field_eq plain, Json.dumpsAscii, display]

/-- Python's text of a witness record. -/
lemma dumpsCanonical_witness (w : WitnessRecord) : Json.dumpsCanonical w.toPython.toDict =
    braces ([field "entry_hash" (jsonStr w.entryHash)] ++
      (if w.isStub then [field "is_stub" (Str.lit "true")] else []) ++
      [field "leaf_index" (display w.leafIndex.toInt), field "receipt_b64" (jsonStr w.receiptB64),
        field "tree_size" (display w.treeSize.toInt), field "ts_url" (jsonStr w.tsUrl)]) := by
  have stub : Json.dumpAscii (Str.lit "is_stub") ++ 58 :: Json.dumpsAscii (.bool true) =
      field "is_stub" (Str.lit "true") := (field_eq rfl _).symm
  obtain ⟨tsUrl, entryHash, receiptB64, leafIndex, treeSize, isStub⟩ := w
  rw [Json.dumpsCanonical, sortKeys_witness, dumpsAscii_obj]
  cases isStub with
  | false =>
    simp only [WitnessRecord.toPython, Bool.false_eq_true, if_false, List.append_nil,
      List.cons_append, List.nil_append, List.map_cons, List.map_nil]
    rw [field_str rfl, field_int rfl, field_str rfl, field_int rfl, field_str rfl]
  | true =>
    simp only [WitnessRecord.toPython, if_true, List.cons_append, List.nil_append, List.map_cons,
      List.map_nil]
    rw [field_str rfl, stub, field_int rfl, field_str rfl, field_int rfl, field_str rfl]

/-- Two further fields come last. -/
lemma braces_append_pair {common : List Str} (ne : common ≠ []) (s t : Str) :
    braces (common ++ [s, t]) = 123 :: (commas common ++ 44 :: (s ++ 44 :: t)) ++ [125] := by
  rw [braces, commas_append ne (List.cons_ne_nil s [t]), commas_cons_cons, commas_singleton]
  rfl

/-- The texts of a witness record part at the second letter of the keys that Rust has in each other's
place. -/
lemma witness_ne (w : WitnessRecord) : ∃ before after after',
    w.canonicalJson = before ++ 115 :: after ∧
      Json.dumpsCanonical w.toPython.toDict = before ++ 114 :: after' := by
  obtain ⟨common, ne, rust, python⟩ : ∃ common, common ≠ [] ∧
      w.canonicalJson = braces (common ++
        [field "ts_url" (jsonStr w.tsUrl), field "tree_size" (display w.treeSize.toInt)]) ∧
      Json.dumpsCanonical w.toPython.toDict = braces (common ++
        [field "tree_size" (display w.treeSize.toInt), field "ts_url" (jsonStr w.tsUrl)]) := by
    refine ⟨[field "entry_hash" (jsonStr w.entryHash)] ++
      (if w.isStub then [field "is_stub" (Str.lit "true")] else []) ++
      [field "leaf_index" (display w.leafIndex.toInt), field "receipt_b64" (jsonStr w.receiptB64)],
      List.cons_ne_nil _ _, ?_, ?_⟩
    · rw [WitnessRecord.canonicalJson]
      split <;> rfl
    · rw [dumpsCanonical_witness]
      simp
  have tsUrl (value : Str) : ∃ rest, field "ts_url" value = 34 :: 116 :: 115 :: rest := ⟨_, rfl⟩
  have treeSize (value : Str) : ∃ rest, field "tree_size" value = 34 :: 116 :: 114 :: rest := ⟨_, rfl⟩
  obtain ⟨u, hu⟩ := tsUrl (jsonStr w.tsUrl)
  obtain ⟨v, hv⟩ := treeSize (display w.treeSize.toInt)
  rw [rust, python, braces_append_pair ne, braces_append_pair ne, hu, hv]
  refine ⟨123 :: (commas common ++ [44, 34, 116]), u ++ 44 :: 34 :: 116 :: 114 :: v ++ [125],
    v ++ 44 :: 34 :: 116 :: 115 :: u ++ [125], ?_, ?_⟩
  · simp
  · simp

/-- The fields of a checkpoint record before its witnesses. -/
def ownFields (cp : CheckpointRecord) : List Str :=
  [field "key_id" (jsonStr cp.keyId), field "kind" (jsonStr cp.kind), field "log_id" (jsonStr cp.logId),
    field "mmr_size" (display cp.mmrSize.toNat), field "prev_root" (jsonStr cp.prevRoot),
    field "prev_size" (display cp.prevSize.toNat), field "root" (jsonStr cp.root),
    field "signature" (jsonStr cp.signature), field "timestamp" (jsonStr cp.timestamp),
    field "v" (display cp.v.toNat)]

/-- The field of the witnesses. -/
def witnessesField (texts : List Str) : Str := field "witnesses" (91 :: (commas texts ++ [93]))

/-- A record is written with its own fields and its witnesses. -/
lemma canonicalJson_eq (cp : CheckpointRecord) : cp.canonicalJson =
    braces (ownFields cp ++ if cp.witnesses.isEmpty then []
      else [witnessesField (cp.witnesses.map (·.canonicalJson))]) := by
  rw [CheckpointRecord.canonicalJson]
  split <;> rfl

/-- Python's text of a persisted record. -/
lemma entryBody_eq (cp : CheckpointRecord) : cp.toPython.entryBody =
    braces (ownFields cp ++ if cp.witnesses.isEmpty then []
      else [witnessesField (cp.witnesses.map fun w => Json.dumpsCanonical w.toPython.toDict)]) := by
  have witnesses : Json.dumpAscii (Str.lit "witnesses") ++ 58 ::
      Json.dumpsAscii (.arr (cp.toPython.witnesses.map fun w => Json.sortKeys w.toDict)) =
      witnessesField (cp.witnesses.map fun w => Json.dumpsCanonical w.toPython.toDict) := by
    rw [witnessesField, field_eq rfl, Json.dumpsAscii, Json.dumpsItems_eq_map]
    simp only [CheckpointRecord.toPython, List.map_map]
    rfl
  have nonempty : cp.toPython.witnesses ≠ [] ↔ ¬ cp.witnesses.isEmpty = true := by
    rw [List.isEmpty_iff]
    exact not_congr List.map_eq_nil_iff
  rw [Checkpoint.CheckpointRecord.entryBody, Json.dumpsCanonical, sortKeys_record, dumpsAscii_obj,
    List.map_append]
  congr 2
  · simp only [CheckpointRecord.toPython, List.map_cons, List.map_nil]
    rw [field_str rfl, field_str rfl, field_str rfl, field_int rfl, field_str rfl, field_int rfl,
      field_str rfl, field_str rfl, field_str rfl, field_int rfl]
    rfl
  · by_cases empty : cp.witnesses.isEmpty = true
    · rw [if_neg (mt nonempty.mp (not_not.mpr empty)), if_pos empty, List.map_nil]
    · rw [if_pos (nonempty.mpr empty), if_neg empty, List.map_cons, List.map_nil, witnesses]

/-- A record with witnesses up to its first witness. -/
lemma braces_witnesses {own : List Str} (ne : own ≠ []) (text : Str) (texts : List Str) :
    ∃ rest, braces (own ++ [witnessesField (text :: texts)]) =
      123 :: (commas own ++ 44 :: 34 :: (Str.lit "witnesses" ++ [34, 58, 91])) ++ (text ++ rest) := by
  have first : ∃ rest, commas (text :: texts) = text ++ rest := by
    cases texts with
    | nil => exact ⟨[], by simp⟩
    | cons t ts => exact ⟨44 :: commas (t :: ts), commas_cons_cons text t ts⟩
  obtain ⟨rest, e⟩ := first
  refine ⟨rest ++ [93, 125], ?_⟩
  rw [braces, commas_append ne (List.cons_ne_nil _ _), commas_singleton, witnessesField, e, field]
  simp

/-- The persisted texts agree exactly on unwitnessed checkpoints. -/
lemma canonicalJson_eq_iff (cp : CheckpointRecord) :
    cp.canonicalJson = cp.toPython.entryBody ↔ cp.witnesses = [] := by
  rw [canonicalJson_eq, entryBody_eq]
  constructor
  · intro same
    cases ws : cp.witnesses with
    | nil => rfl
    | cons w ws' =>
      rw [ws, if_neg (by simp), if_neg (by simp), List.map_cons, List.map_cons] at same
      have own : ownFields cp ≠ [] := List.cons_ne_nil _ _
      obtain ⟨rest, rust⟩ := braces_witnesses own w.canonicalJson (ws'.map (·.canonicalJson))
      obtain ⟨rest', python⟩ := braces_witnesses own (Json.dumpsCanonical w.toPython.toDict)
        (ws'.map fun w => Json.dumpsCanonical w.toPython.toDict)
      obtain ⟨before, after, after', e, e'⟩ := witness_ne w
      rw [rust, python] at same
      have texts := List.append_cancel_left same
      rw [e, e', List.append_assoc, List.append_assoc] at texts
      have heads := List.append_cancel_left texts
      cases heads
  · intro none
    rw [none]
    rfl

/-- ASCII text. -/
abbrev Ascii (s : Str) : Prop := ∀ c ∈ s, c < 128

/-- ASCII texts are ASCII one after the other. -/
lemma Ascii.append {s t : Str} (hs : Ascii s) (ht : Ascii t) : Ascii (s ++ t) := by
  intro c hc
  cases List.mem_append.mp hc with
  | inl h => exact hs c h
  | inr h => exact ht c h

/-- An ASCII character before an ASCII text. -/
lemma Ascii.cons {c : ℕ} {s : Str} (hc : c < 128) (hs : Ascii s) : Ascii (c :: s) := by
  intro d hd
  cases List.mem_cons.mp hd with
  | inl e => exact e ▸ hc
  | inr h => exact hs d h

/-- ASCII texts are ASCII between commas. -/
lemma Ascii.commas {texts : List Str} (ascii : ∀ t ∈ texts, Ascii t) : Ascii (commas texts) := by
  induction texts with
  | nil => nofun
  | cons t texts ih =>
    have ht := ascii t List.mem_cons_self
    have ih := ih fun u hu => ascii u (List.mem_cons_of_mem _ hu)
    cases texts with
    | nil => rwa [commas_singleton]
    | cons u texts =>
      rw [commas_cons_cons]
      exact ht.append (ih.cons (by decide))

/-- ASCII fields are ASCII in braces. -/
lemma Ascii.braces {fields : List Str} (ascii : ∀ f ∈ fields, Ascii f) : Ascii (braces fields) :=
  ((Ascii.commas ascii).append (by decide)).cons (by decide)

/-- A field of an ASCII name and value is ASCII. -/
lemma Ascii.field {key : String} {value : Str} (hk : Ascii (Str.lit key)) (hv : Ascii value) :
    Ascii (field key value) :=
  (hk.append ((hv.cons (by decide)).cons (by decide))).cons (by decide)

/-- An escaped string is ASCII. -/
lemma ascii_jsonStr (s : Text) : Ascii (jsonStr s) := by
  rw [jsonStr_eq, Json.dumpAscii]
  refine Ascii.cons (by decide) (Ascii.append ?_ (by decide))
  intro c hc
  obtain ⟨d, -, mem⟩ := List.mem_flatMap.mp hc
  exact Json.lt_of_mem_escapeAscii mem

/-- A number is ASCII. -/
lemma ascii_display (n : ℤ) : Ascii (display n) := fun _ => Json.lt_of_mem_dumpInt

/-- A digest of ASCII text is the same in both languages. -/
lemma hexdigest_of_ascii (H : HashFunction) {s : Str} (ascii : Ascii s) :
    Checkpoint.CheckpointRecord.hexdigest H s = .ok (CheckpointRecord.sha256Hex H s) := by
  rw [Checkpoint.CheckpointRecord.hexdigest, Json.encode_of_ascii ascii]
  rfl

/-- The fields of a record are ASCII. -/
lemma ascii_ownFields (cp : CheckpointRecord) : ∀ f ∈ ownFields cp, Ascii f := by
  intro f hf
  simp only [ownFields, List.mem_cons, List.not_mem_nil, or_false] at hf
  rcases hf with rfl | rfl | rfl | rfl | rfl | rfl | rfl | rfl | rfl | rfl
  · exact Ascii.field (by decide) (ascii_jsonStr _)
  · exact Ascii.field (by decide) (ascii_jsonStr _)
  · exact Ascii.field (by decide) (ascii_jsonStr _)
  · exact Ascii.field (by decide) (ascii_display _)
  · exact Ascii.field (by decide) (ascii_jsonStr _)
  · exact Ascii.field (by decide) (ascii_display _)
  · exact Ascii.field (by decide) (ascii_jsonStr _)
  · exact Ascii.field (by decide) (ascii_jsonStr _)
  · exact Ascii.field (by decide) (ascii_jsonStr _)
  · exact Ascii.field (by decide) (ascii_display _)

/-- The digest of the persisted record and the text it is of are the same in both languages exactly for
the checkpoints without witnesses. -/
theorem entryDigest_agrees (H : HashFunction) (cp : CheckpointRecord) :
    (cp.canonicalJson = cp.toPython.entryBody ∧ cp.toPython.entryDigest H = .ok (cp.entryDigest H)) ↔
      cp.witnesses = [] := by
  rw [← canonicalJson_eq_iff]
  constructor
  · exact And.left
  · intro same
    have none := (canonicalJson_eq_iff cp).mp same
    have ascii : Ascii cp.canonicalJson := by
      rw [canonicalJson_eq, none]
      exact Ascii.braces (by simpa using ascii_ownFields cp)
    refine ⟨same, ?_⟩
    rw [Checkpoint.CheckpointRecord.entryDigest, ← same, hexdigest_of_ascii H ascii]
    rfl

/-- A checkpoint with one witness record and otherwise empty fields. -/
def witnessed : CheckpointRecord :=
  let empty : Text := ⟨[], by simp⟩
  ⟨1, empty, empty, 1, empty, 0, empty, empty, empty, empty, [⟨empty, empty, empty, 0, 1, false⟩]⟩

/-- The two languages give one witnessed checkpoint different texts and different digests. -/
theorem entryDigest_witnessed : witnessed.canonicalJson ≠ witnessed.toPython.entryBody ∧
    witnessed.toPython.entryDigest Core.sha256Hash ≠ .ok (witnessed.entryDigest Core.sha256Hash) := by
  rw [Core.sha256Hash_eq]
  decide +kernel

end CLL.Rust
