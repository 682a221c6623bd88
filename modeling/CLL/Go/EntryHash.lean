import CLL.Checkpoint.RoundTrip
import CLL.Checkpoint.Witness
import CLL.Go.Soundness
import Mathlib.Data.List.Find

/-!
# Entry hashes in Go and in Python

The hashed JSON is not part of a statement: each language writes it from what it has decoded. Go formats the
time that it has parsed, where Python keeps the text of `issued_at`, and Go leaves out the root of a previous
commitment that holds no peaks. `entryHash_agrees` says for which claims the two hashes agree.
-/

namespace CLL.Go
open CLL.Core
open CLL.Checkpoint (CheckpointRecord DecodedCheckpointCose label checkpointEntryHash
  verifyCheckpointCoseOffline)

/-- `canonicalCBOR` writes the deterministic encoding of the fields that the structs declare. -/
structure Packages.Deterministic (G : Packages) : Prop where
  marshalClaims : ∀ w b, G.marshalClaims w = some b → Cbor.write (.map w.fields) = some b
  marshalPeaks : ∀ ps b, G.marshalPeaks ps = some b → Cbor.write (.array (ps.map .bytes)) = some b

/-- The headers of an accepted statement. -/
structure Sign1Message.HasHeaders (m : Sign1Message) (kid : Bytes) (issuer subject : Str) : Prop where
  count : m.headersProtected.length = 4
  algorithm : asInt (lookup m.headersProtected 1) = some algorithmEdDsa
  contentType : asString (lookup m.headersProtected 3) = some contentType
  keyId : asBytes (lookup m.headersProtected 4) = some kid
  cwtClaims : ∃ claims, protectedCwtClaims (lookup m.headersProtected 15) = some claims ∧
    claims.length = 2 ∧ asString (lookup claims 1) = some issuer ∧ asString (lookup claims 2) = some subject

/-- The COSE packages of the two languages take an envelope apart in the same way. -/
structure SameEnvelope (P : Checkpoint.Packages) (G : Packages) : Prop where
  parts : ∀ data message value, G.unmarshalSign1 data = some message → P.strictDecode data = some value →
    ∃ unprotected payload signature,
      value = .array [.bytes message.rawProtected, unprotected, payload, signature]
  keyId : ∀ data message kid issuer subject fields, G.unmarshalSign1 data = some message →
    message.HasHeaders kid issuer subject → P.cbor2.loads message.rawProtected = some (.map fields) →
    Cbor.get? fields (.int Checkpoint.hdrKid) = some (.bytes kid)
  statement : ∀ data message kid issuer subject pem parsed, G.unmarshalSign1 data = some message →
    message.HasHeaders kid issuer subject → P.parseSignedStatement data pem = some parsed →
    parsed.payload = message.payload ∧ parsed.issuer = some issuer

/-- The claims whose projection both languages write alike. -/
structure CanonicalClaims (wire : WireClaims) : Prop where
  /-- The text of the time is the one that its instant is formatted as. -/
  issuedAt : (parseTime wire.issuedAt).map formatTimestamp = some (.ok wire.issuedAt)
  /-- A first checkpoint has no previous commitment, not even one without peaks. -/
  first : wire.prevSize = 0 → wire.prevCommitment.items = []

/-- The projection as a record of Python. -/
def CanonicalProjection.toPython (c : CanonicalProjection) : CheckpointRecord :=
  ⟨1, .lit "mmr_checkpoint", c.logId, c.mmrSize, c.root, c.prevSize, c.prevRoot, c.keyId, c.timestamp,
    [], []⟩

/-- The strings that `EntryHash` hashes. -/
def Record.entryHashed (H : HashFunction) (r : Record) : List Bytes :=
  match r.payload.canonicalFields with
  | .ok fields =>
    let body := fields.marshal.flatMap Utf8.encodeChar
    [body, H.digest body]
  | .error _ => []

/-- A printable ASCII character other than quotes, backslashes and those of HTML. -/
abbrev IsPlain (c : ℕ) : Prop := 32 ≤ c ∧ c < 127 ∧ c ∉ [34, 92, 38, 60, 62]

/-- A plain character is written as it is. -/
lemma escapeChar_eq {c : ℕ} (plain : IsPlain c) : escapeChar c = [c] := by
  obtain ⟨ge, lt, other⟩ := plain
  simp only [List.mem_cons, List.not_mem_nil, or_false, not_or] at other
  unfold escapeChar
  rw [if_neg (by omega), if_neg (by omega), if_neg (by omega), if_neg (by omega), if_neg (by omega),
    if_neg (by omega), if_neg (by omega), if_neg (by omega)]

/-- A plain character is written as it is in Python. -/
lemma escapeAscii_eq {c : ℕ} (plain : IsPlain c) : Json.escapeAscii c = [c] := by
  obtain ⟨ge, lt, other⟩ := plain
  simp only [List.mem_cons, List.not_mem_nil, or_false, not_or] at other
  unfold Json.escapeAscii
  rw [if_neg (by omega), if_neg (by omega), if_neg (by omega), if_neg (by omega), if_neg (by omega),
    if_neg (by omega), if_neg (by omega), if_pos (by omega)]

/-- A text is unchanged where each of its characters is. -/
lemma flatMap_eq_self {f : ℕ → Str} {s : Str} (self : ∀ c ∈ s, f c = [c]) : s.flatMap f = s := by
  rw [List.flatMap_congr self, List.flatMap_singleton']

/-- Such a text is written alike. -/
lemma marshalString_eq {s : Str} (plain : ∀ c ∈ s, IsPlain c) : marshalString s = Json.dumpAscii s := by
  rw [marshalString, Json.dumpAscii, flatMap_eq_self fun c hc => escapeChar_eq (plain c hc),
    flatMap_eq_self fun c hc => escapeAscii_eq (plain c hc)]

/-- Hexadecimal text is plain. -/
lemma isPlain_toHex {b : Bytes} {c : ℕ} (mem : c ∈ toHex b) : IsPlain c := by
  have digit : ∀ d < 16, IsPlain (hexDigit d) := by decide
  obtain ⟨x, -, mem⟩ := List.mem_flatMap.mp mem
  have lt := x.toNat_lt
  rcases List.mem_pair.mp mem with rfl | rfl
  · exact digit _ (by omega)
  · exact digit _ (by omega)

/-- The characters of an identifier are plain. -/
lemma isPlain_of_isIdentifierChar {c : ℕ} (char : isIdentifierChar c = true) : IsPlain c := by
  simp only [isIdentifierChar, Bool.or_eq_true, Bool.and_eq_true, decide_eq_true_eq, beq_iff_eq] at char
  simp only [IsPlain, List.mem_cons, List.not_mem_nil, or_false, not_or]
  omega

/-- Digits are plain. -/
lemma isPlain_of_isDigit {c : ℕ} (digit : Decimal.isDigit c = true) : IsPlain c := by
  simp only [Decimal.isDigit, Bool.and_eq_true, decide_eq_true_eq] at digit
  simp only [IsPlain, List.mem_cons, List.not_mem_nil, or_false, not_or]
  omega

/-- The fraction of a time is plain. -/
lemma isPlain_formatFraction {nanos c : ℕ} (mem : c ∈ formatFraction nanos) : IsPlain c := by
  unfold formatFraction at mem
  split at mem
  · cases mem
  · cases mem with
    | head => decide
    | tail _ mem =>
      have mem := (List.dropWhile_sublist _).mem (List.mem_reverse.mp mem)
      exact isPlain_of_isDigit (Decimal.isDigit_pad (List.mem_reverse.mp mem))

/-- A formatted time consists of digits and a few marks. -/
lemma isPlain_format {t : Time} {c : ℕ} (mem : c ∈ format t) : IsPlain c := by
  have digits {w n : ℕ} (mem : c ∈ Decimal.pad w n) : IsPlain c :=
    isPlain_of_isDigit (Decimal.isDigit_pad mem)
  simp only [format, List.mem_append, List.mem_cons, List.not_mem_nil, or_false] at mem
  rcases mem with ((((((mem | rfl | mem) | rfl | mem) | rfl | mem) | rfl | mem) | rfl | mem) | mem) | rfl
  all_goals first
    | exact digits mem
    | exact isPlain_formatFraction mem
    | decide

/-- A field with a plain name is written as Python writes it. -/
lemma marshalField_eq {key : String} (plain : (Str.lit key).flatMap Json.escapeAscii = Str.lit key)
    (value : Str) : marshalField key value = Json.dumpAscii (Str.lit key) ++ 58 :: value := by
  rw [marshalField, Json.dumpAscii, plain]
  simp

/-- The texts of a projection need no escapes. -/
structure CanonicalProjection.Plain (c : CanonicalProjection) : Prop where
  texts : ∀ s ∈ [c.keyId, c.logId, c.prevRoot, c.root, c.timestamp], ∀ d ∈ s, IsPlain d
  mmrSize : c.mmrSize ≤ maxPortableInteger
  prevSize : c.prevSize ≤ maxPortableInteger

/-- Go's text of a projection is Python's text of the same record. -/
lemma CanonicalProjection.Plain.marshal_eq {c : CanonicalProjection} (plain : c.Plain) :
    c.marshal = c.toPython.signingBody := by
  have texts := plain.texts
  simp only [List.forall_mem_cons (p := fun s => ∀ d ∈ s, IsPlain d), List.not_mem_nil, false_imp_iff,
    implies_true, and_true] at texts
  obtain ⟨keyId, logId, prevRoot, root, timestamp⟩ := texts
  have kind : marshalString (Str.lit "mmr_checkpoint") = Json.dumpAscii (Str.lit "mmr_checkpoint") :=
    marshalString_eq (by decide)
  rw [CheckpointRecord.signingBody, Json.dumpsCanonical, CheckpointRecord.sortKeys_body, Json.dumpsAscii,
    Json.dumpsFields_eq_map, marshal, marshalString_eq keyId, kind, marshalString_eq logId,
    marshalString_eq prevRoot, marshalString_eq root, marshalString_eq timestamp]
  rw [marshalField_eq rfl, marshalField_eq rfl, marshalField_eq rfl, marshalField_eq rfl,
    marshalField_eq rfl, marshalField_eq rfl, marshalField_eq rfl, marshalField_eq rfl,
    marshalField_eq rfl]
  rfl

/-- A plain text is a text in Python. -/
lemma isText_of_isPlain {s : Str} (plain : ∀ c ∈ s, IsPlain c) : Json.isText s = true :=
  Checkpoint.isText_of_isScalar fun c hc => Utf8.isScalar_of_lt ((plain c hc).2.1.trans (by decide))

/-- A size has few digits. -/
lemma length_text_size {n : ℕ} (le : n ≤ maxPortableInteger) :
    (Decimal.text (n : ℤ).natAbs).length ≤ Json.maxDigits := by
  have lt : n < 10 ^ 16 := le.trans_lt (by decide)
  exact (Decimal.length_text_le (by decide) lt).trans (by decide)

/-- A plain projection is portable. -/
lemma CanonicalProjection.Plain.portable {c : CanonicalProjection} (plain : c.Plain) :
    c.toPython.Portable := by
  have texts := plain.texts
  simp only [List.forall_mem_cons (p := fun s => ∀ d ∈ s, IsPlain d), List.not_mem_nil, false_imp_iff,
    implies_true, and_true] at texts
  obtain ⟨keyId, logId, prevRoot, root, timestamp⟩ := texts
  constructor
  · have kind : Json.isText (Str.lit "mmr_checkpoint") = true := by decide
    simp only [toPython, List.forall_mem_cons]
    exact ⟨isText_of_isPlain keyId, kind, isText_of_isPlain logId, isText_of_isPlain prevRoot,
      isText_of_isPlain root, isText_of_isPlain timestamp, by simp⟩
  · have one : (Decimal.text (1 : ℤ).natAbs).length ≤ Json.maxDigits := by decide
    simp only [toPython, List.forall_mem_cons]
    exact ⟨one, length_text_size plain.mmrSize, length_text_size plain.prevSize, by simp⟩

/-- What has been checked of a payload. -/
lemma Payload.canonicalFields_eq_ok {p : Payload} {fields : CanonicalProjection}
    (ok : p.canonicalFields = .ok fields) :
    validateIdentifier p.logId = true ∧ p.mmrSize ≤ maxPortableInteger ∧
      p.prevSize ≤ maxPortableInteger ∧ ∃ timestamp, formatTimestamp p.timestamp = .ok timestamp ∧
        fields = ⟨p.keyId, p.logId, p.mmrSize, p.prevRoot, p.prevSize, p.root, timestamp⟩ := by
  obtain ⟨_, first, ok⟩ := bind_eq_ok.mp ok
  obtain ⟨_, _, ok⟩ := bind_eq_ok.mp ok
  obtain ⟨_, _, ok⟩ := bind_eq_ok.mp ok
  obtain ⟨_, _, ok⟩ := bind_eq_ok.mp ok
  obtain ⟨timestamp, formatted, ok⟩ := bind_eq_ok.mp ok
  cases ok
  obtain ⟨identifier, -, -, mmrSize, prevSize, -⟩ := check_eq_ok.mp first
  exact ⟨identifier, mmrSize, prevSize, timestamp, formatted, rfl⟩

/-- A time that is formatted is written with its nanoseconds. -/
lemma formatTimestamp_eq_ok {t : Time} {s : Str} (ok : formatTimestamp t = .ok s) : s = format t := by
  obtain ⟨_, _, ok⟩ := bind_eq_ok.mp ok
  exact (Except.ok.inj ok).symm

variable {H : HashFunction} {G : Packages} {P : Checkpoint.Packages}

/-- The projection of a record that has been read is plain. -/
lemma Reads.plain {data : Bytes} {id : Identity} {r : Record} (reads : Reads H G data id r)
    {fields : CanonicalProjection} (ok : r.payload.canonicalFields = .ok fields) : fields.Plain := by
  obtain ⟨identifier, mmrSize, prevSize, timestamp, formatted, rfl⟩ := Payload.canonicalFields_eq_ok ok
  refine ⟨?_, mmrSize, prevSize⟩
  have logId : ∀ c ∈ r.logId, IsPlain c := by
    simp only [validateIdentifier, Bool.and_eq_true, List.all_eq_true] at identifier
    exact fun c hc => isPlain_of_isIdentifierChar (identifier.2 c hc)
  have prevRoot : ∀ c ∈ r.prevRoot, IsPlain c := by
    rw [reads.prevRoot]
    split
    · nofun
    · exact fun c => isPlain_toHex
  have keyId : ∀ c ∈ r.keyId, IsPlain c := by
    rw [reads.keyId]
    exact fun c => isPlain_toHex
  have root : ∀ c ∈ r.root, IsPlain c := by
    rw [reads.root]
    exact fun c => isPlain_toHex
  have time : ∀ c ∈ timestamp, IsPlain c := by
    rw [formatTimestamp_eq_ok formatted]
    exact fun c => isPlain_format
  simp only [List.forall_mem_cons (p := fun s => ∀ d ∈ s, IsPlain d)]
  exact ⟨keyId, logId, prevRoot, root, time, by simp⟩

/-- An identity comes from the message that was unmarshalled. -/
lemma parseIdentity_eq_ok {data : Bytes} {id : Identity} (ok : parseIdentity G data = .ok id) :
    ∃ message subject, G.unmarshalSign1 data = some message ∧
      message.HasHeaders id.kid id.issuer subject ∧ decodeWireClaims G message.payload = .ok id.wire := by
  obtain ⟨_, _, ok⟩ := bind_eq_ok.mp ok
  obtain ⟨message, read, ok⟩ := bind_eq_ok.mp ok
  obtain ⟨_, _, ok⟩ := bind_eq_ok.mp ok
  obtain ⟨_, headers, ok⟩ := bind_eq_ok.mp ok
  obtain ⟨_, algorithm, ok⟩ := bind_eq_ok.mp ok
  obtain ⟨_, contentType, ok⟩ := bind_eq_ok.mp ok
  obtain ⟨kid, hkid, ok⟩ := bind_eq_ok.mp ok
  obtain ⟨_, _, ok⟩ := bind_eq_ok.mp ok
  obtain ⟨claims, hclaims, ok⟩ := bind_eq_ok.mp ok
  obtain ⟨_, count, ok⟩ := bind_eq_ok.mp ok
  obtain ⟨issuer, hissuer, ok⟩ := bind_eq_ok.mp ok
  obtain ⟨subject, hsubject, ok⟩ := bind_eq_ok.mp ok
  obtain ⟨wire, hwire, ok⟩ := bind_eq_ok.mp ok
  obtain ⟨_, _, ok⟩ := bind_eq_ok.mp ok
  cases ok
  refine ⟨message, subject, orError_eq_ok.mp read, ?_, hwire⟩
  exact ⟨(check_eq_ok.mp headers).2, check_eq_ok.mp algorithm, check_eq_ok.mp contentType,
    orError_eq_ok.mp hkid, claims, orError_eq_ok.mp hclaims, check_eq_ok.mp count,
    orError_eq_ok.mp hissuer, orError_eq_ok.mp hsubject⟩

/-- Wire claims that are accepted are in the form that Go writes. -/
lemma decodeWireClaims_eq_ok {data : Bytes} {wire : WireClaims} (ok : decodeWireClaims G data = .ok wire) :
    G.marshalClaims wire = some data := by
  obtain ⟨claims, _, ok⟩ := bind_eq_ok.mp ok
  obtain ⟨_, canonical, ok⟩ := bind_eq_ok.mp ok
  obtain ⟨_, _, ok⟩ := bind_eq_ok.mp ok
  obtain ⟨_, _, ok⟩ := bind_eq_ok.mp ok
  cases ok
  exact check_eq_ok.mp canonical

/-- A byte slice is plain. -/
lemma plain_ofBytes (b : Slice UInt8) : (ofBytes b).Plain := by
  cases b with
  | none =>
    rw [ofBytes, Cbor.Plain]
    trivial
  | some b => exact Cbor.plain_bytes b

/-- A slice of plain items is plain. -/
lemma plain_ofSlice {α : Type} {f : α → Cbor} (plain : ∀ x, (f x).Plain) (xs : Slice α) :
    (ofSlice f xs).Plain := by
  cases xs with
  | none =>
    rw [ofSlice, Cbor.Plain]
    trivial
  | some xs =>
    rw [ofSlice, Cbor.Plain]
    induction xs with
    | nil => trivial
    | cons x xs ih =>
      rw [List.map_cons, Cbor.PlainItems]
      exact ⟨plain x, ih⟩

/-- A consistency proof is plain. -/
lemma plain_toCbor (p : WireConsistencyProof) : p.toCbor.Plain := by
  rw [WireConsistencyProof.toCbor, Cbor.Plain, Cbor.plainFields_iff]
  constructor
  · simp [Checkpoint.label_inj]
  · simp only [List.forall_mem_cons]
    exact ⟨⟨trivial, Cbor.plain_int _⟩, ⟨trivial, Cbor.plain_int _⟩,
      ⟨trivial, plain_ofSlice plain_ofBytes _⟩,
      ⟨trivial, plain_ofSlice (plain_ofSlice plain_ofBytes) _⟩,
      ⟨trivial, plain_ofSlice plain_ofBytes _⟩, by simp⟩

/-- The fields of claims are distinct and plain. -/
lemma WireClaims.plain_fields (w : WireClaims) : (Cbor.map w.fields).Plain := by
  obtain ⟨kind, logSize, commitment, prevSize, prevCommitment, issuedAt, cadence, proof⟩ := w
  rw [Cbor.Plain, Cbor.plainFields_iff]
  constructor
  · cases cadence with
    | none =>
      cases proof with
      | none => simp [fields, Checkpoint.label_inj]
      | some proof => simp [fields, Checkpoint.label_inj]
    | some cadence =>
      cases proof with
      | none => simp [fields, Checkpoint.label_inj]
      | some proof => simp [fields, Checkpoint.label_inj]
  · intro f mem
    simp only [fields, List.mem_append, List.mem_cons, List.not_mem_nil, or_false, List.mem_map] at mem
    rcases mem with ((rfl | rfl | rfl | rfl | rfl | rfl) | ⟨n, _, rfl⟩) | ⟨p, _, rfl⟩
    · exact ⟨trivial, Cbor.plain_str _⟩
    · exact ⟨trivial, Cbor.plain_int _⟩
    · exact ⟨trivial, plain_ofBytes _⟩
    · exact ⟨trivial, Cbor.plain_int _⟩
    · exact ⟨trivial, plain_ofBytes _⟩
    · exact ⟨trivial, Cbor.plain_str _⟩
    · exact ⟨trivial, Cbor.plain_int _⟩
    · exact ⟨trivial, plain_toCbor p⟩

/-- What the fields of a map say about claims. -/
structure Shows (fields : List (Cbor × Cbor)) (w : WireClaims) : Prop where
  logSize : Cbor.get? fields (label "log_size") = some (.int w.logSize)
  commitment : Cbor.get? fields (label "commitment") = some (ofBytes w.commitment)
  prevSize : Cbor.get? fields (label "prev_size") = some (.int w.prevSize)
  prevCommitment : Cbor.get? fields (label "prev_commitment") = some (ofBytes w.prevCommitment)
  issuedAt : Cbor.get? fields (label "issued_at") = some (.str w.issuedAt)

/-- A byte slice has one form only. -/
lemma canonical_ofBytes (b : Slice UInt8) : (ofBytes b).canonical = ofBytes b := by
  cases b with
  | none => rw [ofBytes, Cbor.canonical] <;> simp
  | some b => exact Cbor.canonical_bytes b

/-- What is written is the canonical encoding. -/
lemma write_eq_some {v : Cbor} {b : Bytes} (written : Cbor.write v = some b) :
    v.fits = true ∧ b = v.canonical.encode := by
  unfold Cbor.write at written
  split at written
  · rename_i fit
    exact ⟨fit, (Option.some.inj written).symm⟩
  · cases written

/-- Python reads what Go wrote. -/
lemma loads_write (cbor2 : P.cbor2.Lawful) {v : Cbor} (plain : v.Plain) {b : Bytes}
    (written : Cbor.write v = some b) : Cbor.loads P.cbor2 b = .ok v.canonical := by
  obtain ⟨fit, rfl⟩ := write_eq_some written
  exact Cbor.loads_encode cbor2 (Cbor.canonical_plain v plain) (Cbor.canonical_fits v fit)

/-- Python reads the claims that Go has read, and their time is a text that UTF-8 encodes. -/
lemma loads_claims (encodes : G.Deterministic) (cbor2 : P.cbor2.Lawful) {data : Bytes} {wire : WireClaims}
    (marshaled : G.marshalClaims wire = some data) :
    (∃ fields, Cbor.loads P.cbor2 data = .ok (.map fields) ∧ Shows fields wire) ∧
      ∀ c ∈ wire.issuedAt, Utf8.isScalar c = true := by
  have written := encodes.marshalClaims _ _ marshaled
  have plain := wire.plain_fields
  constructor
  · obtain ⟨sorted, eq⟩ : ∃ sorted, (Cbor.map wire.fields).canonical = .map sorted := by
      rw [Cbor.canonical]
      exact ⟨_, rfl⟩
    have get (name : String) := Cbor.get?_canonical plain eq (Checkpoint.isLabel_label name)
    refine ⟨sorted, eq ▸ loads_write cbor2 plain written, ?_⟩
    constructor
    all_goals
      rw [get]
      simp [WireClaims.fields, canonical_ofBytes]
  · have fit := (write_eq_some written).1
    rw [Cbor.fits, Bool.and_eq_true, Cbor.fitsFields_iff] at fit
    have text := (fit.2 (label "issued_at", .str wire.issuedAt) (by simp [WireClaims.fields])).2
    rw [Cbor.fits] at text
    obtain ⟨b, encoded, -⟩ := Cbor.fitsText_eq_true.mp text
    exact Utf8.isScalar_of_encode encoded

/-- Python reads the peaks that Go has read. -/
lemma decodeCommitment_python (encodes : G.Deterministic) (cbor2 : P.cbor2.Lawful) {data : Bytes}
    {name : String} {ps : List Bytes} (ok : decodeCommitment G data name = .ok ps) (what : String) :
    Checkpoint.decodeCommitment P data what = .ok ps := by
  obtain ⟨-, marshaled, len⟩ := decodeCommitment_eq_ok ok
  have read := loads_write cbor2 (Cbor.plain_strings ps) (encodes.marshalPeaks _ _ marshaled)
  rw [Checkpoint.decodeCommitment, read, Cbor.canonical_strings]
  exact Checkpoint.mapM_peaks len

/-- The kid and the issuer that Python finds are those that Go has found, and so are the claims. -/
lemma openEnvelope_python (encodes : G.Deterministic) (cbor2 : P.cbor2.Lawful) (same : SameEnvelope P G)
    {data kid : Bytes} {id : Identity} (identity : parseIdentity G data = .ok id)
    {parsed : Checkpoint.Statement} {claims : List (Cbor × Cbor)}
    (opened : Checkpoint.openEnvelope P data = .ok (kid, parsed, .map claims)) :
    kid = id.kid ∧ parsed.issuer = some id.issuer ∧ Shows claims id.wire := by
  obtain ⟨message, subject, unmarshaled, headers, hwire⟩ := parseIdentity_eq_ok identity
  obtain ⟨extracted, ⟨pem, hparsed⟩, hclaims⟩ := Checkpoint.openEnvelope_eq_ok opened
  obtain ⟨payload, issuer⟩ := same.statement _ _ _ _ _ _ _ unmarshaled headers hparsed
  obtain ⟨protectedBstr, _, _, _, raw, fields, decoded, hraw, hfields, found⟩ :=
    Checkpoint.extractKid_eq_some extracted
  obtain ⟨_, _, _, parts⟩ := same.parts _ _ _ unmarshaled decoded
  refine ⟨?_, issuer, ?_⟩
  · simp only [Cbor.array.injEq, List.cons.injEq] at parts
    obtain ⟨rfl, -⟩ := parts
    cases hraw
    have loaded : P.cbor2.loads message.rawProtected = some (.map fields) := by
      unfold Cbor.loads at hfields
      split at hfields
      · exact (raise_ne_ok hfields).elim
      · rename_i value found
        obtain ⟨_, _, e⟩ := bind_eq_ok.mp hfields
        cases e
        exact found
    rw [same.keyId _ _ _ _ _ _ unmarshaled headers loaded] at found
    cases found
    rfl
  · obtain ⟨⟨shown, read, shows_⟩, -⟩ := loads_claims encodes cbor2 (decodeWireClaims_eq_ok hwire)
    rw [payload, read] at hclaims
    cases hclaims
    exact shows_

/-- How Python's record of a statement differs from Go's. -/
structure SameRecord (r : Record) (wire : WireClaims) (decoded : DecodedCheckpointCose) : Prop where
  logId : decoded.logId = r.logId
  keyId : decoded.keyId = r.keyId
  mmrSize : decoded.mmrSize = r.mmrSize
  root : decoded.root = r.root
  prevSize : decoded.prevSize = r.prevSize
  timestamp : decoded.timestamp = wire.issuedAt
  prevRoot : decoded.prevRoot = r.prevRoot ↔ (wire.prevSize = 0 → wire.prevCommitment.items = [])
  /-- The root of a previous commitment is empty or hexadecimal. -/
  prevRoot_plain : ∀ c ∈ decoded.prevRoot, IsPlain c

/-- The previous roots differ for a first checkpoint with a previous commitment. -/
lemma prevRoot_iff (lawful : G.merkleLog.Lawful H) (encodes : G.Deterministic) (cbor2 : P.cbor2.Lawful)
    {data : Bytes} {id : Identity} {r : Record} (reads : Reads H G data id r) {claims : List (Cbor × Cbor)}
    (shows_ : Shows claims id.wire) {ps : List Bytes} {prevRoot : Str}
    (prev : Checkpoint.decodePrevCommitment P H claims = .ok (ps, prevRoot)) :
    (prevRoot = r.prevRoot ↔ (id.wire.prevSize = 0 → id.wire.prevCommitment.items = [])) ∧
      ∀ c ∈ prevRoot, IsPlain c := by
  have goPrev := reads.prevPeaks
  unfold decodePrevCommitment at goPrev
  have goRoot := reads.prevRoot
  rw [rootFromPeaks_eq lawful] at goRoot
  by_cases empty : id.wire.prevCommitment.items = []
  · rw [if_pos empty] at goPrev
    have none_ : r.prevPeaks = [] := (Except.ok.inj goPrev).symm
    -- A later checkpoint needs previous peaks.
    have first : id.wire.prevSize = 0 := by
      by_contra later
      have consistency := reads.consistency
      rw [checkConsistency, if_neg (by rwa [reads.prevSize])] at consistency
      obtain ⟨_, some_, -⟩ := bind_eq_ok.mp consistency
      exact check_eq_ok.mp some_ none_
    have falsy : prevRoot = [] := by
      rcases Checkpoint.decodePrevCommitment_eq_ok prev with ⟨-, -, root⟩ | ⟨raw, found, truthy, -⟩
      · exact root
      · rw [shows_.prevCommitment] at found
        cases commitment : id.wire.prevCommitment with
        | none =>
          rw [commitment] at found
          cases found
        | some raw' =>
          rw [commitment] at found empty
          cases found
          obtain rfl : raw = [] := empty
          cases truthy
    rw [if_pos first] at goRoot
    rw [falsy, goRoot]
    exact ⟨⟨fun _ _ => empty, fun _ => rfl⟩, List.forall_mem_nil _⟩
  · rw [if_neg empty] at goPrev
    obtain ⟨raw', commitment⟩ : ∃ raw, id.wire.prevCommitment = some raw := by
      cases commitment : id.wire.prevCommitment with
      | none =>
        rw [commitment] at empty
        exact (empty rfl).elim
      | some raw => exact ⟨raw, rfl⟩
    rw [commitment] at goPrev empty
    have hex : prevRoot = toHex (bag H r.prevPeaks) := by
      rcases Checkpoint.decodePrevCommitment_eq_ok prev with ⟨falsy, -⟩ | ⟨raw, found, -, hps, digits⟩
      · have falsy := falsy _ shows_.prevCommitment
        rw [commitment] at falsy
        simp [ofBytes, Cbor.truthy] at falsy
        exact (empty falsy).elim
      · rw [shows_.prevCommitment, commitment] at found
        cases found
        cases hps.symm.trans (decodeCommitment_python encodes cbor2 goPrev _)
        exact digits
    have len : (bag H r.prevPeaks).length = 32 := length_bag H (decodeCommitment_eq_ok goPrev).2.2
    constructor
    -- Go leaves the previous root out of a first checkpoint; Python writes it for any commitment.
    · rw [hex, goRoot, commitment]
      by_cases first : id.wire.prevSize = 0
      · rw [if_pos first]
        constructor
        · intro none_
          have := congrArg List.length none_
          rw [length_toHex, len] at this
          cases this
        · exact fun items => (empty (items first)).elim
      · rw [if_neg first]
        exact ⟨fun _ zero => (first zero).elim, fun _ => rfl⟩
    · rw [hex]
      exact fun c => isPlain_toHex

/-- What Python decodes is what Go has read, but for the time and maybe the previous root. -/
lemma sameRecord (lawful : G.merkleLog.Lawful H) (encodes : G.Deterministic) (cbor2 : P.cbor2.Lawful)
    (same : SameEnvelope P G) {data : Bytes} {id : Identity} {r : Record} (reads : Reads H G data id r)
    {decoded : DecodedCheckpointCose} (accept : verifyCheckpointCoseOffline P H data = .ok decoded) :
    SameRecord r id.wire decoded := by
  obtain ⟨kid, parsed, claims, raw, opened, python, logId, keyId, -⟩ :=
    Checkpoint.verifyCheckpointCoseOffline_eq_ok accept
  obtain ⟨rfl, issuer, shows_⟩ := openEnvelope_python encodes cbor2 same reads.identity opened
  obtain ⟨prevRoot, prevRoot_plain⟩ := prevRoot_iff lawful encodes cbor2 reads shows_ python.prev
  have mmrSize : decoded.mmrSize = id.wire.logSize :=
    Cbor.int.inj (Option.some.inj (python.logSize.symm.trans shows_.logSize))
  have prevSize : decoded.prevSize = id.wire.prevSize :=
    Cbor.int.inj (Option.some.inj (python.prevSize.symm.trans shows_.prevSize))
  have peaks : decoded.newPeakHashes = r.newPeaks := by
    have found := python.commitment.symm.trans shows_.commitment
    cases commitment : id.wire.commitment with
    | none =>
      rw [commitment] at found
      cases found
    | some raw' =>
      rw [commitment] at found
      cases found
      have goPeaks := reads.newPeaks
      rw [commitment] at goPeaks
      exact Except.ok.inj (python.peaks.symm.trans (decodeCommitment_python encodes cbor2 goPeaks _))
  refine ⟨?_, ?_, ?_, ?_, ?_, ?_, prevRoot, prevRoot_plain⟩
  · rw [logId, issuer, reads.logId, Option.getD_some]
  · rw [keyId, reads.keyId]
  · rw [mmrSize, reads.mmrSize]
  · rw [python.root, reads.root, rootFromPeaks_eq lawful, peaks]
  · rw [prevSize, reads.prevSize]
  · exact Cbor.str.inj (Option.some.inj (python.issuedAt.symm.trans shows_.issuedAt))

/-- The records that the two languages hash are portable. -/
lemma SameRecord.portable {data : Bytes} {id : Identity} {r : Record} (reads : Reads H G data id r)
    {fields : CanonicalProjection} (canonical : r.payload.canonicalFields = .ok fields)
    {decoded : DecodedCheckpointCose} (record : SameRecord r id.wire decoded)
    (scalar : ∀ c ∈ id.wire.issuedAt, Utf8.isScalar c = true) :
    decoded.toCheckpointRecord.Portable := by
  have portable := (reads.plain canonical).portable
  obtain ⟨-, -, -, timestamp, -, rfl⟩ := Payload.canonicalFields_eq_ok canonical
  have texts := portable.texts
  have numbers := portable.numbers
  simp only [CanonicalProjection.toPython, Record.payload, List.forall_mem_cons] at texts numbers
  obtain ⟨keyId, kind, logId, -, root, -, none_⟩ := texts
  obtain ⟨one, mmrSize, prevSize, -⟩ := numbers
  constructor
  · simp only [DecodedCheckpointCose.toCheckpointRecord, List.forall_mem_cons, record.logId, record.keyId,
      record.root, record.timestamp]
    exact ⟨keyId, kind, logId, isText_of_isPlain record.prevRoot_plain, root,
      Checkpoint.isText_of_isScalar scalar, none_⟩
  · simp only [DecodedCheckpointCose.toCheckpointRecord, List.forall_mem_cons, record.mmrSize,
      record.prevSize]
    exact ⟨one, mmrSize, prevSize, by simp⟩

/-- The two languages write the same text for canonical claims only. -/
lemma SameRecord.signingBody_iff {data : Bytes} {id : Identity} {r : Record} (reads : Reads H G data id r)
    {fields : CanonicalProjection} (canonical : r.payload.canonicalFields = .ok fields)
    {decoded : DecodedCheckpointCose} (record : SameRecord r id.wire decoded)
    (scalar : ∀ c ∈ id.wire.issuedAt, Utf8.isScalar c = true) :
    fields.toPython.signingBody = decoded.toCheckpointRecord.signingBody ↔ CanonicalClaims id.wire := by
  have go := (reads.plain canonical).portable
  have python := SameRecord.portable reads canonical record scalar
  obtain ⟨-, -, -, timestamp, formatted, rfl⟩ := Payload.canonicalFields_eq_ok canonical
  have time : (parseTime id.wire.issuedAt).map formatTimestamp = some (.ok timestamp) := by
    rw [reads.timestamp, Option.map_some]
    exact congrArg some formatted
  constructor
  · intro eq
    have bodies := go.signingBody_inj python eq
    simp only [CheckpointRecord.sortKeys_body, CanonicalProjection.toPython, Record.payload,
      DecodedCheckpointCose.toCheckpointRecord, Json.obj.injEq, List.cons.injEq, Prod.mk.injEq,
      Json.str.injEq, true_and] at bodies
    obtain ⟨-, -, -, prevRoot, -, -, issuedAt, -⟩ := bodies
    rw [record.timestamp] at issuedAt
    rw [issuedAt] at time
    exact ⟨time, record.prevRoot.mp prevRoot.symm⟩
  · intro claims
    have issuedAt : timestamp = id.wire.issuedAt :=
      Except.ok.inj (Option.some.inj (time.symm.trans claims.issuedAt))
    refine congrArg CheckpointRecord.signingBody ?_
    simp only [CanonicalProjection.toPython, Record.payload, DecodedCheckpointCose.toCheckpointRecord,
      record.logId, record.keyId, record.mmrSize, record.root, record.prevSize, record.timestamp,
      record.prevRoot.mpr claims.first, issuedAt]

/-- Both languages compute an entry hash for a statement that both accept, and it is the same hash exactly
for canonical claims. -/
theorem entryHash_agrees (lawful : G.merkleLog.Lawful H) (encodes : G.Deterministic)
    (cbor2 : P.cbor2.Lawful) (same : SameEnvelope P G) {S : Set Bytes} (inj : Set.InjOn H.digest S)
    {data : Bytes} {r : Record} (parsed : parseRecord H G data = .ok r)
    (_verified : r.verifySignature G = .ok ()) {decoded : DecodedCheckpointCose}
    (accept : verifyCheckpointCoseOffline P H data = .ok decoded)
    (run : ∀ s ∈ r.entryHashed H ++ decoded.toCheckpointRecord.entryHashed H, s ∈ S) :
    ∃ id go python, parseIdentity G data = .ok id ∧ r.entryHash H = .ok go ∧
      checkpointEntryHash P H data = .ok python ∧ (toHex go = python ↔ CanonicalClaims id.wire) := by
  obtain ⟨id, reads⟩ := parseRecord_eq_ok parsed
  obtain ⟨fields, canonical⟩ := reads.canonical
  have record := sameRecord lawful encodes cbor2 same reads accept
  have scalar : ∀ c ∈ id.wire.issuedAt, Utf8.isScalar c = true := by
    obtain ⟨_, _, -, -, hwire⟩ := parseIdentity_eq_ok reads.identity
    exact (loads_claims encodes cbor2 (decodeWireClaims_eq_ok hwire)).2
  have go := (reads.plain canonical).portable.encode_signingBody
  have python := (SameRecord.portable reads canonical record scalar).encode_signingBody
  have text := (reads.plain canonical).marshal_eq
  set body := fields.marshal.flatMap Utf8.encodeChar with hbody
  set body' := decoded.toCheckpointRecord.signingBody.flatMap Utf8.encodeChar with hbody'
  have goHash : r.entryHash H = .ok (H.digest (H.digest body)) := by
    rw [Record.entryHash, Payload.digest, canonical]
    rfl
  have pythonHash : checkpointEntryHash P H data = .ok (toHex (H.digest (H.digest body'))) := by
    rw [checkpointEntryHash, Checkpoint.verifiedCheckpoint, accept, ok_bind, CheckpointRecord.digest,
      CheckpointRecord.hexdigest, python]
    dsimp only
    rw [ok_bind, Checkpoint.bytesFromHex_eq_ok.mpr (fromHex_toHex _), ok_bind]
  refine ⟨id, _, _, reads.identity, goHash, pythonHash, ?_⟩
  rw [← SameRecord.signingBody_iff reads canonical record scalar]
  have goHashed : r.entryHashed H = [body, H.digest body] := by rw [Record.entryHashed, canonical]
  have pythonHashed : decoded.toCheckpointRecord.entryHashed H = [body', H.digest body'] := by
    delta CheckpointRecord.entryHashed
    rw [python]
  have hashed : ∀ s ∈ [body, H.digest body] ++ [body', H.digest body'], s ∈ S := by
    rw [← goHashed, ← pythonHashed]
    exact run
  simp only [List.cons_append, List.nil_append, List.forall_mem_cons] at hashed
  obtain ⟨bodyMem, digestMem, bodyMem', digestMem', -⟩ := hashed
  constructor
  · intro eq
    -- Both hash twice, so the bodies are equal where the entries are.
    have digests := inj digestMem digestMem' (toHex_injective eq)
    have bodies := inj bodyMem bodyMem' digests
    rw [hbody, text] at bodies
    have back := Utf8.decode_encode go
    rw [bodies, Utf8.decode_encode python] at back
    exact (Option.some.inj back).symm
  · intro eq
    rw [hbody, text, eq]

/-- The fields that are found under as many labels as there are fields have integer labels. -/
lemma lookup_eq_get? {fields : List (Cbor × Cbor)} (labels : List ℤ) (nodup : labels.Nodup)
    (count : fields.length = labels.length) (found : ∀ n ∈ labels, (lookup fields n).isSome) (n : ℤ) :
    Cbor.get? fields (.int n) = lookup fields n := by
  have inj : Function.Injective Cbor.int := fun _ _ => Cbor.int.inj
  have subset : labels.map Cbor.int ⊆ fields.map (·.1) := by
    intro k hk
    obtain ⟨n, hn, rfl⟩ := List.mem_map.mp hk
    have hit := found n hn
    rw [lookup, Option.isSome_map, List.find?_isSome] at hit
    obtain ⟨f, mem, at_⟩ := hit
    split at at_
    · rename_i m hm
      rw [beq_iff_eq] at at_
      exact List.mem_map.mpr ⟨f, mem, by rw [hm, at_]⟩
    · cases at_
  have perm := (List.subperm_of_subset (nodup.map inj) subset).perm_of_length_le (by simp [count])
  have ints : ∀ f ∈ fields, ∃ m, f.1 = .int m := by
    intro f mem
    obtain ⟨m, -, e⟩ := List.mem_map.mp (perm.mem_iff.mpr (List.mem_map_of_mem mem))
    exact ⟨m, e.symm⟩
  rw [Cbor.get?, lookup]
  refine congrArg _ (List.find?_congr fun f mem => ?_)
  obtain ⟨m, e⟩ := ints f mem
  rw [e, Cbor.frozenEq_int]

/-- The reference packages encode deterministically. -/
lemma referencePackages_deterministic (verify : Bytes → Bytes → Bytes → Bool) :
    (referencePackages H verify).Deterministic :=
  ⟨fun _ _ => id, fun _ _ => id⟩

/-- A message is read from the four parts of its envelope. -/
lemma readSign1_eq_some {data : Bytes} {message : Sign1Message} (read : readSign1 data = some message) :
    ∃ unprotected, Cbor.read data = some (.tag 18 (.array [.bytes message.rawProtected, unprotected,
        .bytes message.payload, .bytes message.signature])) ∧
      Cbor.read message.rawProtected = some (.map message.headersProtected) := by
  obtain ⟨⟨protectedBstr, payload, signature⟩, parts, read⟩ := Option.bind_eq_some_iff.mp read
  obtain ⟨fields, header, read⟩ := Option.bind_eq_some_iff.mp read
  cases read
  obtain ⟨outer, hread, parts⟩ := Option.bind_eq_some_iff.mp parts
  unfold Checkpoint.envelopeParts at parts
  split at parts
  · cases parts
    unfold protectedCwtClaims at header
    split at header
    · rename_i inner
      cases header
      exact ⟨_, hread, inner⟩
    · cases header
  · cases parts

/-- The headers of a message are looked up as Python looks them up. -/
lemma Sign1Message.HasHeaders.get? {m : Sign1Message} {kid : Bytes} {issuer subject : Str}
    (headers : m.HasHeaders kid issuer subject) (n : ℤ) :
    Cbor.get? m.headersProtected (.int n) = lookup m.headersProtected n := by
  have some_ {α : Type} {f : Option Cbor → Option α} (none_ : f none = none) {x : Option Cbor} {a : α}
      (found : f x = some a) : x.isSome := by
    cases x with
    | none =>
      rw [none_] at found
      cases found
    | some x => rfl
  obtain ⟨claims, found, -⟩ := headers.cwtClaims
  refine lookup_eq_get? [1, 3, 4, 15] (by decide) headers.count ?_ n
  simp only [List.forall_mem_cons]
  exact ⟨some_ rfl headers.algorithm, some_ rfl headers.contentType, some_ rfl headers.keyId,
    some_ rfl found, by simp⟩

/-- What is read as bytes is a byte string. -/
lemma asBytes_eq_some {x : Option Cbor} {b : Bytes} (eq : asBytes x = some b) : x = some (.bytes b) := by
  unfold asBytes at eq
  split at eq
  · cases eq
    rfl
  · cases eq

/-- What is read as a string is a text. -/
lemma asString_eq_some {x : Option Cbor} {s : Str} (eq : asString x = some s) : x = some (.str s) := by
  unfold asString at eq
  split at eq
  · cases eq
    rfl
  · cases eq

/-- Protected claims are a map. -/
lemma protectedCwtClaims_eq_some {x : Option Cbor} {fields : List (Cbor × Cbor)}
    (eq : protectedCwtClaims x = some fields) : x = some (.map fields) := by
  unfold protectedCwtClaims at eq
  split at eq
  · cases eq
    rfl
  · cases eq

/-- Both languages read the same envelope. -/
lemma referencePackages_sameEnvelope (verify : Bytes → Bytes → Bytes → Bool) :
    SameEnvelope (Checkpoint.referencePackages verify) (referencePackages H verify) := by
  constructor
  · intro data message value unmarshaled decoded
    obtain ⟨unprotected, outer, -⟩ := readSign1_eq_some unmarshaled
    change (Cbor.read data).bind Checkpoint.untagged = some value at decoded
    rw [outer] at decoded
    cases decoded
    exact ⟨_, _, _, rfl⟩
  · intro data message kid issuer subject fields unmarshaled headers loaded
    obtain ⟨-, -, inner⟩ := readSign1_eq_some unmarshaled
    cases inner.symm.trans loaded
    rw [Checkpoint.hdrKid, headers.get?]
    exact asBytes_eq_some headers.keyId
  · intro data message kid issuer subject pem parsed unmarshaled headers statement
    obtain ⟨unprotected, outer, inner⟩ := readSign1_eq_some unmarshaled
    obtain ⟨claims, cwt, count, hissuer, hsubject⟩ := headers.cwtClaims
    change Checkpoint.readStatement verify data pem = some parsed at statement
    have claims_ : Checkpoint.mapAt message.headersProtected Checkpoint.hdrCwtClaims = claims := by
      rw [Checkpoint.mapAt, Checkpoint.hdrCwtClaims, headers.get?, protectedCwtClaims_eq_some cwt]
    have text : Checkpoint.textAt claims 1 = some issuer := by
      rw [Checkpoint.textAt, lookup_eq_get? [1, 2] (by decide) count ?_,
        asString_eq_some hissuer]
      simp [asString_eq_some hissuer, asString_eq_some hsubject]
    have keyId : Cbor.get? message.headersProtected (.int Checkpoint.hdrKid) = some (.bytes kid) := by
      rw [Checkpoint.hdrKid, headers.get?]
      exact asBytes_eq_some headers.keyId
    rw [Checkpoint.readStatement, outer, Option.bind_some, Checkpoint.envelopeParts] at statement
    dsimp only at statement
    rw [inner] at statement
    dsimp only at statement
    rw [keyId, claims_, text] at statement
    cases statement
    exact ⟨rfl, rfl⟩

/-- The signature of the sample key of a first checkpoint whose time has an offset. -/
def offsetSignature : Bytes :=
  Checkpoint.hexBytes ("e4d5c87b816bef56c2749b3571d5858c054cb883cb0b4229b5a5895ce2082913" ++
    "fd2b97e32af2654eda7f60acafee21321dd31851f6cad8abe97aa72399c19001")

set_option maxRecDepth 4000 in
/-- The signature of the statement with an offset. -/
lemma offsetSignature_eq : offsetSignature =
    Cbor.bigEndian 32 0xe4d5c87b816bef56c2749b3571d5858c054cb883cb0b4229b5a5895ce2082913 ++
      Cbor.bigEndian 32 0xfd2b97e32af2654eda7f60acafee21321dd31851f6cad8abe97aa72399c19001 := by
  rw [offsetSignature, Checkpoint.hexBytes, Str.lit_append, Str.lit_ofList, Str.lit_ofList]
  rfl

/-- The claims of that checkpoint, which has one entry. -/
def offsetClaims : Cbor :=
  .map [
    (label "kind", .str wireKind),
    (label "log_size", .int 1),
    (label "commitment", .bytes (Cbor.array [.bytes Checkpoint.samplePeak]).encode),
    (label "prev_size", .int 0),
    (label "prev_commitment", .bytes []),
    (label "issued_at", .str (Str.lit "2026-01-01T00:00:00+00:00"))]

/-- The signed statement of these claims. -/
def offsetStatement : Bytes :=
  (Checkpoint.envelope
    (Checkpoint.protectedHeader Checkpoint.samplePublicKey contentType (Str.lit "log")
      (Str.lit "log#1")).canonical.encode
    offsetClaims.canonical.encode offsetSignature).encode

/-- Go's packages, which know the signature. -/
def offsetPackages : Packages := referencePackages sha256Hash (Checkpoint.sampleVerify offsetSignature)

/-- Python's packages, which know it too. -/
def offsetPythonPackages : Checkpoint.Packages :=
  Checkpoint.referencePackages (Checkpoint.sampleVerify offsetSignature)

/-- Whether both languages accept a statement, hash no two strings alike and find different hashes. -/
def differs (H : HashFunction) (G : Packages) (P : Checkpoint.Packages) (statement : Bytes) : Bool :=
  match parseRecord H G statement, verifyCheckpointCoseOffline P H statement with
  | .ok r, .ok decoded =>
    (r.verifySignature G).toBool &&
      decide (((r.entryHashed H ++ decoded.toCheckpointRecord.entryHashed H).map
        H.digest).Nodup) &&
      match r.entryHash H, checkpointEntryHash P H statement with
      | .ok go, .ok python => toHex go != python
      | _, _ => false
  | _, _ => false

/-- What such a statement makes both languages do. -/
lemma exists_of_differs {H : HashFunction} {G : Packages} {P : Checkpoint.Packages} {statement : Bytes}
    (same : differs H G P statement = true) : ∃ r decoded go python,
    parseRecord H G statement = .ok r ∧ r.verifySignature G = .ok () ∧
      verifyCheckpointCoseOffline P H statement = .ok decoded ∧
      ((r.entryHashed H ++ decoded.toCheckpointRecord.entryHashed H).map
        H.digest).Nodup ∧
      r.entryHash H = .ok go ∧ checkpointEntryHash P H statement = .ok python ∧
      toHex go ≠ python := by
  unfold differs at same
  split at same
  · rename_i r decoded parsed accept
    obtain ⟨checks, hashes⟩ := Bool.and_eq_true_iff.mp same
    obtain ⟨verified, nodup⟩ := Bool.and_eq_true_iff.mp checks
    split at hashes
    · rename_i go python hgo hpython
      exact ⟨r, decoded, go, python, parsed,
        (Result.eq_ok_val verified).trans (congrArg Except.ok (Subsingleton.elim _ _)), accept,
        of_decide_eq_true nodup, hgo, hpython, bne_iff_ne.mp hashes⟩
    · cases hashes
  · cases same

/-- Go and Python hash the statement with an offset to different entries. -/
lemma differs_offset :
    differs sha256Hash offsetPackages offsetPythonPackages offsetStatement = true := by
  rw [offsetPackages, offsetPythonPackages, offsetStatement, Checkpoint.sampleVerify_eq,
    Checkpoint.samplePublicKey_eq, offsetSignature_eq, sha256Hash_eq]
  decide +kernel

/-- Both hash a statement, and to one entry exactly for canonical claims. -/
theorem entryHash_agrees_sample : ∃ r id go python,
    parseRecord sha256Hash offsetPackages offsetStatement = .ok r ∧
      parseIdentity offsetPackages offsetStatement = .ok id ∧ r.entryHash sha256Hash = .ok go ∧
      checkpointEntryHash offsetPythonPackages sha256Hash offsetStatement = .ok python ∧
      (toHex go = python ↔ CanonicalClaims id.wire) := by
  obtain ⟨r, decoded, _, _, parsed, verified, accept, nodup, -⟩ := exists_of_differs differs_offset
  obtain ⟨id, go, python, agrees⟩ := entryHash_agrees (referenceMerkleLog_lawful sha256Hash)
    (referencePackages_deterministic _) referenceCbor2_lawful (referencePackages_sameEnvelope _)
    (S := {s | s ∈ r.entryHashed sha256Hash ++ decoded.toCheckpointRecord.entryHashed sha256Hash})
    (fun a ha b hb => List.inj_on_of_nodup_map nodup ha hb) parsed verified accept fun _ => id
  exact ⟨r, id, go, python, parsed, agrees⟩

/-- The statement with an offset is accepted by both and hashed to two entries. -/
theorem entryHash_offset : ∃ r decoded go python,
    parseRecord sha256Hash offsetPackages offsetStatement = .ok r ∧
      r.verifySignature offsetPackages = .ok () ∧
      verifyCheckpointCoseOffline offsetPythonPackages sha256Hash offsetStatement = .ok decoded ∧
      r.entryHash sha256Hash = .ok go ∧
      checkpointEntryHash offsetPythonPackages sha256Hash offsetStatement = .ok python ∧
      toHex go ≠ python := by
  obtain ⟨r, decoded, go, python, parsed, verified, accept, -, hashes⟩ := exists_of_differs differs_offset
  exact ⟨r, decoded, go, python, parsed, verified, accept, hashes⟩

end CLL.Go
