import Mathlib.Data.Option.Basic
import CLL.Ts.Checkpoint

/-!
# What is signed in TypeScript is accepted there

A statement that `signCheckpoint` makes of a tree is decoded to the parts it was made of, stage by stage.
`signCheckpoint_roundTrip_iff` says when it is accepted: the formatter must give back its own text, which it
does not for a year of more than four digits, and the verifier of proofs must take the size.
-/

namespace CLL.Ts
open PostOrder CLL.Core Run

variable {C : Cborg} {H : HashFunction} {verify : Bytes → Bytes → Bytes → Bool} {parse : Str → Option TimeValue}

/-- Labels are equal keys exactly where they are equal. -/
lemma isKey_label {a b : Cbor} (ha : a.IsLabel) (hb : b.IsLabel) : isKey a b = true ↔ a = b := by
  cases a with
  | int m =>
    cases b with
    | int n => simp [isKey]
    | str s => simp [isKey]
    | _ => exact hb.elim
  | str s =>
    cases b with
    | int n => simp [isKey]
    | str t => simp [isKey]
    | _ => exact hb.elim
  | _ => exact ha.elim

/-- A lookup in a map in order finds what the map holds. -/
lemma get_canonical {fields sorted : List (Cbor × Cbor)} (plain : (Cbor.map fields).Plain)
    (eq : (Cbor.map fields).canonical = .map sorted) {k : Cbor} (hk : k.IsLabel) :
    get sorted k = (get fields k).map Cbor.canonical :=
  Cbor.find?_canonical plain eq fun _ ha => isKey_label ha hk

/-- A name is looked up field by field. -/
@[simp] lemma get_cons_name (a b : String) (v : Cbor) (fields : List (Cbor × Cbor)) :
    get ((name a, v) :: fields) (name b) = if a = b then some v else get fields (name b) := by
  by_cases h : a = b <;> simp [get, isKey, name, h]

/-- A numbered header is looked up field by field. -/
@[simp] lemma get_cons_int (m n : ℤ) (v : Cbor) (fields : List (Cbor × Cbor)) :
    get ((.int m, v) :: fields) (.int n) = if m = n then some v else get fields (.int n) := by
  by_cases h : m = n <;> simp [get, isKey, h]

/-- No fields hold no value. -/
@[simp] lemma get_nil (k : Cbor) : get [] k = none := rfl

/-- A name has one form only. -/
@[simp] lemma canonical_name (text : String) : (name text).canonical = name text := Cbor.canonical_str _

/-- A map in order has as many fields, of the same keys. -/
lemma exists_canonical (fields : List (Cbor × Cbor)) : ∃ sorted, (Cbor.map fields).canonical = .map sorted ∧
    sorted.length = fields.length ∧ ∀ f ∈ sorted, ∃ g ∈ fields, f.1 = g.1 := by
  have perm := Cbor.perm_canonicalFields fields
  refine ⟨_, by rw [Cbor.canonical], ?_, fun f hf => ?_⟩
  · simpa using perm.length_eq
  · obtain ⟨g, hg, rfl⟩ := List.mem_map.mp (perm.mem_iff.mp hf)
    exact ⟨g, hg, rfl⟩

/-- Fields are writable where each label and value is. -/
lemma writableFields_iff {fields : List (Cbor × Cbor)} :
    WritableFields fields ↔ ∀ f ∈ fields, isShortLabel f.1 = true ∧ Writable f.2 := by
  induction fields with
  | nil => simp [WritableFields]
  | cons f fields ih => rw [WritableFields, ih, List.forall_mem_cons, and_assoc]

/-- A number is writable. -/
lemma writable_int (n : ℤ) : Writable (.int n) := by
  rw [Writable] <;> simp

/-- A byte string is writable. -/
lemma writable_bytes (b : Bytes) : Writable (.bytes b) := by
  rw [Writable] <;> simp

/-- A list of byte strings is writable. -/
lemma writable_strings (ps : List Bytes) : Writable (.array (ps.map .bytes)) := by
  rw [Writable]
  induction ps with
  | nil => trivial
  | cons p ps ih => exact ⟨writable_bytes p, ih⟩

/-- A list of lists of byte strings is writable. -/
lemma writable_paths (ws : List (List Bytes)) : Writable (.array (ws.map fun w => .array (w.map .bytes))) := by
  rw [Writable]
  induction ws with
  | nil => trivial
  | cons w ws ih => exact ⟨writable_strings w, ih⟩

/-- An ASCII text is writable. -/
lemma writable_ascii {s : Str} (ascii : ∀ c ∈ s, c < 128) : Writable (.str s) := by
  rw [Writable, Json.encode_of_ascii ascii]
  rfl

/-- A name is writable. -/
lemma writable_name (text : String) : Writable (name text) := by
  have scalar : ∀ c ∈ Str.lit text, Utf8.isScalar c = true := by
    intro c hc
    obtain ⟨d, -, rfl⟩ := List.mem_map.mp hc
    have valid := d.valid
    simp only [UInt32.isValidChar, Nat.isValidChar] at valid
    change d.toNat < 0xd800 ∨ 0xdfff < d.toNat ∧ d.toNat < 0x110000 at valid
    simp only [Utf8.isScalar, Bool.or_eq_true, Bool.and_eq_true, decide_eq_true_eq]
    omega
  obtain ⟨b, encoded⟩ := Utf8.exists_encode scalar
  rw [name, Writable, encoded]
  rfl

/-- An identifier is ASCII. -/
lemma isIdentifier_ascii {s : Str} (ok : isIdentifier s = true) : ∀ c ∈ s, c < 128 := by
  simp only [isIdentifier, Bool.and_eq_true, List.all_eq_true] at ok
  intro c hc
  have char := ok.2 c hc
  simp only [isIdentifierChar, Bool.or_eq_true, Bool.and_eq_true, decide_eq_true_eq, beq_iff_eq] at char
  omega

/-- The text of a number is ASCII. -/
lemma text_ascii (n : ℕ) : ∀ c ∈ Decimal.text n, c < 128 := by
  intro c hc
  have digit := Decimal.isDigit_text hc
  simp only [Decimal.isDigit, Bool.and_eq_true, decide_eq_true_eq] at digit
  omega

/-- Digests are read back from their byte strings. -/
lemma asDigests_strings {ps : List Bytes} (len : ∀ p ∈ ps, p.length = 32) :
    asDigests (some (.array (ps.map .bytes))) = some ps := by
  have each : ∀ p ∈ ps, asDigest (.bytes p) = some p := fun p hp => by
    simp [asDigest, asBytes, len p hp, guard]
  rw [asDigests, asArray, Option.bind_eq_bind, Option.bind_some]
  clear len
  induction ps with
  | nil => rfl
  | cons p ps ih =>
    rw [List.map_cons, List.mapM_cons, each p List.mem_cons_self,
      ih fun q hq => each q (List.mem_cons_of_mem _ hq)]
    rfl

/-- Paths are read back from their byte strings. -/
lemma asPaths_paths {ws : List (List Bytes)} (len : ∀ w ∈ ws, ∀ x ∈ w, x.length = 32) :
    asPaths (some (.array (ws.map fun w => .array (w.map .bytes)))) = some ws := by
  rw [asPaths, asArray, Option.bind_eq_bind, Option.bind_some]
  induction ws with
  | nil => rfl
  | cons w ws ih =>
    rw [List.map_cons, List.mapM_cons, asDigests_strings (len w List.mem_cons_self),
      ih fun v hv => len v (List.mem_cons_of_mem _ hv)]
    rfl

/-- The protected claims are plain. -/
lemma plain_cwtOf (logId : Str) (mmrSize : ℤ) : (Cbor.map (cwtOf logId mmrSize)).Plain := by
  simp [Cbor.Plain, Cbor.PlainFields, cwtOf, Cbor.IsLabel]

/-- The protected headers are plain. -/
lemma plain_headersOf (logId : Str) (mmrSize : ℤ) (publicKey : Bytes) :
    (Cbor.map (headersOf logId mmrSize publicKey)).Plain := by
  have cwt := plain_cwtOf logId mmrSize
  simp [Cbor.Plain, Cbor.PlainFields, headersOf, Cbor.IsLabel] at cwt ⊢
  exact cwt

/-- The protected headers of an identifier are writable. -/
lemma writable_headersOf {logId : Str} (ok : isIdentifier logId = true) (mmrSize : ℤ) (publicKey : Bytes) :
    Writable (.map (headersOf logId mmrSize publicKey)) := by
  have ascii := isIdentifier_ascii ok
  have subject : ∀ c ∈ logId ++ 35 :: Decimal.text mmrSize.toNat, c < 128 := by
    intro c hc
    rcases List.mem_append.mp hc with hc | hc
    · exact ascii c hc
    · rcases List.mem_cons.mp hc with rfl | hc
      · norm_num
      · exact text_ascii _ c hc
  rw [Writable, writableFields_iff]
  intro f hf
  simp only [headersOf, List.mem_cons, List.not_mem_nil, or_false] at hf
  rcases hf with rfl | rfl | rfl | rfl
  · exact ⟨rfl, writable_int _⟩
  · exact ⟨rfl, writable_name _⟩
  · exact ⟨rfl, writable_bytes _⟩
  · refine ⟨rfl, ?_⟩
    rw [Writable, writableFields_iff]
    intro f hf
    simp only [cwtOf, List.mem_cons, List.not_mem_nil, or_false] at hf
    rcases hf with rfl | rfl
    · exact ⟨rfl, writable_ascii ascii⟩
    · exact ⟨rfl, writable_ascii subject⟩

/-- The protected header is decoded to the key, the log and the subject. -/
lemma decodeHeader_signed (lawful : C.Lawful) {logId : Str} (ok : isIdentifier logId = true) {mmrSize : ℤ}
    {publicKey protectedBytes : Bytes} (len : publicKey.length = 32)
    (encoded : C.encode (.map (headersOf logId mmrSize publicKey)) = some protectedBytes) :
    decodeHeader C protectedBytes =
        some ⟨publicKey, logId, logId ++ 35 :: Decimal.text mmrSize.toNat⟩ ∧
      ∃ headers cwt, C.decode mapOptions protectedBytes = some (.map headers) ∧
        get headers (.int 4) = some (.bytes publicKey) ∧ get headers (.int 15) = some (.map cwt) ∧
        get cwt (.int 1) = some (.str logId) := by
  have plain := plain_headersOf logId mmrSize publicKey
  obtain ⟨headers, eq, length, -⟩ := exists_canonical (headersOf logId mmrSize publicKey)
  obtain ⟨cwt, cwtEq, cwtLength, -⟩ := exists_canonical (cwtOf logId mmrSize)
  have found : ∀ n : ℤ, get headers (.int n) =
      (get (headersOf logId mmrSize publicKey) (.int n)).map Cbor.canonical :=
    fun n => get_canonical plain eq trivial
  have foundCwt : ∀ n : ℤ, get cwt (.int n) = (get (cwtOf logId mmrSize) (.int n)).map Cbor.canonical :=
    fun n => get_canonical (plain_cwtOf logId mmrSize) cwtEq trivial
  have decoded := lawful.decode_encode _ _ plain (writable_headersOf ok mmrSize publicKey) encoded
  rw [eq] at decoded
  have algorithm : get headers (.int 1) = some (.int (-8)) := by simp [found, headersOf]
  have contentType : get headers (.int 3) = some (.str checkpointContentType) := by simp [found, headersOf]
  have kid : get headers (.int 4) = some (.bytes publicKey) := by simp [found, headersOf]
  have claims : get headers (.int 15) = some (.map cwt) := by simp [found, headersOf, cwtEq]
  have issuer : get cwt (.int 1) = some (.str logId) := by simp [foundCwt, cwtOf]
  have subject : get cwt (.int 2) = some (.str (logId ++ 35 :: Decimal.text mmrSize.toNat)) := by
    simp [foundCwt, cwtOf]
  have count : headers.length = 4 := length
  have cwtCount : cwt.length = 2 := cwtLength
  refine ⟨?_, headers, cwt, decoded, kid, claims, issuer⟩
  simp [decodeHeader, decoded, asMap, count, algorithm, contentType, kid, claims, cwtCount, issuer, subject,
    asInteger, asString, asBytes, len, ok, guard, maxSafeInteger]

section Claims

variable {input : CheckpointInput} {newCommitment prevCommitment : Bytes} {timestamp : Str}

/-- A proof is plain. -/
lemma plain_proofWire (proof : ConsistencyProof) : (Cbor.map (proofWire proof)).Plain := by
  rw [Cbor.Plain, Cbor.plainFields_iff]
  refine ⟨by simp [proofWire, name], fun f hf => ?_⟩
  simp only [proofWire, List.mem_cons, List.not_mem_nil, or_false] at hf
  rcases hf with rfl | rfl | rfl | rfl | rfl
  · exact ⟨trivial, Cbor.plain_int _⟩
  · exact ⟨trivial, Cbor.plain_int _⟩
  · exact ⟨trivial, Cbor.plain_strings _⟩
  · exact ⟨trivial, Cbor.plain_paths _⟩
  · exact ⟨trivial, Cbor.plain_strings _⟩

/-- A proof is writable. -/
lemma writable_proofWire (proof : ConsistencyProof) : Writable (.map (proofWire proof)) := by
  have short : ∀ field ∈ ["size_a", "size_b", "old_peaks", "witness", "new_peaks"],
      isShortLabel (name field) = true := by decide
  rw [Writable, writableFields_iff]
  intro f hf
  simp only [proofWire, List.mem_cons, List.not_mem_nil, or_false] at hf
  rcases hf with rfl | rfl | rfl | rfl | rfl
  · exact ⟨short "size_a" (by decide), writable_int _⟩
  · exact ⟨short "size_b" (by decide), writable_int _⟩
  · exact ⟨short "old_peaks" (by decide), writable_strings _⟩
  · exact ⟨short "witness" (by decide), writable_paths _⟩
  · exact ⟨short "new_peaks" (by decide), writable_strings _⟩

/-- What the fields of the claims are. -/
lemma mem_claimsOf {f : Cbor × Cbor} (hf : f ∈ claimsOf input newCommitment prevCommitment timestamp) :
    ∃ claim ∈ allowedClaims, f.1 = name claim ∧
      (f.2 = name "cll-checkpoint" ∨ (∃ n, f.2 = .int n) ∨ (∃ b, f.2 = .bytes b) ∨ f.2 = .str timestamp ∨
        ∃ proof, f.2 = .map (proofWire proof)) := by
  simp only [claimsOf, List.mem_append, List.mem_cons, List.not_mem_nil, or_false, Option.mem_toList,
    Option.map_eq_some_iff] at hf
  rcases hf with ((rfl | rfl | rfl | rfl | rfl | rfl) | ⟨n, -, rfl⟩) | ⟨proof, -, rfl⟩
  · exact ⟨"kind", by decide, rfl, .inl rfl⟩
  · exact ⟨"log_size", by decide, rfl, .inr (.inl ⟨_, rfl⟩)⟩
  · exact ⟨"commitment", by decide, rfl, .inr (.inr (.inl ⟨_, rfl⟩))⟩
  · exact ⟨"prev_size", by decide, rfl, .inr (.inl ⟨_, rfl⟩)⟩
  · exact ⟨"prev_commitment", by decide, rfl, .inr (.inr (.inl ⟨_, rfl⟩))⟩
  · exact ⟨"issued_at", by decide, rfl, .inr (.inr (.inr (.inl rfl)))⟩
  · exact ⟨"cadence", by decide, rfl, .inr (.inl ⟨_, rfl⟩)⟩
  · exact ⟨"consistency_proof", by decide, rfl, .inr (.inr (.inr (.inr ⟨_, rfl⟩)))⟩

/-- The claims are plain. -/
lemma plain_claimsOf : (Cbor.map (claimsOf input newCommitment prevCommitment timestamp)).Plain := by
  rw [Cbor.Plain, Cbor.plainFields_iff]
  constructor
  · unfold claimsOf
    cases input.cadence.bind safeInteger <;> cases input.consistencyProof <;> simp [name]
  · intro f hf
    obtain ⟨claim, -, key, value⟩ := mem_claimsOf hf
    rw [key]
    refine ⟨trivial, ?_⟩
    rcases value with e | ⟨n, e⟩ | ⟨b, e⟩ | e | ⟨proof, e⟩ <;> rw [e]
    · exact Cbor.plain_str _
    · exact Cbor.plain_int n
    · exact Cbor.plain_bytes b
    · exact Cbor.plain_str _
    · exact plain_proofWire proof

/-- The names of the claims are short. -/
lemma isShortLabel_claim : ∀ claim ∈ allowedClaims, isShortLabel (name claim) = true := by
  decide

/-- The claims are writable. -/
lemma writable_claimsOf (ascii : ∀ c ∈ timestamp, c < 128) :
    Writable (.map (claimsOf input newCommitment prevCommitment timestamp)) := by
  rw [Writable, writableFields_iff]
  intro f hf
  obtain ⟨claim, allowed, key, value⟩ := mem_claimsOf hf
  rw [key]
  refine ⟨isShortLabel_claim claim allowed, ?_⟩
  rcases value with e | ⟨n, e⟩ | ⟨b, e⟩ | e | ⟨proof, e⟩ <;> rw [e]
  · exact writable_name _
  · exact writable_int n
  · exact writable_bytes b
  · exact writable_ascii ascii
  · exact writable_proofWire proof

/-- What is found in the claims that were decoded. -/
structure Claims (input : CheckpointInput) (newCommitment prevCommitment : Bytes) (timestamp : Str)
    (claims : List (Cbor × Cbor)) : Prop where
  logSize : get claims (name "log_size") = some (.int input.mmrSize)
  commitment : get claims (name "commitment") = some (.bytes newCommitment)
  prevSize : get claims (name "prev_size") = some (.int input.previousSize)
  prevCommitment : get claims (name "prev_commitment") = some (.bytes prevCommitment)
  issuedAt : get claims (name "issued_at") = some (.str timestamp)
  cadence : get claims (name "cadence") = (input.cadence.bind safeInteger).map .int
  proof : get claims (name "consistency_proof") =
    input.consistencyProof.map fun proof => (Cbor.map (proofWire proof)).canonical

/-- The claims are decoded to the fields they were made of. -/
lemma decodeClaims_signed (lawful : C.Lawful) (ascii : ∀ c ∈ timestamp, c < 128) {payload : Bytes}
    (encoded : C.encode (.map (claimsOf input newCommitment prevCommitment timestamp)) = some payload) :
    ∃ claims, C.decode mapOptions payload = some (.map claims) ∧ decodeClaims C payload = some claims ∧
      Claims input newCommitment prevCommitment timestamp claims := by
  have plain : (Cbor.map (claimsOf input newCommitment prevCommitment timestamp)).Plain := plain_claimsOf
  have writes : Writable (.map (claimsOf input newCommitment prevCommitment timestamp)) :=
    writable_claimsOf ascii
  obtain ⟨claims, eq, length, keys⟩ := exists_canonical (claimsOf input newCommitment prevCommitment timestamp)
  have found : ∀ text : String, get claims (name text) =
      (get (claimsOf input newCommitment prevCommitment timestamp) (name text)).map Cbor.canonical :=
    fun text => get_canonical plain eq trivial
  have decoded := lawful.decode_encode _ _ plain writes encoded
  have again := lawful.encode_canonical _ _ plain writes encoded
  rw [eq] at decoded again
  have kind : get claims (name "kind") = some (name "cll-checkpoint") := by
    rw [found, claimsOf, List.append_assoc, List.cons_append, get_cons_name, if_pos rfl, Option.map_some,
      canonical_name]
  have count : 6 ≤ claims.length ∧ claims.length ≤ 8 := by
    rw [length, claimsOf]
    cases input.cadence.bind safeInteger <;> cases input.consistencyProof <;> simp
  have allowed : ∀ f ∈ claims, isAllowedClaim f.1 = true := by
    intro f hf
    obtain ⟨g, hg, key⟩ := keys f hf
    obtain ⟨claim, mem, key', -⟩ := mem_claimsOf hg
    rw [key, key', isAllowedClaim, List.any_eq_true]
    exact ⟨claim, mem, (isKey_label (a := name claim) (b := name claim) trivial trivial).mpr rfl⟩
  refine ⟨claims, decoded, ?_, ?_⟩
  · simp only [decodeClaims, decoded, Option.bind_eq_bind, Option.bind_some, asMap]
    rw [again, kind, guard, if_pos rfl, guard, if_pos ⟨count.1, count.2, allowed⟩, guard]
    rfl
  · constructor
    all_goals
      rw [found, claimsOf]
      generalize input.cadence.bind safeInteger = cadence
      cases cadence <;> cases input.consistencyProof <;> simp

/-- The peaks of a commitment are decoded. -/
lemma decodePeaks_signed (lawful : C.Lawful) {ps : List Bytes} (len : ∀ p ∈ ps, p.length = 32) {raw : Bytes}
    (encoded : C.encode (.array (ps.map .bytes)) = some raw) :
    decodePeaks C (some (.bytes raw)) = some ps ∧ decodeCommittedPeaks C raw = some ps := by
  have decoded := lawful.decode_peaks ps raw encoded
  have peaks := asDigests_strings len
  constructor
  · simp [decodePeaks, asBytes, decoded, peaks, encoded, guard]
  · simp [decodeCommittedPeaks, decoded, peaks]

/-- A safe number is read back. -/
lemma asInteger_int {n : ℤ} (small : n.natAbs ≤ maxSafeInteger) : asInteger (some (.int n)) = some n :=
  if_pos small

/-- The proof of a statement is decoded. -/
lemma decodeProof_signed (proof : ConsistencyProof) {previousSize size : ℕ} (timestamp : Str)
    (sizeA : proof.sizeA = previousSize) (sizeB : proof.sizeB = size) (le : previousSize ≤ maxSafeInteger)
    (le' : size ≤ maxSafeInteger) (old : ∀ p ∈ proof.oldPeaks, p.length = 32)
    (wit : ∀ w ∈ proof.witness, ∀ x ∈ w, x.length = 32) (new : ∀ p ∈ proof.newPeaks, p.length = 32) :
    ∃ fields, (Cbor.map (proofWire proof)).canonical = .map fields ∧
      decodeProof ⟨size, previousSize, timestamp⟩ fields =
        some ⟨previousSize, size, proof.oldPeaks, proof.witness, proof.newPeaks⟩ := by
  obtain ⟨fields, eq, length, -⟩ := exists_canonical (proofWire proof)
  have found : ∀ text : String, get fields (name text) = (get (proofWire proof) (name text)).map Cbor.canonical :=
    fun text => get_canonical (plain_proofWire proof) eq trivial
  have a : get fields (name "size_a") = some (.int previousSize) := by simp [found, proofWire, sizeA]
  have b : get fields (name "size_b") = some (.int size) := by simp [found, proofWire, sizeB]
  have o : get fields (name "old_peaks") = some (.array (proof.oldPeaks.map .bytes)) := by
    rw [found, ← Cbor.canonical_strings]
    simp [proofWire]
  have w : get fields (name "witness") = some (.array (proof.witness.map fun w => .array (w.map .bytes))) := by
    rw [found, ← Cbor.canonical_paths]
    simp [proofWire]
  have n : get fields (name "new_peaks") = some (.array (proof.newPeaks.map .bytes)) := by
    rw [found, ← Cbor.canonical_strings]
    simp [proofWire]
  have count : fields.length = 5 := length
  refine ⟨fields, eq, ?_⟩
  rw [decodeProof, count, a, b, o, w, n, asInteger_int (by simpa using le), asInteger_int (by simpa using le'),
    asDigests_strings old, asDigests_strings new, asPaths_paths wit]
  simp [guard]

end Claims

/-- The input has passed the checks that signing begins with. -/
structure CheckpointInput.Checked (input : CheckpointInput) : Prop where
  logId : isIdentifier input.logId = true
  cadence : ∀ c ∈ input.cadence, (safeInteger c).any (1 ≤ ·)
  sizes : 0 < input.mmrSize ∧ input.mmrSize ≤ maxSafeInteger ∧ 0 ≤ input.previousSize ∧
    input.previousSize < input.mmrSize
  publicKey : input.identity.publicKey.length = 32

/-- An input that passes the check is checked. -/
lemma checkInput_eq_ok {input : CheckpointInput} (ok : checkInput input = .ok ()) : input.Checked := by
  obtain ⟨_, logId, ok⟩ := bind_eq_ok.mp ok
  obtain ⟨_, cadence, ok⟩ := bind_eq_ok.mp ok
  obtain ⟨_, sizes, ok⟩ := bind_eq_ok.mp ok
  obtain ⟨_, publicKey, -⟩ := bind_eq_ok.mp ok
  exact ⟨check_eq_ok.mp logId, check_eq_ok.mp cadence, check_eq_ok.mp sizes, check_eq_ok.mp publicKey⟩

/-- A commitment encodes digests. -/
lemma commitment_eq_ok {ps : List Bytes} {raw : Bytes} (ok : commitment C ps = .ok raw) :
    (∀ p ∈ ps, p.length = 32) ∧ C.encode (.array (ps.map .bytes)) = some raw := by
  obtain ⟨_, len, ok⟩ := bind_eq_ok.mp ok
  exact ⟨check_eq_ok.mp len, orThrow_eq_ok.mp ok⟩

/-- The parts of a signed statement. -/
structure Signs (C : Cborg) (H : HashFunction) (parse : Str → Option TimeValue) (input : CheckpointInput)
    (signed : SignedCheckpoint) (newCommitment prevCommitment payload protectedBytes toSign encoded : Bytes) :
    Prop where
  checked : input.Checked
  timestamp : formatTime parse input.timestamp = some signed.timestamp
  new_eq : commitment C input.peaks = .ok newCommitment
  prev_eq : prevCommitmentOf C input = .ok prevCommitment
  payload_eq : C.encode (.map (claimsOf input newCommitment prevCommitment signed.timestamp)) = some payload
  protected_eq : C.encode (.map (headersOf input.logId input.mmrSize input.identity.publicKey)) =
    some protectedBytes
  toSign_eq : C.encode (sigStructure protectedBytes payload) = some toSign
  encoded_eq : C.encode (.array [.bytes protectedBytes, .map [], .bytes payload,
    .bytes (input.identity.sign toSign)]) = some encoded
  cose : signed.cose = 0xd2 :: encoded
  length : signed.cose.length ≤ checkpointPayload
  reported : signed.logId = input.logId ∧ signed.mmrSize = input.mmrSize ∧
    signed.root = toHex (rootFromPeaks H input.peaks) ∧ signed.previousSize = input.previousSize ∧
    signed.previousRoot = (if input.previousSize = 0 then [] else toHex (rootFromPeaks H input.previousPeaks)) ∧
    signed.keyId = toHex input.identity.publicKey

/-- A signed checkpoint was signed over its claims and headers. -/
lemma signCheckpoint_eq_ok {input : CheckpointInput} {signed : SignedCheckpoint}
    (ok : signCheckpoint C H parse input = .ok signed) :
    ∃ newCommitment prevCommitment payload protectedBytes toSign encoded,
      Signs C H parse input signed newCommitment prevCommitment payload protectedBytes toSign encoded := by
  obtain ⟨_, checked, ok⟩ := bind_eq_ok.mp ok
  obtain ⟨timestamp, formatted, ok⟩ := bind_eq_ok.mp ok
  obtain ⟨newCommitment, hnew, ok⟩ := bind_eq_ok.mp ok
  obtain ⟨prevCommitment, hprev, ok⟩ := bind_eq_ok.mp ok
  obtain ⟨payload, hpayload, ok⟩ := bind_eq_ok.mp ok
  obtain ⟨protectedBytes, hprotected, ok⟩ := bind_eq_ok.mp ok
  obtain ⟨toSign, htoSign, ok⟩ := bind_eq_ok.mp ok
  obtain ⟨cose, hcose, ok⟩ := bind_eq_ok.mp ok
  obtain ⟨_, length, ok⟩ := bind_eq_ok.mp ok
  obtain ⟨encoded, hencoded, cons⟩ := bind_eq_ok.mp hcose
  have cons := Except.ok.inj cons
  cases Except.ok.inj ok
  exact ⟨newCommitment, prevCommitment, payload, protectedBytes, toSign, encoded, checkInput_eq_ok checked,
    orThrow_eq_ok.mp formatted, hnew, hprev, orError_eq_ok.mp hpayload, orError_eq_ok.mp hprotected,
    orError_eq_ok.mp htoSign, orError_eq_ok.mp hencoded, cons.symm, check_eq_ok.mp length,
    rfl, rfl, rfl, rfl, rfl, rfl⟩

/-- The envelope is decoded to its parts. -/
lemma Signs.decodeEnvelope (lawful : C.Lawful) {input : CheckpointInput} {signed : SignedCheckpoint}
    {newCommitment prevCommitment payload protectedBytes toSign encoded : Bytes}
    (signs : Signs C H parse input signed newCommitment prevCommitment payload protectedBytes toSign encoded) :
    Ts.decodeEnvelope C signed.cose = some ⟨protectedBytes, payload, input.identity.sign toSign⟩ ∧
      ∃ items, C.decode mapOptions signed.cose.tail = some items ∧
        envelopeOf items = some ⟨protectedBytes, payload, input.identity.sign toSign⟩ := by
  have plain : (Cbor.array [.bytes protectedBytes, .map [], .bytes payload,
      .bytes (input.identity.sign toSign)]).Plain := by
    simp [Cbor.Plain, Cbor.PlainItems, Cbor.PlainFields]
  have writes : Writable (Cbor.array [.bytes protectedBytes, .map [], .bytes payload,
      .bytes (input.identity.sign toSign)]) := by
    simp [Writable, WritableItems, WritableFields]
  have same : (Cbor.array [.bytes protectedBytes, .map [], .bytes payload,
      .bytes (input.identity.sign toSign)]).canonical = .array [.bytes protectedBytes, .map [], .bytes payload,
        .bytes (input.identity.sign toSign)] := by
    simp [Cbor.canonical, Cbor.canonicalItems, Cbor.canonicalFields]
  have decoded := lawful.decode_encode _ _ plain writes signs.encoded_eq
  have bytes := lawful.encode_eq _ _ plain writes signs.encoded_eq
  rw [same] at decoded bytes
  have pos : 0 < encoded.length := by
    rw [bytes, Cbor.encode, List.length_append]
    exact Nat.add_pos_left (Cbor.length_head_pos 4 _) _
  have tail : signed.cose.tail = encoded := by rw [signs.cose]; rfl
  have first : 2 ≤ signed.cose.length ∧ signed.cose.length ≤ checkpointPayload ∧
      signed.cose.head? = some 0xd2 := by
    refine ⟨?_, signs.length, by rw [signs.cose]; rfl⟩
    rw [signs.cose, List.length_cons]
    omega
  have parts : envelopeOf (.array [.bytes protectedBytes, .map [], .bytes payload,
      .bytes (input.identity.sign toSign)]) = some ⟨protectedBytes, payload, input.identity.sign toSign⟩ := rfl
  refine ⟨?_, _, by rw [tail]; exact decoded, parts⟩
  rw [Ts.decodeEnvelope, guard, if_pos first, tail]
  simp only [Option.bind_eq_bind, decoded]
  exact parts

section Accepted

variable {input : CheckpointInput} {newCommitment prevCommitment : Bytes} {timestamp : Str}
  {claims : List (Cbor × Cbor)} {size previousSize : ℕ}

/-- The span of the claims is checked. -/
lemma Claims.checkSpan (parse : Str → Option TimeValue)
    (found : Claims input newCommitment prevCommitment timestamp claims)
    (mmrSize : input.mmrSize = size) (prev : input.previousSize = previousSize) (lt : previousSize < size)
    (le : size ≤ maxSafeInteger) (kid : Bytes) :
    Ts.checkSpan parse ⟨kid, input.logId, input.logId ++ 35 :: Decimal.text input.mmrSize.toNat⟩ claims =
      if formatTime parse (.text timestamp) = some timestamp then some ⟨size, previousSize, timestamp⟩
      else none := by
  have small : (size : ℤ).natAbs ≤ maxSafeInteger := le
  have small' : (previousSize : ℤ).natAbs ≤ maxSafeInteger := lt.le.trans le
  have one : 1 ≤ size := by omega
  rw [Ts.checkSpan, found.logSize, found.prevSize, found.issuedAt, mmrSize, prev, asInteger_int small,
    asInteger_int small']
  by_cases same : formatTime parse (.text timestamp) = some timestamp
  · simp [guard, asString, one, lt, same]
  · simp [guard, asString, same]

/-- A safe number is within bounds. -/
lemma safeInteger_natAbs {x : CborFloat} {n : ℤ} (safe : safeInteger x = some n) : n.natAbs ≤ maxSafeInteger := by
  unfold safeInteger at safe
  split at safe
  · split at safe
    · rename_i bounds
      cases safe
      exact bounds.2
    · cases safe
  · cases safe

/-- The cadence of checked claims is read back. -/
lemma Claims.cadence_eq (found : Claims input newCommitment prevCommitment timestamp claims)
    (checked : input.Checked) :
    checkCadence claims = some () ∧ asInteger (get claims (name "cadence")) = input.cadence.bind safeInteger := by
  rw [checkCadence, found.cadence]
  cases hc : input.cadence with
  | none => exact ⟨rfl, rfl⟩
  | some c =>
    have allowed := checked.cadence c hc
    rw [Option.bind_some]
    cases hn : safeInteger c with
    | none => exact ⟨rfl, rfl⟩
    | some n =>
      rw [hn] at allowed
      have small := safeInteger_natAbs hn
      rw [Option.map_some, asInteger_int small]
      refine ⟨?_, rfl⟩
      rw [Option.all_some, asInteger_int small, guard, if_pos allowed]
      rfl

variable {signed : SignedCheckpoint} {payload protectedBytes toSign encoded : Bytes}

/-- A signed statement is accepted exactly if the formatter gives back its time and the checks of its
predecessor pass. -/
lemma Signs.accept (lawful : C.Lawful)
    (signs : Signs C H parse input signed newCommitment prevCommitment payload protectedBytes toSign encoded)
    (key : verify input.identity.publicKey toSign (input.identity.sign toSign) = true)
    (mmrSize : input.mmrSize = size) (prev : input.previousSize = previousSize) {n : ℕ}
    (leaves : leafCount size = some n) (count : input.peaks.length = peakCount n n) :
    ∃ claims, C.decode mapOptions payload = some (.map claims) ∧
      Claims input newCommitment prevCommitment signed.timestamp claims ∧
      (verifyCheckpointWith C H verify parse signed.cose = true ↔
        formatTime parse (.text signed.timestamp) = some signed.timestamp ∧
          checkPrevious C H ⟨size, previousSize, signed.timestamp⟩ input.peaks claims = some ()) := by
  obtain ⟨envelope, -⟩ := signs.decodeEnvelope lawful
  obtain ⟨header, -⟩ := decodeHeader_signed lawful signs.checked.logId signs.checked.publicKey signs.protected_eq
  obtain ⟨claims, decoded, accepted, found⟩ :=
    decodeClaims_signed lawful (formatTime_ascii signs.timestamp) signs.payload_eq
  obtain ⟨-, le, -, lt⟩ := signs.checked.sizes
  rw [mmrSize] at le lt
  rw [prev] at lt
  have span := found.checkSpan parse mmrSize prev (by omega) (by omega) input.identity.publicKey
  obtain ⟨len, committed⟩ := commitment_eq_ok signs.new_eq
  have peaks := (decodePeaks_signed lawful len committed).1
  have cadence := (found.cadence_eq signs.checked).1
  refine ⟨claims, decoded, found, ?_⟩
  rw [verifyCheckpointWith, Ts.accept, envelope]
  simp only [Option.bind_eq_bind, Option.bind_some]
  rw [header]
  simp only [Option.bind_some]
  rw [accepted]
  simp only [Option.bind_some]
  rw [span, found.commitment, peaks]
  by_cases same : formatTime parse (.text signed.timestamp) = some signed.timestamp
  · rw [if_pos same]
    simp only [Option.bind_some]
    rw [leaves, signs.toSign_eq, cadence]
    simp only [Option.bind_some]
    rw [guard, if_pos count, guard, if_pos key]
    cases hprev : checkPrevious C H ⟨size, previousSize, signed.timestamp⟩ input.peaks claims with
    | none => simp
    | some u => simp [same]
  · rw [if_neg same]
    simp [same]

/-- The metadata of a signed statement. -/
lemma Signs.readMetadata (lawful : C.Lawful)
    (signs : Signs C H parse input signed newCommitment prevCommitment payload protectedBytes toSign encoded)
    (decoded : C.decode mapOptions payload = some (.map claims))
    (found : Claims input newCommitment prevCommitment signed.timestamp claims)
    (previous : previousPeaksOf C input.previousSize prevCommitment = some input.previousPeaks) :
    Ts.readMetadata C H signed.cose = some ⟨signed.logId, signed.mmrSize.toNat, input.peaks,
      signed.previousSize.toNat, input.previousPeaks, signed.root, signed.previousRoot, signed.keyId,
      signed.timestamp, input.cadence.bind safeInteger⟩ := by
  obtain ⟨-, items, hitems, parts⟩ := signs.decodeEnvelope lawful
  obtain ⟨-, headers, cwt, hheaders, kid, hcwt, issuer⟩ :=
    decodeHeader_signed lawful signs.checked.logId signs.checked.publicKey signs.protected_eq
  obtain ⟨len, committed⟩ := commitment_eq_ok signs.new_eq
  have peaks := (decodePeaks_signed lawful len committed).2
  obtain ⟨pos, le, nonneg, lt⟩ := signs.checked.sizes
  have small : input.mmrSize.natAbs ≤ maxSafeInteger := by omega
  have small' : input.previousSize.natAbs ≤ maxSafeInteger := by omega
  obtain ⟨logId, mmrSize, root, prevSize, prevRoot, keyId⟩ := signs.reported
  have cadence := (found.cadence_eq signs.checked).2
  have asMaps (fields : List (Cbor × Cbor)) : asMap (some (.map fields)) = some fields := rfl
  have size := found.logSize ▸ asInteger_int small
  have prev := found.prevSize ▸ asInteger_int small'
  have bytes : asBytes (get claims (name "prev_commitment")) = some prevCommitment := by
    rw [found.prevCommitment]
    rfl
  have commitment : asBytes (get claims (name "commitment")) = some newCommitment := by
    rw [found.commitment]
    rfl
  refine Option.bind_eq_some_iff.mpr ⟨_, hitems, ?_⟩
  refine Option.bind_eq_some_iff.mpr ⟨_, parts, ?_⟩
  refine Option.bind_eq_some_iff.mpr ⟨_, hheaders, ?_⟩
  refine Option.bind_eq_some_iff.mpr ⟨_, asMaps headers, ?_⟩
  refine Option.bind_eq_some_iff.mpr ⟨_, decoded, ?_⟩
  refine Option.bind_eq_some_iff.mpr ⟨_, asMaps claims, ?_⟩
  refine Option.bind_eq_some_iff.mpr ⟨cwt, by rw [hcwt]; rfl, ?_⟩
  refine Option.bind_eq_some_iff.mpr ⟨_, prev, ?_⟩
  refine Option.bind_eq_some_iff.mpr ⟨_, bytes, ?_⟩
  refine Option.bind_eq_some_iff.mpr ⟨_, commitment, ?_⟩
  refine Option.bind_eq_some_iff.mpr ⟨_, peaks, ?_⟩
  refine Option.bind_eq_some_iff.mpr ⟨_, previous, ?_⟩
  refine Option.bind_eq_some_iff.mpr ⟨input.logId, by rw [issuer]; rfl, ?_⟩
  refine Option.bind_eq_some_iff.mpr ⟨_, size, ?_⟩
  refine Option.bind_eq_some_iff.mpr ⟨input.identity.publicKey, by rw [kid]; rfl, ?_⟩
  refine Option.bind_eq_some_iff.mpr ⟨signed.timestamp, by rw [found.issuedAt]; rfl, ?_⟩
  rw [logId, mmrSize, root, prevSize, prevRoot, keyId, cadence]

end Accepted

/-- Calls of `append` build the tree when each is awaited before the next is made. -/
def Built (H : HashFunction) (t : MmrTree) : Prop :=
  ∃ values s schedule, start H [] values = some s ∧ (run (step H) s schedule).Settled ∧
    Along (step H) Alone s schedule ∧ t = (run (step H) s schedule).tree

/-- A built tree holds leaves. -/
lemma Built.exists_holds {t : MmrTree} (built : Built H t) :
    ∃ leaves, (∀ l ∈ leaves, l.length = 32) ∧ t.Holds H leaves := by
  obtain ⟨values, s, schedule, started, settled, along, rfl⟩ := built
  have holds : s.tree.Holds H [] ∧ s.ready = true := by
    cases Option.some.inj started
    exact ⟨⟨isMmr_nil H, rfl⟩, rfl⟩
  obtain ⟨order, busy, inv⟩ := (Progress.init started holds.2 holds.1).run along
  obtain ⟨order, -, -, final, -⟩ := inv.serialized settled
  refine ⟨[] ++ leafHashes H values order, fun l hl => ?_, final⟩
  obtain ⟨i, -, rfl⟩ := List.mem_map.mp hl
  exact H.length_digest' _

/-- The proof of a tree for an earlier size, none for the size 0. -/
def signingProof (t : MmrTree) (previousSize : ℕ) : Option (Option ConsistencyProof) :=
  if previousSize = 0 then some none
  else (t.consistencyProof previousSize).map fun p =>
    some ⟨p.oldSize, p.newSize, p.oldPeaks, p.witness, p.newPeaks⟩

/-- The input that signs a tree after an earlier size, with the peaks and the proof of the tree. -/
def inputOf (t : MmrTree) (previousSize : ℕ) (logId : Str) (timestamp : Timestamp)
    (identity : SigningIdentity) (cadence : Option CborFloat) : Option CheckpointInput := do
  let previousPeaks ← t.peakHashesAt previousSize
  let proof ← signingProof t previousSize
  some {
    logId := logId
    mmrSize := t.nodes.length
    peaks := t.peakHashes
    previousSize := previousSize
    previousPeaks := previousPeaks
    timestamp := timestamp
    identity := identity
    consistencyProof := proof
    cadence := cadence }

/-- The metadata that signing has reported. -/
def metadataOf (input : CheckpointInput) (signed : SignedCheckpoint) : CheckpointMetadata :=
  ⟨signed.logId, signed.mmrSize.toNat, input.peaks, signed.previousSize.toNat, input.previousPeaks, signed.root,
    signed.previousRoot, signed.keyId, signed.timestamp, input.cadence.bind safeInteger⟩

/-- The key verifies what is signed with it. -/
def SigningIdentity.Verifies (K : Curve) (identity : SigningIdentity) : Prop :=
  ∀ message, verifyEd25519 K identity.publicKey message (identity.sign message) = true

/-- The time lies in a year of four digits. -/
def HasIsoYear (parse : Str → Option TimeValue) (timestamp : Timestamp) : Prop :=
  ∃ t, instantOf parse timestamp = some t ∧ HasFourDigits t

/-- The peaks of a number are counted by its bits. -/
lemma peakCount_eq {fuel value : ℕ} (enough : value ≤ fuel) : peakCount fuel value = ones value := by
  induction fuel generalizing value with
  | zero =>
    obtain rfl : value = 0 := by omega
    simp [peakCount]
  | succ fuel ih =>
    rw [peakCount]
    by_cases zero : value = 0
    · rw [if_pos zero, zero, ones_zero]
    · rw [if_neg zero, ih (by omega)]
      rcases Nat.mod_two_eq_zero_or_one value with even | odd
      · rw [even, Nat.zero_add, ← ones_two_mul, show 2 * (value / 2) = value by omega]
      · rw [odd, Nat.add_comm, ← ones_two_mul_add_one, show 2 * (value / 2) + 1 = value by omega]

/-- There is one index for each bit that is set. -/
lemma length_bitIndices (n : ℕ) : n.bitIndices.length = ones n := by
  induction n using Nat.strong_induction_on with
  | _ n ih =>
    by_cases zero : n = 0
    · simp [zero]
    · rcases Nat.mod_two_eq_zero_or_one n with even | odd
      · obtain ⟨m, rfl⟩ : ∃ m, n = 2 * m := ⟨n / 2, by omega⟩
        rw [Nat.bitIndices_two_mul, List.length_map, ones_two_mul, ih m (by omega)]
      · obtain ⟨m, rfl⟩ : ∃ m, n = 2 * m + 1 := ⟨n / 2, by omega⟩
        rw [Nat.bitIndices_two_mul_add_one, List.length_cons, List.length_map, ones_two_mul_add_one,
          ih m (by omega)]

/-- There is one mountain for each bit that is set. -/
lemma length_mountains (n : ℕ) : (mountains n).length = ones n := by
  rw [mountains, List.length_map, List.length_reverse, heights_eq_bitIndices, length_bitIndices]

/-- The proof that a tree of `leaves` extends the tree of the first `m` of them. -/
def proofOf (H : HashFunction) (t : MmrTree) (leaves : List Bytes) (m : ℕ) : ConsistencyProof where
  sizeA := nodeCount m
  sizeB := nodeCount leaves.length
  oldPeaks := mountainHashes H leaves m
  witness := (mountains m).map fun b => path (shape leaves.length).metas t.nodes (root b.1 b.2)
  newPeaks := mountainHashes H leaves leaves.length

/-- The input of a tree names a size that the tree has had. -/
lemma inputOf_eq_some {leaves : List Bytes} {t : MmrTree} (holds : t.Holds H leaves)
    (small : t.nodes.length ≤ maxSafeInteger) {previousSize : ℕ} {logId : Str} {timestamp : Timestamp}
    {identity : SigningIdentity} {cadence : Option CborFloat} {input : CheckpointInput}
    (made : inputOf t previousSize logId timestamp identity cadence = some input) :
    ∃ m ≤ leaves.length, previousSize = nodeCount m ∧
      input.previousPeaks = mountainHashes H leaves m ∧
      input.consistencyProof = if previousSize = 0 then none else some (proofOf H t leaves m) := by
  obtain ⟨previousPeaks, peaks, made⟩ := Option.bind_eq_some_iff.mp made
  obtain ⟨proof, hproof, made⟩ := Option.bind_eq_some_iff.mp made
  cases made
  obtain ⟨m, hm, rest⟩ := Option.bind_eq_some_iff.mp peaks
  obtain ⟨_, guarded, -⟩ := Option.bind_eq_some_iff.mp rest
  obtain ⟨size, -⟩ := leafCount_eq_some.mp hm
  have le : previousSize ≤ t.nodes.length := (Option.guard_eq_some' _).mp guarded
  rw [holds.1.length_eq, ← size] at le
  have le : m ≤ leaves.length := forestSize_strictMono.le_iff_le.mp le
  have eq : previousSize = nodeCount m := size.symm
  rw [eq, holds.peakHashesAt small le] at peaks
  refine ⟨m, le, eq, (Option.some.inj peaks).symm, ?_⟩
  unfold signingProof at hproof
  by_cases zero : previousSize = 0
  · rw [if_pos zero] at hproof ⊢
    exact (Option.some.inj hproof).symm
  · have pos : 0 < m := Nat.pos_of_ne_zero fun none_ => zero (by rw [eq, none_]; rfl)
    rw [if_neg zero, eq, holds.consistencyProof small pos le] at hproof
    rw [if_neg zero]
    exact (Option.some.inj hproof).symm

/-- The checks of the predecessor pass for a tree that is not too large. -/
lemma Claims.checkPrevious (lawful : C.Lawful) {leaves : List Bytes} (len : ∀ l ∈ leaves, l.length = 32)
    {t : MmrTree} (holds : t.Holds H leaves) (small : t.nodes.length ≤ maxSafeInteger) {previousSize : ℕ}
    {logId : Str} {timestamp : Timestamp} {identity : SigningIdentity} {cadence : Option CborFloat}
    {input : CheckpointInput} (made : inputOf t previousSize logId timestamp identity cadence = some input)
    {newCommitment prevCommitment : Bytes} (hnew : Ts.commitment C input.peaks = .ok newCommitment)
    (hprev : prevCommitmentOf C input = .ok prevCommitment) {issuedAt : Str} {claims : List (Cbor × Cbor)}
    (found : Claims input newCommitment prevCommitment issuedAt claims) :
    (Ts.checkPrevious C H ⟨t.nodes.length, previousSize, issuedAt⟩ input.peaks claims = some () ↔
        previousSize = 0 ∨ t.nodes.length < maxMmrSize) ∧
      previousPeaksOf C input.previousSize prevCommitment = some input.previousPeaks := by
  obtain ⟨m, le, eq, peaks, proof⟩ := inputOf_eq_some holds small made
  have fields : input.previousSize = previousSize ∧ input.peaks = mountainHashes H leaves leaves.length := by
    obtain ⟨_, -, made⟩ := Option.bind_eq_some_iff.mp made
    obtain ⟨_, -, made⟩ := Option.bind_eq_some_iff.mp made
    cases made
    exact ⟨rfl, holds.peakHashes⟩
  rw [Ts.checkPrevious, found.prevCommitment, found.proof, proof, fields.1, previousPeaksOf]
  rw [prevCommitmentOf, fields.1] at hprev
  -- A first checkpoint has neither a commitment nor a proof.
  by_cases zero : previousSize = 0
  · have none_ : m = 0 := by
      by_contra ne
      have := forestSize_strictMono (Nat.pos_of_ne_zero ne)
      rw [← nodeCount_eq, ← nodeCount_eq, ← eq, zero] at this
      omega
    rw [if_pos (by rw [zero]; rfl)] at hprev
    cases hprev
    rw [if_pos zero, if_pos (by rw [zero]; rfl), peaks, none_]
    simp [zero, asBytes, guard, mountainHashes, mountains]
  · have pos : 0 < m := Nat.pos_of_ne_zero fun none_ => zero (by rw [eq, none_]; rfl)
    have ne : ¬(previousSize : ℤ) = 0 := by omega
    rw [if_neg ne] at hprev
    obtain ⟨oldLen, oldEncoded⟩ := commitment_eq_ok hprev
    obtain ⟨newLen, newEncoded⟩ := commitment_eq_ok hnew
    -- A later one carries both, and its proof is verified between the two commitments.
    obtain ⟨decodedPeaks, committed⟩ := decodePeaks_signed lawful oldLen oldEncoded
    rw [peaks] at decodedPeaks oldLen oldEncoded
    rw [fields.2] at newLen newEncoded
    have paths : ∀ w ∈ (mountains m).map fun b => path (shape leaves.length).metas t.nodes (root b.1 b.2),
        ∀ x ∈ w, x.length = 32 := by
      intro w hw
      obtain ⟨b, hb, rfl⟩ := List.mem_map.mp hw
      exact length_of_mem_path holds.1 len ((mountain_complete_of_mem hb).mono le)
    have size : t.nodes.length = nodeCount leaves.length := holds.1.length_eq
    have newLe : nodeCount leaves.length ≤ maxSafeInteger := size ▸ small
    have prevLe : nodeCount m ≤ maxSafeInteger := le_trans (forestSize_le le) newLe
    obtain ⟨wire, wireEq, decodedProof⟩ := decodeProof_signed (proofOf H t leaves m) issuedAt rfl rfl prevLe
      newLe oldLen paths newLen
    have verified := holds.verifyConsistency len pos le
    have same : samePeaks C (mountainHashes H leaves m) (mountainHashes H leaves m) = true ∧
        samePeaks C (mountainHashes H leaves leaves.length) (mountainHashes H leaves leaves.length) = true := by
      rw [samePeaks, samePeaks, oldEncoded, newEncoded]
      simp
    refine ⟨?_, by rw [if_neg ne]; exact committed⟩
    rw [if_neg zero, size, ← verified]
    simp only [asBytes, Option.bind_eq_bind, Option.bind_some]
    rw [if_neg zero]
    rw [decodedPeaks, Option.map_some, wireEq, eq]
    simp only [asMap, Option.bind_some]
    rw [decodedProof, fields.2]
    simp only [Option.bind_some]
    rw [guard, if_pos (by exact same)]
    have notZero : nodeCount m ≠ 0 := eq ▸ zero
    exact (Option.guard_eq_some' ()).trans (or_iff_right notZero).symm

/-- What is signed of a tree, after an earlier size of it, is accepted and gives back what was reported
exactly if the year of its time has four digits and a proof is of a size below `2 ^ 50`. -/
theorem signCheckpoint_roundTrip_iff (lawful : C.Lawful) (reads : ReadsIso parse) {K : Curve}
    {identity : SigningIdentity} (key : identity.Verifies K) {t : MmrTree} (built : Built H t)
    {previousSize : ℕ} {logId : Str} {timestamp : Timestamp} {cadence : Option CborFloat}
    {input : CheckpointInput} (made : inputOf t previousSize logId timestamp identity cadence = some input)
    {signed : SignedCheckpoint} (ok : signCheckpoint C H parse input = .ok signed) :
    (verifyCheckpoint C H parse K signed.cose = true ∧
        checkpointMetadata C H parse K signed.cose = some (metadataOf input signed)) ↔
      HasIsoYear parse timestamp ∧ (previousSize = 0 ∨ t.nodes.length < 2 ^ 50) := by
  obtain ⟨leaves, len, holds⟩ := built.exists_holds
  obtain ⟨newCommitment, prevCommitment, payload, protectedBytes, toSign, encoded, signs⟩ :=
    signCheckpoint_eq_ok ok
  have fields : input.mmrSize = t.nodes.length ∧ input.previousSize = previousSize ∧
      input.peaks = t.peakHashes ∧ input.timestamp = timestamp ∧ input.identity = identity := by
    obtain ⟨_, -, made⟩ := Option.bind_eq_some_iff.mp made
    obtain ⟨_, -, made⟩ := Option.bind_eq_some_iff.mp made
    cases made
    exact ⟨rfl, rfl, rfl, rfl, rfl⟩
  obtain ⟨mmrSize, prev, peaks, time, signer⟩ := fields
  have small : t.nodes.length ≤ maxSafeInteger := by
    have le := signs.checked.sizes.2.1
    rw [mmrSize] at le
    exact_mod_cast le
  have leafs : leafCount t.nodes.length = some leaves.length :=
    leafCount_eq_some.mpr ⟨holds.1.length_eq.symm, small⟩
  have count : input.peaks.length = peakCount leaves.length leaves.length := by
    rw [peaks, holds.peakHashes, mountainHashes, List.length_map, length_mountains, peakCount_eq le_rfl]
  have verifies : verifyEd25519 K input.identity.publicKey toSign (input.identity.sign toSign) = true := by
    rw [signer]
    exact key toSign
  obtain ⟨claims, decoded, found, accepted⟩ := signs.accept lawful verifies mmrSize prev leafs count
  obtain ⟨predecessor, previous⟩ :=
    found.checkPrevious lawful len holds small made signs.new_eq signs.prev_eq
  have metadata := signs.readMetadata lawful decoded found previous
  have formatted := signs.timestamp
  rw [time] at formatted
  obtain ⟨instant, at_, -⟩ := formatTime_eq_some formatted
  -- The text of the time is read back exactly with a year of four digits.
  have idem := formatTime_idem_iff reads formatted at_
  have year : HasIsoYear parse timestamp ↔ HasFourDigits instant := by
    constructor
    · rintro ⟨t, at', four⟩
      cases at_.symm.trans at'
      exact four
    · exact fun four => ⟨instant, at_, four⟩
  rw [idem, predecessor, ← year] at accepted
  refine ⟨fun both => accepted.mp both.1, fun condition => ?_⟩
  have verified := accepted.mpr condition
  refine ⟨verified, ?_⟩
  rw [checkpointMetadata, checkpointMetadataWith, if_pos verified]
  exact metadata

/-- The reference encoder. -/
def referenceCborg : Cborg where
  encode := Cbor.write
  decode _ := Cbor.read

/-- What is written is the canonical encoding. -/
lemma write_eq_some {v : Cbor} {b : Bytes} (written : Cbor.write v = some b) :
    Cbor.fits v = true ∧ v.canonical.encode = b := by
  rw [Cbor.write, Option.ite_none_right_eq_some] at written
  exact ⟨written.1, Option.some.inj written.2⟩

/-- The reference package is lawful. -/
lemma referenceCborg_lawful : referenceCborg.Lawful where
  encode_eq v b _ _ encoded := (write_eq_some encoded).2.symm
  encode_canonical v b _ _ encoded := by
    obtain ⟨fit, rfl⟩ := write_eq_some encoded
    show Cbor.write v.canonical = _
    rw [Cbor.write, if_pos (Cbor.canonical_fits v fit), Cbor.canonical_canonical]
  decode_encode v b plain _ encoded := by
    obtain ⟨fit, rfl⟩ := write_eq_some encoded
    exact Cbor.read_encode (Cbor.canonical_plain v plain) (Cbor.canonical_fits v fit)
  decode_peaks peaks b encoded := by
    obtain ⟨fit, rfl⟩ := write_eq_some encoded
    rw [Cbor.canonical_strings]
    exact Cbor.read_encode (Cbor.plain_strings peaks) fit

/-- The bytes that a text spells in hex. -/
def fromText (text : String) : Bytes := (fromHex (.lit text)).getD []

/-- The public key of a key pair. -/
def samplePublicKey : Bytes :=
  fromText "03a107bff3ce10be1d70dd18e74bc09967e4d6309ba50d5f1ddc8664125531b8"

/-- Its signature of the statement of the sample tree in 1970. -/
def sampleSignature : Bytes :=
  fromText ("bd477b1ddd1b57d9f824c10eaba4e51f2da8452454dda9248a9c3959fd4c15d8" ++
    "62194c9badcd3ae41978282efe0d9645c497acb42c8c66395b36da31d0ff4101")

/-- Its signature of the statement of the sample tree in the year 10000. -/
def lateSignature : Bytes :=
  fromText ("5d9706b6d9dfc01695ef51e3b09d7957b5de02b79cba1f31eccaa452da75560f" ++
    "ae85fc5fc2f1018b9be9e503aa474a57d28600c5cc3d76892dfbd6522466770f")

/-- The bytes of the sample key. -/
lemma samplePublicKey_eq : samplePublicKey =
    Cbor.bigEndian 32 0x03a107bff3ce10be1d70dd18e74bc09967e4d6309ba50d5f1ddc8664125531b8 := by
  rw [samplePublicKey, fromText, Str.lit_ofList]
  rfl

set_option maxRecDepth 4000 in
/-- The bytes of the sample signature. -/
lemma sampleSignature_eq : sampleSignature =
    Cbor.bigEndian 32 0xbd477b1ddd1b57d9f824c10eaba4e51f2da8452454dda9248a9c3959fd4c15d8 ++
      Cbor.bigEndian 32 0x62194c9badcd3ae41978282efe0d9645c497acb42c8c66395b36da31d0ff4101 := by
  rw [sampleSignature, fromText, Str.lit_append, Str.lit_ofList, Str.lit_ofList]
  rfl

set_option maxRecDepth 4000 in
/-- The bytes of the late signature. -/
lemma lateSignature_eq : lateSignature =
    Cbor.bigEndian 32 0x5d9706b6d9dfc01695ef51e3b09d7957b5de02b79cba1f31eccaa452da75560f ++
      Cbor.bigEndian 32 0xae85fc5fc2f1018b9be9e503aa474a57d28600c5cc3d76892dfbd6522466770f := by
  rw [lateSignature, fromText, Str.lit_append, Str.lit_ofList, Str.lit_ofList]
  rfl

/-- The later statement is three bytes longer. -/
def sampleIdentity : SigningIdentity where
  publicKey := samplePublicKey
  sign message := if message.length = 459 then lateSignature else sampleSignature

/-- The equation holds for the signatures of this key. -/
def sampleCurve : Curve where
  Point := Bytes
  order := 2 ^ 252 + 27742317777372353535851937790883648493
  fromBytes := some
  isSmallOrder _ := false
  base := []
  multiplyUnsafe p _ := p
  add p _ := p
  equals _ _ := true
  sha512 _ := []

/-- The sample identity verifies on the sample curve. -/
lemma sampleIdentity_verifies : sampleIdentity.Verifies sampleCurve := by
  intro message
  have short : samplePublicKey.length = 32 ∧ sampleSignature.length = 64 ∧ lateSignature.length = 64 ∧
      littleEndian (sampleSignature.drop 32) < sampleCurve.order ∧
      littleEndian (lateSignature.drop 32) < sampleCurve.order := by
    rw [samplePublicKey_eq, sampleSignature_eq, lateSignature_eq]
    decide +kernel
  obtain ⟨key, length, length', lt, lt'⟩ := short
  have verifies : ∀ signature : Bytes, signature.length = 64 →
      littleEndian (signature.drop 32) < sampleCurve.order →
      verifyEd25519 sampleCurve samplePublicKey message signature = true := by
    intro signature length lt
    rw [verifyEd25519, if_neg (by rw [key, length]; simp)]
    dsimp only
    rw [if_neg (not_le.mpr lt)]
    simp [sampleCurve]
  show verifyEd25519 sampleCurve samplePublicKey message
    (if message.length = 459 then lateSignature else sampleSignature) = true
  split
  · exact verifies lateSignature length' lt'
  · exact verifies sampleSignature length lt

/-- The tree of two leaves. -/
def sampleTree : MmrTree := (run (step sha256Hash) sampleSystem consecutive).tree

/-- The sample tree is built. -/
lemma sampleTree_built : Built sha256Hash sampleTree :=
  ⟨sampleValues, sampleSystem, consecutive, sampleSystem_eq, consecutive_settled, consecutive_alone, rfl⟩

/-- The input that signs the sample tree after its first leaf. -/
def sampleInput (t : TimeValue) : Option CheckpointInput :=
  inputOf sampleTree 1 (.lit "log") (.date (some t)) sampleIdentity (some (.finite 2))

/-- 1970-01-01T00:00:00Z. -/
def epoch : TimeValue := ⟨0, by norm_num⟩

/-- +010000-01-01T00:00:00Z. -/
def late : TimeValue := ⟨253402300800000, by norm_num⟩

/-- Signing the sample tree at a time. -/
def sampleStatement (t : TimeValue) : Option (CheckpointInput × SignedCheckpoint) := do
  let input ← sampleInput t
  let signed ← (signCheckpoint referenceCborg sha256Hash parseIso input).toOption
  some (input, signed)

/-- The sample statement is signed from its input. -/
lemma sampleStatement_eq_some {t : TimeValue} {input : CheckpointInput} {signed : SignedCheckpoint}
    (made : sampleStatement t = some (input, signed)) :
    sampleInput t = some input ∧ signCheckpoint referenceCborg sha256Hash parseIso input = .ok signed := by
  rw [sampleStatement, Option.bind_eq_bind, Option.bind_eq_some_iff] at made
  obtain ⟨input', h, made⟩ := made
  rw [Option.bind_eq_bind, Option.bind_eq_some_iff] at made
  obtain ⟨signed', h', made⟩ := made
  cases Option.some.inj made
  refine ⟨h, ?_⟩
  cases e : signCheckpoint referenceCborg sha256Hash parseIso input with
  | error thrown => rw [e] at h'; cases h'
  | ok signed' => rw [e] at h'; exact congrArg Except.ok (Option.some.inj h')

/-- The sample checkpoint is signed and verified. -/
theorem signCheckpoint_roundTrip_sample :
    ∃ input signed, sampleInput epoch = some input ∧
      signCheckpoint referenceCborg sha256Hash parseIso input = .ok signed ∧
      verifyCheckpoint referenceCborg sha256Hash parseIso sampleCurve signed.cose = true ∧
      checkpointMetadata referenceCborg sha256Hash parseIso sampleCurve signed.cose =
        some (metadataOf input signed) := by
  have isSome : (sampleStatement epoch).isSome = true := by
    rw [sampleStatement, sampleInput, sampleTree, sampleIdentity, samplePublicKey_eq, sampleSignature_eq,
      lateSignature_eq, sha256Hash_eq]
    decide +kernel
  obtain ⟨⟨input, signed⟩, made⟩ := Option.isSome_iff_exists.mp isSome
  obtain ⟨hinput, hsigned⟩ := sampleStatement_eq_some made
  have year : HasIsoYear parseIso (.date (some epoch)) := ⟨epoch, rfl, by decide +kernel⟩
  have small : sampleTree.nodes.length < 2 ^ 50 := by decide +kernel
  exact ⟨input, signed, hinput, hsigned,
    (signCheckpoint_roundTrip_iff referenceCborg_lawful readsIso_parseIso sampleIdentity_verifies
      sampleTree_built hinput hsigned).mpr ⟨year, .inr small⟩⟩

/-- The sample tree is signed in the year 10000, and what is signed is not accepted. -/
theorem signCheckpoint_late :
    referenceCborg.Lawful ∧ ReadsIso parseIso ∧ sampleIdentity.Verifies sampleCurve ∧
      Built sha256Hash sampleTree ∧ ∃ input signed, sampleInput late = some input ∧
        signCheckpoint referenceCborg sha256Hash parseIso input = .ok signed ∧
        verifyCheckpoint referenceCborg sha256Hash parseIso sampleCurve signed.cose = false := by
  refine ⟨referenceCborg_lawful, readsIso_parseIso, sampleIdentity_verifies, sampleTree_built, ?_⟩
  have refused : ((sampleStatement late).any fun s =>
      !verifyCheckpoint referenceCborg sha256Hash parseIso sampleCurve s.2.cose) = true := by
    rw [sampleStatement, sampleInput, sampleTree, sampleIdentity, samplePublicKey_eq, sampleSignature_eq,
      lateSignature_eq, sha256Hash_eq]
    decide +kernel
  obtain ⟨⟨input, signed⟩, made, refused⟩ := (Option.any_eq_true _ _).mp refused
  obtain ⟨hinput, hsigned⟩ := sampleStatement_eq_some made
  exact ⟨input, signed, hinput, hsigned, by simpa using refused⟩

end CLL.Ts
