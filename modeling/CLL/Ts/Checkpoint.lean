import CLL.Ts.Proof
import CLL.Ts.Time
import CLL.Lib.CanonicalJson

/-!
# Checkpoint statements in TypeScript

`signCheckpoint` and `checkpointEntryHash` of `ts/src/checkpoint.ts`, `verifyCheckpointWith` and
`checkpointMetadataWith` of `ts/src/checkpoint-verify.ts`, and `verifyEd25519` of `ts/src/ed25519.ts`. The
packages `cborg` and `@noble/curves` and the text that `Date.parse` reads are parameters.
-/

namespace CLL.Ts
open CLL.Core

/-- The options of `decode` that the code sets. -/
structure DecodeOptions where
  allowIndefinite : Bool
  coerceUndefinedToNull : Bool
  useMaps : Bool

/-- For an envelope, a header and a map of claims. -/
def mapOptions : DecodeOptions := ⟨false, false, true⟩

/-- For peaks. -/
def peakOptions : DecodeOptions := ⟨false, false, false⟩

/-- `encode` with `rfc8949EncodeOptions` and `decode` of `cborg`. Both a `Map` and a record are maps. A
number that is a safe integer and a `bigint` that is none are integers, any other number is a float. -/
structure Cborg where
  encode : Cbor → Option Bytes
  decode : DecodeOptions → Bytes → Option Cbor

/-- A label whose head is one byte. Of such labels the shorter is the smaller one, byte by byte. -/
def isShortLabel : Cbor → Bool
  | .int n => -24 ≤ n && n < 24
  | .str s => (Utf8.encode s).any fun b => b.length < 24
  | _ => false

mutual

/-- Every text can be encoded, and every label of a map is short. -/
def Writable : Cbor → Prop
  | .str s => (Utf8.encode s).isSome = true
  | .array xs => WritableItems xs
  | .map fields => WritableFields fields
  | .tag _ value => Writable value
  | _ => True

def WritableItems : List Cbor → Prop
  | [] => True
  | x :: xs => Writable x ∧ WritableItems xs

def WritableFields : List (Cbor × Cbor) → Prop
  | [] => True
  | (k, v) :: fields => isShortLabel k = true ∧ Writable v ∧ WritableFields fields

end

attribute [local simp] Writable WritableItems WritableFields

/-- `cborg` writes the deterministic encoding, the same of a map and of the map with its fields in order,
and reads what it has written, with the fields of every map in order. -/
structure Cborg.Lawful (C : Cborg) : Prop where
  encode_eq : ∀ (v : Cbor) (b : Bytes), v.Plain → Writable v → C.encode v = some b → b = v.canonical.encode
  encode_canonical : ∀ (v : Cbor) (b : Bytes), v.Plain → Writable v → C.encode v = some b →
    C.encode v.canonical = some b
  decode_encode : ∀ (v : Cbor) (b : Bytes), v.Plain → Writable v → C.encode v = some b →
    C.decode mapOptions b = some v.canonical
  decode_peaks : ∀ (peaks : List Bytes) (b : Bytes), C.encode (.array (peaks.map .bytes)) = some b →
    C.decode peakOptions b = some (.array (peaks.map .bytes))

/-- `Point` of `ed25519` in `@noble/curves`: a key or an `R` is decoded, of small order, multiplied and
added. -/
structure Curve where
  Point : Type
  order : ℕ
  fromBytes : Bytes → Option Point
  isSmallOrder : Point → Bool
  base : Point
  multiplyUnsafe : Point → ℕ → Point
  add : Point → Point → Point
  equals : Point → Point → Bool
  sha512 : Bytes → Bytes

/-- `littleEndian`. -/
def littleEndian (bytes : Bytes) : ℕ := bytes.foldr (fun x n => 256 * n + x.toNat) 0

/-- `verifyEd25519`. -/
def verifyEd25519 (K : Curve) (publicKey message signature : Bytes) : Bool :=
  if publicKey.length ≠ 32 ∨ signature.length ≠ 64 then false
  else
    let r := signature.take 32
    let s := littleEndian (signature.drop 32)
    if s ≥ K.order then false
    else
      match K.fromBytes publicKey, K.fromBytes r with
      | some a, some rPoint =>
        if K.isSmallOrder a ∨ K.isSmallOrder rPoint then false
        else
          let k := littleEndian (K.sha512 (r ++ publicKey ++ message)) % K.order
          K.equals (K.multiplyUnsafe K.base s) (K.add rPoint (K.multiplyUnsafe a k))
      | _, _ => false

/-- `limits.checkpointPayload`. -/
def checkpointPayload : ℕ := 65536

/-- `limits.identifier`. -/
def identifierLimit : ℕ := 191

/-- `CHECKPOINT_CONTENT_TYPE`. -/
def checkpointContentType : Str := .lit "application/cll-checkpoint+cbor"

/-- A character of the pattern of `validateIdentifier`. -/
def isIdentifierChar (c : ℕ) : Bool :=
  (65 ≤ c && c ≤ 90) || (97 ≤ c && c ≤ 122) || (48 ≤ c && c ≤ 57) || c == 46 || c == 95 || c == 58 ||
    c == 47 || c == 45

/-- Whether `validateIdentifier` returns. The characters of the pattern have one byte each. -/
def isIdentifier (value : Str) : Bool :=
  1 ≤ value.length && value.length ≤ identifierLimit && value.all isIdentifierChar

/-- `validateIdentifier`. -/
def validateIdentifier (value : Str) : Js Unit :=
  check (isIdentifier value = true) .invalid "identifier must be 1..191 UTF-8 bytes in the portable subset"

/-- The key of a map is a given number or text. -/
def isKey : Cbor → Cbor → Bool
  | .int m, .int n => m == n
  | .str s, .str t => s == t
  | _, _ => false

/-- `map.get(key)`; `none` for `undefined`. -/
def get (fields : List (Cbor × Cbor)) (key : Cbor) : Option Cbor :=
  (fields.find? fun f => isKey f.1 key).map (·.2)

/-- A key that is a text. -/
def name (text : String) : Cbor := .str (Str.lit text)

/-- A number that is a safe integer. -/
def asInteger : Option Cbor → Option ℤ
  | some (.int n) => if n.natAbs ≤ maxSafeInteger then some n else none
  | _ => none

/-- A `string`. -/
def asString : Option Cbor → Option Str
  | some (.str s) => some s
  | _ => none

/-- A `Uint8Array`. -/
def asBytes : Option Cbor → Option Bytes
  | some (.bytes b) => some b
  | _ => none

/-- A `Map`. -/
def asMap : Option Cbor → Option (List (Cbor × Cbor))
  | some (.map fields) => some fields
  | _ => none

/-- An `Array`. -/
def asArray : Option Cbor → Option (List Cbor)
  | some (.array xs) => some xs
  | _ => none

/-- A `Uint8Array` of 32 bytes. -/
def asDigest (v : Cbor) : Option Bytes := do
  let b ← asBytes (some v)
  guard (b.length = 32)
  some b

/-- An `Array` of them. -/
def asDigests (v : Option Cbor) : Option (List Bytes) := do
  let xs ← asArray v
  xs.mapM asDigest

/-- An `Array` of those. -/
def asPaths (v : Option Cbor) : Option (List (List Bytes)) := do
  let xs ← asArray v
  xs.mapM fun x => asDigests (some x)

/-- `for (let value = leaves; value !== 0n; value >>= 1n) …`. -/
def peakCount : ℕ → ℕ → ℕ
  | 0, _ => 0
  | fuel + 1, value => if value = 0 then 0 else value % 2 + peakCount fuel (value / 2)

variable (C : Cborg) (H : HashFunction) (verify : Bytes → Bytes → Bytes → Bool)
  (parse : Str → Option TimeValue)

/-- The parts of `COSE_Sign1`. -/
structure Envelope where
  protectedBytes : Bytes
  payload : Bytes
  signature : Bytes

/-- The parts of four items, the second an empty map. -/
def envelopeOf : Cbor → Option Envelope
  | .array [.bytes protectedBytes, .map [], .bytes payload, .bytes signature] =>
    some ⟨protectedBytes, payload, signature⟩
  | _ => none

/-- `items` of `verifyCheckpointWith`. -/
def decodeEnvelope (cose : Bytes) : Option Envelope := do
  guard (2 ≤ cose.length ∧ cose.length ≤ checkpointPayload ∧ cose.head? = some 0xd2)
  let items ← C.decode mapOptions cose.tail
  envelopeOf items

/-- What the protected header names. -/
structure Header where
  kid : Bytes
  logId : Str
  subject : Str

/-- `headers` of `verifyCheckpointWith`. -/
def decodeHeader (protectedBytes : Bytes) : Option Header := do
  let decoded ← C.decode mapOptions protectedBytes
  let headers ← asMap (some decoded)
  guard (headers.length = 4)
  guard (asInteger (get headers (.int 1)) = some (-8))
  guard (asString (get headers (.int 3)) = some checkpointContentType)
  let kid ← asBytes (get headers (.int 4))
  guard (kid.length = 32)
  let cwt ← asMap (get headers (.int 15))
  guard (cwt.length = 2)
  let logId ← asString (get cwt (.int 1))
  let subject ← asString (get cwt (.int 2))
  guard (isIdentifier logId = true)
  some ⟨kid, logId, subject⟩

/-- `allowedClaims`. -/
def allowedClaims : List String :=
  ["kind", "log_size", "commitment", "prev_size", "prev_commitment", "issued_at", "cadence",
    "consistency_proof"]

/-- `typeof key === "string" && allowedClaims.has(key)`. -/
def isAllowedClaim (key : Cbor) : Bool := allowedClaims.any fun claim => isKey key (name claim)

/-- `claims` of `verifyCheckpointWith`. -/
def decodeClaims (payload : Bytes) : Option (List (Cbor × Cbor)) := do
  let decoded ← C.decode mapOptions payload
  let claims ← asMap (some decoded)
  guard (C.encode decoded = some payload)
  guard (6 ≤ claims.length ∧ claims.length ≤ 8 ∧ ∀ f ∈ claims, isAllowedClaim f.1 = true)
  guard (asString (get claims (name "kind")) = some (.lit "cll-checkpoint"))
  some claims

/-- The sizes and the time of the claims. -/
structure Span where
  logSize : ℕ
  previousSize : ℕ
  issuedAt : Str

/-- The checks of `log_size`, `prev_size` and `issued_at`. -/
def checkSpan (header : Header) (claims : List (Cbor × Cbor)) : Option Span := do
  let logSize ← asInteger (get claims (name "log_size"))
  guard (1 ≤ logSize)
  let previousSize ← asInteger (get claims (name "prev_size"))
  guard (0 ≤ previousSize ∧ previousSize < logSize)
  let issuedAt ← asString (get claims (name "issued_at"))
  guard (formatTime parse (.text issuedAt) = some issuedAt)
  guard (header.subject = header.logId ++ 35 :: Decimal.text logSize.toNat)
  some ⟨logSize.toNat, previousSize.toNat, issuedAt⟩

/-- `decodePeaks`. -/
def decodePeaks (value : Option Cbor) : Option (List Bytes) := do
  let raw ← asBytes value
  let decoded ← C.decode peakOptions raw
  let peaks ← asDigests (some decoded)
  guard (C.encode decoded = some raw)
  some peaks

/-- The proof of a map with the five fields of `proofWire`, between the sizes of the claims. -/
def decodeProof (span : Span) (proof : List (Cbor × Cbor)) : Option MmrConsistencyProof := do
  guard (proof.length = 5)
  guard (asInteger (get proof (name "size_a")) = some (span.previousSize : ℤ))
  guard (asInteger (get proof (name "size_b")) = some (span.logSize : ℤ))
  let oldPeaks ← asDigests (get proof (name "old_peaks"))
  let newPeaks ← asDigests (get proof (name "new_peaks"))
  let witness ← asPaths (get proof (name "witness"))
  some ⟨span.previousSize, span.logSize, oldPeaks, witness, newPeaks⟩

/-- The encodings of two lists of peaks are there and equal. -/
def samePeaks (a b : List Bytes) : Bool :=
  match C.encode (.array (a.map .bytes)), C.encode (.array (b.map .bytes)) with
  | some x, some y => x == y
  | _, _ => false

/-- The checks of `prev_commitment` and `consistency_proof`. -/
def checkPrevious (span : Span) (peaks : List Bytes) (claims : List (Cbor × Cbor)) : Option Unit := do
  let previousCommitment ← asBytes (get claims (name "prev_commitment"))
  if span.previousSize = 0 then
    guard (previousCommitment = [] ∧ (get claims (name "consistency_proof")).isNone)
  else do
    let previousPeaks ← decodePeaks C (some (.bytes previousCommitment))
    let fields ← asMap (get claims (name "consistency_proof"))
    let proof ← decodeProof span fields
    guard (samePeaks C proof.oldPeaks previousPeaks = true ∧ samePeaks C proof.newPeaks peaks = true)
    guard (verifyConsistency H (rootFromPeaks H previousPeaks) (rootFromPeaks H peaks) proof = true)

/-- The check of `cadence`. -/
def checkCadence (claims : List (Cbor × Cbor)) : Option Unit :=
  guard (get claims (name "cadence") |>.all fun v => (asInteger (some v)).any (1 ≤ ·))

/-- What is signed. -/
def sigStructure (protectedBytes payload : Bytes) : Cbor :=
  .array [name "Signature1", .bytes protectedBytes, .bytes [], .bytes payload]

/-- The `try` block of `verifyCheckpointWith`: `none` where it returns `false` or throws. -/
def accept (cose : Bytes) : Option Unit := do
  let envelope ← decodeEnvelope C cose
  let header ← decodeHeader C envelope.protectedBytes
  let claims ← decodeClaims C envelope.payload
  let span ← checkSpan parse header claims
  let peaks ← decodePeaks C (get claims (name "commitment"))
  let leaves ← leafCount span.logSize
  guard (peaks.length = peakCount leaves leaves)
  checkPrevious C H span peaks claims
  checkCadence claims
  let signed ← C.encode (sigStructure envelope.protectedBytes envelope.payload)
  guard (verify header.kid signed envelope.signature = true)

/-- `verifyCheckpointWith`. -/
def verifyCheckpointWith (cose : Bytes) : Bool := (accept C H verify parse cose).isSome

/-- `CheckpointMetadata`. -/
structure CheckpointMetadata where
  logId : Str
  size : ℕ
  peaks : List Bytes
  previousSize : ℕ
  previousPeaks : List Bytes
  root : Str
  previousRoot : Str
  keyId : Str
  timestamp : Str
  cadence : Option ℤ
deriving DecidableEq

/-- `decodeCommittedPeaks`. -/
def decodeCommittedPeaks (value : Bytes) : Option (List Bytes) := do
  let decoded ← C.decode peakOptions value
  asDigests (some decoded)

/-- The previous peaks of a statement. -/
def previousPeaksOf (previousSize : ℤ) (previousCommitment : Bytes) : Option (List Bytes) :=
  if previousSize = 0 then some [] else decodeCommittedPeaks C previousCommitment

/-- `checkpointMetadataWith` after the statement has been verified; `none` where a cast is wrong. -/
def readMetadata (cose : Bytes) : Option CheckpointMetadata := do
  let items ← C.decode mapOptions cose.tail
  let envelope ← envelopeOf items
  let decodedHeaders ← C.decode mapOptions envelope.protectedBytes
  let headers ← asMap (some decodedHeaders)
  let decodedClaims ← C.decode mapOptions envelope.payload
  let claims ← asMap (some decodedClaims)
  let cwt ← asMap (get headers (.int 15))
  let previousSize ← asInteger (get claims (name "prev_size"))
  let previousCommitment ← asBytes (get claims (name "prev_commitment"))
  let commitment ← asBytes (get claims (name "commitment"))
  let peaks ← decodeCommittedPeaks C commitment
  let previousPeaks ← previousPeaksOf C previousSize previousCommitment
  let logId ← asString (get cwt (.int 1))
  let size ← asInteger (get claims (name "log_size"))
  let kid ← asBytes (get headers (.int 4))
  let timestamp ← asString (get claims (name "issued_at"))
  some {
    logId := logId
    size := size.toNat
    peaks := peaks
    previousSize := previousSize.toNat
    previousPeaks := previousPeaks
    root := toHex (rootFromPeaks H peaks)
    previousRoot := if previousSize = 0 then [] else toHex (rootFromPeaks H previousPeaks)
    keyId := toHex kid
    timestamp := timestamp
    cadence := asInteger (get claims (name "cadence")) }

/-- `checkpointMetadataWith`. -/
def checkpointMetadataWith (cose : Bytes) : Option CheckpointMetadata :=
  if verifyCheckpointWith C H verify parse cose then readMetadata C H cose else none

/-- `checkpointProjection`; `v` is 1 and `kind` is `mmr_checkpoint`. -/
structure Projection where
  logId : Str
  mmrSize : ℕ
  root : Str
  prevSize : ℕ
  prevRoot : Str
  keyId : Str
  timestamp : Str

/-- `checkpointProjection`. -/
def checkpointProjection (logId : Str) (mmrSize : ℕ) (peaks : List Bytes) (previousSize : ℕ)
    (previousPeaks : List Bytes) (keyId timestamp : Str) : Projection where
  logId := logId
  mmrSize := mmrSize
  root := toHex (rootFromPeaks H peaks)
  prevSize := previousSize
  prevRoot := if previousSize = 0 then [] else toHex (rootFromPeaks H previousPeaks)
  keyId := keyId
  timestamp := timestamp

/-- A character of a string as `JSON.stringify` writes it. -/
def escapeChar (c : ℕ) : Str :=
  if c = 34 then [92, 34]
  else if c = 92 then [92, 92]
  else if c = 8 then [92, 98]
  else if c = 12 then [92, 102]
  else if c = 10 then [92, 110]
  else if c = 13 then [92, 114]
  else if c = 9 then [92, 116]
  else if c < 0x20 ∨ 0xD800 ≤ c ∧ c ≤ 0xDFFF then Json.unicodeEscape c
  else [c]

/-- `JSON.stringify` of a string. -/
def stringify (s : Str) : Str := 34 :: (s.flatMap escapeChar ++ [34])

/-- A member of an object as `render` writes it. -/
def member (key : String) (value : Str) : Str := stringify (.lit key) ++ 58 :: value

/-- `canonicalJson` of the projection. -/
def Projection.canonicalJson (p : Projection) : Bytes :=
  (123 :: (Json.commas [
    member "key_id" (stringify p.keyId),
    member "kind" (stringify (.lit "mmr_checkpoint")),
    member "log_id" (stringify p.logId),
    member "mmr_size" (Decimal.text p.mmrSize),
    member "prev_root" (stringify p.prevRoot),
    member "prev_size" (Decimal.text p.prevSize),
    member "root" (stringify p.root),
    member "timestamp" (stringify p.timestamp),
    member "v" (Decimal.text 1)] ++ [125])).flatMap Utf8.encodeChar

/-- `checkpointEntryHash`. -/
def checkpointEntryHash (cose : Bytes) : Option Bytes := do
  let metadata ← checkpointMetadataWith C H verify parse cose
  let projection := checkpointProjection H metadata.logId metadata.size metadata.peaks
    metadata.previousSize metadata.previousPeaks metadata.keyId metadata.timestamp
  some (H.digest (H.digest projection.canonicalJson))

/-- `CheckpointSigningIdentity`; `sign` is `edSign` with its private key. -/
structure SigningIdentity where
  publicKey : Bytes
  sign : Bytes → Bytes

/-- `ConsistencyProof` of `checkpoint.ts`. -/
structure ConsistencyProof where
  sizeA : ℤ
  sizeB : ℤ
  oldPeaks : List Bytes
  witness : List (List Bytes)
  newPeaks : List Bytes

/-- `CheckpointInput`. -/
structure CheckpointInput where
  logId : Str
  mmrSize : ℤ
  peaks : List Bytes
  previousSize : ℤ
  previousPeaks : List Bytes
  timestamp : Timestamp
  identity : SigningIdentity
  consistencyProof : Option ConsistencyProof
  cadence : Option CborFloat

/-- `SignedCheckpoint`. -/
structure SignedCheckpoint where
  json : Bytes
  cose : Bytes
  digest : Str
  logId : Str
  mmrSize : ℤ
  root : Str
  previousSize : ℤ
  previousRoot : Str
  keyId : Str
  timestamp : Str

/-- `taggedSign1`. -/
def taggedSign1 (items : List Cbor) : Js Bytes := do
  let encoded ← orError (C.encode (.array items)) "cannot be encoded"
  .ok (0xd2 :: encoded)

/-- `commitment`. -/
def commitment (peaks : List Bytes) : Js Bytes := do
  check (∀ peak ∈ peaks, peak.length = 32) .invalid "checkpoint peak must be 32 bytes"
  orThrow (C.encode (.array (peaks.map .bytes))) .invalid "checkpoint peak must be 32 bytes"

/-- `proofWire`. -/
def proofWire (proof : ConsistencyProof) : List (Cbor × Cbor) :=
  [(name "size_a", .int proof.sizeA),
    (name "size_b", .int proof.sizeB),
    (name "old_peaks", .array (proof.oldPeaks.map .bytes)),
    (name "witness", .array (proof.witness.map fun path => .array (path.map .bytes))),
    (name "new_peaks", .array (proof.newPeaks.map .bytes))]

/-- The checks that `signCheckpoint` begins with. -/
def checkInput (input : CheckpointInput) : Js Unit := do
  validateIdentifier input.logId
  check (∀ c ∈ input.cadence, (safeInteger c).any (1 ≤ ·)) .invalid
    "checkpoint cadence must be a positive portable integer"
  check (0 < input.mmrSize ∧ input.mmrSize ≤ maxSafeInteger ∧ 0 ≤ input.previousSize ∧
    input.previousSize < input.mmrSize) .invalid "invalid checkpoint sizes"
  check (input.identity.publicKey.length = 32) .invalid "invalid checkpoint identity"
  check (input.previousSize = 0 → input.consistencyProof.isNone) .invalid
    "first checkpoint must not carry consistency proof"
  check (0 < input.previousSize → ∃ proof ∈ input.consistencyProof,
    proof.sizeA = input.previousSize ∧ proof.sizeB = input.mmrSize) .invalid
    "non-first checkpoint requires matching consistency proof"

/-- `claims` of `signCheckpoint`. -/
def claimsOf (input : CheckpointInput) (commitment prevCommitment : Bytes) (timestamp : Str) :
    List (Cbor × Cbor) :=
  [(name "kind", name "cll-checkpoint"),
    (name "log_size", .int input.mmrSize),
    (name "commitment", .bytes commitment),
    (name "prev_size", .int input.previousSize),
    (name "prev_commitment", .bytes prevCommitment),
    (name "issued_at", .str timestamp)] ++
    ((input.cadence.bind safeInteger).map fun cadence => (name "cadence", .int cadence)).toList ++
    (input.consistencyProof.map fun proof => (name "consistency_proof", .map (proofWire proof))).toList

/-- The CWT claims of the protected header. -/
def cwtOf (logId : Str) (mmrSize : ℤ) : List (Cbor × Cbor) :=
  [(.int 1, .str logId), (.int 2, .str (logId ++ 35 :: Decimal.text mmrSize.toNat))]

/-- The protected header. -/
def headersOf (logId : Str) (mmrSize : ℤ) (publicKey : Bytes) : List (Cbor × Cbor) :=
  [(.int 1, .int (-8)),
    (.int 3, .str checkpointContentType),
    (.int 4, .bytes publicKey),
    (.int 15, .map (cwtOf logId mmrSize))]

/-- `input.previousSize === 0n ? new Uint8Array() : commitment(input.previousPeaks)`. -/
def prevCommitmentOf (input : CheckpointInput) : Js Bytes :=
  if input.previousSize = 0 then .ok [] else commitment C input.previousPeaks

/-- `signCheckpoint`. -/
def signCheckpoint (input : CheckpointInput) : Js SignedCheckpoint := do
  checkInput input
  let root := toHex (rootFromPeaks H input.peaks)
  let previousRoot := toHex (rootFromPeaks H input.previousPeaks)
  let timestamp ← orThrow (formatTime parse input.timestamp) .invalid "invalid checkpoint timestamp"
  let keyId := toHex input.identity.publicKey
  let json := (checkpointProjection H input.logId input.mmrSize.toNat input.peaks
    input.previousSize.toNat input.previousPeaks keyId timestamp).canonicalJson
  let newCommitment ← commitment C input.peaks
  let prevCommitment ← prevCommitmentOf C input
  let payload ← orError (C.encode (.map (claimsOf input newCommitment prevCommitment timestamp)))
    "cannot be encoded"
  let protectedBytes ← orError
    (C.encode (.map (headersOf input.logId input.mmrSize input.identity.publicKey))) "cannot be encoded"
  let toSign ← orError (C.encode (sigStructure protectedBytes payload)) "cannot be encoded"
  let signature := input.identity.sign toSign
  let cose ← taggedSign1 C [.bytes protectedBytes, .map [], .bytes payload, .bytes signature]
  check (cose.length ≤ checkpointPayload) .invalid "signed checkpoint is too large"
  .ok {
    json := json
    cose := cose
    digest := toHex (H.digest json)
    logId := input.logId
    mmrSize := input.mmrSize
    root := root
    previousSize := input.previousSize
    previousRoot := if input.previousSize = 0 then [] else previousRoot
    keyId := keyId
    timestamp := timestamp }

/-- `verifyCheckpoint`. -/
def verifyCheckpoint (K : Curve) (cose : Bytes) : Bool :=
  verifyCheckpointWith C H (verifyEd25519 K) parse cose

/-- `checkpointMetadata`. -/
def checkpointMetadata (K : Curve) (cose : Bytes) : Option CheckpointMetadata :=
  checkpointMetadataWith C H (verifyEd25519 K) parse cose

end CLL.Ts
