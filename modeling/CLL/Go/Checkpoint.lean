import CLL.Go.Mmr
import CLL.Go.Time
import CLL.Checkpoint.Ed25519
import CLL.Lib.CanonicalJson

/-!
# Checkpoint statements in Go

`ParseRecord`, `VerifySignature` and `EntryHash` of `go/checkpoint/checkpoint.go`. The CBOR and COSE
packages and `crypto/ed25519` are parameters. `ParseRecord` re-encodes what it has decoded, so it matters
there which slices are `nil`.
-/

namespace CLL.Go
open CLL.Core

/-- `cose.Sign1Message`. Labels and values are those the decoder finds; the protected header is kept as it
was encoded too. -/
structure Sign1Message where
  rawProtected : Bytes
  headersProtected : List (Cbor × Cbor)
  headersUnprotected : List (Cbor × Cbor)
  payload : Bytes
  signature : Bytes

/-- `wireConsistencyProof`. -/
structure WireConsistencyProof where
  sizeA : ℕ
  sizeB : ℕ
  oldPeaks : Slice (Slice UInt8)
  witness : Slice (Slice (Slice UInt8))
  newPeaks : Slice (Slice UInt8)

/-- `wireClaims`. -/
structure WireClaims where
  kind : Str
  logSize : ℕ
  commitment : Slice UInt8
  prevSize : ℕ
  prevCommitment : Slice UInt8
  issuedAt : Str
  cadence : Option ℕ
  consistencyProof : Option WireConsistencyProof

/-- What is called of other packages. -/
structure Packages where
  /-- `cose.Sign1Message`: `UnmarshalCBOR`, `MarshalCBOR` and the bytes that `Verify` hands to the
  verifier. -/
  unmarshalSign1 : Bytes → Option Sign1Message
  marshalSign1 : Sign1Message → Option Bytes
  toBeSigned : Sign1Message → Option Bytes
  /-- `Unmarshal` of the decoding modes and `canonicalCBOR.Marshal`. -/
  unmarshalClaims : Bytes → Option WireClaims
  marshalClaims : WireClaims → Option Bytes
  unmarshalPeaks : Bytes → Option (List Bytes)
  marshalPeaks : List Bytes → Option Bytes
  /-- `ed25519.Verify` of a public key, a message and a signature. -/
  verify : Bytes → Bytes → Bytes → Bool
  merkleLog : MerkleLog

/-- `MaxEncodedBytes`. -/
def maxEncodedBytes : ℕ := 65536

/-- `cll.MaxPortableInteger`. -/
def maxPortableInteger : ℕ := 9007199254740991

/-- `cll.MaxIdentifierBytes`. -/
def maxIdentifierBytes : ℕ := 191

/-- `ContentType`. -/
def contentType : Str := .lit "application/cll-checkpoint+cbor"

/-- `wireKind`. -/
def wireKind : Str := .lit "cll-checkpoint"

/-- `cose.AlgorithmEdDSA`. -/
def algorithmEdDsa : ℤ := -8

/-- The value of an integer label of a map. -/
def lookup (fields : List (Cbor × Cbor)) (label : ℤ) : Option Cbor :=
  (fields.find? fun f => match f.1 with
    | .int n => n == label
    | _ => false).map (·.2)

/-- `value.(string)`. -/
def asString : Option Cbor → Option Str
  | some (.str s) => some s
  | _ => none

/-- `value.([]byte)`. -/
def asBytes : Option Cbor → Option Bytes
  | some (.bytes b) => some b
  | _ => none

/-- `value.(int64)`. -/
def asInt : Option Cbor → Option ℤ
  | some (.int n) => some n
  | _ => none

/-- `protectedCWTClaims`. -/
def protectedCwtClaims : Option Cbor → Option (List (Cbor × Cbor))
  | some (.map fields) => some fields
  | _ => none

/-- A character of `identifierPattern`. -/
def isIdentifierChar (c : ℕ) : Bool :=
  (65 ≤ c && c ≤ 90) || (97 ≤ c && c ≤ 122) || (48 ≤ c && c ≤ 57) || c == 46 || c == 95 || c == 58 ||
    c == 47 || c == 45

/-- `cll.ValidateIdentifier`. The characters it allows have one byte each. -/
def validateIdentifier (value : Str) : Bool :=
  1 ≤ value.length && value.length ≤ maxIdentifierBytes && value.all isIdentifierChar

/-- `hex.DecodeString`. -/
def decodeHex : Str → Option Bytes
  | [] => some []
  | [_] => none
  | hi :: lo :: s => do
    let hi ← hexValue hi
    let lo ← hexValue lo
    let rest ← decodeHex s
    some (UInt8.ofNat (16 * hi + lo) :: rest)

/-- `s == string(bytes.ToLower([]byte(s)))` of hexadecimal text. -/
def isLower (s : Str) : Bool := s.all fun c => !(65 ≤ c && c ≤ 90)

/-- `Payload`. -/
structure Payload where
  logId : Str
  keyId : Str
  mmrSize : ℕ
  root : Str
  prevSize : ℕ
  prevRoot : Str
  timestamp : Time

/-- `canonicalProjection`; `Kind` is `mmr_checkpoint` and `Version` is 1. -/
structure CanonicalProjection where
  keyId : Str
  logId : Str
  mmrSize : ℕ
  prevRoot : Str
  prevSize : ℕ
  root : Str
  timestamp : Str

/-- The check of a previous root in `canonicalFields`. -/
def isDigestHex (s : Str) : Bool :=
  match decodeHex s with
  | some decoded => decoded.length == 32 && isLower s
  | none => false

/-- The check of `KeyID` in `canonicalFields`. -/
def isKeyHex (s : Str) : Bool :=
  match decodeHex s with
  | some key => key.length == 32 && toHex key == s
  | none => false

/-- `canonicalFields`. -/
def Payload.canonicalFields (p : Payload) : Result CanonicalProjection := do
  check (validateIdentifier p.logId ∧ isKeyHex p.keyId ∧ p.mmrSize ≠ 0 ∧
    p.mmrSize ≤ maxPortableInteger ∧ p.prevSize ≤ maxPortableInteger ∧ p.root.length = 64)
    "invalid checkpoint payload"
  check (p.prevSize < p.mmrSize ∧ (p.prevSize = 0 ↔ p.prevRoot = [])) "invalid checkpoint predecessor"
  check ((decodeHex p.root).isSome ∧ isLower p.root) "invalid checkpoint root"
  check (p.prevRoot = [] ∨ isDigestHex p.prevRoot) "invalid previous checkpoint root"
  let timestamp ← formatTimestamp p.timestamp
  .ok ⟨p.keyId, p.logId, p.mmrSize, p.prevRoot, p.prevSize, p.root, timestamp⟩

/-- A character of a string as `json.Marshal` writes it. -/
def escapeChar (c : ℕ) : Str :=
  if c = 34 then [92, 34]
  else if c = 92 then [92, 92]
  else if c = 8 then [92, 98]
  else if c = 12 then [92, 102]
  else if c = 10 then [92, 110]
  else if c = 13 then [92, 114]
  else if c = 9 then [92, 116]
  else if c < 0x20 ∨ c = 60 ∨ c = 62 ∨ c = 38 ∨ c = 0x2028 ∨ c = 0x2029 then Json.unicodeEscape c
  else [c]

/-- A string as `json.Marshal` writes it. -/
def marshalString (s : Str) : Str := 34 :: (s.flatMap escapeChar ++ [34])

/-- A field of a struct as `json.Marshal` writes it. -/
def marshalField (key : String) (value : Str) : Str := 34 :: (Str.lit key ++ 34 :: 58 :: value)

/-- `json.Marshal` of the projection, whose fields are declared in the order of their names. -/
def CanonicalProjection.marshal (c : CanonicalProjection) : Str :=
  123 :: (Json.commas [
    marshalField "key_id" (marshalString c.keyId),
    marshalField "kind" (marshalString (.lit "mmr_checkpoint")),
    marshalField "log_id" (marshalString c.logId),
    marshalField "mmr_size" (Decimal.text c.mmrSize),
    marshalField "prev_root" (marshalString c.prevRoot),
    marshalField "prev_size" (Decimal.text c.prevSize),
    marshalField "root" (marshalString c.root),
    marshalField "timestamp" (marshalString c.timestamp),
    marshalField "v" (Decimal.text 1)] ++ [125])

variable (H : HashFunction)

/-- `Payload.Digest`: the hash of the UTF-8 text of the projection. -/
def Payload.digest (p : Payload) : Result Bytes := do
  let fields ← p.canonicalFields
  .ok (H.digest (fields.marshal.flatMap Utf8.encodeChar))

/-- `Record`. `Version` is 1 and `Kind` is `mmr_checkpoint`. -/
structure Record where
  logId : Str
  mmrSize : ℕ
  root : Str
  prevSize : ℕ
  prevRoot : Str
  keyId : Str
  timestamp : Time
  cadence : Option ℕ
  newPeaks : List Bytes
  prevPeaks : List Bytes
  consistencyProof : Option ConsistencyProof
  statement : Bytes

/-- `Record.Payload`. -/
def Record.payload (r : Record) : Payload :=
  ⟨r.logId, r.keyId, r.mmrSize, r.root, r.prevSize, r.prevRoot, r.timestamp⟩

/-- `Record.EntryHash`. -/
def Record.entryHash (r : Record) : Result Bytes := do
  let digest ← r.payload.digest H
  .ok (H.digest digest)

/-- `clonePeaks`. -/
def clonePeaks (peaks : Slice (Slice UInt8)) : List Bytes := peaks.items.map Slice.items

/-- `cloneWitness`. -/
def cloneWitness (witness : Slice (Slice (Slice UInt8))) : List (List Bytes) :=
  witness.items.map clonePeaks

/-- The proof of a record. -/
def WireConsistencyProof.toProof (p : WireConsistencyProof) : ConsistencyProof :=
  ⟨1, .lit "consistency", p.sizeA, p.sizeB, clonePeaks p.oldPeaks, cloneWitness p.witness,
    clonePeaks p.newPeaks⟩

variable (G : Packages)

/-- `mmr.CommitmentObject`. -/
def commitmentObject (peaks : List Bytes) : Option Bytes :=
  if peaks.all fun peak => peak.length == hashSize then G.marshalPeaks peaks else none

/-- `decodeCommitment`. -/
def decodeCommitment (data : Bytes) (name : String) : Result (List Bytes) := do
  let peaks ← orError (G.unmarshalPeaks data) s!"decode checkpoint {name}"
  check (commitmentObject G peaks = some data) s!"checkpoint {name} is not canonical"
  .ok peaks

/-- `decodeWireClaims`. -/
def decodeWireClaims (data : Bytes) : Result WireClaims := do
  let claims ← orError (G.unmarshalClaims data) "decode checkpoint claims"
  check (G.marshalClaims claims = some data) "checkpoint claims are not canonical"
  check (claims.kind = wireKind ∧ claims.logSize ≠ 0 ∧ claims.commitment.items ≠ [] ∧
    claims.issuedAt ≠ []) "checkpoint claims are invalid"
  check (∀ cadence ∈ claims.cadence, cadence ≠ 0 ∧ cadence ≤ maxPortableInteger)
    "checkpoint cadence must be a positive portable integer"
  .ok claims

/-- The previous peaks of the claims. -/
def decodePrevCommitment (claims : WireClaims) : Result (List Bytes) :=
  if claims.prevCommitment.items = [] then .ok []
  else decodeCommitment G claims.prevCommitment.items "previous commitment"

/-- The consistency that the claims assert. -/
def checkConsistency (prevSize : ℕ) (prevPeaks newPeaks : List Bytes) (proof : Option ConsistencyProof) :
    Result Unit :=
  if prevSize = 0 then do
    check (prevPeaks = []) "first checkpoint has a previous commitment"
    check (proof.isNone) "first checkpoint cannot carry a consistency proof"
  else do
    check (prevPeaks ≠ []) "checkpoint previous commitment is required"
    check (∃ p ∈ proof, verifyConsistency G.merkleLog H (rootFromPeaks G.merkleLog prevPeaks)
      (rootFromPeaks G.merkleLog newPeaks) p) "checkpoint consistency proof is invalid"

/-- The identity of a statement: its key, its log and what it claims. -/
structure Identity where
  kid : Bytes
  issuer : Str
  wire : WireClaims

/-- The checks of `ParseRecord` up to the claims. -/
def parseIdentity (data : Bytes) : Result Identity := do
  check (data ≠ [] ∧ data.length ≤ maxEncodedBytes) "signed checkpoint size is invalid"
  let message ← orError (G.unmarshalSign1 data) "decode signed checkpoint COSE"
  check (G.marshalSign1 message = some data) "signed checkpoint COSE is not canonical"
  check (message.headersUnprotected = [] ∧ message.headersProtected.length = 4)
    "checkpoint COSE headers are invalid"
  check (asInt (lookup message.headersProtected 1) = some algorithmEdDsa)
    "checkpoint COSE algorithm is invalid"
  check (asString (lookup message.headersProtected 3) = some contentType)
    "checkpoint COSE content type is invalid"
  let kid ← orError (asBytes (lookup message.headersProtected 4)) "checkpoint COSE key id is invalid"
  check (kid.length = 32) "checkpoint COSE key id is invalid"
  let claims ← orError (protectedCwtClaims (lookup message.headersProtected 15))
    "checkpoint CWT claims are invalid"
  check (claims.length = 2) "checkpoint CWT claims are invalid"
  let issuer ← orError (asString (lookup claims 1)) "checkpoint CWT identity is invalid"
  let subject ← orError (asString (lookup claims 2)) "checkpoint CWT identity is invalid"
  let wire ← decodeWireClaims G message.payload
  check (subject = issuer ++ 35 :: Decimal.text wire.logSize) "checkpoint CWT subject is invalid"
  .ok ⟨kid, issuer, wire⟩

/-- `ParseRecord`. -/
def parseRecord (data : Bytes) : Result Record := do
  let ⟨kid, issuer, wire⟩ ← parseIdentity G data
  let newPeaks ← decodeCommitment G wire.commitment.items "commitment"
  let prevPeaks ← decodePrevCommitment G wire
  let timestamp ← orError (parseTime wire.issuedAt) "checkpoint timestamp is invalid"
  let record : Record := {
    logId := issuer
    mmrSize := wire.logSize
    root := toHex (rootFromPeaks G.merkleLog newPeaks)
    prevSize := wire.prevSize
    prevRoot := if wire.prevSize = 0 then [] else toHex (rootFromPeaks G.merkleLog prevPeaks)
    keyId := toHex kid
    timestamp := timestamp
    cadence := wire.cadence
    newPeaks := newPeaks
    prevPeaks := prevPeaks
    consistencyProof := wire.consistencyProof.map WireConsistencyProof.toProof
    statement := data }
  checkConsistency H G record.prevSize record.prevPeaks record.newPeaks record.consistencyProof
  let _ ← record.payload.canonicalFields
  .ok record

/-- `ed25519strict.Verify`. -/
def verifyStrict (publicKey message signature : Bytes) : Bool :=
  publicKey.length == 32 && signature.length == 64 && Ed25519.acceptablePoint publicKey &&
    Ed25519.acceptablePoint (signature.take 32) && G.verify publicKey message signature

/-- `Record.VerifySignature`. -/
def Record.verifySignature (r : Record) : Result Unit := do
  let public_ ← orError (decodeHex r.keyId) "invalid checkpoint public key"
  check (public_.length = 32) "invalid checkpoint public key"
  let message ← orError (G.unmarshalSign1 r.statement) "decode checkpoint signature"
  let content ← orError (G.toBeSigned message) "verify checkpoint signature"
  check (verifyStrict G public_ content message.signature) "verify checkpoint signature"

end CLL.Go
