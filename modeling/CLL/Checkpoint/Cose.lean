import CLL.Checkpoint.Ed25519
import CLL.Checkpoint.Record
import CLL.Core.Commitment
import CLL.Core.Consistency

/-!
# COSE checkpoint statements

`checkpoint/cose_wire.py`: a checkpoint as a map of claims in a COSE_Sign1 envelope, and the verifier
that reads nothing but the bytes of the envelope. The packages it calls are parameters.
-/

namespace CLL.Checkpoint
open CLL.Core (HashFunction toHex fromHex rootFromPeaks ConsistencyProof commitmentObject digestLen)

/-- What `scitt_cose.statement.parse_signed_statement` reports. -/
structure Statement where
  signatureVerified : Bool
  contentType : Option Str
  payload : Bytes
  issuer : Option Str
  subject : Option Str

/-- What the sources call of other packages, and what the built-in `int`, `bytes` and `iter` do with a
value that is not listed below. -/
structure Packages where
  cbor2 : Cbor2
  /-- `scitt_cose.cose_sign1.strict_decode(…).value`. -/
  strictDecode : Bytes → Option Cbor
  /-- `Ed25519PublicKey.from_public_bytes(…).public_bytes(Encoding.PEM, …)`. -/
  publicKeyPem : Bytes → Option Bytes
  parseSignedStatement : Bytes → Bytes → Option Statement
  intOf : Cbor → Option ℤ
  bytesOf : Cbor → Option Bytes
  iterOf : Cbor → Option (List Cbor)

/-- `CLL_CHECKPOINT_CONTENT_TYPE`. -/
def contentType : Str := .lit "application/cll-checkpoint+cbor"

/-- `WIRE_KIND`. -/
def wireKind : Str := .lit "cll-checkpoint"

/-- `_HDR_KID`. -/
def hdrKid : ℤ := 4

/-- `_HDR_CWT_CLAIMS`. -/
def hdrCwtClaims : ℤ := 15

variable (P : Packages)

/-- `int(v)`. -/
def toInt : Cbor → Py ℤ
  | .int n => .ok n
  | .bool b => .ok (if b then 1 else 0)
  | .float (.finite x) => .ok (x.num.tdiv x.den)
  | .float (.infinity _) => raise .overflowError "cannot convert float infinity to integer"
  | .float .nan => raise .valueError "cannot convert float NaN to integer"
  | v =>
    match P.intOf v with
    | some n => .ok n
    | none => raise .typeError "int() argument must be a string, a bytes-like object or a real number"

/-- One item of an iterable that `bytes` reads. -/
def toByte : Cbor → Py UInt8
  | .int n =>
    if 0 ≤ n ∧ n < 256 then .ok (UInt8.ofNat n.toNat)
    else raise .valueError "bytes must be in range(0, 256)"
  | .bool b => .ok (if b then 1 else 0)
  | _ => raise .typeError "object cannot be interpreted as an integer"

/-- `bytes(v)`. -/
def toBytes : Cbor → Py Bytes
  | .bytes b => .ok b
  | .int n =>
    if 0 ≤ n then .ok (List.replicate n.toNat 0) else raise .valueError "negative count"
  | .bool b => .ok (if b then [0] else [])
  | .array xs => xs.mapM toByte
  | .map fields => (fields.map (·.1)).mapM toByte
  | .null | .float _ | .str _ | .tag _ _ => raise .typeError "cannot convert object to bytes"
  | v =>
    match P.bytesOf v with
    | some b => .ok b
    | none => raise .typeError "cannot convert object to bytes"

/-- `iter(v)`. -/
def items : Cbor → Py (List Cbor)
  | .array xs => .ok xs
  | .bytes b => .ok (b.map fun x => .int x.toNat)
  | .str s => .ok (s.map fun c => .str [c])
  | .map fields => .ok (fields.map (·.1))
  | .null | .bool _ | .int _ | .float _ | .tag _ _ => raise .typeError "object is not iterable"
  | v =>
    match P.iterOf v with
    | some xs => .ok xs
    | none => raise .typeError "object is not iterable"

/-- A claim's name. -/
def label (name : String) : Cbor := .str (Str.lit name)

/-- `d[name]`. -/
def item (fields : List (Cbor × Cbor)) (name : String) : Py Cbor :=
  match Cbor.get? fields (label name) with
  | some v => .ok v
  | none => raise .keyError name

/-- `bytes.fromhex`. -/
def bytesFromHex (h : Str) : Py Bytes :=
  match fromHex h with
  | some b => .ok b
  | none => raise .valueError "non-hexadecimal number found in fromhex() arg"

/-- `_consistency_proof_to_cbor`. -/
def consistencyProofToCbor (p : ConsistencyProof) : Py Cbor := do
  let oldPeaks ← p.oldPeaks.mapM bytesFromHex
  let witness ← p.witness.mapM fun w => w.mapM bytesFromHex
  let newPeaks ← p.newPeaks.mapM bytesFromHex
  .ok (.map [
    (label "size_a", .int p.sizeA),
    (label "size_b", .int p.sizeB),
    (label "old_peaks", .array (oldPeaks.map .bytes)),
    (label "witness", .array (witness.map fun w => .array (w.map .bytes))),
    (label "new_peaks", .array (newPeaks.map .bytes))])

/-- `bytes(h).hex()`. -/
def hexItem (h : Cbor) : Py Str := do
  let b ← toBytes P h
  .ok (toHex b)

/-- `tuple(bytes(h).hex() for h in v)`. -/
def hexItems (v : Cbor) : Py (List Str) := do
  let hs ← items P v
  hs.mapM (hexItem P)

/-- The proof that `_consistency_proof_from_cbor` builds. -/
def proofOfFields (d : List (Cbor × Cbor)) : Py ConsistencyProof := do
  let oldPeaks ← hexItems P (← item d "old_peaks")
  let ws ← items P (← item d "witness")
  let witness ← ws.mapM (hexItems P)
  let newPeaks ← hexItems P (← item d "new_peaks")
  let sizeA ← toInt P (← item d "size_a")
  let sizeB ← toInt P (← item d "size_b")
  .ok ⟨1, .lit "consistency", sizeA, sizeB, oldPeaks, witness, newPeaks⟩

/-- `_consistency_proof_from_cbor`. -/
def consistencyProofFromCbor (d : Cbor) : Py ConsistencyProof :=
  match d with
  | .map d =>
    match proofOfFields P d with
    | .error ⟨.keyError, _⟩ | .error ⟨.typeError, _⟩ =>
      raise .valueError "consistency_proof claim is malformed"
    | proof => proof
  | _ => raise .valueError "consistency_proof claim is not a map"

/-- The claims of a checkpoint. -/
def claimsFields (cp : CheckpointRecord) (commitment prevCommitment : Bytes) (cadenceSeconds : Option ℤ)
    (proof : Option Cbor) : List (Cbor × Cbor) :=
  [(label "kind", .str wireKind),
    (label "log_size", .int cp.mmrSize),
    (label "commitment", .bytes commitment),
    (label "prev_size", .int cp.prevSize),
    (label "prev_commitment", .bytes prevCommitment),
    (label "issued_at", .str cp.timestamp)] ++
    (cadenceSeconds.map fun n => (label "cadence", Cbor.int n)).toList ++
    (proof.map fun p => (label "consistency_proof", p)).toList

variable (H : HashFunction)

/-- A proof spans the sizes of the checkpoint. -/
def checkSpan (cp : CheckpointRecord) : Option ConsistencyProof → Py Unit
  | none => .ok ()
  | some p =>
    require (p.sizeA = cp.prevSize ∧ p.sizeB = cp.mmrSize) .valueError
      (s!"consistency_proof spans ({p.sizeA}, {p.sizeB}) but checkpoint is " ++
        s!"(prev_size={cp.prevSize}, mmr_size={cp.mmrSize})")

/-- The `prev_commitment` of the claims. -/
def prevCommitmentOf (cp : CheckpointRecord) (prevPeakHashes : Option (List Bytes)) : Py Bytes :=
  if cp.prevSize > 0 then
    match prevPeakHashes with
    | none =>
      raise .valueError
        s!"checkpoint has prev_size={cp.prevSize} > 0 but no prev_peak_hashes was supplied"
    | some prevPeakHashes => do
      let bagged ← rootFromPeaks H prevPeakHashes
      let root ← bytesFromHex cp.prevRoot
      require (bagged = root) .valueError
        "prev_peak_hashes do not bag (core.root_from_peaks) to cp.prev_root"
      commitmentObject prevPeakHashes
  else .ok []

/-- `encode_checkpoint_claims`. -/
def encodeCheckpointClaims (cp : CheckpointRecord) (newPeakHashes : List Bytes)
    (prevPeakHashes : Option (List Bytes)) (consistencyProof : Option ConsistencyProof)
    (cadenceSeconds : Option ℤ) : Py (List (Cbor × Cbor)) := do
  checkSpan cp consistencyProof
  let bagged ← rootFromPeaks H newPeakHashes
  let root ← bytesFromHex cp.root
  require (bagged = root) .valueError
    "new_peak_hashes do not bag (core.root_from_peaks) to cp.root"
  let prevCommitment ← prevCommitmentOf H cp prevPeakHashes
  let commitment ← commitmentObject newPeakHashes
  let proof ← consistencyProof.mapM consistencyProofToCbor
  .ok (claimsFields cp commitment prevCommitment cadenceSeconds proof)

/-- `DecodedCheckpointCose`. -/
structure DecodedCheckpointCose where
  logId : Str
  mmrSize : ℤ
  root : Str
  newPeakHashes : List Bytes
  prevSize : ℤ
  prevRoot : Str
  prevPeakHashes : List Bytes
  timestamp : Str
  keyId : Str
  cadenceSeconds : Option ℤ
  consistencyProof : Option ConsistencyProof

/-- `f"{log_id}#{mmr_size}"`. -/
def subjectOf (logId : Str) (mmrSize : ℤ) : Str := logId ++ 35 :: Json.dumpInt mmrSize

/-- `_decode_commitment`. -/
def decodeCommitment (raw : Bytes) (what : String) : Py (List Bytes) :=
  match Cbor.loads P.cbor2 raw with
  | .error _ => raise .valueError s!"{what} is not valid CBOR"
  | .ok (.array peaks) =>
    peaks.mapM fun
      | .bytes p => do
        require (p.length = 32) .valueError s!"{what} is not a CBOR array of 32-byte peak hashes"
        .ok p
      | _ => raise .valueError s!"{what} is not a CBOR array of 32-byte peak hashes"
  | .ok _ => raise .valueError s!"{what} is not a CBOR array of 32-byte peak hashes"

/-- A size claim. -/
def sizeClaim (claims : List (Cbor × Cbor)) (name : String) : Py ℤ :=
  match Cbor.get? claims (label name) with
  | some (.int n) => do
    require (0 ≤ n) .valueError s!"{name} must be a non-negative integer"
    .ok n
  | _ => raise .valueError s!"{name} must be a non-negative integer"

/-- The peaks and the root of `prev_commitment`; none of a claim that is absent, empty or false. -/
def decodePrevCommitment (claims : List (Cbor × Cbor)) : Py (List Bytes × Str) := do
  let prevCommitment := (Cbor.get? claims (label "prev_commitment")).getD (.bytes [])
  if prevCommitment.truthy then
    match prevCommitment with
    | .bytes raw => do
      let prevPeakHashes ← decodeCommitment P raw "prev_commitment"
      let prevRoot ← rootFromPeaks H prevPeakHashes
      .ok (prevPeakHashes, toHex prevRoot)
    | _ => raise .valueError "prev_commitment must be a CBOR byte string or empty"
  else .ok ([], [])

/-- The `cadence` of the claims. -/
def decodeCadence (claims : List (Cbor × Cbor)) : Py (Option ℤ) :=
  match Cbor.get? claims (label "cadence") with
  | none | some .null => .ok none
  | some (.int n) => .ok (some n)
  | some _ => raise .valueError "cadence must be an integer (seconds)"

/-- The `consistency_proof` of the claims. -/
def decodeProof (claims : List (Cbor × Cbor)) (prevSize mmrSize : ℤ) :
    Py (Option ConsistencyProof) :=
  match Cbor.get? claims (label "consistency_proof") with
  | none | some .null => .ok none
  | some raw => do
    let proof ← consistencyProofFromCbor P raw
    require (proof.sizeA = prevSize ∧ proof.sizeB = mmrSize) .valueError
      "consistency_proof does not span this checkpoint's own prev_size/log_size"
    .ok (some proof)

/-- The check of `kind`. -/
def kindClaim (claims : List (Cbor × Cbor)) : Py Unit :=
  match Cbor.get? claims (label "kind") with
  | some (.str kind) => require (kind = wireKind) .valueError "claims 'kind' is not 'cll-checkpoint'"
  | _ => raise .valueError "claims 'kind' is not 'cll-checkpoint'"

/-- The bytes of `commitment`. -/
def commitmentClaim (claims : List (Cbor × Cbor)) : Py Bytes :=
  match Cbor.get? claims (label "commitment") with
  | some (.bytes commitment) => .ok commitment
  | _ => raise .valueError "commitment must be a CBOR byte string"

/-- The text of `issued_at`. -/
def issuedAtClaim (claims : List (Cbor × Cbor)) : Py Str :=
  match Cbor.get? claims (label "issued_at") with
  | some (.str issuedAt) => .ok issuedAt
  | _ => raise .valueError "issued_at must be a string (ISO 8601)"

/-- The fields of a claims payload. -/
def claimsMap : Cbor → Py (List (Cbor × Cbor))
  | .map claims => .ok claims
  | _ => raise .valueError "claims payload is not a map"

/-- `_decode_claims`. -/
def decodeClaims (claims : Cbor) (issuer subject : Option Str) (keyId : Str) :
    Py DecodedCheckpointCose := do
  let claims ← claimsMap claims
  kindClaim claims
  let issuer := issuer.getD []
  require (issuer ≠ []) .valueError "statement carries no CWT issuer (log identity)"
  let mmrSize ← sizeClaim claims "log_size"
  let prevSize ← sizeClaim claims "prev_size"
  let commitment ← commitmentClaim claims
  let newPeakHashes ← decodeCommitment P commitment "commitment"
  let root ← rootFromPeaks H newPeakHashes
  let (prevPeakHashes, prevRoot) ← decodePrevCommitment P H claims
  let issuedAt ← issuedAtClaim claims
  require (subject = some (subjectOf issuer mmrSize)) .valueError "CWT subject does not match expected"
  let cadence ← decodeCadence claims
  let consistencyProof ← decodeProof P claims prevSize mmrSize
  .ok {
    logId := issuer
    mmrSize := mmrSize
    root := toHex root
    newPeakHashes := newPeakHashes
    prevSize := prevSize
    prevRoot := prevRoot
    prevPeakHashes := prevPeakHashes
    timestamp := issuedAt
    keyId := keyId
    cadenceSeconds := cadence
    consistencyProof := consistencyProof }

/-- `_check_labels`. -/
def checkLabels (header : Cbor) (what : String) : Py Unit :=
  match header with
  | .map fields => fields.forM fun f =>
      match f.1 with
      | .int _ | .str _ => .ok ()
      | _ => raise .valueError s!"{what} label is not an integer or a text string"
  | _ => .ok ()

/-- `_extract_kid`. -/
def extractKid (coseBytes : Bytes) : Py (Option Bytes) := do
  let value ← match P.strictDecode coseBytes with
    | some value => .ok value
    | none => raise .valueError "malformed COSE checkpoint statement"
  let _ ← Cbor.loads P.cbor2 coseBytes
  match value with
  | .array [protectedBstr, unprotected, _, _] => do
    checkLabels unprotected "unprotected header"
    if protectedBstr.truthy then do
      let protectedHeader ← Cbor.loads P.cbor2 (← toBytes P protectedBstr)
      checkLabels protectedHeader "protected header"
      match protectedHeader with
      | .map fields => do
        checkLabels ((Cbor.get? fields (.int hdrCwtClaims)).getD (.map [])) "CWT claims"
        match Cbor.get? fields (.int hdrKid) with
        | some (.bytes kid) => .ok (some kid)
        | _ => .ok none
      | _ => .ok none
    else .ok none
  | _ => .ok none

/-- The checks of `verify_checkpoint_cose_offline` up to the claims: the key, the statement and the
decoded payload. -/
def openEnvelope (coseBytes : Bytes) : Py (Bytes × Statement × Cbor) := do
  let kid ← match ← extractKid P coseBytes with
    | some kid => .ok kid
    | none => raise .rejected "COSE checkpoint statement carries no 32-byte kid (label 4)"
  require (kid.length = 32) .rejected "COSE checkpoint statement carries no 32-byte kid (label 4)"
  require (Ed25519.acceptableSignature kid (Ed25519.coseSign1Signature P.cbor2 coseBytes)) .rejected
    "COSE checkpoint signature does not verify under its own kid"
  let pubkeyPem ← match P.publicKeyPem kid with
    | some pem => .ok pem
    | none => raise .rejected "kid is not a valid Ed25519 public key"
  let parsed ← match P.parseSignedStatement coseBytes pubkeyPem with
    | some parsed => .ok parsed
    | none => raise .rejected "statement could not be parsed"
  require parsed.signatureVerified .rejected
    "COSE checkpoint signature does not verify under its own kid"
  require (parsed.contentType = some contentType) .rejected "unexpected content_type"
  let claims ← Cbor.loads P.cbor2 parsed.payload
  .ok (kid, parsed, claims)

/-- The continuity that the decoded claims assert. -/
def checkContinuity (decoded : DecodedCheckpointCose) : Py Unit :=
  match decoded.consistencyProof with
  | some proof => do
    let rootA ← bytesFromHex decoded.prevRoot
    let rootB ← bytesFromHex decoded.root
    require (Core.verifyConsistency H (.bytes rootA) (.int decoded.prevSize) (.bytes rootB)
        (.int decoded.mmrSize) proof.toObj = true) .rejected
      s!"consistency proof does not bridge prev_size={decoded.prevSize} to log_size={decoded.mmrSize}"
  | none =>
    require (decoded.prevSize = 0) .rejected
      s!"checkpoint claims prev_size={decoded.prevSize} (not the log's first) but carries no consistency_proof"

/-- `verify_checkpoint_cose_offline`: the decoded claims of an accepted statement, or the error of a
refused one. -/
def verifyCheckpointCoseOffline (coseBytes : Bytes) : Py DecodedCheckpointCose := do
  let (kid, parsed, claims) ← openEnvelope P coseBytes
  let decoded ← decodeClaims P H claims parsed.issuer parsed.subject (toHex kid)
  checkContinuity H decoded
  .ok decoded

end CLL.Checkpoint
