import CLL.Checkpoint.Cose
import CLL.Lib.Base64

/-!
# Signing checkpoint statements

`checkpoint_to_cose` of `checkpoint/cose_wire.py` with the signer of `checkpoint/runner.py`, and what
the verifier relies on of the packages that read the envelope back.
-/

namespace CLL.Checkpoint
open CLL.Core (HashFunction ConsistencyProof)

/-- An Ed25519 key pair under a signature check: whatever it signs verifies, and neither the key nor any
`R` is of small order or spelled in a non-canonical way. -/
structure KeyPair (verify : Bytes → Bytes → Bytes → Bool) where
  publicKey : Bytes
  sign : Bytes → Bytes
  verifies : ∀ message, verify publicKey message (sign message) = true
  acceptable : ∀ message, Ed25519.acceptableSignature publicKey (some (sign message)) = true

/-- `_COSE_ALG_EDDSA`. -/
def coseAlgEddsa : ℤ := -8

/-- The protected header of a statement. -/
def protectedHeader (publicKey : Bytes) (contentType issuer subject : Str) : Cbor :=
  .map [
    (.int 1, .int coseAlgEddsa),
    (.int 3, .str contentType),
    (.int hdrKid, .bytes publicKey),
    (.int hdrCwtClaims, .map [(.int 1, .str issuer), (.int 2, .str subject)])]

/-- The `Sig_structure` that is signed. -/
def sigStructure (protectedBstr payload : Bytes) : Cbor :=
  .array [.str (Str.lit "Signature1"), .bytes protectedBstr, .bytes [], .bytes payload]

/-- The envelope. -/
def envelope (protectedBstr payload signature : Bytes) : Cbor :=
  .tag 18 (.array [.bytes protectedBstr, .map [], .bytes payload, .bytes signature])

/-- `cbor2.dumps(v, canonical=True)`. -/
def dumps (cbor2 : Cbor2) (v : Cbor) : Py Bytes :=
  match cbor2.dumps v with
  | some b => .ok b
  | none => raise .valueError "cannot be encoded"

variable {verify : Bytes → Bytes → Bytes → Bool}

/-- `Ed25519CheckpointSigner.sign_cose_statement`. -/
def KeyPair.signCoseStatement (key : KeyPair verify) (cbor2 : Cbor2) (payload : Bytes)
    (contentType issuer subject : Str) : Py Bytes := do
  let protectedBstr ← dumps cbor2 (protectedHeader key.publicKey contentType issuer subject)
  let toSign ← dumps cbor2 (sigStructure protectedBstr payload)
  dumps cbor2 (envelope protectedBstr payload (key.sign toSign))

/-- `checkpoint_to_cose`. -/
def checkpointToCose (cbor2 : Cbor2) (H : HashFunction) (cp : CheckpointRecord) (signer : KeyPair verify)
    (newPeakHashes : List Bytes) (prevPeakHashes : Option (List Bytes))
    (consistencyProof : Option ConsistencyProof) (cadenceSeconds : Option ℤ) : Py Bytes := do
  require (¬(cp.prevSize > 0 ∧ consistencyProof = none)) .valueError
    s!"checkpoint at mmr_size={cp.mmrSize} has prev_size={cp.prevSize} > 0 but no consistency_proof was supplied"
  require (¬(consistencyProof ≠ none ∧ cp.prevSize = 0)) .valueError
    "checkpoint has no prior (prev_size == 0) but a consistency_proof was supplied"
  let claims ← encodeCheckpointClaims H cp newPeakHashes prevPeakHashes consistencyProof cadenceSeconds
  let payload ← dumps cbor2 (.map claims)
  signer.signCoseStatement cbor2 payload contentType cp.logId (subjectOf cp.logId cp.mmrSize)

/-- The packages read the deterministic encoding as RFC 8949 has it, and a COSE_Sign1 envelope as RFC 9052
and RFC 9597 have it; `verify` is the signature check of Ed25519. -/
structure Packages.Lawful (P : Packages) (verify : Bytes → Bytes → Bytes → Bool) : Prop where
  cbor2 : P.cbor2.Lawful
  strictDecode : ∀ protectedBstr payload signature : Bytes,
    (envelope protectedBstr payload signature).fits = true →
    P.strictDecode (envelope protectedBstr payload signature).encode =
      some (.array [.bytes protectedBstr, .map [], .bytes payload, .bytes signature])
  publicKeyPem : ∀ publicKey : Bytes, publicKey.length = 32 → ∃ pem, P.publicKeyPem publicKey = some pem
  parseSignedStatement : ∀ (publicKey pem payload signature : Bytes) (contentType issuer subject : Str),
    (protectedHeader publicKey contentType issuer subject).fits = true →
    let protectedBstr := (protectedHeader publicKey contentType issuer subject).canonical.encode
    (envelope protectedBstr payload signature).fits = true →
    P.publicKeyPem publicKey = some pem →
    P.parseSignedStatement (envelope protectedBstr payload signature).encode pem =
      some ⟨verify publicKey (sigStructure protectedBstr payload).encode signature, some contentType,
        payload, some issuer, some subject⟩

/-- A protected header is plain. -/
lemma protectedHeader_plain (publicKey : Bytes) (contentType issuer subject : Str) :
    (protectedHeader publicKey contentType issuer subject).Plain := by
  have claims : (Cbor.map [(.int 1, .str issuer), (.int 2, .str subject)]).Plain := by
    rw [Cbor.Plain, Cbor.plainFields_iff]
    simp [Cbor.IsLabel]
  rw [protectedHeader, Cbor.Plain, Cbor.plainFields_iff]
  simp [Cbor.IsLabel, hdrKid, hdrCwtClaims, claims]

/-- A signature structure is plain. -/
lemma sigStructure_plain (protectedBstr payload : Bytes) : (sigStructure protectedBstr payload).Plain := by
  simp [sigStructure, Cbor.Plain, Cbor.PlainItems]

/-- A signature structure is in canonical order. -/
lemma sigStructure_canonical (protectedBstr payload : Bytes) :
    (sigStructure protectedBstr payload).canonical = sigStructure protectedBstr payload := by
  simp [sigStructure, Cbor.canonical, Cbor.canonicalItems]

/-- An envelope is plain. -/
lemma envelope_plain (protectedBstr payload signature : Bytes) :
    (envelope protectedBstr payload signature).Plain := by
  simp [envelope, Cbor.Plain, Cbor.PlainItems, Cbor.PlainFields]

/-- An envelope is in canonical order. -/
lemma envelope_canonical (protectedBstr payload signature : Bytes) :
    (envelope protectedBstr payload signature).canonical = envelope protectedBstr payload signature := by
  simp [envelope, Cbor.canonical, Cbor.canonicalItems, Cbor.canonicalFields]

/-- The PEM text of a key. -/
def pemOf (publicKey : Bytes) : Bytes :=
  let spki : Bytes := [0x30, 0x2A, 0x30, 0x05, 0x06, 0x03, 0x2B, 0x65, 0x70, 0x03, 0x21, 0x00]
  (Str.lit "-----BEGIN PUBLIC KEY-----\n" ++ Base64.encode (spki ++ publicKey) ++
    Str.lit "\n-----END PUBLIC KEY-----\n").map UInt8.ofNat

/-- The text at an integer label. -/
def textAt (fields : List (Cbor × Cbor)) (n : ℤ) : Option Str :=
  match Cbor.get? fields (.int n) with
  | some (.str s) => some s
  | _ => none

/-- The map at an integer label. -/
def mapAt (fields : List (Cbor × Cbor)) (n : ℤ) : List (Cbor × Cbor) :=
  match Cbor.get? fields (.int n) with
  | some (.map fields) => fields
  | _ => []

/-- The parts of an envelope: the protected header, the payload and the signature. -/
def envelopeParts : Cbor → Option (Bytes × Bytes × Bytes)
  | .tag 18 (.array [.bytes protectedBstr, _, .bytes payload, .bytes signature]) =>
    some (protectedBstr, payload, signature)
  | _ => none

/-- The parts of an envelope are those that it was made of. -/
lemma envelopeParts_envelope (protectedBstr payload signature : Bytes) :
    envelopeParts (envelope protectedBstr payload signature) =
      some (protectedBstr, payload, signature) := rfl

/-- The item in the tag of COSE_Sign1. -/
def untagged : Cbor → Option Cbor
  | .tag 18 value => some value
  | _ => none

/-- What a COSE_Sign1 envelope says, with its signature checked under a key given as PEM. -/
def readStatement (verify : Bytes → Bytes → Bytes → Bool) (coseBytes pem : Bytes) : Option Statement :=
  match (Cbor.read coseBytes).bind envelopeParts with
  | some (protectedBstr, payload, signature) =>
    match Cbor.read protectedBstr with
    | some (.map fields) =>
      match Cbor.get? fields (.int hdrKid) with
      | some (.bytes kid) =>
        some ⟨pemOf kid == pem && verify kid (sigStructure protectedBstr payload).encode signature,
          textAt fields 3, payload, textAt (mapAt fields hdrCwtClaims) 1,
          textAt (mapAt fields hdrCwtClaims) 2⟩
      | _ => none
    | _ => none
  | none => none

/-- Packages that read the deterministic encoding and nothing else. -/
def referencePackages (verify : Bytes → Bytes → Bytes → Bool) : Packages where
  cbor2 := referenceCbor2
  strictDecode coseBytes := (Cbor.read coseBytes).bind untagged
  publicKeyPem key := if key.length = 32 then some (pemOf key) else none
  parseSignedStatement := readStatement verify
  intOf _ := none
  bytesOf _ := none
  iterOf _ := none

/-- The envelope of a statement is read back. -/
lemma readStatement_envelope {publicKey payload signature : Bytes} {contentType issuer subject : Str}
    (fit : (protectedHeader publicKey contentType issuer subject).fits = true)
    (fits : (envelope (protectedHeader publicKey contentType issuer subject).canonical.encode payload
      signature).fits = true) :
    readStatement verify (envelope (protectedHeader publicKey contentType issuer subject).canonical.encode
      payload signature).encode (pemOf publicKey) =
      some ⟨verify publicKey (sigStructure (protectedHeader publicKey contentType issuer
        subject).canonical.encode payload).encode signature, some contentType, payload, some issuer,
        some subject⟩ := by
  have plain := protectedHeader_plain publicKey contentType issuer subject
  have outer := Cbor.read_encode (envelope_plain _ _ _) fits
  have header := Cbor.read_encode (Cbor.canonical_plain _ plain) (Cbor.canonical_fits _ fit)
  obtain ⟨sorted, eq⟩ : ∃ sorted, (protectedHeader publicKey contentType issuer subject).canonical =
      .map sorted := by
    rw [protectedHeader, Cbor.canonical]
    exact ⟨_, rfl⟩
  have get (n : ℤ) := Cbor.get?_canonical plain eq (k := .int n) trivial
  have inner : (Cbor.map [(.int 1, .str issuer), (.int 2, .str subject)]).Plain := by
    rw [Cbor.Plain, Cbor.plainFields_iff]
    simp [Cbor.IsLabel]
  obtain ⟨claims, eqClaims⟩ : ∃ claims, (Cbor.map [(.int 1, .str issuer), (.int 2, .str subject)]).canonical =
      .map claims := by
    rw [Cbor.canonical]
    exact ⟨_, rfl⟩
  have getClaim (n : ℤ) := Cbor.get?_canonical inner eqClaims (k := .int n) trivial
  have kid : Cbor.get? sorted (.int hdrKid) = some (.bytes publicKey) := by
    rw [get]
    simp [Cbor.get?, hdrKid, hdrCwtClaims]
  have type : textAt sorted 3 = some contentType := by
    rw [textAt, get]
    simp [Cbor.get?, hdrKid, hdrCwtClaims]
  have claims_ : mapAt sorted hdrCwtClaims = claims := by
    rw [mapAt, get]
    simp [Cbor.get?, hdrKid, hdrCwtClaims, eqClaims]
  have iss : textAt claims 1 = some issuer := by
    rw [textAt, getClaim]
    simp [Cbor.get?]
  have sub : textAt claims 2 = some subject := by
    rw [textAt, getClaim]
    simp [Cbor.get?]
  rw [eq] at header outer ⊢
  rw [readStatement, outer, Option.bind_some, envelopeParts_envelope]
  dsimp only
  rw [header]
  dsimp only
  rw [kid, type, claims_, iss, sub]
  simp

/-- They are lawful. -/
theorem referencePackages_lawful (verify : Bytes → Bytes → Bytes → Bool) :
    (referencePackages verify).Lawful verify := by
  constructor
  · exact referenceCbor2_lawful
  · intro protectedBstr payload signature fits
    have read := Cbor.read_encode (envelope_plain protectedBstr payload signature) fits
    change (Cbor.read (envelope protectedBstr payload signature).encode).bind untagged = _
    rw [read]
    rfl
  · intro publicKey len
    exact ⟨pemOf publicKey, if_pos len⟩
  · intro publicKey pem payload signature contentType issuer subject fit _ fits hpem
    obtain rfl : pemOf publicKey = pem := by
      change (if publicKey.length = 32 then some (pemOf publicKey) else none) = some pem at hpem
      split at hpem
      · exact Option.some.inj hpem
      · cases hpem
    exact readStatement_envelope fit fits

/-- The bytes of a hex literal. -/
def hexBytes (s : String) : Bytes := (CLL.Core.fromHex (Str.lit s)).getD []

/-- The public key of the seed `00 01 … 1f`. -/
def samplePublicKey : Bytes :=
  hexBytes "03a107bff3ce10be1d70dd18e74bc09967e4d6309ba50d5f1ddc8664125531b8"

/-- The sample key as the kernel computes with it. -/
lemma samplePublicKey_eq : samplePublicKey =
    Cbor.bigEndian 32 0x03a107bff3ce10be1d70dd18e74bc09967e4d6309ba50d5f1ddc8664125531b8 := by
  rw [samplePublicKey, hexBytes, Str.lit_ofList]
  rfl

/-- A signature check that knows one signature of the sample key. -/
def sampleVerify (known publicKey _message signature : Bytes) : Bool :=
  publicKey == samplePublicKey && signature == known

/-- The verifier of one signature as the kernel computes with it. -/
lemma sampleVerify_eq (known : Bytes) : sampleVerify known = fun publicKey _ signature =>
    publicKey == Cbor.bigEndian 32 0x03a107bff3ce10be1d70dd18e74bc09967e4d6309ba50d5f1ddc8664125531b8 &&
      signature == known := by
  funext publicKey message signature
  rw [sampleVerify, samplePublicKey_eq]

/-- The sample key, to sign one message with. -/
def sampleKey (known : Bytes)
    (acceptable : Ed25519.acceptableSignature samplePublicKey (some known) = true) :
    KeyPair (sampleVerify known) where
  publicKey := samplePublicKey
  sign _ := known
  verifies _ := by simp [sampleVerify]
  acceptable _ := acceptable

/-- Its signature of the checkpoint at size 4 of the sample log, after the one at size 1. -/
def sampleSignature : Bytes :=
  hexBytes ("3853f407c17367cabea2b2d6a26facba4408c4cfc5f0e22ce09bdd1d796f861d" ++
    "974853e42438f49a899a1fca6967073d1ebac6a74f05af469a1718c7b53bfe0b")

set_option maxRecDepth 4000 in
/-- The sample signature as the kernel computes with it. -/
lemma sampleSignature_eq : sampleSignature =
    Cbor.bigEndian 32 0x3853f407c17367cabea2b2d6a26facba4408c4cfc5f0e22ce09bdd1d796f861d ++
      Cbor.bigEndian 32 0x974853e42438f49a899a1fca6967073d1ebac6a74f05af469a1718c7b53bfe0b := by
  rw [sampleSignature, hexBytes, Str.lit_append, Str.lit_ofList, Str.lit_ofList]
  rfl

/-- Its signature of a first checkpoint at the incomplete size 2 with one peak. -/
def incompleteSignature : Bytes :=
  hexBytes ("ef05a52c258a85dc8882359a05d780816fc14d8212b39ea70a692a59d08acf88" ++
    "486c8de771ad3417a500873dbd99884bd6d34b70a1c144c8d4d5175732690302")

set_option maxRecDepth 4000 in
/-- The signature of the incomplete statement as the kernel computes with it. -/
lemma incompleteSignature_eq : incompleteSignature =
    Cbor.bigEndian 32 0xef05a52c258a85dc8882359a05d780816fc14d8212b39ea70a692a59d08acf88 ++
      Cbor.bigEndian 32 0x486c8de771ad3417a500873dbd99884bd6d34b70a1c144c8d4d5175732690302 := by
  rw [incompleteSignature, hexBytes, Str.lit_append, Str.lit_ofList, Str.lit_ofList]
  rfl

end CLL.Checkpoint
