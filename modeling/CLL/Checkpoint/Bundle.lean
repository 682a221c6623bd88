import CLL.Checkpoint.RoundTrip
import CLL.Checkpoint.Emit
import CLL.Core.Suffix
import CLL.Ledger.Admission
import CLL.Lib.Base64
import CLL.Lib.Text

/-!
# Bundles

`checkpoint/bundle.py`: `bundle` assembles for one record of a log the checkpoint that covers it, the one
before and the proofs, and `verify_bundle_log_integrity` checks them. The stamps of witnesses are those of
`verify_witness_stamp_tristate` in `checkpoint/emit.py`.

The verifier compares neither the log ids of the two checkpoints nor the position of the record with the
size of the earlier one. `bracket_iff` says that an accepted bundle brackets its record exactly when both
agree.
-/

namespace CLL.Checkpoint
open CLL.Core PostOrder
open CLL.Ledger (Fields)

/-- `scitt_cose.ReceiptResult`. -/
structure ReceiptResult where
  ok : Bool
  failedAt : Str
  errors : List Str

/-- What the module calls of other packages, and what `int` and `str` do with a value that is neither a
number nor a string. -/
structure Evidence where
  packages : Packages
  /-- `Ed25519PublicKey.from_public_bytes(…).verify(…)` raises nothing. -/
  verify : Bytes → Bytes → Bytes → Bool
  /-- `scitt_cose.verify_receipt`, `none` when it raises. -/
  verifyReceipt : Bytes → Str → Bytes → Option ReceiptResult
  /-- `_raw_ed25519_key`, `none` when it raises. -/
  rawEd25519Key : Bytes → Option (Option Bytes)
  /-- `_structural_probe_pubkey_pem()`. -/
  probe : Bytes
  intOf : Json → Py ℤ
  strOf : Json → Str

/-- `InclusionProof` and the other parts of a `Bundle`; the proofs may be any object. -/
structure Bundle where
  v : ℤ
  capsuleId : Str
  seq : ℤ
  receipt : Fields
  inclusionProof : Obj
  checkpoint : CheckpointRecord
  priorCheckpoint : Option CheckpointRecord
  consistencyProof : Option Obj
  checkpointCose : Option Bytes

variable (E : Evidence) (H : HashFunction)

/-- `ed25519.verify`. -/
def verifySignature (publicKey message signature : Bytes) : Bool :=
  Ed25519.acceptableSignature publicKey (some signature) && E.verify publicKey message signature

/-- `verify_checkpoint_signature_offline`. -/
def verifyCheckpointSignatureOffline (cp : CheckpointRecord) : Bool :=
  verdict do
    let publicKey ← bytesFromHex cp.keyId
    let digest ← cp.digest H
    let signature ← bytesFromHex cp.signature
    .ok (verifySignature E publicKey (Text.ascii digest) signature)

/-- `StampVerdict`. -/
inductive StampVerdict where
  | witnessed
  | unverified
  | invalid
  deriving DecidableEq, Repr

/-- `ed25519.verify_receipt`. -/
def verifyReceipt (receipt : Bytes) (leafEntryHex : Str) (logPublicKeyPem : Bytes) : Option ReceiptResult :=
  match E.verifyReceipt receipt leafEntryHex logPublicKeyPem with
  | none => none
  | some result =>
    if !result.ok then some result
    else
      match (E.rawEd25519Key logPublicKeyPem).getD (some []) with
      | none => some result
      | some publicKey =>
        if Ed25519.acceptableSignature publicKey (Ed25519.coseSign1Signature E.packages.cbor2 receipt) then
          some result
        else some ⟨false, Str.lit "signature", result.errors ++ [Str.lit
          "receipt signature is refused: the key or R is not canonical or is of small order, or S >= L"]⟩

/-- `sha256(bytes.fromhex(cp.digest())).hexdigest()`. -/
def expectedEntryHash (cp : CheckpointRecord) : Py Str := do
  let digest ← cp.digest H
  let bytes ← bytesFromHex digest
  .ok (toHex (H.digest bytes))

/-- `verify_witness_stamp_tristate`. -/
def verifyWitnessStampTristate (cp : CheckpointRecord) (witness : WitnessRecord)
    (tsPubkeyPem : Option Bytes) : StampVerdict × List Str :=
  match expectedEntryHash H cp with
  | .error e => (.invalid, [Str.lit s!"checkpoint digest could not be computed: {e.text}"])
  | .ok expected =>
    if witness.entryHash ≠ expected then
      (.invalid, [Str.lit ("witness.entry_hash does not match this checkpoint's digest -- " ++
        "stamp is not bound to this checkpoint")])
    else
      match Base64.decode witness.receiptB64 with
      | none => (.invalid, [Str.lit "receipt_b64 is not valid base64"])
      | some receipt =>
        match tsPubkeyPem with
        | some pem =>
          match verifyReceipt E receipt witness.entryHash pem with
          | none => (.invalid, [Str.lit "receipt could not be evaluated"])
          | some result =>
            if result.ok then (.witnessed, [])
            else (.invalid, if result.errors ≠ [] then result.errors else
              [Str.lit "receipt signature does not verify under the pinned/supplied key"])
        | none =>
          match verifyReceipt E receipt witness.entryHash E.probe with
          | none => (.invalid, [Str.lit "receipt could not be evaluated"])
          | some probe =>
            if probe.failedAt ≠ Str.lit "signature" then
              (.invalid, Str.lit ("receipt is not a structurally valid COSE Receipt bound to this " ++
                "checkpoint") :: probe.errors)
            else (.unverified, [Str.lit "witnessed by " ++ witness.tsUrl ++
              Str.lit ", pin not supplied — unverified stamp"])

/-- The errors and the notices collected so far. -/
structure Report where
  errors : List Str
  notices : List Str

namespace Report

/-- `if not cond: errors.append(text)`. -/
def check (r : Report) (cond : Prop) [Decidable cond] (text : String) : Report :=
  if cond then r else { r with errors := r.errors ++ [Str.lit text] }

/-- `notices.append(text)`. -/
def note (r : Report) (text : String) : Report := { r with notices := r.notices ++ [Str.lit text] }

end Report

/-- The checks of the record and of the covering checkpoint. -/
def coveringChecks (b : Bundle) (root bodyDigest : Bytes) : Report :=
  let r : Report := ⟨[], []⟩
  let r := r.check (verifyInclusion H (.bytes root) (.int b.checkpoint.mmrSize) (.int (b.seq - 1))
    (.bytes bodyDigest) b.inclusionProof = true)
    "inclusion proof does not verify against the covering checkpoint's root"
  r.check (verifyCheckpointSignatureOffline E H b.checkpoint = true)
    "covering checkpoint signature does not verify"

/-- The checks of a bundle with a prior checkpoint. Only the root of the prior checkpoint can raise. -/
def priorChecks (b : Bundle) (root : Bytes) (prior : CheckpointRecord) (r : Report) : Py Unit × Report :=
  let r := r.check (verifyCheckpointSignatureOffline E H prior = true)
    "prior checkpoint signature does not verify"
  let r := r.check (b.checkpoint.prevSize = prior.mmrSize)
    "checkpoint.prev_size does not match prior_checkpoint.mmr_size"
  let r := r.check (b.checkpoint.prevRoot = prior.root)
    "checkpoint.prev_root does not match prior_checkpoint.root"
  match b.consistencyProof with
  | none => (.ok (), r.check False "prior_checkpoint is present but consistency_proof is missing")
  | some proof =>
    match bytesFromHex prior.root with
    | .error e => (.error e, r)
    | .ok rootA =>
      let verified := verifyConsistency H (.bytes rootA) (.int prior.mmrSize) (.bytes root)
        (.int b.checkpoint.mmrSize) proof
      let r := r.check (verified = true) "consistency proof does not bridge prior_checkpoint to checkpoint"
      (.ok (), if verified then r.note
        (s!"history intact between checkpoints {prior.mmrSize} and {b.checkpoint.mmrSize} " ++
          "(consistency proof verified) -- rules out rewrite/reorder/truncation between them; does not " ++
          "rule out a divergent fork, which only a witness attests to") else r)

/-- The checks of a bundle without one. -/
def firstChecks (b : Bundle) (r : Report) : Report :=
  let r := r.check (b.checkpoint.prevSize = 0)
    "prior_checkpoint is missing but checkpoint.prev_size != 0"
  let r := r.check (b.consistencyProof.isNone) "consistency_proof present without a prior_checkpoint"
  if b.checkpoint.prevSize = 0 ∧ b.consistencyProof.isNone then
    r.note (s!"no prior checkpoint -- checkpoint at mmr_size={b.checkpoint.mmrSize} is this log's first; " ++
      "there is no earlier history to check continuity against")
  else r

/-- The checks of the history before the covering checkpoint. -/
def historyChecks (b : Bundle) (root : Bytes) (r : Report) : Py Unit × Report :=
  match b.priorCheckpoint with
  | some prior => priorChecks E H b root prior r
  | none => (.ok (), firstChecks b r)

/-- The fields of the statement and of the record agree. -/
def matchesRecord (decoded : DecodedCheckpointCose) (cp : CheckpointRecord) : Prop :=
  decoded.logId = cp.logId ∧ decoded.mmrSize = cp.mmrSize ∧ decoded.root = cp.root ∧
    decoded.prevSize = cp.prevSize ∧ decoded.prevRoot = cp.prevRoot ∧ decoded.keyId = cp.keyId

instance (decoded : DecodedCheckpointCose) (cp : CheckpointRecord) : Decidable (matchesRecord decoded cp) :=
  inferInstanceAs (Decidable (_ ∧ _ ∧ _ ∧ _ ∧ _ ∧ _))

/-- The checks of `checkpoint_cose`. -/
def coseChecks (b : Bundle) (r : Report) : Report :=
  match b.checkpointCose with
  | none => r
  | some cose =>
    match verifyCheckpointCoseOffline E.packages H cose with
    | .error e => r.check False s!"checkpoint COSE-wire statement failed to verify: {e.text}"
    | .ok decoded =>
      let r := r.check (matchesRecord decoded b.checkpoint)
        "checkpoint COSE-wire statement fields do not match the bundle's JSON checkpoint"
      if matchesRecord decoded b.checkpoint then
        r.note ("checkpoint COSE-wire statement independently verified (signature + CWT identity + " ++
          "consistency proof, if any) -- checkable by a generic COSE/SCITT verifier with no " ++
          "cll-specific code")
      else r

/-- What one stamp adds to the report. -/
def stampReport (anyWitnessed : Bool) (r : Report) (w : WitnessRecord) : StampVerdict × List Str → Report
  | (.witnessed, _) => r
  | (.unverified, errors) => { r with notices := r.notices ++ errors }
  | (.invalid, errors) =>
    let detail := if errors ≠ [] then (errors.intersperse (Str.lit "; ")).flatten
      else Str.lit "does not verify"
    let text := Str.lit "witness stamp (" ++ w.tsUrl ++ Str.lit ") INVALID: " ++ detail
    if anyWitnessed then { r with notices := r.notices ++ [text] }
    else { r with errors := r.errors ++ [text] }

/-- The checks of the stamps. -/
def stampChecks (b : Bundle) (trustAnchor : List (Str × Bytes)) (r : Report) : Report :=
  let checks := b.checkpoint.witnesses.map fun w =>
    (w, verifyWitnessStampTristate E H b.checkpoint w (trustAnchor.lookup w.tsUrl))
  let anyWitnessed := checks.any fun c => c.2.1 = .witnessed
  let anyInvalid := checks.any fun c => c.2.1 = .invalid
  let r := checks.foldl (fun r c => stampReport anyWitnessed r c.1 c.2) r
  r.check (anyWitnessed ∨ ¬anyInvalid)
    (s!"checkpoint claims {b.checkpoint.witnesses.length} witness stamp(s) but none verify as authentic " ++
      "TS Receipts for this checkpoint")

/-- The body of the `try` of `verify_bundle_log_integrity`: what it raises, if it does, and the report. -/
def bundleChecks (b : Bundle) (trustAnchor : List (Str × Bytes)) : Py Unit × Report :=
  match bytesFromHex b.capsuleId with
  | .error e => (.error e, ⟨[], []⟩)
  | .ok bodyDigest =>
    match bytesFromHex b.checkpoint.root with
    | .error e => (.error e, ⟨[], []⟩)
    | .ok root =>
      match historyChecks E H b root (coveringChecks E H b root bodyDigest) with
      | (.error e, r) => (.error e, r)
      | (.ok _, r) => (.ok (), stampChecks E H b trustAnchor (coseChecks E H b r))

/-- `verify_bundle_log_integrity`. -/
def verifyBundleLogIntegrity (b : Bundle) (trustAnchor : List (Str × Bytes)) : Bool × List Str :=
  match bundleChecks E H b trustAnchor with
  | (.error e, r) => (false, r.errors ++ [Str.lit s!"unexpected error: {e.text}"] ++ r.notices)
  | (.ok _, r) => (r.errors.isEmpty, r.errors ++ r.notices)

variable {E H}

/-- A check adds no error exactly when its condition holds. -/
@[simp] lemma Report.check_errors {r : Report} {cond : Prop} [Decidable cond] {text : String} :
    (r.check cond text).errors = [] ↔ r.errors = [] ∧ cond := by
  unfold Report.check
  split <;> simp_all

/-- A note adds no error. -/
@[simp] lemma Report.note_errors (r : Report) (text : String) : (r.note text).errors = r.errors := rfl

/-- What the statement of a bundle must say, if there is one. -/
def CoseAgrees (E : Evidence) (H : HashFunction) (b : Bundle) : Prop :=
  ∀ cose, b.checkpointCose = some cose →
    ∃ decoded, verifyCheckpointCoseOffline E.packages H cose = .ok decoded ∧
      matchesRecord decoded b.checkpoint

/-- The checks of a COSE copy pass exactly when it agrees with the bundle. -/
lemma coseChecks_errors {b : Bundle} {r : Report} :
    (coseChecks E H b r).errors = [] ↔ r.errors = [] ∧ CoseAgrees E H b := by
  unfold coseChecks CoseAgrees
  cases b.checkpointCose with
  | none => simp
  | some cose =>
    cases verified : verifyCheckpointCoseOffline E.packages H cose with
    | error e => simp [verified]
    | ok decoded =>
      simp only [verified, apply_ite Report.errors, Report.note_errors, ite_self, Report.check_errors]
      simp [verified]

/-- The verdict on a stamp of a bundle. -/
def stampVerdict (E : Evidence) (H : HashFunction) (b : Bundle) (trustAnchor : List (Str × Bytes))
    (w : WitnessRecord) : StampVerdict :=
  (verifyWitnessStampTristate E H b.checkpoint w (trustAnchor.lookup w.tsUrl)).1

/-- Some stamp is verified under a trusted key, or none is invalid. -/
def StampsHold (E : Evidence) (H : HashFunction) (b : Bundle) (trustAnchor : List (Str × Bytes)) : Prop :=
  (∃ w ∈ b.checkpoint.witnesses, stampVerdict E H b trustAnchor w = .witnessed) ∨
    ∀ w ∈ b.checkpoint.witnesses, stampVerdict E H b trustAnchor w ≠ .invalid

/-- The report of a stamp stays clean unless it is invalid and nothing is witnessed. -/
lemma stampReport_errors {anyWitnessed : Bool} {r : Report} {w : WitnessRecord}
    {verdict : StampVerdict × List Str} :
    (stampReport anyWitnessed r w verdict).errors = [] ↔
      r.errors = [] ∧ (anyWitnessed = true ∨ verdict.1 ≠ .invalid) := by
  obtain ⟨verdict, errors⟩ := verdict
  cases verdict with
  | witnessed => simp [stampReport]
  | unverified => simp [stampReport]
  | invalid => cases anyWitnessed <;> simp [stampReport]

/-- The reports of several stamps stay clean exactly when each does. -/
lemma foldl_stampReport_errors {anyWitnessed : Bool} {r : Report}
    {checks : List (WitnessRecord × StampVerdict × List Str)} :
    (checks.foldl (fun r c => stampReport anyWitnessed r c.1 c.2) r).errors = [] ↔
      r.errors = [] ∧ ∀ c ∈ checks, anyWitnessed = true ∨ c.2.1 ≠ .invalid := by
  induction checks generalizing r with
  | nil => simp
  | cons c checks ih =>
    rw [List.foldl_cons, ih, stampReport_errors, List.forall_mem_cons]
    tauto

/-- The checks of the stamps pass exactly when the stamps hold. -/
lemma stampChecks_errors {b : Bundle} {trustAnchor : List (Str × Bytes)} {r : Report} :
    (stampChecks E H b trustAnchor r).errors = [] ↔ r.errors = [] ∧ StampsHold E H b trustAnchor := by
  unfold stampChecks StampsHold
  dsimp only
  rw [Report.check_errors, foldl_stampReport_errors]
  generalize checked : (b.checkpoint.witnesses.map fun w =>
    (w, verifyWitnessStampTristate E H b.checkpoint w (trustAnchor.lookup w.tsUrl))) = checks
  have verdicts (v : StampVerdict) : (checks.any fun c => c.2.1 = v) = true ↔
      ∃ w ∈ b.checkpoint.witnesses, stampVerdict E H b trustAnchor w = v := by
    rw [← checked, List.any_map, List.any_eq_true]
    simp only [Function.comp_apply, decide_eq_true_eq, stampVerdict]
  have each (p : StampVerdict → Prop) : (∀ c ∈ checks, p c.2.1) ↔
      ∀ w ∈ b.checkpoint.witnesses, p (stampVerdict E H b trustAnchor w) := by
    rw [← checked, List.forall_mem_map]
    rfl
  rw [verdicts, verdicts, each fun v => _ ∨ v ≠ .invalid]
  constructor
  · rintro ⟨⟨none, -⟩, witnessed | valid⟩
    · exact ⟨none, .inl witnessed⟩
    · exact ⟨none, .inr fun w hw invalid => valid ⟨w, hw, invalid⟩⟩
  · rintro ⟨none, witnessed | valid⟩
    · exact ⟨⟨none, fun w _ => .inl witnessed⟩, .inl witnessed⟩
    · exact ⟨⟨none, fun w hw => .inr (valid w hw)⟩, .inr fun ⟨w, hw, invalid⟩ => valid w hw invalid⟩

/-- What a bundle without a prior checkpoint, or with one, says of the history before its checkpoint. -/
def HistoryHolds (E : Evidence) (H : HashFunction) (b : Bundle) (root : Bytes) :
    Option CheckpointRecord → Prop
  | none => b.checkpoint.prevSize = 0 ∧ b.consistencyProof = none
  | some prior => verifyCheckpointSignatureOffline E H prior = true ∧
      b.checkpoint.prevSize = prior.mmrSize ∧ b.checkpoint.prevRoot = prior.root ∧
      ∃ proof rootA, b.consistencyProof = some proof ∧ fromHex prior.root = some rootA ∧
        verifyConsistency H (.bytes rootA) (.int prior.mmrSize) (.bytes root)
          (.int b.checkpoint.mmrSize) proof = true

/-- The checks of a prior checkpoint pass exactly when it is one of the same history. -/
lemma priorChecks_errors {b : Bundle} {root : Bytes} {prior : CheckpointRecord} {r : Report} :
    (∃ r', priorChecks E H b root prior r = (.ok (), r') ∧ r'.errors = []) ↔
      r.errors = [] ∧ HistoryHolds E H b root (some prior) := by
  unfold priorChecks HistoryHolds
  dsimp only
  cases b.consistencyProof with
  | none => simp
  | some proof =>
    cases decoded : fromHex prior.root with
    | none =>
      have raised : bytesFromHex prior.root =
          raise .valueError "non-hexadecimal number found in fromhex() arg" := by
        rw [bytesFromHex, decoded]
      simp [raised, raise]
    | some rootA =>
      rw [bytesFromHex_eq_ok.mpr decoded]
      dsimp only
      simp only [Prod.mk.injEq, true_and, exists_eq_left', apply_ite Report.errors, Report.note_errors,
        ite_self, Report.check_errors, Option.some.injEq]
      constructor
      · rintro ⟨⟨⟨⟨none, signed⟩, size⟩, same⟩, bridged⟩
        exact ⟨none, signed, size, same, proof, rootA, rfl, rfl, bridged⟩
      · rintro ⟨none, signed, size, same, _, _, rfl, rfl, bridged⟩
        exact ⟨⟨⟨⟨none, signed⟩, size⟩, same⟩, bridged⟩

/-- The checks of a bundle without one pass exactly when the covering checkpoint is the first. -/
lemma firstChecks_errors {b : Bundle} {root : Bytes} {r : Report} :
    (firstChecks b r).errors = [] ↔ r.errors = [] ∧ HistoryHolds E H b root none := by
  unfold firstChecks HistoryHolds
  dsimp only
  rw [apply_ite Report.errors]
  simp only [Report.note_errors, ite_self, Report.check_errors, Option.isNone_iff_eq_none]
  tauto

/-- The checks of the history pass exactly when the history holds. -/
lemma historyChecks_errors {b : Bundle} {root : Bytes} {r : Report} :
    (∃ r', historyChecks E H b root r = (.ok (), r') ∧ r'.errors = []) ↔
      r.errors = [] ∧ HistoryHolds E H b root b.priorCheckpoint := by
  unfold historyChecks
  cases b.priorCheckpoint with
  | none =>
    rw [← firstChecks_errors (b := b)]
    exact ⟨fun ⟨_, done, clean⟩ => (Prod.mk.inj done).2 ▸ clean, fun clean => ⟨_, rfl, clean⟩⟩
  | some prior => exact priorChecks_errors

/-- The covering checks pass exactly when the record is included and the checkpoint is signed. -/
lemma coveringChecks_errors {b : Bundle} {root bodyDigest : Bytes} :
    (coveringChecks E H b root bodyDigest).errors = [] ↔
      verifyInclusion H (.bytes root) (.int b.checkpoint.mmrSize) (.int (b.seq - 1))
        (.bytes bodyDigest) b.inclusionProof = true ∧
      verifyCheckpointSignatureOffline E H b.checkpoint = true := by
  simp [coveringChecks]

/-- What the verifier accepts. -/
theorem verifyBundleLogIntegrity_eq_true {b : Bundle} {trustAnchor : List (Str × Bytes)} :
    (verifyBundleLogIntegrity E H b trustAnchor).1 = true ↔
      ∃ bodyDigest root, fromHex b.capsuleId = some bodyDigest ∧ fromHex b.checkpoint.root = some root ∧
        verifyInclusion H (.bytes root) (.int b.checkpoint.mmrSize) (.int (b.seq - 1))
          (.bytes bodyDigest) b.inclusionProof = true ∧
        verifyCheckpointSignatureOffline E H b.checkpoint = true ∧
        HistoryHolds E H b root b.priorCheckpoint ∧ CoseAgrees E H b ∧ StampsHold E H b trustAnchor := by
  unfold verifyBundleLogIntegrity bundleChecks
  cases hbody : fromHex b.capsuleId with
  | none => simp [bytesFromHex, hbody, raise]
  | some bodyDigest =>
    cases hroot : fromHex b.checkpoint.root with
    | none => simp [bytesFromHex, hbody, hroot, raise]
    | some root =>
      rw [bytesFromHex_eq_ok.mpr hbody, bytesFromHex_eq_ok.mpr hroot]
      dsimp only
      simp only [Option.some.injEq, exists_eq_left', exists_and_left]
      rw [← and_assoc, ← coveringChecks_errors]
      have checks := @historyChecks_errors E H b root (coveringChecks E H b root bodyDigest)
      rw [← and_assoc, ← checks]
      generalize historyChecks E H b root (coveringChecks E H b root bodyDigest) = checked
      obtain ⟨done, r⟩ := checked
      cases done with
      | error e => simp
      | ok u =>
        dsimp only
        rw [List.isEmpty_iff, stampChecks_errors, coseChecks_errors, and_assoc]
        simp

/-- The strings the verifier hashes for the proofs of a bundle. -/
def bundleHashed (H : HashFunction) (b : Bundle) : List Bytes :=
  let root := (fromHex b.checkpoint.root).getD []
  verifyInclusionHashed H (.bytes root) (.int b.checkpoint.mmrSize) (.int (b.seq - 1))
      (.bytes ((fromHex b.capsuleId).getD [])) b.inclusionProof ++
    match b.priorCheckpoint, b.consistencyProof with
    | some prior, some proof => verifyConsistencyHashed H (.bytes ((fromHex prior.root).getD []))
        (.int prior.mmrSize) (.bytes root) (.int b.checkpoint.mmrSize) proof
    | _, _ => []

/-- A bundle brackets its record: the checkpoints are of one log, the earlier one is over the first leaves
of the log that the later one is over, and the record is a leaf appended between the two. -/
structure Bracketed (H : HashFunction) (b : Bundle) (prior : CheckpointRecord) (digests : List Digest) :
    Prop where
  sameLog : b.checkpoint.logId = prior.logId
  extends_ : ∃ m ≤ digests.length, prior.mmrSize = nodeCount m ∧
    ∃ older root, addDigests H [] (digests.take m) = .ok older ∧
      rootAt H older (nodeCount m) = .ok root ∧ fromHex prior.root = some root
  leaf : ∃ i, ∃ lt : i < digests.length, b.seq - 1 = i ∧ fromHex b.capsuleId = some digests[i].1
  after : ∃ n, leafCountObj (.int prior.mmrSize) = .ok n ∧ (n : ℤ) ≤ b.seq - 1
  before : ∃ n, leafCountObj (.int b.checkpoint.mmrSize) = .ok n ∧ b.seq - 1 < n


/-- The leaves of a complete size are counted. -/
lemma leafCountObj_nodeCount {n : ℕ} (small : nodeCount n < maxMmrSize) :
    leafCountObj (.int (nodeCount n)) = .ok n := leafCount_nodeCount small

/-- An accepted bundle brackets its record exactly when its two checkpoints name one log and its record is
not among the leaves of the earlier one. -/
theorem bracket_iff {b : Bundle} {trustAnchor : List (Str × Bytes)} {prior : CheckpointRecord}
    (hasPrior : b.priorCheckpoint = some prior)
    (accepted : (verifyBundleLogIntegrity E H b trustAnchor).1 = true) {digests : List Digest}
    {nodes : List Bytes} (build : addDigests H [] digests = .ok nodes)
    (size : b.checkpoint.mmrSize = nodes.length)
    (committed : rootHex H nodes b.checkpoint.mmrSize = .ok b.checkpoint.root)
    (inj : Set.InjOn H.digest {s | s ∈ storeHashed digests nodes ∨
      s ∈ rootAtHashed H nodes nodes.length ∨ s ∈ bundleHashed H b}) :
    Bracketed H b prior digests ↔
      b.checkpoint.logId = prior.logId ∧
        ∃ n, leafCountObj (.int prior.mmrSize) = .ok n ∧ (n : ℤ) ≤ b.seq - 1 := by
  obtain ⟨bodyDigest, root, hbody, hroot, included, -, history, -, -⟩ :=
    verifyBundleLogIntegrity_eq_true.mp accepted
  rw [hasPrior] at history
  obtain ⟨-, -, -, proof, rootA, carried, hprior, bridged⟩ := history
  rw [size, ← Int.ofNat_eq_natCast, rootHex, map_eq_ok] at committed
  obtain ⟨r, committed, hex⟩ := committed
  obtain rfl : r = root := by
    rw [← hex, fromHex_toHex] at hroot
    exact Option.some.inj hroot
  rw [bundleHashed, hroot, hbody, hasPrior, carried] at inj
  simp only [Option.getD_some, hprior] at inj
  rw [size, length_of_addDigests build] at included bridged inj
  rw [length_of_addDigests build] at committed
  have small : nodeCount digests.length < maxMmrSize := by
    obtain ⟨_, _, -, e, -, small⟩ := verifyConsistency_sizes H bridged
    rwa [Int.ofNat_inj.mp (Obj.int.inj e)]
  generalize hS : {s | _} = S at inj
  have inStore : ∀ s ∈ storeHashed digests nodes, s ∈ S := by
    rw [← hS]
    exact fun s hs => .inl hs
  have inRoot : ∀ s ∈ rootAtHashed H nodes (nodeCount digests.length), s ∈ S := by
    rw [← hS]
    exact fun s hs => .inr (.inl hs)
  -- The record is in the log, and so is the prior checkpoint; nothing compares the two.
  obtain ⟨i, lt, seq, same⟩ := verifyInclusion_certifies build committed inj inStore inRoot
    (by rw [← hS]; exact fun s hs => .inr (.inr (List.mem_append_left _ hs))) included
  have mmr := IsMmr.of_addDigests build
  have lens := length_of_mem_leaves H digests
  have count := length_leaves H digests
  rw [mmr.rootAtHashed count.ge small] at inRoot
  have bagged := committed
  rw [mmr.rootAt lens count.ge small] at bagged
  obtain ⟨m, le, priorSize, smallm, digest⟩ := verifyConsistency_certifies build (Except.ok.inj bagged) inj
    inStore inRoot (by rw [← hS]; exact fun s hs => .inr (.inr (List.mem_append_right _ hs))) bridged
  obtain ⟨older, then_, root_⟩ := exists_older (H := H) le smallm
  have priorSize := Obj.int.inj priorSize
  have seq := Obj.int.inj seq
  constructor
  · exact fun bracketed => ⟨bracketed.sameLog, bracketed.after⟩
  · rintro ⟨sameLog, after⟩
    refine ⟨sameLog, ⟨m, le, priorSize, older, _, then_, root_, ?_⟩, ⟨i, lt, seq, ?_⟩, after,
      ⟨digests.length, ?_, ?_⟩⟩
    · rw [hprior]
      exact digest
    · rw [hbody]
      exact same
    · rw [size, length_of_addDigests build, leafCountObj_nodeCount small]
    · omega

/-- Signatures of the sample key, with the messages that they sign. -/
def bundleSignatures : List (Bytes × Bytes) :=
  [(Text.ascii (Str.lit "cc70b5a9c7bafa8aabea9b9cb40cde44214163bd1978a75b685e37db248add72"),
    hexBytes ("348bf0ccbca7a839655d79d2420aed2dd8165c0eacd1b262122d5dee1c5a2988" ++
      "1d4f32c2bc95afaf83c194408af57af2f498f20a91af4ab781d1083145284204")),
   (Text.ascii (Str.lit "b0e75fcf3a2ccd9ac0905664d18089e7f94f2e07f9a18e9709fd1cded0b73467"),
    hexBytes ("c3bb7db8b655332688af5c965c05675283fb89f961119b208acc004c2116c593" ++
      "b98be9f05dcb86e0fab6ed0fe955688559277df717edc8ab9b50e6c149ec2201")),
   (Text.ascii (Str.lit "2465c51538767f3d3bb7d965e0a5e193e4dac35b60864bbaa7f3d11635c62ddd"),
    hexBytes ("fe1cdc3e3bbb11a45bf0d931f6ca5fd27443b6413969672f070abfcad70c483e" ++
      "0257f7527159e0d8011b52e832b1e9dd4e41f4dd402cd2866505e8339b81000d"))]

set_option maxRecDepth 4000 in
/-- The sample signatures as the kernel computes with them. -/
lemma bundleSignatures_eq : bundleSignatures =
    [(Text.ascii (toHex (
        Cbor.bigEndian 32 0xcc70b5a9c7bafa8aabea9b9cb40cde44214163bd1978a75b685e37db248add72)),
      Cbor.bigEndian 32 0x348bf0ccbca7a839655d79d2420aed2dd8165c0eacd1b262122d5dee1c5a2988 ++
        Cbor.bigEndian 32 0x1d4f32c2bc95afaf83c194408af57af2f498f20a91af4ab781d1083145284204),
     (Text.ascii (toHex (
        Cbor.bigEndian 32 0xb0e75fcf3a2ccd9ac0905664d18089e7f94f2e07f9a18e9709fd1cded0b73467)),
      Cbor.bigEndian 32 0xc3bb7db8b655332688af5c965c05675283fb89f961119b208acc004c2116c593 ++
        Cbor.bigEndian 32 0xb98be9f05dcb86e0fab6ed0fe955688559277df717edc8ab9b50e6c149ec2201),
     (Text.ascii (toHex (
        Cbor.bigEndian 32 0x2465c51538767f3d3bb7d965e0a5e193e4dac35b60864bbaa7f3d11635c62ddd)),
      Cbor.bigEndian 32 0xfe1cdc3e3bbb11a45bf0d931f6ca5fd27443b6413969672f070abfcad70c483e ++
        Cbor.bigEndian 32 0x0257f7527159e0d8011b52e832b1e9dd4e41f4dd402cd2866505e8339b81000d)] := by
  simp only [bundleSignatures, hexBytes, Str.lit_append]
  repeat rw [Str.lit_ofList]
  rfl

/-- Packages that know these signatures. -/
def sampleEvidence : Evidence where
  packages := referencePackages fun _ _ _ => false
  verify publicKey message signature :=
    publicKey == samplePublicKey && bundleSignatures.contains (message, signature)
  verifyReceipt _ _ _ := none
  rawEd25519Key _ := none
  probe := []
  intOf _ := raise .typeError "int() argument must be a string or a number"
  strOf _ := []

/-- The signed checkpoint of the sample log at its full size. -/
def coveringRecord : CheckpointRecord :=
  { sampleRecord with signature := Str.lit ("348bf0ccbca7a839655d79d2420aed2dd8165c0eacd1b262122d5dee1c5a2988" ++
      "1d4f32c2bc95afaf83c194408af57af2f498f20a91af4ab781d1083145284204") }

/-- A signed checkpoint at its first leaf, under the given log id. -/
def priorRecord (logId signature : String) : CheckpointRecord :=
  { sampleRecord with
    logId := Str.lit logId
    mmrSize := 1
    root := sampleRecord.prevRoot
    prevSize := 0
    prevRoot := []
    signature := Str.lit signature }

def ownPrior : CheckpointRecord :=
  priorRecord "log" ("c3bb7db8b655332688af5c965c05675283fb89f961119b208acc004c2116c593" ++
    "b98be9f05dcb86e0fab6ed0fe955688559277df717edc8ab9b50e6c149ec2201")

def foreignPrior : CheckpointRecord :=
  priorRecord "other" ("fe1cdc3e3bbb11a45bf0d931f6ca5fd27443b6413969672f070abfcad70c483e" ++
    "0257f7527159e0d8011b52e832b1e9dd4e41f4dd402cd2866505e8339b81000d")

/-- The sample log proves each of its leaves. -/
lemma bundleInclusion_ok (i : Fin 3) :
    (inclusionProof sampleNodes i.val (nodeCount 3)).toBool = true := by
  revert i
  rw [sampleNodes_bytes]
  decide +kernel

/-- The bundle of a record of the sample log between two checkpoints. -/
def sampleBundle (i : Fin 3) (prior : CheckpointRecord) : Bundle where
  v := 1
  capsuleId := toHex (List.replicate 32 (UInt8.ofNat (i.val + 1)))
  seq := i.val + 1
  receipt := []
  inclusionProof := ((inclusionProof sampleNodes i.val (nodeCount 3)).val (bundleInclusion_ok i)).toObj
  checkpoint := coveringRecord
  priorCheckpoint := some prior
  consistencyProof := some sampleProof.toObj
  checkpointCose := none

/-- The three records are signed. -/
lemma records_signed :
    verifyCheckpointSignatureOffline sampleEvidence sha256Hash coveringRecord = true ∧
    verifyCheckpointSignatureOffline sampleEvidence sha256Hash ownPrior = true ∧
    verifyCheckpointSignatureOffline sampleEvidence sha256Hash foreignPrior = true := by
  rw [coveringRecord, ownPrior, foreignPrior, priorRecord, priorRecord, sampleRecord, sampleEvidence,
    bundleSignatures_eq, samplePublicKey_eq, samplePeaks_bytes, samplePrevPeaks_bytes, sha256Hash_eq]
  simp only [Str.lit_append]
  repeat rw [Str.lit_ofList]
  refine ⟨?_, ?_, ?_⟩ <;> decide +kernel

/-- The sample log includes its records and extends its first leaf. -/
lemma sampleBundle_proofs :
    (∀ i : Fin 3, verifyInclusion sha256Hash (.bytes (bag sha256Hash samplePeaks))
      (.int coveringRecord.mmrSize) (.int ((i.val : ℤ) + 1 - 1))
      (.bytes (List.replicate 32 (UInt8.ofNat (i.val + 1))))
      ((inclusionProof sampleNodes i.val (nodeCount 3)).val (bundleInclusion_ok i)).toObj = true) ∧
    verifyConsistency sha256Hash (.bytes (bag sha256Hash samplePrevPeaks)) (.int 1)
      (.bytes (bag sha256Hash samplePeaks)) (.int coveringRecord.mmrSize) sampleProof.toObj = true := by
  simp only [sampleProof, samplePeaks_bytes, samplePrevPeaks_bytes, sampleNodes_bytes, sha256Hash_eq]
  constructor <;> decide +kernel

/-- A bundle of the sample log with a signed prior checkpoint at its first leaf is accepted. -/
lemma sampleBundle_accepted {i : Fin 3} {prior : CheckpointRecord}
    (signed : verifyCheckpointSignatureOffline sampleEvidence sha256Hash prior = true)
    (size : prior.mmrSize = 1) (root : prior.root = sampleRecord.prevRoot) :
    (verifyBundleLogIntegrity sampleEvidence sha256Hash (sampleBundle i prior) []).1 = true := by
  refine verifyBundleLogIntegrity_eq_true.mpr ⟨_, _, fromHex_toHex _, fromHex_toHex _,
    sampleBundle_proofs.1 i, records_signed.1,
    ⟨signed, size.symm, root.symm, _, bag sha256Hash samplePrevPeaks, rfl, ?_, ?_⟩, ?_, .inr ?_⟩
  · rw [root]
    exact fromHex_toHex _
  · rw [size]
    exact sampleBundle_proofs.2
  · intro cose absent
    cases absent
  · intro w hw
    cases hw

/-- Accepted bundles whose record is a leaf of the prior checkpoint, and whose prior checkpoint is of
another log. -/
theorem bundle_unbracketed :
    (verifyBundleLogIntegrity sampleEvidence sha256Hash (sampleBundle 0 ownPrior) []).1 = true ∧
    leafCountObj (.int ownPrior.mmrSize) = .ok 1 ∧ ¬ (1 : ℤ) ≤ (sampleBundle 0 ownPrior).seq - 1 ∧
    ¬ Bracketed sha256Hash (sampleBundle 0 ownPrior) ownPrior sampleDigests ∧
    (verifyBundleLogIntegrity sampleEvidence sha256Hash (sampleBundle 2 foreignPrior) []).1 = true ∧
    coveringRecord.logId ≠ foreignPrior.logId ∧
    ¬ Bracketed sha256Hash (sampleBundle 2 foreignPrior) foreignPrior sampleDigests := by
  refine ⟨sampleBundle_accepted records_signed.2.1 rfl rfl, rfl, by decide, ?_,
    sampleBundle_accepted records_signed.2.2 rfl rfl, by decide, ?_⟩
  · rintro ⟨-, -, -, ⟨n, count, le⟩, -⟩
    cases count
    exact absurd le (by decide)
  · rintro ⟨sameLog, -⟩
    exact absurd sameLog (by decide)

/-- The third leaf of the sample log lies between its two checkpoints. -/
theorem bracket_iff_sample :
    Bracketed sha256Hash (sampleBundle 2 ownPrior) ownPrior sampleDigests := by
  have accepted : (verifyBundleLogIntegrity sampleEvidence sha256Hash (sampleBundle 2 ownPrior) []).1 =
    true := sampleBundle_accepted records_signed.2.1 rfl rfl
  refine (bracket_iff rfl accepted sampleNodes_eq ?_ ?_ (injOn_lists ?_)).mpr ⟨rfl, 1, rfl, ?_⟩
  · decide +kernel
  · decide +kernel
  · simp only [sampleBundle, ownPrior, priorRecord, coveringRecord, sampleRecord, sampleProof,
      samplePeaks_bytes, samplePrevPeaks_bytes, sampleNodes_bytes, sha256Hash_eq]
    decide +kernel
  · decide

end CLL.Checkpoint
