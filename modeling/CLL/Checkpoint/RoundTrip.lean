import CLL.Checkpoint.Signer
import CLL.Checkpoint.Soundness

/-!
# Reading back what was encoded

`decodeClaims_encoded` says what the verifier reads in the claims that `encode_checkpoint_claims` wrote.
-/

namespace CLL.Checkpoint
open CLL.Core
open PostOrder

variable {P : Packages} {H : HashFunction}

/-- Peaks of 32 bytes are read back from their byte strings. -/
lemma mapM_peaks {what : String} {ps : List Bytes} (len : ∀ p ∈ ps, p.length = 32) :
    ((ps.map Cbor.bytes).mapM fun
      | .bytes p => do
        require (p.length = 32) .valueError s!"{what} is not a CBOR array of 32-byte peak hashes"
        .ok p
      | _ => raise .valueError s!"{what} is not a CBOR array of 32-byte peak hashes" : Py (List Bytes)) =
      .ok ps := by
  induction ps with
  | nil => rfl
  | cons p ps ih =>
    rw [List.forall_mem_cons] at len
    rw [List.map_cons, List.mapM_cons]
    dsimp only
    rw [require_of len.1, ok_bind, ok_bind, ih len.2]
    rfl

/-- The peaks of a commitment object are read back. -/
lemma decodeCommitment_commitmentObject (lawful : P.cbor2.Lawful) {ps : List Bytes} {raw : Bytes}
    (ok : commitmentObject ps = .ok raw) (what : String) : decodeCommitment P raw what = .ok ps := by
  obtain ⟨len, small, rfl⟩ := commitmentObject_eq_ok.mp ok
  rw [decodeCommitment, Cbor.loads_encode lawful (Cbor.plain_strings ps) (fits_peaks len small)]
  exact mapM_peaks len

/-- Hexadecimal text is decoded by `bytes.fromhex`. -/
lemma bytesFromHex_eq_ok {s : Str} {b : Bytes} : bytesFromHex s = .ok b ↔ fromHex s = some b := by
  unfold bytesFromHex
  cases fromHex s <;> simp

/-- The proof with its digests in lower case, as the verifier reads it. -/
def normalProof (p : ConsistencyProof) (oldPeaks : List Bytes) (witness : List (List Bytes))
    (newPeaks : List Bytes) : ConsistencyProof :=
  ⟨1, .lit "consistency", p.sizeA, p.sizeB, oldPeaks.map toHex, witness.map fun w => w.map toHex,
    newPeaks.map toHex⟩

/-- The claim that a proof is encoded as. -/
def proofFields (p : ConsistencyProof) (oldPeaks : List Bytes) (witness : List (List Bytes))
    (newPeaks : List Bytes) : List (Cbor × Cbor) :=
  [(label "size_a", .int p.sizeA),
    (label "size_b", .int p.sizeB),
    (label "old_peaks", .array (oldPeaks.map .bytes)),
    (label "witness", .array (witness.map fun w => .array (w.map .bytes))),
    (label "new_peaks", .array (newPeaks.map .bytes))]

/-- A list of byte strings is read as their hexadecimal text. -/
lemma hexItems_bytes (ps : List Bytes) : hexItems P (.array (ps.map .bytes)) = .ok (ps.map toHex) := by
  have all : (ps.map Cbor.bytes).mapM (hexItem P) = .ok (ps.map toHex) := by
    induction ps with
    | nil => rfl
    | cons p ps ih =>
      rw [List.map_cons, List.mapM_cons, ih]
      rfl
  rw [hexItems, items, ok_bind, all]

/-- A list of lists of byte strings is read as their hexadecimal text. -/
lemma hexItems_witness (ws : List (List Bytes)) :
    (ws.map fun w => Cbor.array (w.map .bytes)).mapM (hexItems P) =
      .ok (ws.map fun w => w.map toHex) := by
  induction ws with
  | nil => rfl
  | cons w ws ih =>
    rw [List.map_cons, List.mapM_cons, hexItems_bytes, ok_bind, ih]
    rfl

/-- A text label is a label. -/
lemma isLabel_label (name : String) : (label name).IsLabel := trivial

/-- Labels are equal exactly where their texts are. -/
lemma label_inj {a b : String} : label a = label b ↔ a = b := by
  simp [label]

/-- A label is looked up field by field. -/
@[simp] lemma get?_cons_label (a b : String) (v : Cbor) (fields : List (Cbor × Cbor)) :
    Cbor.get? ((label a, v) :: fields) (label b) =
      if a = b then some v else Cbor.get? fields (label b) := by
  by_cases h : a = b
  · simp [Cbor.get?, label, h]
  · simp [Cbor.get?, label, h]

/-- Nothing is found in no fields. -/
@[simp] lemma get?_nil (k : Cbor) : Cbor.get? [] k = none := rfl

/-- The fields of a proof are plain. -/
lemma proofFields_plain (p : ConsistencyProof) (oldPeaks : List Bytes) (witness : List (List Bytes))
    (newPeaks : List Bytes) : (Cbor.map (proofFields p oldPeaks witness newPeaks)).Plain := by
  rw [Cbor.Plain, Cbor.plainFields_iff]
  constructor
  · simp [proofFields, label_inj]
  · intro f mem
    simp only [proofFields, List.mem_cons, List.not_mem_nil, or_false] at mem
    rcases mem with rfl | rfl | rfl | rfl | rfl
    · exact ⟨trivial, Cbor.plain_int _⟩
    · exact ⟨trivial, Cbor.plain_int _⟩
    · exact ⟨trivial, Cbor.plain_strings _⟩
    · exact ⟨trivial, Cbor.plain_paths _⟩
    · exact ⟨trivial, Cbor.plain_strings _⟩

/-- An encoded proof is read back with its digests in lower case. -/
lemma consistencyProofFromCbor_proofFields (p : ConsistencyProof) (oldPeaks : List Bytes)
    (witness : List (List Bytes)) (newPeaks : List Bytes) :
    consistencyProofFromCbor P (Cbor.map (proofFields p oldPeaks witness newPeaks)).canonical =
      .ok (normalProof p oldPeaks witness newPeaks) := by
  have plain := proofFields_plain p oldPeaks witness newPeaks
  generalize eq : (Cbor.map (proofFields p oldPeaks witness newPeaks)).canonical = v
  have found : ∀ name, ∀ sorted, v = .map sorted → Cbor.get? sorted (label name) =
      (Cbor.get? (proofFields p oldPeaks witness newPeaks) (label name)).map Cbor.canonical :=
    fun name sorted e => Cbor.get?_canonical plain (eq.trans e) (isLabel_label name)
  obtain ⟨sorted, rfl⟩ : ∃ sorted, v = .map sorted := by
    rw [← eq, Cbor.canonical]
    exact ⟨_, rfl⟩
  have get (name : String) := found name sorted rfl
  have sizeA : item sorted "size_a" = .ok (.int p.sizeA) := by
    rw [item, get]
    simp [proofFields]
  have sizeB : item sorted "size_b" = .ok (.int p.sizeB) := by
    rw [item, get]
    simp [proofFields]
  have old : item sorted "old_peaks" = .ok (.array (oldPeaks.map .bytes)) := by
    rw [item, get]
    simp [proofFields, Cbor.canonical_strings]
  have wit : item sorted "witness" = .ok (.array (witness.map fun w => .array (w.map .bytes))) := by
    rw [item, get]
    simp [proofFields, Cbor.canonical_paths]
  have new : item sorted "new_peaks" = .ok (.array (newPeaks.map .bytes)) := by
    rw [item, get]
    simp [proofFields, Cbor.canonical_strings]
  have proof : proofOfFields P sorted = .ok (normalProof p oldPeaks witness newPeaks) := by
    rw [proofOfFields, old, ok_bind, hexItems_bytes, ok_bind, wit, ok_bind, items, ok_bind,
      hexItems_witness, ok_bind, new, ok_bind, hexItems_bytes, ok_bind, sizeA, ok_bind, toInt, ok_bind,
      sizeB, ok_bind, toInt, ok_bind]
    rfl
  rw [consistencyProofFromCbor, proof]

/-- The digits of a hex string in lower case. -/
def lowerHex (s : Str) : Option Str := (fromHex s).map toHex

/-- Lower case hexadecimal text is itself in lower case. -/
lemma lowerHex_toHex (b : Bytes) : lowerHex (toHex b) = some (toHex b) := by
  rw [lowerHex, fromHex_toHex, Option.map_some]

/-- `q` is the proof `p` as it is read back: version and kind fixed, digests in lower case. -/
structure SameProof (p q : ConsistencyProof) : Prop where
  v : q.v = 1
  kind : q.kind = .lit "consistency"
  sizeA : q.sizeA = p.sizeA
  sizeB : q.sizeB = p.sizeB
  oldPeaks : p.oldPeaks.mapM lowerHex = some q.oldPeaks
  witness : p.witness.mapM (fun w => w.mapM lowerHex) = some q.witness
  newPeaks : p.newPeaks.mapM lowerHex = some q.newPeaks

/-- `decoded` is the checkpoint `cp` as it is read back. -/
structure SameCheckpoint (cp : CheckpointRecord) (newPeakHashes : List Bytes)
    (prevPeakHashes : Option (List Bytes)) (consistencyProof : Option ConsistencyProof)
    (cadenceSeconds : Option ℤ) (decoded : DecodedCheckpointCose) : Prop where
  logId : decoded.logId = cp.logId
  mmrSize : decoded.mmrSize = cp.mmrSize
  prevSize : decoded.prevSize = cp.prevSize
  timestamp : decoded.timestamp = cp.timestamp
  cadence : decoded.cadenceSeconds = cadenceSeconds
  newPeakHashes : decoded.newPeakHashes = newPeakHashes
  root : lowerHex cp.root = some decoded.root
  prev : 0 < cp.prevSize → prevPeakHashes = some decoded.prevPeakHashes ∧
    lowerHex cp.prevRoot = some decoded.prevRoot
  first : cp.prevSize = 0 → decoded.prevPeakHashes = [] ∧ decoded.prevRoot = []
  noProof : consistencyProof = none → decoded.consistencyProof = none
  proof : ∀ p, consistencyProof = some p →
    ∃ q, decoded.consistencyProof = some q ∧ SameProof p q

/-- A proof is read back in one way. -/
lemma SameProof.unique {p q r : ConsistencyProof} (hq : SameProof p q) (hr : SameProof p r) : q = r := by
  obtain ⟨v, kind, sizeA, sizeB, oldPeaks, witness, newPeaks⟩ := q
  obtain ⟨v', kind', sizeA', sizeB', oldPeaks', witness', newPeaks'⟩ := r
  have e1 := hq.v.trans hr.v.symm
  have e2 := hq.kind.trans hr.kind.symm
  have e3 := hq.sizeA.trans hr.sizeA.symm
  have e4 := hq.sizeB.trans hr.sizeB.symm
  have e5 := Option.some.inj (hq.oldPeaks.symm.trans hr.oldPeaks)
  have e6 := Option.some.inj (hq.witness.symm.trans hr.witness)
  have e7 := Option.some.inj (hq.newPeaks.symm.trans hr.newPeaks)
  dsimp only at e1 e2 e3 e4 e5 e6 e7
  rw [e1, e2, e3, e4, e5, e6, e7]

/-- Decoded digests are read back in lower case. -/
lemma mapM_bytesFromHex {hs : List Str} {bs : List Bytes} (ok : hs.mapM bytesFromHex = .ok bs) :
    hs.mapM lowerHex = some (bs.map toHex) := by
  induction hs generalizing bs with
  | nil =>
    cases ok
    rfl
  | cons h hs ih =>
    rw [List.mapM_cons] at ok
    obtain ⟨b, hb, ok⟩ := bind_eq_ok.mp ok
    obtain ⟨rest, hrest, ok⟩ := bind_eq_ok.mp ok
    cases ok
    rw [List.mapM_cons, lowerHex, bytesFromHex_eq_ok.mp hb, ih hrest]
    rfl

/-- A decoded witness is read back in lower case. -/
lemma mapM_witness {ws : List (List Str)} {bs : List (List Bytes)}
    (ok : (ws.mapM fun w => w.mapM bytesFromHex) = .ok bs) :
    (ws.mapM fun w => w.mapM lowerHex) = some (bs.map fun w => w.map toHex) := by
  induction ws generalizing bs with
  | nil =>
    cases ok
    rfl
  | cons w ws ih =>
    rw [List.mapM_cons] at ok
    obtain ⟨b, hb, ok⟩ := bind_eq_ok.mp ok
    obtain ⟨rest, hrest, ok⟩ := bind_eq_ok.mp ok
    cases ok
    rw [List.mapM_cons, mapM_bytesFromHex hb, ih hrest]
    rfl

/-- An encoded proof is plain and is read back as the same proof. -/
lemma consistencyProofToCbor_eq_ok {p : ConsistencyProof} {v : Cbor}
    (ok : consistencyProofToCbor p = .ok v) :
    v.Plain ∧ ∃ q, consistencyProofFromCbor P v.canonical = .ok q ∧ SameProof p q := by
  obtain ⟨oldPeaks, hold, ok⟩ := bind_eq_ok.mp ok
  obtain ⟨witness, hwit, ok⟩ := bind_eq_ok.mp ok
  obtain ⟨newPeaks, hnew, ok⟩ := bind_eq_ok.mp ok
  cases ok
  refine ⟨proofFields_plain p oldPeaks witness newPeaks, _,
    consistencyProofFromCbor_proofFields p oldPeaks witness newPeaks, ?_⟩
  exact ⟨rfl, rfl, rfl, rfl, mapM_bytesFromHex hold, mapM_witness hwit, mapM_bytesFromHex hnew⟩

/-- What `encode_checkpoint_claims` has checked. -/
lemma encodeCheckpointClaims_eq_ok {cp : CheckpointRecord} {newPeakHashes : List Bytes}
    {prevPeakHashes : Option (List Bytes)} {consistencyProof : Option ConsistencyProof}
    {cadenceSeconds : Option ℤ} {fields : List (Cbor × Cbor)}
    (ok : encodeCheckpointClaims H cp newPeakHashes prevPeakHashes consistencyProof cadenceSeconds =
      .ok fields) :
    ∃ commitment prevCommitment proof,
      fields = claimsFields cp commitment prevCommitment cadenceSeconds proof ∧
      (∀ p ∈ consistencyProof, p.sizeA = cp.prevSize ∧ p.sizeB = cp.mmrSize) ∧
      commitmentObject newPeakHashes = .ok commitment ∧
      fromHex cp.root = some (bag H newPeakHashes) ∧
      (0 < cp.prevSize → ∃ ps, prevPeakHashes = some ps ∧ commitmentObject ps = .ok prevCommitment ∧
        fromHex cp.prevRoot = some (bag H ps)) ∧
      (¬0 < cp.prevSize → prevCommitment = []) ∧
      consistencyProof.mapM consistencyProofToCbor = .ok proof := by
  obtain ⟨_, span, ok⟩ := bind_eq_ok.mp ok
  obtain ⟨bagged, hbagged, ok⟩ := bind_eq_ok.mp ok
  obtain ⟨root, hroot, ok⟩ := bind_eq_ok.mp ok
  obtain ⟨_, same, ok⟩ := bind_eq_ok.mp ok
  obtain ⟨prevCommitment, hprev, ok⟩ := bind_eq_ok.mp ok
  obtain ⟨commitment, hcommitment, ok⟩ := bind_eq_ok.mp ok
  obtain ⟨proof, hproof, ok⟩ := bind_eq_ok.mp ok
  cases ok
  have len := (commitmentObject_eq_ok.mp hcommitment).1
  rw [rootFromPeaks_eq H len] at hbagged
  cases hbagged
  refine ⟨commitment, prevCommitment, proof, rfl, ?_, hcommitment, ?_, ?_, ?_, hproof⟩
  · rintro p hp
    cases hp
    exact require_eq_ok.mp span
  · rw [require_eq_ok.mp same]
    exact bytesFromHex_eq_ok.mp hroot
  · intro positive
    unfold prevCommitmentOf at hprev
    rw [if_pos positive] at hprev
    cases prevPeakHashes with
    | none => exact (raise_ne_ok hprev).elim
    | some ps =>
      obtain ⟨bagged, hbagged, ok⟩ := bind_eq_ok.mp hprev
      obtain ⟨root, hroot, ok⟩ := bind_eq_ok.mp ok
      obtain ⟨_, same, object⟩ := bind_eq_ok.mp ok
      rw [rootFromPeaks_eq H (commitmentObject_eq_ok.mp object).1] at hbagged
      refine ⟨ps, rfl, object, ?_⟩
      rw [Except.ok.inj hbagged, require_eq_ok.mp same]
      exact bytesFromHex_eq_ok.mp hroot
  · intro zero
    unfold prevCommitmentOf at hprev
    rw [if_neg zero] at hprev
    cases hprev
    rfl

/-- The claims of a checkpoint are plain. -/
lemma claimsFields_plain (cp : CheckpointRecord) (commitment prevCommitment : Bytes)
    (cadenceSeconds : Option ℤ) {proof : Option Cbor} (plain : ∀ p ∈ proof, p.Plain) :
    (Cbor.map (claimsFields cp commitment prevCommitment cadenceSeconds proof)).Plain := by
  rw [Cbor.Plain, Cbor.plainFields_iff]
  constructor
  · cases cadenceSeconds <;> cases proof <;> simp [claimsFields, label_inj]
  · intro f mem
    simp only [claimsFields, List.mem_append, List.mem_cons, List.not_mem_nil, or_false,
      Option.mem_toList, Option.map_eq_some_iff] at mem
    rcases mem with ((rfl | rfl | rfl | rfl | rfl | rfl) | ⟨n, -, rfl⟩) | ⟨p, hp, rfl⟩
    · exact ⟨trivial, Cbor.plain_str _⟩
    · exact ⟨trivial, Cbor.plain_int _⟩
    · exact ⟨trivial, Cbor.plain_bytes _⟩
    · exact ⟨trivial, Cbor.plain_int _⟩
    · exact ⟨trivial, Cbor.plain_bytes _⟩
    · exact ⟨trivial, Cbor.plain_str _⟩
    · exact ⟨trivial, Cbor.plain_int _⟩
    · exact ⟨trivial, plain p hp⟩

/-- The claims that were encoded are decoded to the checkpoint they were made from. -/
lemma decodeClaims_encoded (lawful : P.cbor2.Lawful) {cp : CheckpointRecord}
    {newPeakHashes : List Bytes} {prevPeakHashes : Option (List Bytes)}
    {consistencyProof : Option ConsistencyProof} {cadenceSeconds : Option ℤ}
    {fields : List (Cbor × Cbor)}
    (ok : encodeCheckpointClaims H cp newPeakHashes prevPeakHashes consistencyProof cadenceSeconds =
      .ok fields) {payload : Bytes} (encoded : P.cbor2.dumps (.map fields) = some payload)
    (logId : cp.logId ≠ []) (mmrSize : 0 ≤ cp.mmrSize) (prevSize : 0 ≤ cp.prevSize) (keyId : Str) :
    ∃ claims decoded, Cbor.loads P.cbor2 payload = .ok claims ∧
      decodeClaims P H claims (some cp.logId) (some (subjectOf cp.logId cp.mmrSize)) keyId =
        .ok decoded ∧
      SameCheckpoint cp newPeakHashes prevPeakHashes consistencyProof cadenceSeconds decoded ∧
      decoded.keyId = keyId := by
  obtain ⟨commitment, prevCommitment, proof, rfl, span, hcommitment, hroot, hprev, hfirst, hproof⟩ :=
    encodeCheckpointClaims_eq_ok ok
  -- The proof is plain, if there is one, and is read back.
  obtain ⟨plainProof, readProof⟩ : (∀ p ∈ proof, p.Plain) ∧
      ∃ q, (∀ sorted, Cbor.get? sorted (label "consistency_proof") = proof.map Cbor.canonical →
        decodeProof P sorted cp.prevSize cp.mmrSize = .ok q) ∧ (consistencyProof = none → q = none) ∧
        ∀ p, consistencyProof = some p → ∃ r, q = some r ∧ SameProof p r := by
    cases consistencyProof with
    | none =>
      cases hproof
      refine ⟨by simp, none, ?_, by simp, by simp⟩
      intro sorted e
      rw [decodeProof, e]
      rfl
    | some p =>
      obtain ⟨v, hv, e⟩ := bind_eq_ok.mp hproof
      cases e
      obtain ⟨plain, q, hq, same⟩ := consistencyProofToCbor_eq_ok (P := P) hv
      refine ⟨by simpa using plain, some q, ?_, by simp, ?_⟩
      · intro sorted e
        obtain ⟨d, rfl⟩ : ∃ d, v = .map d := by
          obtain ⟨_, _, hv⟩ := bind_eq_ok.mp hv
          obtain ⟨_, _, hv⟩ := bind_eq_ok.mp hv
          obtain ⟨_, _, hv⟩ := bind_eq_ok.mp hv
          cases hv
          exact ⟨_, rfl⟩
        have sizes := span p rfl
        rw [← same.sizeA, ← same.sizeB] at sizes
        rw [decodeProof, e, Option.map_some, Cbor.canonical]
        dsimp only
        rw [← Cbor.canonical, hq, ok_bind, require_of sizes, ok_bind]
      · rintro p' e
        cases e
        exact ⟨q, rfl, same⟩
  -- The claims are sorted when they are written, so each is looked up by its name.
  have plain := claimsFields_plain cp commitment prevCommitment cadenceSeconds plainProof
  obtain ⟨fit, rfl⟩ := lawful.dumps_eq _ _ plain encoded
  have loaded := Cbor.loads_encode lawful (Cbor.canonical_plain _ plain) (Cbor.canonical_fits _ fit)
  obtain ⟨sorted, eq⟩ : ∃ sorted, (Cbor.map (claimsFields cp commitment prevCommitment cadenceSeconds
      proof)).canonical = .map sorted := by
    rw [Cbor.canonical]
    exact ⟨_, rfl⟩
  have get (name : String) := Cbor.get?_canonical plain eq (isLabel_label name)
  rw [eq] at loaded ⊢
  obtain ⟨q, hq, noProof, someProof⟩ := readProof
  have proofRead : decodeProof P sorted cp.prevSize cp.mmrSize = .ok q := by
    apply hq
    rw [get]
    cases cadenceSeconds <;> cases proof <;> simp [claimsFields]
  have kind : kindClaim sorted = .ok () := by
    rw [kindClaim, get]
    simp [claimsFields, require_of]
  have size : sizeClaim sorted "log_size" = .ok cp.mmrSize := by
    rw [sizeClaim_eq_ok, get]
    simp [claimsFields, mmrSize]
  have prev : sizeClaim sorted "prev_size" = .ok cp.prevSize := by
    rw [sizeClaim_eq_ok, get]
    simp [claimsFields, prevSize]
  have raw : commitmentClaim sorted = .ok commitment := by
    rw [commitmentClaim, get]
    simp [claimsFields]
  have issued : issuedAtClaim sorted = .ok cp.timestamp := by
    rw [issuedAtClaim, get]
    simp [claimsFields]
  have cadence : decodeCadence sorted = .ok cadenceSeconds := by
    rw [decodeCadence, get]
    cases cadenceSeconds <;> cases proof <;> simp [claimsFields]
  have prevClaim : Cbor.get? sorted (label "prev_commitment") = some (.bytes prevCommitment) := by
    rw [get]
    simp [claimsFields]
  obtain ⟨prevPs, prevRoot, hprevPs, prevSome, prevNone⟩ : ∃ prevPs prevRoot,
      decodePrevCommitment P H sorted = .ok (prevPs, prevRoot) ∧
      (0 < cp.prevSize → prevPeakHashes = some prevPs ∧ lowerHex cp.prevRoot = some prevRoot) ∧
      (cp.prevSize = 0 → prevPs = [] ∧ prevRoot = []) := by
    -- The first checkpoint has an empty previous commitment.
    by_cases positive : 0 < cp.prevSize
    · obtain ⟨ps, rfl, hps, digits⟩ := hprev positive
      have read := decodeCommitment_commitmentObject lawful hps "prev_commitment"
      obtain ⟨len, -, rfl⟩ := commitmentObject_eq_ok.mp hps
      refine ⟨ps, toHex (bag H ps), ?_, ?_, by omega⟩
      · have truthy : (Cbor.bytes (Cbor.array (ps.map .bytes)).encode).truthy = true := by
          rw [Cbor.truthy, bne_iff_ne, Cbor.encode]
          exact List.append_ne_nil_of_left_ne_nil (Cbor.head_ne_nil _ _) _
        rw [decodePrevCommitment, prevClaim]
        dsimp only [Option.getD_some]
        rw [if_pos truthy, read, ok_bind, rootFromPeaks_eq H len, ok_bind]
      · intro _
        rw [lowerHex, digits]
        exact ⟨rfl, rfl⟩
    · obtain rfl := hfirst positive
      refine ⟨[], [], ?_, fun h => (positive h).elim, fun _ => ⟨rfl, rfl⟩⟩
      rw [decodePrevCommitment, prevClaim]
      rfl
  refine ⟨_, ⟨cp.logId, cp.mmrSize, toHex (bag H newPeakHashes), newPeakHashes, cp.prevSize, prevRoot,
    prevPs, cp.timestamp, keyId, cadenceSeconds, q⟩, loaded, ?_, ?_, rfl⟩
  · rw [decodeClaims, claimsMap, ok_bind, kind, ok_bind]
    dsimp only [Option.getD_some]
    rw [require_of logId, ok_bind, size, ok_bind, prev, ok_bind, raw, ok_bind,
      decodeCommitment_commitmentObject lawful hcommitment, ok_bind,
      rootFromPeaks_eq H (commitmentObject_eq_ok.mp hcommitment).1, ok_bind, hprevPs, ok_bind]
    dsimp only
    rw [issued, ok_bind, require_of rfl, ok_bind, cadence, ok_bind, proofRead, ok_bind]
  · exact ⟨rfl, rfl, rfl, rfl, rfl, rfl, by rw [lowerHex, hroot]; rfl, prevSome, prevNone, noProof,
      someProof⟩

variable {verify : Bytes → Bytes → Bytes → Bool}

/-- What `dumps` returns was written by the package. -/
lemma dumps_eq_ok {cbor2 : Cbor2} {v : Cbor} {b : Bytes} :
    dumps cbor2 v = .ok b ↔ cbor2.dumps v = some b := by
  unfold dumps
  cases cbor2.dumps v <;> simp

/-- The labels of a plain item are acceptable. -/
lemma checkLabels_plain {v : Cbor} (plain : v.Plain) (what : String) : checkLabels v what = .ok () := by
  cases v with
  | map fields =>
    rw [Cbor.Plain, Cbor.plainFields_iff] at plain
    obtain ⟨-, labels⟩ := plain
    rw [checkLabels]
    induction fields with
    | nil => rfl
    | cons f fields ih =>
      rw [List.forall_mem_cons] at labels
      have ih := ih labels.2
      obtain ⟨k, v⟩ := f
      simp only [List.forM_eq_forM, List.forM_cons] at ih ⊢
      cases k with
      | int n => exact ih
      | str s => exact ih
      | _ => exact labels.1.1.elim
  | _ => rfl

/-- What a signer signed. -/
lemma signCoseStatement_eq_ok (lawful : P.cbor2.Lawful) {key : KeyPair verify} {payload cose : Bytes}
    {contentType issuer subject : Str}
    (ok : key.signCoseStatement P.cbor2 payload contentType issuer subject = .ok cose) :
    ∃ signature, (protectedHeader key.publicKey contentType issuer subject).fits = true ∧
      let protectedBstr := (protectedHeader key.publicKey contentType issuer subject).canonical.encode
      signature = key.sign (sigStructure protectedBstr payload).encode ∧
      (envelope protectedBstr payload signature).fits = true ∧
      cose = (envelope protectedBstr payload signature).encode := by
  obtain ⟨protectedBstr, hprotected, ok⟩ := bind_eq_ok.mp ok
  obtain ⟨toSign, hsign, ok⟩ := bind_eq_ok.mp ok
  obtain ⟨fit, rfl⟩ := lawful.dumps_eq _ _ (protectedHeader_plain _ _ _ _) (dumps_eq_ok.mp hprotected)
  obtain ⟨-, rfl⟩ := lawful.dumps_eq _ _ (sigStructure_plain _ _) (dumps_eq_ok.mp hsign)
  obtain ⟨fits, rfl⟩ := lawful.dumps_eq _ _ (envelope_plain _ _ _) (dumps_eq_ok.mp ok)
  rw [sigStructure_canonical] at fits ⊢
  exact ⟨_, fit, rfl, fits, by rw [envelope_canonical]⟩

/-- The key of an accepted signature has 32 bytes. -/
lemma acceptableSignature_length {publicKey signature : Bytes}
    (ok : Ed25519.acceptableSignature publicKey (some signature) = true) : publicKey.length = 32 := by
  simp only [Ed25519.acceptableSignature, Bool.and_eq_true, beq_iff_eq] at ok
  exact ok.1.1.1.1

/-- The key is read out of a signed statement. -/
lemma extractKid_envelope (lawful : P.Lawful verify) {publicKey payload signature : Bytes}
    {contentType issuer subject : Str}
    (fit : (protectedHeader publicKey contentType issuer subject).fits = true)
    (fits : (envelope (protectedHeader publicKey contentType issuer subject).canonical.encode payload
      signature).fits = true) :
    extractKid P (envelope (protectedHeader publicKey contentType issuer subject).canonical.encode payload
      signature).encode = .ok (some publicKey) := by
  have plain := protectedHeader_plain publicKey contentType issuer subject
  have loaded := Cbor.loads_encode lawful.cbor2 (envelope_plain _ _ _) fits
  have header := Cbor.loads_encode lawful.cbor2 (Cbor.canonical_plain _ plain) (Cbor.canonical_fits _ fit)
  obtain ⟨sorted, eq⟩ : ∃ sorted, (protectedHeader publicKey contentType issuer subject).canonical =
      .map sorted := by
    rw [protectedHeader, Cbor.canonical]
    exact ⟨_, rfl⟩
  have get (n : ℤ) := Cbor.get?_canonical plain eq (k := .int n) trivial
  have labels := checkLabels_plain (Cbor.canonical_plain _ plain) "protected header"
  have read := lawful.strictDecode _ _ _ fits
  have truthy : (Cbor.bytes (protectedHeader publicKey contentType issuer subject).canonical.encode).truthy =
      true := by
    rw [eq, Cbor.truthy, bne_iff_ne, Cbor.encode]
    exact List.append_ne_nil_of_left_ne_nil (Cbor.head_ne_nil _ _) _
  have kid : Cbor.get? sorted (.int hdrKid) = some (.bytes publicKey) := by
    rw [get]
    simp [Cbor.get?, hdrKid, hdrCwtClaims]
  have claims : checkLabels ((Cbor.get? sorted (.int hdrCwtClaims)).getD (.map [])) "CWT claims" =
      .ok () := by
    have inner : (Cbor.map [(.int 1, .str issuer), (.int 2, .str subject)]).Plain := by
      rw [Cbor.Plain, Cbor.plainFields_iff]
      simp [Cbor.IsLabel]
    have found : Cbor.get? sorted (.int hdrCwtClaims) =
        some (Cbor.map [(.int 1, .str issuer), (.int 2, .str subject)]).canonical := by
      rw [get]
      simp [Cbor.get?, hdrKid, hdrCwtClaims]
    rw [found]
    exact checkLabels_plain (Cbor.canonical_plain _ inner) _
  rw [eq] at header labels truthy read loaded ⊢
  rw [extractKid, read]
  simp only [ok_bind, loaded, truthy, if_true, toBytes, header, labels, claims, kid]
  rfl

/-- The envelope that the signer made opens to the payload it signed. -/
lemma openEnvelope_signed (lawful : P.Lawful verify) {key : KeyPair verify} {payload cose : Bytes}
    {issuer subject : Str}
    (ok : key.signCoseStatement P.cbor2 payload contentType issuer subject = .ok cose) {claims : Cbor}
    (loaded : Cbor.loads P.cbor2 payload = .ok claims) :
    ∃ parsed, openEnvelope P cose = .ok (key.publicKey, parsed, claims) ∧ parsed.issuer = some issuer ∧
      parsed.subject = some subject := by
  obtain ⟨signature, fit, signed, fits, rfl⟩ := signCoseStatement_eq_ok lawful.cbor2 ok
  have acceptable := key.acceptable
    (sigStructure (protectedHeader key.publicKey contentType issuer subject).canonical.encode
      payload).encode
  have verifies := key.verifies
    (sigStructure (protectedHeader key.publicKey contentType issuer subject).canonical.encode
      payload).encode
  rw [← signed] at acceptable verifies
  have len := acceptableSignature_length acceptable
  obtain ⟨pem, hpem⟩ := lawful.publicKeyPem key.publicKey len
  have parsed := lawful.parseSignedStatement key.publicKey pem payload signature contentType issuer
    subject fit fits hpem
  rw [verifies] at parsed
  have kid := extractKid_envelope lawful fit fits
  have item := Cbor.loads_encode lawful.cbor2 (envelope_plain _ _ _) fits
  have own : Ed25519.coseSign1Signature P.cbor2 (envelope (protectedHeader key.publicKey contentType
      issuer subject).canonical.encode payload signature).encode = some signature := by
    rw [Ed25519.coseSign1Signature, item]
    rfl
  refine ⟨⟨true, some contentType, payload, some issuer, some subject⟩, ?_, rfl, rfl⟩
  rw [openEnvelope, kid, ok_bind]
  simp only [ok_bind, require_of len, own, require_of acceptable, hpem, parsed]
  rw [require_of trivial, ok_bind, require_of trivial, ok_bind, loaded, ok_bind]

/-- The commitments and the proof of a checkpoint are those of a log. -/
structure TrueFor (H : HashFunction) (cp : CheckpointRecord) (newPeakHashes : List Bytes)
    (prevPeakHashes : Option (List Bytes)) (proof : Option ConsistencyProof)
    (digests : List Digest) (nodes : List Bytes) (m n : ℕ) : Prop where
  build : addDigests H [] digests = .ok nodes
  le : m ≤ n
  count : n ≤ digests.length
  prevSize : cp.prevSize = nodeCount m
  mmrSize : cp.mmrSize = nodeCount n
  peaks : peakHashes nodes (nodeCount n) = .ok newPeakHashes
  prevPeaks : m ≠ 0 → ∃ ps, prevPeakHashes = some ps ∧ peakHashes nodes (nodeCount m) = .ok ps
  proof : ∀ p, proof = some p →
    ∃ q, consistencyProof nodes (nodeCount m) (nodeCount n) = .ok q ∧ SameProof p q

/-- A true checkpoint that was read back passes the check of its continuity. -/
lemma checkContinuity_true {cp : CheckpointRecord} {newPeakHashes : List Bytes}
    {prevPeakHashes : Option (List Bytes)} {proof : Option ConsistencyProof}
    {cadenceSeconds : Option ℤ} {digests : List Digest} {nodes : List Bytes} {m n : ℕ}
    (log : TrueFor H cp newPeakHashes prevPeakHashes proof digests nodes m n)
    {decoded : DecodedCheckpointCose}
    (same : SameCheckpoint cp newPeakHashes prevPeakHashes proof cadenceSeconds decoded)
    (root : fromHex cp.root = some (bag H newPeakHashes))
    (prevRoot : 0 < cp.prevSize → ∀ ps, prevPeakHashes = some ps → fromHex cp.prevRoot = some (bag H ps))
    (needed : ¬(0 < cp.prevSize ∧ proof = none)) (refused : ¬(proof ≠ none ∧ cp.prevSize = 0)) :
    checkContinuity H decoded = .ok () := by
  have small : nodeCount n < maxMmrSize := by
    obtain ⟨positions, hp, _⟩ := bind_eq_ok.mp log.peaks
    exact (peaks_eq_ok hp).1
  have mmr := IsMmr.of_addDigests log.build
  have count : n ≤ (leaves H digests).length := by
    rw [length_leaves]
    exact log.count
  cases proof with
  | none =>
    have zero : decoded.prevSize = 0 := by
      have nonneg : (0 : ℤ) ≤ nodeCount m := Int.natCast_nonneg _
      have prev := log.prevSize
      rw [same.prevSize]
      by_contra nonzero
      exact needed ⟨by omega, rfl⟩
    rw [checkContinuity, same.noProof rfl]
    exact require_of zero
  | some p =>
    obtain ⟨q, hq, sameProof⟩ := same.proof p rfl
    obtain ⟨r, hr, trueProof⟩ := log.proof p rfl
    cases sameProof.unique trueProof
    have positive : 0 < cp.prevSize := by
      have nonneg : (0 : ℤ) ≤ nodeCount m := Int.natCast_nonneg _
      have prev := log.prevSize
      by_contra zero
      exact refused ⟨by simp, by omega⟩
    have nonzero : m ≠ 0 := by
      rintro rfl
      rw [log.prevSize] at positive
      exact absurd positive (by decide)
    obtain ⟨ps, hps, peaks⟩ := log.prevPeaks nonzero
    obtain ⟨hprev, digits⟩ := same.prev positive
    cases hps.symm.trans hprev
    rw [mmr.peakHashes (log.le.trans count) (Nat.lt_of_le_of_lt (forestSize_le log.le) small)] at peaks
    have newPeaks := log.peaks
    rw [mmr.peakHashes count small] at newPeaks
    -- Both roots are read back from their digits.
    have rootA : fromHex decoded.prevRoot = some (bag H decoded.prevPeakHashes) := by
      rw [lowerHex, prevRoot positive _ hprev, Option.map_some, Option.some.injEq] at digits
      rw [← digits, fromHex_toHex]
    have rootB : fromHex decoded.root = some (bag H newPeakHashes) := by
      have digits := same.root
      rw [lowerHex, root, Option.map_some, Option.some.injEq] at digits
      rw [← digits, fromHex_toHex]
    obtain ⟨proof, hproof, accept⟩ := consistencyProof_accepted log.build log.le log.count small
    cases hr.symm.trans hproof
    rw [checkContinuity, hq]
    dsimp only
    rw [bytesFromHex_eq_ok.mpr rootA, ok_bind, bytesFromHex_eq_ok.mpr rootB, ok_bind]
    apply require_of
    rw [same.prevSize, log.prevSize, same.mmrSize, log.mmrSize, ← Except.ok.inj peaks,
      ← Except.ok.inj newPeaks]
    exact accept

/-- The statement of a true checkpoint is accepted under its key and read back. -/
lemma checkpointToCose_verified (lawful : P.Lawful verify) {H : HashFunction} {cp : CheckpointRecord}
    {newPeakHashes : List Bytes} {prevPeakHashes : Option (List Bytes)}
    {proof : Option ConsistencyProof} {cadenceSeconds : Option ℤ} (logId : cp.logId ≠ [])
    (mmrSize : 0 ≤ cp.mmrSize) (prevSize : 0 ≤ cp.prevSize) {key : KeyPair verify} {cose : Bytes}
    {digests : List Digest} {nodes : List Bytes} {m n : ℕ}
    (ok : checkpointToCose P.cbor2 H cp key newPeakHashes prevPeakHashes proof cadenceSeconds = .ok cose)
    (log : TrueFor H cp newPeakHashes prevPeakHashes proof digests nodes m n) :
    ∃ decoded, verifyCheckpointCoseOffline P H cose = .ok decoded ∧
      SameCheckpoint cp newPeakHashes prevPeakHashes proof cadenceSeconds decoded ∧
      decoded.keyId = toHex key.publicKey := by
  obtain ⟨_, needed, ok⟩ := bind_eq_ok.mp ok
  obtain ⟨_, refused, ok⟩ := bind_eq_ok.mp ok
  obtain ⟨fields, hfields, ok⟩ := bind_eq_ok.mp ok
  obtain ⟨payload, hpayload, ok⟩ := bind_eq_ok.mp ok
  obtain ⟨claims, decoded, loaded, hdecoded, same, keyId⟩ := decodeClaims_encoded lawful.cbor2 hfields
    (dumps_eq_ok.mp hpayload) logId mmrSize prevSize (toHex key.publicKey)
  obtain ⟨parsed, opened, issuer, subject⟩ := openEnvelope_signed lawful ok loaded
  obtain ⟨_, _, _, -, -, -, root, prev, -, -⟩ := encodeCheckpointClaims_eq_ok hfields
  have continuity : checkContinuity H decoded = .ok () := by
    apply checkContinuity_true log same root _ (require_eq_ok.mp needed) (require_eq_ok.mp refused)
    intro positive ps hps
    obtain ⟨ps', hps', -, digits⟩ := prev positive
    cases hps.symm.trans hps'
    exact digits
  refine ⟨decoded, ?_, same, keyId⟩
  rw [verifyCheckpointCoseOffline, opened, ok_bind]
  dsimp only
  rw [issuer, subject, hdecoded, ok_bind, continuity, ok_bind]

/-- The claims that a checkpoint is encoded as are decoded to it, up to the case of its digits and the
previous root of a first checkpoint, and the statement of a true checkpoint is accepted under its key. -/
theorem checkpointToCose_roundTrip (lawful : P.Lawful verify) (H : HashFunction) {cp : CheckpointRecord}
    (newPeakHashes : List Bytes) (prevPeakHashes : Option (List Bytes))
    (proof : Option ConsistencyProof) (cadenceSeconds : Option ℤ) (logId : cp.logId ≠ [])
    (mmrSize : 0 ≤ cp.mmrSize) (prevSize : 0 ≤ cp.prevSize) :
    (∀ fields payload keyId,
      encodeCheckpointClaims H cp newPeakHashes prevPeakHashes proof cadenceSeconds = .ok fields →
      P.cbor2.dumps (.map fields) = some payload →
      ∃ claims decoded, Cbor.loads P.cbor2 payload = .ok claims ∧
        decodeClaims P H claims (some cp.logId) (some (subjectOf cp.logId cp.mmrSize)) keyId =
          .ok decoded ∧
        SameCheckpoint cp newPeakHashes prevPeakHashes proof cadenceSeconds decoded) ∧
    ∀ (key : KeyPair verify) cose digests nodes m n,
      checkpointToCose P.cbor2 H cp key newPeakHashes prevPeakHashes proof cadenceSeconds = .ok cose →
      TrueFor H cp newPeakHashes prevPeakHashes proof digests nodes m n →
      ∃ decoded, verifyCheckpointCoseOffline P H cose = .ok decoded ∧
        SameCheckpoint cp newPeakHashes prevPeakHashes proof cadenceSeconds decoded ∧
        decoded.keyId = toHex key.publicKey := by
  constructor
  · intro fields payload keyId ok encoded
    obtain ⟨claims, decoded, loaded, hdecoded, same, -⟩ :=
      decodeClaims_encoded lawful.cbor2 ok encoded logId mmrSize prevSize keyId
    exact ⟨claims, decoded, loaded, hdecoded, same⟩
  · intro key cose digests nodes m n
    exact checkpointToCose_verified lawful logId mmrSize prevSize

/-- A proof whose digests are in lower case is the same proof as itself. -/
lemma sampleProof_same : SameProof sampleProof sampleProof := by
  constructor
  all_goals simp only [sampleProof, sampleNodes_bytes]
  all_goals decide +kernel

/-- The sample checkpoint is true of the sample log. -/
lemma sampleTrue : TrueFor sha256Hash sampleRecord samplePeaks (some samplePrevPeaks) (some sampleProof)
    sampleDigests sampleNodes 1 3 := by
  refine ⟨sampleNodes_eq, by decide, by decide, rfl, rfl, samplePeaks_eq, ?_, ?_⟩
  · intro _
    exact ⟨samplePrevPeaks, rfl, samplePrevPeaks_eq⟩
  · rintro p e
    cases e
    exact ⟨sampleProof, Py.eq_ok_val sampleProof_ok, sampleProof_same⟩

/-- A later checkpoint with its proof is encoded and read back. -/
theorem checkpointToCose_roundTrip_sample :
    ∃ decoded, verifyCheckpointCoseOffline (referencePackages (sampleVerify sampleSignature)) sha256Hash
        sampleStatement = .ok decoded ∧
      SameCheckpoint sampleRecord samplePeaks (some samplePrevPeaks) (some sampleProof) none decoded ∧
      decoded.keyId = toHex samplePublicKey := by
  have roundTrip := checkpointToCose_roundTrip (referencePackages_lawful (sampleVerify sampleSignature))
    sha256Hash samplePeaks (some samplePrevPeaks) (some sampleProof) none
    (show sampleRecord.logId ≠ [] by decide) (by decide) (by decide)
  exact roundTrip.2 (sampleKey sampleSignature sampleSignature_ok) sampleStatement sampleDigests
    sampleNodes 1 3 (Py.eq_ok_val sampleStatement_ok) sampleTrue

/-- A first checkpoint of the sample log whose log has no name. -/
def namelessRecord : CheckpointRecord where
  v := 1
  kind := Str.lit "mmr_checkpoint"
  logId := []
  mmrSize := nodeCount 3
  root := toHex (bag sha256Hash samplePeaks)
  prevSize := 0
  prevRoot := []
  keyId := toHex samplePublicKey
  timestamp := Str.lit "2026-01-01T00:00:00Z"
  signature := []
  witnesses := []

/-- The claims of a checkpoint without a log name are encoded. -/
lemma namelessClaims_ok :
    (encodeCheckpointClaims sha256Hash namelessRecord samplePeaks none none none).toBool = true := by
  simp only [namelessRecord, samplePeaks_bytes, samplePublicKey_eq, sha256Hash_eq]
  decide +kernel

/-- Its claims. -/
def namelessClaims : List (Cbor × Cbor) := Py.val _ namelessClaims_ok

/-- The claims of a log without a name are encoded but not decoded. -/
theorem decodeClaims_nameless :
    encodeCheckpointClaims sha256Hash namelessRecord samplePeaks none none none = .ok namelessClaims ∧
      ∃ payload, referenceCbor2.dumps (.map namelessClaims) = some payload ∧
        ∃ claims, Cbor.loads referenceCbor2 payload = .ok claims ∧
          ∀ verify keyId decoded, decodeClaims (referencePackages verify) sha256Hash claims
            (some namelessRecord.logId)
            (some (subjectOf namelessRecord.logId namelessRecord.mmrSize)) keyId ≠ .ok decoded := by
  have fit : (Cbor.map namelessClaims).fits = true := by
    simp only [namelessClaims, namelessRecord, samplePeaks_bytes, samplePublicKey_eq, sha256Hash_eq]
    decide +kernel
  have plain : (Cbor.map namelessClaims).Plain := by
    obtain ⟨commitment, prevCommitment, proof, eq, -, -, -, -, -, hproof⟩ :=
      encodeCheckpointClaims_eq_ok (Py.eq_ok_val namelessClaims_ok)
    cases hproof
    change (Cbor.map (Py.val _ namelessClaims_ok)).Plain
    rw [eq]
    have noProof : ∀ p ∈ (none : Option Cbor), p.Plain := by simp
    exact claimsFields_plain _ _ _ _ noProof
  obtain ⟨dumped, loaded⟩ := referenceCbor2_dumps plain fit
  refine ⟨Py.eq_ok_val namelessClaims_ok, _, dumped, _, loaded, ?_⟩
  intro verify keyId decoded ok
  obtain ⟨fields, _, ok⟩ := bind_eq_ok.mp ok
  obtain ⟨_, _, ok⟩ := bind_eq_ok.mp ok
  obtain ⟨_, named, _⟩ := bind_eq_ok.mp ok
  exact require_eq_ok.mp named rfl

end CLL.Checkpoint
