import CLL.Checkpoint.Soundness
import CLL.Go.Reference

/-!
# What an accepted Go checkpoint establishes

`ParseRecord` compares bagged roots, and it verifies the carried consistency proof for the sizes that the
proof names. It ties neither these sizes nor the numbers of peaks to the claims, as `encodeWireClaims` does
for the sizes when a statement is made. `parseRecord_established` says for which claims a record
establishes what it should.
-/

namespace CLL.Go
open PostOrder CLL.Core

variable (H : HashFunction)

/-- The first `n` entries of a log have the peaks `ps`, at the size `size`. -/
structure Commits (S : Set Bytes) (size : ℕ) (ps : List Bytes) (digests : List Digest)
    (nodes : List Bytes) (n : ℕ) : Prop where
  mmr : IsMmr H (leaves H digests) nodes
  le : n ≤ digests.length
  size_eq : size = nodeCount n
  peaks : ps = mountainHashes H (leaves H digests) n
  /-- Whatever the log hashes, for its nodes and for any of its roots, is among the strings `S`. -/
  store : ∀ s ∈ storeHashed digests nodes, s ∈ S
  roots : ∀ k ≤ n, ∀ s ∈ rootFromPeaksHashed H (mountainHashes H (leaves H digests) k), s ∈ S

/-- What an accepted record should establish, for a hash without collisions among the strings `S`. -/
structure Established (S : Set Bytes) (r : Record) : Prop where
  /-- The size is complete and the record has as many peaks as it has. -/
  complete : ∃ n, r.mmrSize = nodeCount n ∧ r.newPeaks.length = (mountains n).length
  /-- The carried proof is for the sizes and the peaks of the record. -/
  bridged : r.prevSize ≠ 0 → ∃ proof, r.consistencyProof = some proof ∧ proof.oldSize = r.prevSize ∧
    proof.newSize = r.mmrSize ∧ proof.oldPeaks = r.prevPeaks ∧ proof.newPeaks = r.newPeaks
  /-- The previous peaks are those every log that has the peaks had then. -/
  extension : r.prevSize ≠ 0 → ∀ digests nodes n, Commits H S r.mmrSize r.newPeaks digests nodes n →
    ∃ m ≤ n, r.prevSize = nodeCount m ∧ r.prevPeaks = mountainHashes H (leaves H digests) m

/-- The shape that `ParseRecord` does not check. -/
structure WellShaped (G : Packages) (wire : WireClaims) : Prop where
  /-- A first checkpoint has a complete size and as many peaks in `commitment` as it has. -/
  first : wire.prevSize = 0 → ∀ ps, decodeCommitment G wire.commitment.items "commitment" = .ok ps →
    ∃ n, wire.logSize = nodeCount n ∧ ps.length = (mountains n).length
  /-- The proof of a later one names its sizes and has as many peaks as the commitments. -/
  later : wire.prevSize ≠ 0 → ∀ proof, wire.consistencyProof = some proof →
    proof.sizeA = wire.prevSize ∧ proof.sizeB = wire.logSize ∧
      (∀ ps, decodePrevCommitment G wire = .ok ps → ps.length = (clonePeaks proof.oldPeaks).length) ∧
      ∀ ps, decodeCommitment G wire.commitment.items "commitment" = .ok ps →
        ps.length = (clonePeaks proof.newPeaks).length

/-- The strings `ParseRecord` hashes for a record. -/
def parseRecordHashed (G : Packages) (r : Record) : List Bytes :=
  rootFromPeaksHashed H r.newPeaks ++ rootFromPeaksHashed H r.prevPeaks ++
    match r.consistencyProof with
    | some proof => verifyConsistencyHashed G.merkleLog H proof
    | none => []

variable {H} {G : Packages}

/-- A commitment is the peaks that Go writes in the same bytes. -/
lemma decodeCommitment_eq_ok {data : Bytes} {name : String} {ps : List Bytes}
    (ok : decodeCommitment G data name = .ok ps) :
    G.unmarshalPeaks data = some ps ∧ G.marshalPeaks ps = some data ∧ ∀ p ∈ ps, p.length = 32 := by
  obtain ⟨peaks, read, ok⟩ := bind_eq_ok.mp ok
  obtain ⟨_, canonical, ok⟩ := bind_eq_ok.mp ok
  cases ok
  have canonical := check_eq_ok.mp canonical
  unfold commitmentObject at canonical
  split at canonical
  · rename_i all
    refine ⟨orError_eq_ok.mp read, canonical, fun p hp => ?_⟩
    exact beq_iff_eq.mp (List.all_eq_true.mp all p hp)
  · cases canonical

/-- The peaks of an earlier commitment have 32 bytes. -/
lemma decodePrevCommitment_length {wire : WireClaims} {ps : List Bytes}
    (ok : decodePrevCommitment G wire = .ok ps) : ∀ p ∈ ps, p.length = 32 := by
  unfold decodePrevCommitment at ok
  split at ok
  · cases ok
    simp
  · exact (decodeCommitment_eq_ok ok).2.2

/-- What the record of a statement consists of. -/
structure Reads (H : HashFunction) (G : Packages) (data : Bytes) (id : Identity) (r : Record) : Prop where
  identity : parseIdentity G data = .ok id
  newPeaks : decodeCommitment G id.wire.commitment.items "commitment" = .ok r.newPeaks
  prevPeaks : decodePrevCommitment G id.wire = .ok r.prevPeaks
  timestamp : parseTime id.wire.issuedAt = some r.timestamp
  logId : r.logId = id.issuer
  mmrSize : r.mmrSize = id.wire.logSize
  root : r.root = toHex (rootFromPeaks G.merkleLog r.newPeaks)
  prevSize : r.prevSize = id.wire.prevSize
  prevRoot : r.prevRoot =
    if id.wire.prevSize = 0 then [] else toHex (rootFromPeaks G.merkleLog r.prevPeaks)
  keyId : r.keyId = toHex id.kid
  proof : r.consistencyProof = id.wire.consistencyProof.map WireConsistencyProof.toProof
  consistency : checkConsistency H G r.prevSize r.prevPeaks r.newPeaks r.consistencyProof = .ok ()
  canonical : ∃ fields, r.payload.canonicalFields = .ok fields

/-- A record that is parsed was read from its statement. -/
lemma parseRecord_eq_ok {data : Bytes} {r : Record} (ok : parseRecord H G data = .ok r) :
    ∃ id, Reads H G data id r := by
  obtain ⟨id, identity, ok⟩ := bind_eq_ok.mp ok
  obtain ⟨newPeaks, hnew, ok⟩ := bind_eq_ok.mp ok
  obtain ⟨prevPeaks, hprev, ok⟩ := bind_eq_ok.mp ok
  obtain ⟨timestamp, ht, ok⟩ := bind_eq_ok.mp ok
  obtain ⟨_, consistency, ok⟩ := bind_eq_ok.mp ok
  obtain ⟨fields, canonical, ok⟩ := bind_eq_ok.mp ok
  cases ok
  exact ⟨id, identity, hnew, hprev, orError_eq_ok.mp ht, rfl, rfl, rfl, rfl, rfl, rfl, rfl, consistency,
    fields, canonical⟩

/-- A record with a predecessor has peaks of it and a proof that the verifier accepts. -/
lemma checkConsistency_eq_ok (lawful : G.merkleLog.Lawful H) {prevSize : ℕ} {prevPeaks newPeaks : List Bytes}
    {proof : Option ConsistencyProof}
    (ok : checkConsistency H G prevSize prevPeaks newPeaks proof = .ok ()) (later : prevSize ≠ 0) :
    ∃ p m n, proof = some p ∧ Checked H (bag H prevPeaks) (bag H newPeaks) p m n := by
  rw [checkConsistency, if_neg later] at ok
  obtain ⟨_, _, ok⟩ := bind_eq_ok.mp ok
  obtain ⟨p, hp, accept⟩ := check_eq_ok.mp ok
  rw [rootFromPeaks_eq lawful, rootFromPeaks_eq lawful] at accept
  obtain ⟨m, n, checked⟩ := (verifyConsistency_eq_true lawful).mp accept
  exact ⟨p, m, n, hp, checked⟩

/-- Equally many peaks with one root are the same peaks. -/
lemma Checked.peaks_eq (lawful : G.merkleLog.Lawful H) {S : Set Bytes} (inj : Set.InjOn H.digest S)
    {prevPeaks newPeaks : List Bytes} {p : ConsistencyProof} {m n : ℕ}
    (checked : Checked H (bag H prevPeaks) (bag H newPeaks) p m n)
    (run : ∀ s ∈ rootFromPeaksHashed H newPeaks ++ rootFromPeaksHashed H prevPeaks ++
      verifyConsistencyHashed G.merkleLog H p, s ∈ S)
    (lenPrev : ∀ q ∈ prevPeaks, q.length = 32) (lenNew : ∀ q ∈ newPeaks, q.length = 32)
    (countPrev : prevPeaks.length = p.oldPeaks.length) (countNew : newPeaks.length = p.newPeaks.length) :
    p.oldPeaks = prevPeaks ∧ p.newPeaks = newPeaks := by
  rw [checked.hashed_eq lawful] at run
  constructor
  · exact bag_pins inj countPrev.symm checked.oldPeaks lenPrev (fun s hs => run s (by simp [hs]))
      (fun s hs => run s (by simp [hs])) checked.oldRoot_eq
  · exact bag_pins inj countNew.symm checked.newPeaks lenNew (fun s hs => run s (by simp [hs]))
      (fun s hs => run s (by simp [hs])) checked.newRoot_eq

/-- A proof between the peaks of a record is about every log that has its new peaks. -/
lemma Checked.extension (lawful : G.merkleLog.Lawful H) {S : Set Bytes} (inj : Set.InjOn H.digest S)
    {oldRoot newRoot : Bytes} {p : ConsistencyProof} {m n : ℕ} (checked : Checked H oldRoot newRoot p m n)
    (run : ∀ s ∈ verifyConsistencyHashed G.merkleLog H p, s ∈ S) {digests : List Digest}
    {nodes : List Bytes} {k : ℕ} (log : Commits H S p.newSize p.newPeaks digests nodes k) :
    m ≤ k ∧ p.oldPeaks = mountainHashes H (leaves H digests) m := by
  obtain rfl : n = k := forestSize_injective (checked.newSize.symm.trans log.size_eq)
  have bridges := checked.bridges
  rw [log.peaks] at bridges
  rw [checked.hashed_eq lawful] at run
  refine ⟨checked.le, bridges.pins log.mmr (length_of_mem_leaves H digests) ?_ inj ?_ checked.oldPeaks ?_⟩
  · rw [length_leaves]
    exact log.le
  · exact fun s hs => log.store s (List.mem_append_right _ hs)
  · exact fun s hs => run s (List.mem_append_right _ hs)

/-- A record that `ParseRecord` and `VerifySignature` accept establishes what it should exactly when its
claims have the shape that `ParseRecord` does not check. -/
theorem parseRecord_established (lawful : G.merkleLog.Lawful H) {S : Set Bytes}
    (inj : Set.InjOn H.digest S) {data : Bytes} {r : Record} (parsed : parseRecord H G data = .ok r)
    (_verified : r.verifySignature G = .ok ()) (run : ∀ s ∈ parseRecordHashed H G r, s ∈ S) :
    ∃ id, parseIdentity G data = .ok id ∧ (Established H S r ↔ WellShaped G id.wire) := by
  obtain ⟨id, reads⟩ := parseRecord_eq_ok parsed
  refine ⟨id, reads.identity, ?_, ?_⟩
  -- What the log commits to has the shape that the parser does not check.
  · intro established
    constructor
    · intro _ ps hps
      cases hps.symm.trans reads.newPeaks
      rw [← reads.mmrSize]
      exact established.complete
    · intro later proof hproof
      obtain ⟨p, hp, oldSize, newSize, oldPeaks, newPeaks⟩ :=
        established.bridged (by rwa [reads.prevSize])
      rw [reads.proof, hproof] at hp
      cases hp
      refine ⟨oldSize.trans reads.prevSize, newSize.trans reads.mmrSize, ?_, ?_⟩
      · intro ps hps
        cases hps.symm.trans reads.prevPeaks
        exact congrArg List.length oldPeaks.symm
      · intro ps hps
        cases hps.symm.trans reads.newPeaks
        exact congrArg List.length newPeaks.symm
  · intro shaped
    have lenNew := (decodeCommitment_eq_ok reads.newPeaks).2.2
    have lenPrev := decodePrevCommitment_length reads.prevPeaks
    -- A first record carries no proof, so only its own shape is asked for.
    by_cases first : r.prevSize = 0
    · refine ⟨?_, fun later => (later first).elim, fun later => (later first).elim⟩
      rw [reads.mmrSize]
      exact shaped.first (by rw [← reads.prevSize, first]) _ reads.newPeaks
    · obtain ⟨p, m, n, hp, checked⟩ := checkConsistency_eq_ok lawful reads.consistency first
      obtain ⟨proof, hproof, rfl⟩ : ∃ proof, id.wire.consistencyProof = some proof ∧
          proof.toProof = p := Option.map_eq_some_iff.mp (reads.proof.symm.trans hp)
      obtain ⟨sizeA, sizeB, countPrev, countNew⟩ := shaped.later (by rwa [← reads.prevSize]) proof hproof
      rw [parseRecordHashed, hp] at run
      obtain ⟨oldPeaks, newPeaks⟩ := checked.peaks_eq lawful inj run lenPrev lenNew
        (countPrev _ reads.prevPeaks) (countNew _ reads.newPeaks)
      have oldSize : proof.toProof.oldSize = r.prevSize := sizeA.trans reads.prevSize.symm
      have newSize : proof.toProof.newSize = r.mmrSize := sizeB.trans reads.mmrSize.symm
      refine ⟨⟨n, ?_, ?_⟩, fun _ => ⟨_, hp, oldSize, newSize, oldPeaks, newPeaks⟩, ?_⟩
      · rw [← newSize, checked.newSize]
      · rw [← newPeaks, checked.newPeaks_length]
      · intro _ digests nodes k log
        rw [← newSize, ← newPeaks] at log
        obtain ⟨le, peaks⟩ := checked.extension lawful inj
          (fun s hs => run s (List.mem_append_right _ hs)) log
        exact ⟨m, le, by rw [← oldSize, checked.oldSize], by rw [← oldPeaks, peaks]⟩

/-- Packages that accept the signature of the sample statement. -/
def samplePackages : Packages :=
  referencePackages sha256Hash (Checkpoint.sampleVerify Checkpoint.sampleSignature)

/-- It is parsed. -/
lemma sampleStatement_parsed :
    (parseRecord sha256Hash samplePackages Checkpoint.sampleStatement).toBool = true := by
  simp only [samplePackages, Checkpoint.sampleStatement, Checkpoint.checkpointToCose,
    Checkpoint.KeyPair.signCoseStatement, Checkpoint.sampleKey, Checkpoint.sampleRecord, Checkpoint.sampleProof,
    Checkpoint.samplePeaks_bytes, Checkpoint.samplePrevPeaks_bytes, sampleNodes_bytes,
    Checkpoint.sampleVerify_eq, Checkpoint.samplePublicKey_eq, Checkpoint.sampleSignature_eq, sha256Hash_eq]
  decide +kernel

/-- Its record, of the sample log at its full size after the checkpoint at its first leaf. -/
def sampleParsed : Record := Result.val _ sampleStatement_parsed

/-- The strings that the sample log and the parser hash. -/
def sampleHashed : List Bytes :=
  storeHashed sampleDigests sampleNodes ++
    (Core.rootAtHashed sha256Hash sampleNodes (nodeCount 3) ++
      parseRecordHashed sha256Hash samplePackages sampleParsed)

/-- The record is verified, follows another one, and no two of the strings have one digest. -/
lemma sampleParsed_checks : ((sampleParsed.verifySignature samplePackages).toBool &&
    decide (sampleParsed.prevSize = 1 ∧ sampleParsed.consistencyProof.isSome = true ∧
      ∀ a ∈ sampleHashed, ∀ b ∈ sampleHashed, sha256Hash.digest a = sha256Hash.digest b → a = b)) = true := by
  simp only [sampleHashed, sampleParsed, samplePackages, Checkpoint.sampleStatement, Checkpoint.checkpointToCose,
    Checkpoint.KeyPair.signCoseStatement, Checkpoint.sampleKey, Checkpoint.sampleRecord, Checkpoint.sampleProof,
    Checkpoint.samplePeaks_bytes, Checkpoint.samplePrevPeaks_bytes, sampleNodes_bytes,
    Checkpoint.sampleVerify_eq, Checkpoint.samplePublicKey_eq, Checkpoint.sampleSignature_eq, sha256Hash_eq]
  decide +kernel

/-- The sample checkpoint with its proof establishes what it should exactly when its claims have the shape. -/
theorem parseRecord_established_sample :
    let S := {s | s ∈ storeHashed sampleDigests sampleNodes ∨
      s ∈ Core.rootAtHashed sha256Hash sampleNodes (nodeCount 3) ∨
        s ∈ parseRecordHashed sha256Hash samplePackages sampleParsed}
    sampleParsed.prevSize = 1 ∧ ∃ id, parseIdentity samplePackages Checkpoint.sampleStatement = .ok id ∧
      (Established sha256Hash S sampleParsed ↔ WellShaped samplePackages id.wire) := by
  obtain ⟨verified, checks⟩ := Bool.and_eq_true_iff.mp sampleParsed_checks
  obtain ⟨later, -, distinct⟩ := of_decide_eq_true checks
  refine ⟨later, parseRecord_established (referenceMerkleLog_lawful sha256Hash) (injOn_lists distinct)
    (Result.eq_ok_val sampleStatement_parsed) ?_ fun _ mem => .inr (.inr mem)⟩
  exact (Result.eq_ok_val verified).trans (congrArg Except.ok (Subsingleton.elim _ _))

/-- Packages that accept the signature of the statement with one peak for the size 2, which no tree
has. -/
def incompletePackages : Packages :=
  referencePackages sha256Hash (Checkpoint.sampleVerify Checkpoint.incompleteSignature)

/-- Whether a statement is accepted with the size 2. -/
def acceptedIncomplete (H : HashFunction) (P : Packages) (statement : Bytes) : Bool :=
  match parseRecord H P statement with
  | .ok r => (r.verifySignature P).toBool && r.mmrSize == 2
  | .error _ => false

/-- An incomplete statement that is accepted has a record of two leaves. -/
lemma exists_of_acceptedIncomplete {P : Packages} {statement : Bytes}
    (accepted : acceptedIncomplete H P statement = true) : ∃ r : Record,
    parseRecord H P statement = .ok r ∧ r.verifySignature P = .ok () ∧ r.mmrSize = 2 := by
  unfold acceptedIncomplete at accepted
  split at accepted
  · rename_i r parsed
    obtain ⟨verified, size⟩ := Bool.and_eq_true_iff.mp accepted
    exact ⟨r, parsed, (Result.eq_ok_val verified).trans (congrArg Except.ok (Subsingleton.elim _ _)),
      beq_iff_eq.mp size⟩
  · cases accepted

/-- The incomplete statement is accepted. -/
lemma incompleteStatement_accepted :
    acceptedIncomplete sha256Hash incompletePackages Checkpoint.incompleteStatement = true := by
  rw [incompletePackages, Checkpoint.incompleteStatement, Checkpoint.incompleteClaims,
    Checkpoint.samplePeak, Checkpoint.sampleVerify_eq, Checkpoint.samplePublicKey_eq,
    Checkpoint.incompleteSignature_eq, sha256Hash_eq]
  decide +kernel

/-- The incomplete statement is accepted and establishes nothing. -/
theorem parseRecord_incomplete : ∃ r : Record,
    parseRecord sha256Hash incompletePackages Checkpoint.incompleteStatement = .ok r ∧
      r.verifySignature incompletePackages = .ok () ∧ ∀ S, ¬ Established sha256Hash S r := by
  obtain ⟨r, parsed, verified, two⟩ := exists_of_acceptedIncomplete incompleteStatement_accepted
  refine ⟨r, parsed, verified, fun S established => ?_⟩
  obtain ⟨n, size, -⟩ := established.complete
  exact Checkpoint.nodeCount_ne_two n (size.symm.trans two)

end CLL.Go
