import CLL.Checkpoint.Signer

/-!
# What an accepted checkpoint statement establishes

The verifier compares bagged roots, so it never counts the peaks that `commitment` and `prev_commitment`
carry, and without a consistency proof it looks at neither size. `verifyCheckpointCoseOffline_established`
says for which claims an accepted statement commits to a tree of its size and extends the previous one.
-/

namespace CLL.Checkpoint
open CLL.Core
open PostOrder

/-- `size` is the size of a complete tree with `count` peaks. -/
def PeakCount (size : ℤ) (count : ℕ) : Prop :=
  ∃ n : ℕ, size = nodeCount n ∧ count = (mountains n).length

/-- The first `n` entries of a log have the peaks `ps`, at the size `size`. -/
structure Commits (H : HashFunction) (S : Set Bytes) (size : ℤ) (ps : List Bytes)
    (digests : List Digest) (nodes : List Bytes) (n : ℕ) : Prop where
  build : addDigests H [] digests = .ok nodes
  le : n ≤ digests.length
  size_eq : size = nodeCount n
  peaks : peakHashes nodes (nodeCount n) = .ok ps
  /-- Whatever the log hashes, for its nodes and for any of its roots, is among the strings `S`. -/
  store : ∀ m ∈ storeHashed digests nodes, m ∈ S
  roots : ∀ k ≤ n, ∀ m ∈ rootAtHashed H nodes (nodeCount k), m ∈ S

/-- What an accepted statement should establish, for a hash without collisions among the strings `S`. -/
structure Established (H : HashFunction) (S : Set Bytes) (decoded : DecodedCheckpointCose) : Prop where
  /-- The log size is complete and the commitment carries as many peaks as it has. -/
  complete : PeakCount decoded.mmrSize decoded.newPeakHashes.length
  /-- A previous size of zero comes with the empty previous commitment. -/
  first : decoded.prevSize = 0 → decoded.prevPeakHashes = [] ∧ decoded.prevRoot = []
  /-- Otherwise the previous commitment is the one every log that has the commitment had then. -/
  extension : decoded.prevSize ≠ 0 → ∀ digests nodes n,
    Commits H S decoded.mmrSize decoded.newPeakHashes digests nodes n →
      ∃ m ≤ n, decoded.prevSize = nodeCount m ∧
        peakHashes nodes (nodeCount m) = .ok decoded.prevPeakHashes

/-- The shape that the verifier does not check. -/
structure WellShaped (P : Packages) (H : HashFunction) (S : Set Bytes) (claims : List (Cbor × Cbor)) :
    Prop where
  /-- `commitment` holds as many peaks as the complete size `log_size` has. -/
  commitment : ∀ size raw ps, Cbor.get? claims (label "log_size") = some (.int size) →
    Cbor.get? claims (label "commitment") = some (.bytes raw) →
    decodeCommitment P raw "commitment" = .ok ps → PeakCount size ps.length
  /-- `prev_commitment` is absent, empty or false when `prev_size` is zero. -/
  first : Cbor.get? claims (label "prev_size") = some (.int 0) →
    ∀ v, Cbor.get? claims (label "prev_commitment") = some v → v.truthy = false
  /-- `prev_commitment` holds as many peaks as `prev_size` has, if any log has the commitment. -/
  previous : ∀ size raw ps prevSize prevRaw prevPs,
    Cbor.get? claims (label "log_size") = some (.int size) →
    Cbor.get? claims (label "commitment") = some (.bytes raw) →
    decodeCommitment P raw "commitment" = .ok ps →
    Cbor.get? claims (label "prev_size") = some (.int prevSize) → prevSize ≠ 0 →
    Cbor.get? claims (label "prev_commitment") = some (.bytes prevRaw) →
    decodeCommitment P prevRaw "prev_commitment" = .ok prevPs →
    (∃ digests nodes n, Commits H S size ps digests nodes n) → PeakCount prevSize prevPs.length

/-- The strings the verifier hashes for a decoded statement. -/
def continuityHashed (H : HashFunction) (decoded : DecodedCheckpointCose) : List Bytes :=
  rootFromPeaksHashed H decoded.newPeakHashes ++ rootFromPeaksHashed H decoded.prevPeakHashes ++
    match decoded.consistencyProof, fromHex decoded.prevRoot, fromHex decoded.root with
    | some proof, some rootA, some rootB =>
      verifyConsistencyHashed H (.bytes rootA) (.int decoded.prevSize) (.bytes rootB)
        (.int decoded.mmrSize) proof.toObj
    | _, _, _ => []

variable {P : Packages} {H : HashFunction}

/-- A size claim is a number that is not negative. -/
lemma sizeClaim_eq_ok {claims : List (Cbor × Cbor)} {name : String} {n : ℤ} :
    sizeClaim claims name = .ok n ↔
      Cbor.get? claims (label name) = some (.int n) ∧ 0 ≤ n := by
  unfold sizeClaim
  split
  · rename_i m e
    simp only [e, bind_eq_ok, require_eq_ok, exists_const, Except.ok.injEq, Option.some.injEq,
      Cbor.int.injEq]
    constructor
    · rintro ⟨nonneg, rfl⟩
      exact ⟨rfl, nonneg⟩
    · rintro ⟨rfl, nonneg⟩
      exact ⟨nonneg, rfl⟩
  · rename_i no
    constructor
    · intro e
      exact (raise_ne_ok e).elim
    · rintro ⟨e, -⟩
      exact (no n e).elim

/-- Every peak that is read has 32 bytes. -/
lemma mapM_peaks_length {what : String} {xs : List Cbor} {ps : List Bytes}
    (ok : (xs.mapM fun
      | .bytes p => do
        require (p.length = 32) .valueError s!"{what} is not a CBOR array of 32-byte peak hashes"
        .ok p
      | _ => raise .valueError s!"{what} is not a CBOR array of 32-byte peak hashes" : Py (List Bytes)) =
        .ok ps) : ∀ p ∈ ps, p.length = 32 := by
  induction xs generalizing ps with
  | nil =>
    cases ok
    simp
  | cons x xs ih =>
    rw [List.mapM_cons] at ok
    obtain ⟨p, first, ok⟩ := bind_eq_ok.mp ok
    obtain ⟨rest, others, ok⟩ := bind_eq_ok.mp ok
    cases ok
    rw [List.forall_mem_cons]
    refine ⟨?_, ih others⟩
    split at first
    · obtain ⟨_, len, e⟩ := bind_eq_ok.mp first
      cases e
      exact require_eq_ok.mp len
    · exact (raise_ne_ok first).elim

/-- The peaks of a commitment are digests. -/
lemma decodeCommitment_length {raw : Bytes} {what : String} {ps : List Bytes}
    (ok : decodeCommitment P raw what = .ok ps) : ∀ p ∈ ps, p.length = 32 := by
  unfold decodeCommitment at ok
  split at ok
  · exact (raise_ne_ok ok).elim
  · exact mapM_peaks_length ok
  · exact (raise_ne_ok ok).elim

/-- No item is encoded in no bytes. -/
lemma decodeCommitment_nil {what : String} {ps : List Bytes} :
    decodeCommitment P [] what ≠ .ok ps := by
  have none_ : ∀ v, Cbor.loads P.cbor2 [] ≠ .ok v := by
    intro v ok
    unfold Cbor.loads at ok
    split at ok
    · exact raise_ne_ok ok
    · obtain ⟨_, walked, _⟩ := bind_eq_ok.mp ok
      exact raise_ne_ok walked
  intro ok
  unfold decodeCommitment at ok
  split at ok
  · exact raise_ne_ok ok
  · rename_i e
    exact none_ _ e
  · exact raise_ne_ok ok

/-- A previous commitment that is not false is a byte string of peaks. -/
lemma decodePrevCommitment_eq_ok {claims : List (Cbor × Cbor)} {ps : List Bytes} {root : Str}
    (ok : decodePrevCommitment P H claims = .ok (ps, root)) :
    ((∀ v, Cbor.get? claims (label "prev_commitment") = some v → v.truthy = false) ∧ ps = [] ∧
        root = []) ∨
      ∃ raw, Cbor.get? claims (label "prev_commitment") = some (.bytes raw) ∧
        (Cbor.bytes raw).truthy = true ∧ decodeCommitment P raw "prev_commitment" = .ok ps ∧
        root = toHex (bag H ps) := by
  unfold decodePrevCommitment at ok
  cases found : Cbor.get? claims (label "prev_commitment") with
  | none =>
    rw [found] at ok
    cases ok
    simp
  | some v =>
    rw [found] at ok
    dsimp only [Option.getD_some] at ok
    by_cases truthy : v.truthy = true
    · rw [if_pos truthy] at ok
      right
      split at ok
      · rename_i raw
        obtain ⟨ps', hps, ok⟩ := bind_eq_ok.mp ok
        obtain ⟨root', hroot, ok⟩ := bind_eq_ok.mp ok
        cases ok
        rw [rootFromPeaks_eq H (decodeCommitment_length hps)] at hroot
        cases hroot
        exact ⟨raw, rfl, truthy, hps, rfl⟩
      · exact (raise_ne_ok ok).elim
    · rw [if_neg truthy] at ok
      cases ok
      left
      refine ⟨?_, rfl, rfl⟩
      rintro w e
      cases e
      exact Bool.eq_false_of_not_eq_true truthy

/-- What decoded claims say about the claims. -/
structure Reads (P : Packages) (H : HashFunction) (claims : List (Cbor × Cbor))
    (decoded : DecodedCheckpointCose) (raw : Bytes) : Prop where
  logSize : Cbor.get? claims (label "log_size") = some (.int decoded.mmrSize)
  prevSize : Cbor.get? claims (label "prev_size") = some (.int decoded.prevSize)
  commitment : Cbor.get? claims (label "commitment") = some (.bytes raw)
  peaks : decodeCommitment P raw "commitment" = .ok decoded.newPeakHashes
  root : decoded.root = toHex (bag H decoded.newPeakHashes)
  prev : decodePrevCommitment P H claims = .ok (decoded.prevPeakHashes, decoded.prevRoot)
  issuedAt : Cbor.get? claims (label "issued_at") = some (.str decoded.timestamp)

/-- The claims are a map. -/
lemma claimsMap_eq_ok {claims : Cbor} {fields : List (Cbor × Cbor)} :
    claimsMap claims = .ok fields ↔ claims = .map fields := by
  cases claims <;> simp [claimsMap]

/-- A commitment claim is a byte string. -/
lemma commitmentClaim_eq_ok {claims : List (Cbor × Cbor)} {raw : Bytes}
    (ok : commitmentClaim claims = .ok raw) :
    Cbor.get? claims (label "commitment") = some (.bytes raw) := by
  unfold commitmentClaim at ok
  split at ok
  · rename_i raw' found
    cases ok
    exact found
  · exact (raise_ne_ok ok).elim

/-- A time claim is a text. -/
lemma issuedAtClaim_eq_ok {claims : List (Cbor × Cbor)} {text : Str}
    (ok : issuedAtClaim claims = .ok text) : Cbor.get? claims (label "issued_at") = some (.str text) := by
  unfold issuedAtClaim at ok
  split at ok
  · rename_i text' found
    cases ok
    exact found
  · exact (raise_ne_ok ok).elim

/-- Decoded claims are read from the fields of their map. -/
lemma decodeClaims_eq_ok {claims : Cbor} {issuer subject : Option Str} {keyId : Str}
    {decoded : DecodedCheckpointCose}
    (ok : decodeClaims P H claims issuer subject keyId = .ok decoded) :
    ∃ fields raw, claims = .map fields ∧ Reads P H fields decoded raw ∧
      decoded.logId = issuer.getD [] ∧ decoded.keyId = keyId := by
  obtain ⟨fields, hfields, ok⟩ := bind_eq_ok.mp ok
  obtain ⟨_, _, ok⟩ := bind_eq_ok.mp ok
  obtain ⟨_, _, ok⟩ := bind_eq_ok.mp ok
  obtain ⟨mmrSize, hsize, ok⟩ := bind_eq_ok.mp ok
  obtain ⟨prevSize, hprev, ok⟩ := bind_eq_ok.mp ok
  obtain ⟨raw, hraw, ok⟩ := bind_eq_ok.mp ok
  obtain ⟨ps, hps, ok⟩ := bind_eq_ok.mp ok
  obtain ⟨root, hroot, ok⟩ := bind_eq_ok.mp ok
  obtain ⟨⟨prevPs, prevRoot⟩, hprevPs, ok⟩ := bind_eq_ok.mp ok
  obtain ⟨issuedAt, hissued, ok⟩ := bind_eq_ok.mp ok
  obtain ⟨_, _, ok⟩ := bind_eq_ok.mp ok
  obtain ⟨cadence, _, ok⟩ := bind_eq_ok.mp ok
  obtain ⟨proof, _, ok⟩ := bind_eq_ok.mp ok
  cases ok
  rw [rootFromPeaks_eq H (decodeCommitment_length hps)] at hroot
  cases hroot
  refine ⟨fields, raw, claimsMap_eq_ok.mp hfields, ?_, rfl, rfl⟩
  exact ⟨(sizeClaim_eq_ok.mp hsize).1, (sizeClaim_eq_ok.mp hprev).1, commitmentClaim_eq_ok hraw, hps, rfl,
    hprevPs, issuedAtClaim_eq_ok hissued⟩

/-- An accepted statement is one whose claims were read and whose continuity was checked. -/
lemma verifyCheckpointCoseOffline_eq_ok {coseBytes : Bytes} {decoded : DecodedCheckpointCose}
    (accept : verifyCheckpointCoseOffline P H coseBytes = .ok decoded) :
    ∃ kid parsed fields raw, openEnvelope P coseBytes = .ok (kid, parsed, .map fields) ∧
      Reads P H fields decoded raw ∧ decoded.logId = parsed.issuer.getD [] ∧
      decoded.keyId = toHex kid ∧ checkContinuity H decoded = .ok () := by
  obtain ⟨⟨kid, parsed, claims⟩, hopen, accept⟩ := bind_eq_ok.mp accept
  obtain ⟨decoded', hdecoded, accept⟩ := bind_eq_ok.mp accept
  obtain ⟨_, continuity, accept⟩ := bind_eq_ok.mp accept
  cases accept
  obtain ⟨fields, raw, rfl, reads, logId, keyId⟩ := decodeClaims_eq_ok hdecoded
  exact ⟨kid, parsed, fields, raw, hopen, reads, logId, keyId, continuity⟩

/-- Continuity was checked with a proof between complete sizes, or there is none and this is the first. -/
lemma checkContinuity_eq_ok {decoded : DecodedCheckpointCose} (ok : checkContinuity H decoded = .ok ()) :
    decoded.consistencyProof = none ∧ decoded.prevSize = 0 ∨
      ∃ proof rootA rootB, decoded.consistencyProof = some proof ∧
        fromHex decoded.prevRoot = some rootA ∧ fromHex decoded.root = some rootB ∧
        verifyConsistency H (.bytes rootA) (.int decoded.prevSize) (.bytes rootB)
          (.int decoded.mmrSize) proof.toObj = true := by
  have hex : ∀ {s b}, bytesFromHex s = .ok b → fromHex s = some b := by
    intro s b e
    unfold bytesFromHex at e
    split at e
    · rename_i found
      cases e
      exact found
    · exact (raise_ne_ok e).elim
  unfold checkContinuity at ok
  split at ok
  · rename_i proof found
    obtain ⟨rootA, hA, ok⟩ := bind_eq_ok.mp ok
    obtain ⟨rootB, hB, ok⟩ := bind_eq_ok.mp ok
    exact .inr ⟨proof, rootA, rootB, found, hex hA, hex hB, require_eq_ok.mp ok⟩
  · rename_i found
    exact .inl ⟨found, require_eq_ok.mp ok⟩

/-- A log that commits to peaks has them for its first leaves. -/
lemma Commits.peaks_eq {S : Set Bytes} {size : ℤ} {ps : List Bytes} {digests : List Digest}
    {nodes : List Bytes} {n : ℕ} (log : Commits H S size ps digests nodes n) :
    nodeCount n < maxMmrSize ∧ ps = mountainHashes H (leaves H digests) n := by
  have small : nodeCount n < maxMmrSize := by
    obtain ⟨positions, hp, _⟩ := bind_eq_ok.mp log.peaks
    exact (peaks_eq_ok hp).1
  have count : n ≤ (leaves H digests).length := by
    rw [length_leaves]
    exact log.le
  have peaks := log.peaks
  rw [(IsMmr.of_addDigests log.build).peakHashes count small] at peaks
  exact ⟨small, (Except.ok.inj peaks).symm⟩

/-- A log's peaks at an earlier size are as many as that size has. -/
lemma peakCount_of_peakHashes {digests : List Digest} {nodes : List Bytes} {m : ℕ} {ps : List Bytes}
    (build : addDigests H [] digests = .ok nodes) (le : m ≤ digests.length)
    (peaks : peakHashes nodes (nodeCount m) = .ok ps) : PeakCount (nodeCount m) ps.length := by
  obtain ⟨positions, hp, _⟩ := bind_eq_ok.mp peaks
  rw [(IsMmr.of_addDigests build).peakHashes (by rwa [length_leaves]) (peaks_eq_ok hp).1] at peaks
  cases peaks
  exact ⟨m, rfl, by rw [mountainHashes, List.length_map]⟩

/-- The size with a given number of peaks. -/
lemma PeakCount.of_nodeCount {m count : ℕ} (h : PeakCount (nodeCount m) count) :
    count = (mountains m).length := by
  obtain ⟨n, e, rfl⟩ := h
  rw [forestSize_injective (Int.ofNat_inj.mp e)]

/-- An accepted statement with a proof extends the logs that have its commitment, if it counts its peaks
as the previous size does. -/
lemma extension_of_proof {S : Set Bytes} (inj : Set.InjOn H.digest S) {claims : List (Cbor × Cbor)}
    {raw : Bytes} {decoded : DecodedCheckpointCose} (reads : Reads P H claims decoded raw)
    (run : ∀ m ∈ continuityHashed H decoded, m ∈ S) {proof : ConsistencyProof} {rootA rootB : Bytes}
    (hproof : decoded.consistencyProof = some proof) (hA : fromHex decoded.prevRoot = some rootA)
    (hB : fromHex decoded.root = some rootB)
    (accept : verifyConsistency H (.bytes rootA) (.int decoded.prevSize) (.bytes rootB)
      (.int decoded.mmrSize) proof.toObj = true)
    (count : PeakCount decoded.prevSize decoded.prevPeakHashes.length)
    (digits : decoded.prevRoot = toHex (bag H decoded.prevPeakHashes))
    (lenPrev : ∀ p ∈ decoded.prevPeakHashes, p.length = 32)
    {digests : List Digest} {nodes : List Bytes} {n : ℕ}
    (log : Commits H S decoded.mmrSize decoded.newPeakHashes digests nodes n) :
    ∃ m ≤ n, decoded.prevSize = nodeCount m ∧
      peakHashes nodes (nodeCount m) = .ok decoded.prevPeakHashes := by
  obtain ⟨small, same⟩ := log.peaks_eq
  obtain ⟨older, then_, -⟩ := exists_older (H := H) log.le small
  have mmr := IsMmr.of_addDigests log.build
  have len := length_of_mem_leaves H digests
  have count_n : n ≤ (leaves H digests).length := by
    rw [length_leaves]
    exact log.le
  have length_n : (digests.take n).length = n := List.length_take_of_le log.le
  have hashed : ∀ m ∈ rootFromPeaksHashed H decoded.newPeakHashes ++
      rootFromPeaksHashed H decoded.prevPeakHashes ++
      verifyConsistencyHashed H (.bytes rootA) (.int decoded.prevSize) (.bytes rootB)
        (.int decoded.mmrSize) proof.toObj, m ∈ S := by
    simpa only [continuityHashed, hproof, hA, hB] using run
  rw [reads.root, fromHex_toHex, same] at hB
  rw [digits, fromHex_toHex] at hA
  cases hA
  cases hB
  rw [log.size_eq] at accept hashed
  rw [← length_n] at accept hashed
  -- The proof is about the log when it held the first `n` leaves.
  have true_ : mountainHashes H (leaves H (digests.take n)) (digests.take n).length =
      mountainHashes H (leaves H digests) n := by
    rw [length_n, leaves_take, mountainHashes_take count_n]
  obtain ⟨m, le, eq, smallm, root⟩ := verifyConsistency_certifies then_ (congrArg (bag H) true_)
    inj
    (fun s hs => log.store s (storeHashed_older log.build then_ s hs))
    (fun s hs => log.roots n le_rfl s (by
      rw [mmr.rootAtHashed count_n small, ← true_]
      exact hs))
    (fun s hs => by
      rw [length_n] at hs
      exact hashed s (List.mem_append_right _ (by rwa [length_n])))
    (by rw [length_n] at accept ⊢; exact accept)
  rw [length_n] at le
  have eq : decoded.prevSize = nodeCount m := Obj.int.inj eq
  have le_m : m ≤ (leaves H digests).length := le.trans count_n
  rw [leaves_take, ← mountainHashes_take (by simpa using ⟨le, le.trans log.le⟩), List.take_take,
    Nat.min_eq_left le, mountainHashes_take le_m] at root
  refine ⟨m, le, eq, ?_⟩
  rw [mmr.peakHashes le_m smallm]
  rw [eq] at count
  -- Equally many peaks with the certified root are the certified peaks.
  refine congrArg Except.ok (bag_pins inj ?_ (length_of_mem_mountainHashes len le_m) lenPrev ?_ ?_ ?_)
  · rw [count.of_nodeCount, mountainHashes, List.length_map]
  · intro s hs
    exact log.roots m le s (by rwa [mmr.rootAtHashed le_m smallm])
  · intro s hs
    exact hashed s (List.mem_append_left _ (List.mem_append_right _ hs))
  · exact (Option.some.inj root).symm

/-- An accepted statement establishes what it should exactly when its claims have the shape that the
verifier does not check. -/
theorem verifyCheckpointCoseOffline_established {S : Set Bytes} (inj : Set.InjOn H.digest S)
    {coseBytes : Bytes} {decoded : DecodedCheckpointCose}
    (accept : verifyCheckpointCoseOffline P H coseBytes = .ok decoded)
    (run : ∀ m ∈ continuityHashed H decoded, m ∈ S) :
    ∃ kid parsed claims, openEnvelope P coseBytes = .ok (kid, parsed, .map claims) ∧
      (Established H S decoded ↔ WellShaped P H S claims) := by
  obtain ⟨kid, parsed, claims, raw, hopen, reads, -, -, continuity⟩ :=
    verifyCheckpointCoseOffline_eq_ok accept
  refine ⟨kid, parsed, claims, hopen, ?_, ?_⟩
  -- What the log commits to has the shape that the verifier does not check.
  · intro established
    constructor
    · intro size raw' ps hsize hraw hps
      cases hsize.symm.trans reads.logSize
      cases hraw.symm.trans reads.commitment
      cases hps.symm.trans reads.peaks
      exact established.complete
    · intro zero v hv
      obtain ⟨-, empty⟩ := established.first (by simpa using reads.prevSize.symm.trans zero)
      rcases decodePrevCommitment_eq_ok reads.prev with ⟨falsy, -⟩ | ⟨raw', -, -, hps, digits⟩
      · exact falsy v hv
      · have len := congrArg List.length (digits.symm.trans empty)
        have len32 := length_bag H (decodeCommitment_length hps)
        rw [length_toHex, len32] at len
        cases len
    · intro size raw' ps prevSize prevRaw prevPs hsize hraw hps hprev nonzero hprevRaw hprevPs
      rintro ⟨digests, nodes, n, log⟩
      cases hsize.symm.trans reads.logSize
      cases hraw.symm.trans reads.commitment
      cases hps.symm.trans reads.peaks
      cases hprev.symm.trans reads.prevSize
      obtain ⟨m, le, eq, peaks⟩ := established.extension nonzero digests nodes n log
      have count := peakCount_of_peakHashes log.build (le.trans log.le) peaks
      rcases decodePrevCommitment_eq_ok reads.prev with ⟨falsy, none_, -⟩ | ⟨raw'', hraw'', -, hps', -⟩
      · have empty := falsy _ hprevRaw
        obtain rfl : prevRaw = [] := by simpa [Cbor.truthy] using empty
        exact (decodeCommitment_nil hprevPs).elim
      · cases hprevRaw.symm.trans hraw''
        cases hprevPs.symm.trans hps'
        rwa [eq]
  -- With that shape the accepted proof is about the peaks of the log.
  · intro shaped
    constructor
    · exact shaped.commitment _ _ _ reads.logSize reads.commitment reads.peaks
    · intro zero
      rcases decodePrevCommitment_eq_ok reads.prev with ⟨-, none_, root⟩ | ⟨raw', hraw', truthy, -⟩
      · exact ⟨none_, root⟩
      · have falsy := shaped.first (by rw [reads.prevSize, zero]) _ hraw'
        rw [truthy] at falsy
        cases falsy
    · intro nonzero digests nodes n log
      rcases checkContinuity_eq_ok continuity with ⟨-, zero⟩ | ⟨proof, rootA, rootB, hproof, hA, hB, ok⟩
      · exact (nonzero zero).elim
      · rcases decodePrevCommitment_eq_ok reads.prev with ⟨-, -, root⟩ | ⟨raw', hraw', -, hps, digits⟩
        · rw [root] at hA
          cases hA
          cases verifyConsistency_length H ok
        · have count := shaped.previous _ _ _ _ _ _ reads.logSize reads.commitment reads.peaks
            reads.prevSize nonzero hraw' hps ⟨digests, nodes, n, log⟩
          exact extension_of_proof inj reads run hproof hA hB ok count digits
            (decodeCommitment_length hps) log

/-- What is computed of the sample log. -/
lemma sample_ok : (consistencyProof sampleNodes (nodeCount 1) (nodeCount 3)).toBool = true ∧
    (peakHashes sampleNodes (nodeCount 3)).toBool = true ∧
    (peakHashes sampleNodes (nodeCount 1)).toBool = true ∧
    Ed25519.acceptableSignature samplePublicKey (some sampleSignature) = true := by
  rw [samplePublicKey_eq, sampleSignature_eq, sampleNodes_bytes]
  decide +kernel

/-- The sample log proves its consistency. -/
lemma sampleProof_ok : (consistencyProof sampleNodes (nodeCount 1) (nodeCount 3)).toBool = true :=
  sample_ok.1

/-- The proof from the first sample digest to all three. -/
def sampleProof : ConsistencyProof := Py.val _ sampleProof_ok

/-- The sample log has its peaks. -/
lemma samplePeaks_ok : (peakHashes sampleNodes (nodeCount 3)).toBool = true := sample_ok.2.1

/-- The peaks of the sample log. -/
def samplePeaks : List Bytes := Py.val _ samplePeaks_ok

/-- The peaks of the sample log. -/
lemma samplePeaks_eq : peakHashes sampleNodes (nodeCount 3) = .ok samplePeaks :=
  Py.eq_ok_val samplePeaks_ok

/-- The sample log had its earlier peaks. -/
lemma samplePrevPeaks_ok : (peakHashes sampleNodes (nodeCount 1)).toBool = true := sample_ok.2.2.1

/-- The peak of its first leaf. -/
def samplePrevPeaks : List Bytes := Py.val _ samplePrevPeaks_ok

/-- The earlier peaks of the sample log. -/
lemma samplePrevPeaks_eq : peakHashes sampleNodes (nodeCount 1) = .ok samplePrevPeaks :=
  Py.eq_ok_val samplePrevPeaks_ok

/-- The bytes of the peaks of the sample log. -/
lemma samplePeaks_bytes : samplePeaks =
    [Cbor.bigEndian 32 0x510704c5a7336a3796cf4e418f3bac9004ac6a7fa735c3a952ab626435e32b1b,
      Cbor.bigEndian 32 0xacaa04663a8547a2f70c60cc18f9378796b13c4f9a08f70d6adae662365b30c6] := by
  apply Except.ok.inj
  rw [← samplePeaks_eq, sampleNodes_bytes]
  rfl

/-- The bytes of the earlier peaks of the sample log. -/
lemma samplePrevPeaks_bytes : samplePrevPeaks =
    [Cbor.bigEndian 32 0xdcffe786ded16d283c663846ad0c4ff26558fccde36ca9d30b2ea19eade9fc0e] := by
  apply Except.ok.inj
  rw [← samplePrevPeaks_eq, sampleNodes_bytes]
  rfl

/-- The checkpoint at its full size, after one at its first leaf. -/
def sampleRecord : CheckpointRecord where
  v := 1
  kind := Str.lit "mmr_checkpoint"
  logId := Str.lit "log"
  mmrSize := nodeCount 3
  root := toHex (bag sha256Hash samplePeaks)
  prevSize := nodeCount 1
  prevRoot := toHex (bag sha256Hash samplePrevPeaks)
  keyId := toHex samplePublicKey
  timestamp := Str.lit "2026-01-01T00:00:00Z"
  signature := []
  witnesses := []

/-- The sample signature may stand in an envelope. -/
lemma sampleSignature_ok :
    Ed25519.acceptableSignature samplePublicKey (some sampleSignature) = true := sample_ok.2.2.2

/-- The statement about the sample log is made. -/
lemma sampleStatement_ok : (checkpointToCose referenceCbor2 sha256Hash sampleRecord
    (sampleKey sampleSignature sampleSignature_ok) samplePeaks (some samplePrevPeaks)
    (some sampleProof) none).toBool = true := by
  simp only [checkpointToCose, KeyPair.signCoseStatement, sampleKey, sampleRecord, sampleProof,
    samplePeaks_bytes, samplePrevPeaks_bytes, sampleNodes_bytes, samplePublicKey_eq, sampleSignature_eq,
    sha256Hash_eq]
  decide +kernel

/-- Its statement. -/
def sampleStatement : Bytes := Py.val _ sampleStatement_ok

/-- The statement about the sample log is accepted. -/
lemma sampleStatement_accepted : (verifyCheckpointCoseOffline
    (referencePackages (sampleVerify sampleSignature)) sha256Hash sampleStatement).toBool = true := by
  simp only [sampleStatement, checkpointToCose, KeyPair.signCoseStatement, sampleKey, sampleRecord, sampleProof,
    samplePeaks_bytes, samplePrevPeaks_bytes, sampleNodes_bytes, samplePublicKey_eq, sampleSignature_eq,
    sha256Hash_eq]
  decide +kernel

/-- What the verifier returns for it. -/
def sampleDecoded : DecodedCheckpointCose := Py.val _ sampleStatement_accepted

/-- The strings that the sample log and its verifier hash. -/
def sampleHashed : List Bytes :=
  storeHashed sampleDigests sampleNodes ++
    (rootAtHashed sha256Hash sampleNodes (nodeCount 3) ++ continuityHashed sha256Hash sampleDecoded)

/-- They have different digests. -/
lemma sampleHashed_injOn : Set.InjOn sha256Hash.digest {s | s ∈ storeHashed sampleDigests sampleNodes ∨
    s ∈ rootAtHashed sha256Hash sampleNodes (nodeCount 3) ∨ s ∈ continuityHashed sha256Hash sampleDecoded} := by
  have distinct : ∀ a ∈ sampleHashed, ∀ b ∈ sampleHashed, sha256Hash.digest a = sha256Hash.digest b → a = b := by
    simp only [sampleHashed, sampleDecoded, sampleStatement, checkpointToCose, KeyPair.signCoseStatement,
      sampleKey, sampleRecord, sampleProof, samplePeaks_bytes, samplePrevPeaks_bytes, sampleNodes_bytes,
      samplePublicKey_eq, sampleSignature_eq, sha256Hash_eq]
    decide +kernel
  exact injOn_lists distinct

/-- The checkpoint of the sample log at its full size, after the one at its first leaf. -/
theorem verifyCheckpointCoseOffline_established_sample :
    let S := {s | s ∈ storeHashed sampleDigests sampleNodes ∨
      s ∈ rootAtHashed sha256Hash sampleNodes (nodeCount 3) ∨ s ∈ continuityHashed sha256Hash sampleDecoded}
    ∃ kid parsed claims, openEnvelope (referencePackages (sampleVerify sampleSignature)) sampleStatement =
        .ok (kid, parsed, .map claims) ∧
      (Established sha256Hash S sampleDecoded ↔
        WellShaped (referencePackages (sampleVerify sampleSignature)) sha256Hash S claims) :=
  verifyCheckpointCoseOffline_established sampleHashed_injOn (Py.eq_ok_val sampleStatement_accepted)
    fun _ mem => .inr (.inr mem)

/-- The peak of the first sample digest. -/
def samplePeak : Bytes := sha256Hash.digest (0 :: List.replicate 32 1)

/-- The claims of a first checkpoint that carries one peak for the size 2, which no tree has. -/
def incompleteClaims : Cbor :=
  .map [
    (label "kind", .str wireKind),
    (label "log_size", .int 2),
    (label "commitment", .bytes (Cbor.array [.bytes samplePeak]).encode),
    (label "prev_size", .int 0),
    (label "prev_commitment", .bytes []),
    (label "issued_at", .str (Str.lit "2026-01-01T00:00:00Z"))]

/-- The signed statement of these claims. -/
def incompleteStatement : Bytes :=
  (envelope
    (protectedHeader samplePublicKey contentType (Str.lit "log") (Str.lit "log#2")).canonical.encode
    incompleteClaims.canonical.encode incompleteSignature).encode

/-- The incomplete statement is accepted. -/
lemma incompleteStatement_ok : (verifyCheckpointCoseOffline
    (referencePackages (sampleVerify incompleteSignature)) sha256Hash incompleteStatement).toBool =
      true := by
  simp only [incompleteStatement, incompleteClaims, samplePeak, samplePublicKey_eq,
    incompleteSignature_eq, sha256Hash_eq]
  decide +kernel

/-- What the verifier returns for it. -/
def incompleteDecoded : DecodedCheckpointCose := Py.val _ incompleteStatement_ok

/-- No tree has two nodes. -/
lemma nodeCount_ne_two (n : ℕ) : nodeCount n ≠ 2 := by
  intro eq
  rcases Nat.lt_or_ge n 2 with lt | ge
  · have small : nodeCount n ≤ nodeCount 1 := forestSize_le (by omega)
    rw [eq] at small
    exact absurd small (by decide)
  · have large : nodeCount 2 ≤ nodeCount n := forestSize_le ge
    rw [eq] at large
    exact absurd large (by decide)

/-- The incomplete statement is accepted and establishes nothing. -/
theorem verifyCheckpointCoseOffline_incomplete :
    verifyCheckpointCoseOffline (referencePackages (sampleVerify incompleteSignature)) sha256Hash
        incompleteStatement = .ok incompleteDecoded ∧
      ∀ S, ¬Established sha256Hash S incompleteDecoded := by
  refine ⟨Py.eq_ok_val incompleteStatement_ok, ?_⟩
  intro S established
  obtain ⟨n, size, -⟩ := established.complete
  have two : incompleteDecoded.mmrSize = 2 := by
    simp only [incompleteDecoded, incompleteStatement, incompleteClaims, samplePeak, samplePublicKey_eq,
      incompleteSignature_eq, sha256Hash_eq]
    decide +kernel
  rw [two] at size
  exact nodeCount_ne_two n (by exact_mod_cast size.symm)

end CLL.Checkpoint
