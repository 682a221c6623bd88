import CLL.Checkpoint.Record
import CLL.Core.Consistency
import CLL.Core.Prefix
import CLL.Lib.AsciiJson

/-!
# Emitting checkpoints

`emit_checkpoint` of `checkpoint/emit.py`, which compares the root that the previous checkpoint carries with
the one of the log at that size before it signs, and `verify_checkpoint_consistency`, in that module and in
`ledger/checkpoint.py`.

`emitCheckpoint_iff` says that a checkpoint is emitted exactly over a log that the previous one is a proper
prefix of. The audit does not read the root that the earlier record of a pair carries;
`chain_iff` says that it finds every rollback exactly in chains whose records name their roots in turn.
-/

namespace CLL.Checkpoint
open CLL.Core PostOrder

/-- `Signer`. -/
structure Signer where
  keyId : Str
  sign : Str → Str

variable (H : HashFunction)

/-- `_root_hex` of a log with these nodes. -/
def rootHex (nodes : List Bytes) : ℤ → Py Str
  | .ofNat size => (rootAt H nodes size).map toHex
  | .negSucc _ => raise .invalidArgument "invalid MMR size"

/-- The `prev_size` and `prev_root` of the next checkpoint. -/
def checkPrev (nodes : List Bytes) (logId : Str) : Option CheckpointRecord → Py (ℤ × Str)
  | none => .ok (0, [])
  | some prev => do
    require (prev.logId = logId) .checkpoint "prev checkpoint belongs to another log_id"
    require (prev.mmrSize < nodes.length) .rollback
      (s!"MMR size {nodes.length} is not greater than previous checkpoint size {prev.mmrSize} -- " ++
        "monotonicity violated")
    let actualPrevRoot ← rootHex H nodes prev.mmrSize
    require (actualPrevRoot = prev.root) .rollback "log has been mutated"
    .ok (prev.mmrSize, prev.root)

/-- The unsigned record of `emit_checkpoint`. -/
def unsigned (nodes : List Bytes) (signer : Signer) (logId : Str) (prev : Option CheckpointRecord)
    (timestamp : Str) : Py CheckpointRecord := do
  require (nodes.length ≠ 0) .checkpoint "cannot checkpoint an empty MMR (no leaves appended yet)"
  let (prevSize, prevRoot) ← checkPrev H nodes logId prev
  let root ← rootHex H nodes nodes.length
  .ok ⟨1, Str.lit "mmr_checkpoint", logId, nodes.length, root, prevSize, prevRoot, signer.keyId,
    timestamp, [], []⟩

/-- `emit_checkpoint` over a log with these nodes, and the calls of `signer.sign`. -/
def emitCheckpoint (nodes : List Bytes) (signer : Signer) (logId : Str)
    (prev : Option CheckpointRecord) (timestamp : Str) : Py CheckpointRecord × List Str :=
  let prepared := do
    let cp ← unsigned H nodes signer logId prev timestamp
    let digest ← cp.digest H
    .ok (cp, digest)
  match prepared with
  | .error e => (.error e, [])
  | .ok (cp, digest) => (.ok { cp with signature := signer.sign digest }, [digest])

/-- `verify_checkpoint_consistency`. -/
def verifyCheckpointConsistency (prev current : CheckpointRecord) (nodes : List Bytes) : Bool :=
  verdict do
    ensure (current.logId = prev.logId)
    ensure (current.prevSize = prev.mmrSize)
    ensure (prev.mmrSize < current.mmrSize)
    let actual ← rootHex H nodes prev.mmrSize
    .ok (actual = current.prevRoot)

/-- `verify_checkpoint_consistency` of `ledger/checkpoint.py`. -/
def ledgerVerifyCheckpointConsistency (prev current : CheckpointRecord) (nodes : List Bytes) : Bool :=
  verdict do
    ensure (current.prevSize = prev.mmrSize)
    ensure (prev.mmrSize < current.mmrSize)
    let actual ← rootHex H nodes prev.mmrSize
    .ok (actual = current.prevRoot)

variable {H}

/-- Nodes that are read are in the store. -/
lemma node_lt_of_mapM {nodes : List Bytes} {ps : List ℕ} {hashes : List Bytes}
    (ok : ps.mapM (node nodes) = .ok hashes) {p : ℕ} (mem : p ∈ ps) : p < nodes.length := by
  induction ps generalizing hashes with
  | nil => cases mem
  | cons q ps ih =>
    rw [List.mapM_cons] at ok
    obtain ⟨first, head, ok⟩ := bind_eq_ok.mp ok
    obtain ⟨rest, tail, -⟩ := bind_eq_ok.mp ok
    cases List.mem_cons.mp mem with
    | inl e =>
      subst e
      by_contra ge
      rw [node, List.getElem?_eq_none (Nat.not_lt.mp ge)] at head
      exact raise_ne_ok head
    | inr mem => exact ih tail mem

/-- Every size that has a root is that of the first leaves of the log. -/
lemma rootAt_eq_ok {digests : List Digest} {nodes : List Bytes}
    (build : addDigests H [] digests = .ok nodes) {size : ℕ} {r : Bytes}
    (ok : rootAt H nodes size = .ok r) :
    ∃ m ≤ digests.length, size = nodeCount m ∧ nodeCount m < maxMmrSize := by
  obtain ⟨hashes, read, -⟩ := bind_eq_ok.mp ok
  obtain ⟨ps, positions, read⟩ := bind_eq_ok.mp read
  obtain ⟨small, m, rfl, rfl⟩ := peaks_eq_ok positions
  refine ⟨m, ?_, rfl, small⟩
  by_contra gt
  -- The mountain over the first leaf that the log lacks has no root in the store.
  obtain ⟨before, after, h, split, -⟩ := exists_mountain (Nat.not_le.mp gt)
  have mem : root h (digests.length / 2 ^ h) ∈ peakRoots m m.size := by
    rw [peakRoots_eq, split]
    simp
  have lt := node_lt_of_mapM read mem
  rw [(IsMmr.of_addDigests build).length_eq, length_leaves] at lt
  have complete := complete_of_root_lt lt
  exact absurd complete (Nat.not_le.mpr (Nat.lt_div_mul_add (Nat.two_pow_pos h) |>.trans_eq
    (Nat.succ_mul _ _).symm))

/-- A root that is read is that of a complete size. -/
lemma rootHex_eq_ok {digests : List Digest} {nodes : List Bytes}
    (build : addDigests H [] digests = .ok nodes) {size : ℤ} {root : Str}
    (ok : rootHex H nodes size = .ok root) :
    ∃ m ≤ digests.length, size = nodeCount m ∧ nodeCount m < maxMmrSize ∧
      ∃ r, rootAt H nodes (nodeCount m) = .ok r ∧ root = toHex r := by
  cases size with
  | ofNat size =>
    rw [rootHex, map_eq_ok] at ok
    obtain ⟨r, ok, rfl⟩ := ok
    obtain ⟨m, le, rfl, small⟩ := rootAt_eq_ok build ok
    exact ⟨m, le, rfl, small, r, ok, rfl⟩
  | negSucc => cases ok

/-- Two logs with one root at one size have the same leaves up to that size. -/
lemma rootHex_pins {S : Set Bytes} (inj : Set.InjOn H.digest S) {digestsA digestsB : List Digest}
    {nodesA nodesB : List Bytes} (buildA : addDigests H [] digestsA = .ok nodesA)
    (buildB : addDigests H [] digestsB = .ok nodesB) {size : ℤ} {root : Str}
    (rootA : rootHex H nodesA size = .ok root) (rootB : rootHex H nodesB size = .ok root)
    (inA : ∀ s ∈ storeHashed digestsA nodesA, s ∈ S)
    (inB : ∀ s ∈ storeHashed digestsB nodesB, s ∈ S)
    (inRootA : ∀ s ∈ rootAtHashed H nodesA size.toNat, s ∈ S)
    (inRootB : ∀ s ∈ rootAtHashed H nodesB size.toNat, s ∈ S) :
    ∃ m, size = nodeCount m ∧ m ≤ digestsA.length ∧ m ≤ digestsB.length ∧
      digestsA.take m = digestsB.take m := by
  obtain ⟨m, leA, rfl, small, a, readA, rfl⟩ := rootHex_eq_ok buildA rootA
  obtain ⟨n, leB, e, -, b, readB, same⟩ := rootHex_eq_ok buildB rootB
  obtain rfl := forestSize_injective (Int.ofNat_inj.mp e)
  obtain rfl := toHex_injective same
  exact ⟨m, rfl, leA, leB,
    rootAt_pins inj buildA buildB leA leB readA readB inA inB inRootA inRootB⟩

/-- The root of the first leaves of a log. -/
lemma rootHex_eq {digests : List Digest} {nodes : List Bytes}
    (build : addDigests H [] digests = .ok nodes) {m : ℕ} (le : m ≤ digests.length)
    (small : nodeCount m < maxMmrSize) :
    rootHex H nodes (nodeCount m) = .ok (toHex (bag H (mountainHashes H (leaves H digests) m))) := by
  have read := (IsMmr.of_addDigests build).rootAt (length_of_mem_leaves H digests)
    (by rwa [length_leaves]) small
  rw [← Int.ofNat_eq_natCast, rootHex, read]
  rfl

/-- Canonical JSON of printable fields is printable. -/
lemma printable_dumpsCanonical {fields : List (Str × Json)}
    (ok : ∀ f ∈ Json.sortFields fields, Json.Printable (Json.dumpsAscii f.2)) :
    Json.Printable (Json.dumpsCanonical (.obj fields)) := by
  rw [Json.dumpsCanonical, Json.sortKeys, Json.dumpsAscii, Json.dumpsFields_eq_map]
  refine Json.Printable.cons (by decide) (Json.Printable.append (Json.printable_commas ?_)
    (Json.printable_nil.cons (by decide)))
  intro t ht
  obtain ⟨f, hf, rfl⟩ := List.mem_map.mp ht
  refine (Json.printable_dumpAscii f.1).append (Json.Printable.cons (by decide) (ok f ?_))
  exact (List.mem_insertionSort Json.KeyLe).mp hf

/-- The signing body is ASCII, so a record always has a digest. -/
lemma digest_ok (cp : CheckpointRecord) : ∃ d, cp.digest H = .ok d := by
  have printable : Json.Printable cp.signingBody := by
    apply printable_dumpsCanonical
    intro f hf
    simp only [Json.sortFields, Json.sortKeys, List.mem_cons, List.not_mem_nil, or_false] at hf
    rcases hf with rfl | rfl | rfl | rfl | rfl | rfl | rfl | rfl | rfl
    case inr.inr.inr.inl | inl | inr.inr.inr.inr.inr.inl => exact Json.printable_dumpInt _
    all_goals exact Json.printable_dumpAscii _
  have ascii : ∀ c ∈ cp.signingBody, c < 128 := fun c hc => by
    have := printable c hc
    omega
  exact ⟨_, by rw [CheckpointRecord.digest, CheckpointRecord.hexdigest, Json.encode_of_ascii ascii]⟩

/-- The previous checkpoint passes exactly when its root is read again, at a smaller size. -/
lemma checkPrev_eq_ok {nodes : List Bytes} {logId : Str} {prev : CheckpointRecord} {x : ℤ × Str} :
    checkPrev H nodes logId (some prev) = .ok x ↔
      prev.logId = logId ∧ prev.mmrSize < nodes.length ∧
        rootHex H nodes prev.mmrSize = .ok prev.root ∧ x = (prev.mmrSize, prev.root) := by
  constructor
  · intro ok
    obtain ⟨_, sameLog, ok⟩ := bind_eq_ok.mp ok
    obtain ⟨_, grown, ok⟩ := bind_eq_ok.mp ok
    obtain ⟨actual, read, ok⟩ := bind_eq_ok.mp ok
    obtain ⟨_, same, final⟩ := bind_eq_ok.mp ok
    rw [require_eq_ok] at sameLog grown same
    exact ⟨sameLog, grown, same ▸ read, (Except.ok.inj final).symm⟩
  · rintro ⟨sameLog, grown, read, rfl⟩
    rw [checkPrev, require_of sameLog, ok_bind, require_of grown, ok_bind, read, ok_bind,
      require_of rfl, ok_bind]

/-- What an emitted record says, and that it was signed. -/
structure Emitted (H : HashFunction) (nodes : List Bytes) (logId : Str) (prev : Option CheckpointRecord)
    (cp : CheckpointRecord) : Prop where
  logId : cp.logId = logId
  mmrSize : cp.mmrSize = nodes.length
  filled : nodes.length ≠ 0
  root : rootHex H nodes nodes.length = .ok cp.root
  prev : checkPrev H nodes cp.logId prev = .ok (cp.prevSize, cp.prevRoot)

/-- What an emitted checkpoint says. -/
lemma Emitted.of_ok {nodes : List Bytes} {signer : Signer} {logId timestamp : Str}
    {prev : Option CheckpointRecord} {cp : CheckpointRecord}
    (ok : (emitCheckpoint H nodes signer logId prev timestamp).1 = .ok cp) :
    Emitted H nodes logId prev cp := by
  unfold emitCheckpoint at ok
  dsimp only at ok
  split at ok
  · cases ok
  · rename_i u digest prepared
    obtain ⟨v, built, prepared⟩ := bind_eq_ok.mp prepared
    obtain ⟨_, -, prepared⟩ := bind_eq_ok.mp prepared
    cases prepared
    obtain ⟨_, filled, built⟩ := bind_eq_ok.mp built
    obtain ⟨⟨prevSize, prevRoot⟩, checked, built⟩ := bind_eq_ok.mp built
    obtain ⟨root, read, built⟩ := bind_eq_ok.mp built
    cases built
    cases ok
    exact ⟨rfl, rfl, require_eq_ok.mp filled, read, checked⟩

/-- An emitted record is signed over its own digest. -/
lemma emitCheckpoint_signature {nodes : List Bytes} {signer : Signer} {logId timestamp : Str}
    {prev : Option CheckpointRecord} {cp : CheckpointRecord}
    (ok : (emitCheckpoint H nodes signer logId prev timestamp).1 = .ok cp) :
    cp.keyId = signer.keyId ∧ ∃ d, cp.digest H = .ok d ∧ cp.signature = signer.sign d := by
  unfold emitCheckpoint at ok
  dsimp only at ok
  split at ok
  · cases ok
  · rename_i u digest prepared
    obtain ⟨v, built, prepared⟩ := bind_eq_ok.mp prepared
    obtain ⟨d, hashed, prepared⟩ := bind_eq_ok.mp prepared
    cases prepared
    obtain ⟨_, -, built⟩ := bind_eq_ok.mp built
    obtain ⟨_, -, built⟩ := bind_eq_ok.mp built
    obtain ⟨_, -, built⟩ := bind_eq_ok.mp built
    cases built
    cases ok
    exact ⟨rfl, _, hashed, rfl⟩

/-- A nonempty log whose previous checkpoint passes is signed. -/
lemma emitCheckpoint_returns {nodes : List Bytes} {logId : Str} {prev : Option CheckpointRecord}
    {p : ℤ × Str} {root : Str} (filled : nodes.length ≠ 0)
    (checked : checkPrev H nodes logId prev = .ok p)
    (read : rootHex H nodes nodes.length = .ok root) (signer : Signer) (timestamp : Str) :
    ∃ cp, (emitCheckpoint H nodes signer logId prev timestamp).1 = .ok cp := by
  have built : unsigned H nodes signer logId prev timestamp =
      .ok ⟨1, Str.lit "mmr_checkpoint", logId, nodes.length, root, p.1, p.2, signer.keyId, timestamp,
        [], []⟩ := by
    rw [unsigned, require_of filled, ok_bind, checked, ok_bind]
    dsimp only
    rw [read, ok_bind]
  obtain ⟨d, hd⟩ := digest_ok (H := H) ⟨1, Str.lit "mmr_checkpoint", logId, nodes.length, root, p.1, p.2,
    signer.keyId, timestamp, [], []⟩
  unfold emitCheckpoint
  simp only [built, ok_bind, hd]
  exact ⟨_, rfl⟩

/-- Nothing is signed when nothing is emitted. -/
lemma emitCheckpoint_unsigned {nodes : List Bytes} {signer : Signer} {logId timestamp : Str}
    {prev : Option CheckpointRecord} {e : Error}
    (raised : (emitCheckpoint H nodes signer logId prev timestamp).1 = .error e) :
    (emitCheckpoint H nodes signer logId prev timestamp).2 = [] := by
  unfold emitCheckpoint at raised ⊢
  dsimp only at raised ⊢
  split at raised
  · rfl
  · cases raised

variable (H) in
/-- The strings hashed to build two logs and to compute their roots at a size. -/
def pairHashed (digestsA digestsB : List Digest) (nodesA nodesB : List Bytes) (size : ℕ) : List Bytes :=
  (storeHashed digestsA nodesA ++ storeHashed digestsB nodesB) ++
    (rootAtHashed H nodesA size ++ rootAtHashed H nodesB size)

/-- The store has as many nodes as its leaves need. -/
lemma length_of_addDigests {digests : List Digest} {nodes : List Bytes}
    (build : addDigests H [] digests = .ok nodes) : nodes.length = nodeCount digests.length := by
  rw [(IsMmr.of_addDigests build).length_eq, length_leaves]

/-- The root of a log is the root of every extension at its size. -/
lemma rootAt_of_prefix {digestsA digestsB : List Digest} {nodesA nodesB : List Bytes}
    (buildA : addDigests H [] digestsA = .ok nodesA) (buildB : addDigests H [] digestsB = .ok nodesB)
    (small : nodeCount digestsB.length < maxMmrSize) (extends_ : digestsA <+: digestsB) :
    rootAt H nodesA nodesA.length = rootAt H nodesB nodesA.length := by
  have le := extends_.length_le
  have fits : nodeCount digestsA.length < maxMmrSize := Nat.lt_of_le_of_lt (forestSize_le le) small
  rw [length_of_addDigests buildA,
    (IsMmr.of_addDigests buildA).rootAt (length_of_mem_leaves H _) (length_leaves H _).ge fits,
    (IsMmr.of_addDigests buildB).rootAt (length_of_mem_leaves H _) (by rwa [length_leaves]) fits,
    List.prefix_iff_eq_take.mp extends_, leaves_take, List.length_take_of_le le,
    mountainHashes_take (by rwa [length_leaves])]

/-- A log over which a checkpoint follows another one extends the log of the other. -/
lemma Emitted.extends {digestsA digestsB : List Digest} {nodesA nodesB : List Bytes}
    (buildA : addDigests H [] digestsA = .ok nodesA) (buildB : addDigests H [] digestsB = .ok nodesB)
    {logA logId : Str} {before : Option CheckpointRecord} {prev cp : CheckpointRecord}
    (first : Emitted H nodesA logA before prev) (second : Emitted H nodesB logId (some prev) cp)
    (inj : Set.InjOn H.digest {s | s ∈ pairHashed H digestsA digestsB nodesA nodesB nodesA.length}) :
    digestsA <+: digestsB ∧ digestsA ≠ digestsB ∧ logA = logId := by
  obtain ⟨sameLog, grown, read, -⟩ := checkPrev_eq_ok.mp second.prev
  rw [first.mmrSize] at grown read
  obtain ⟨m, size, leA, -, same⟩ := rootHex_pins inj buildA buildB first.root read
    (fun s hs => List.mem_append_left _ (List.mem_append_left _ hs))
    (fun s hs => List.mem_append_left _ (List.mem_append_right _ hs))
    (fun s hs => List.mem_append_right _ (List.mem_append_left _ hs))
    (fun s hs => List.mem_append_right _ (List.mem_append_right _ hs))
  rw [length_of_addDigests buildA] at size
  obtain rfl := forestSize_injective (Int.ofNat_inj.mp size)
  refine ⟨?_, ?_, ?_⟩
  · rw [List.take_length] at same
    exact List.prefix_iff_eq_take.mpr same
  · rintro rfl
    rw [buildA] at buildB
    cases buildB
    omega
  · rw [← first.logId, sameLog, second.logId]

/-- The proof that goes with a checkpoint over an extension is accepted. -/
lemma consistencyProof_of_prefix {digestsA digestsB : List Digest} {nodesA nodesB : List Bytes}
    (buildA : addDigests H [] digestsA = .ok nodesA) (buildB : addDigests H [] digestsB = .ok nodesB)
    (small : nodeCount digestsB.length < maxMmrSize) (extends_ : digestsA <+: digestsB) :
    ∃ rootA rootB proof, rootAt H nodesA nodesA.length = .ok rootA ∧
      rootAt H nodesB nodesB.length = .ok rootB ∧
      consistencyProof nodesB nodesA.length nodesB.length = .ok proof ∧
      verifyConsistency H (.bytes rootA) (.int nodesA.length) (.bytes rootB) (.int nodesB.length)
        proof.toObj = true := by
  have le := extends_.length_le
  have fits : nodeCount digestsA.length < maxMmrSize := Nat.lt_of_le_of_lt (forestSize_le le) small
  have mmrB := IsMmr.of_addDigests buildB
  have lens := length_of_mem_leaves H digestsB
  obtain ⟨proof, made, accepted⟩ := consistencyProof_accepted buildB le le_rfl small
  have rootA := rootAt_of_prefix buildA buildB small extends_
  rw [length_of_addDigests buildA] at rootA ⊢
  rw [length_of_addDigests buildB]
  rw [mmrB.rootAt lens (by rwa [length_leaves]) fits] at rootA
  exact ⟨_, _, proof, rootA, mmrB.rootAt lens (length_leaves H _).ge small, made, accepted⟩

/-- A checkpoint is emitted after another one exactly over a log that extends the one of the other. -/
theorem emitCheckpoint_iff {digestsA digestsB : List Digest} {nodesA nodesB : List Bytes}
    (buildA : addDigests H [] digestsA = .ok nodesA) (buildB : addDigests H [] digestsB = .ok nodesB)
    (small : nodeCount digestsB.length < maxMmrSize) {signerA signer : Signer}
    {logA logId timestampA timestamp : Str} {before : Option CheckpointRecord} {prev : CheckpointRecord}
    (emitted : (emitCheckpoint H nodesA signerA logA before timestampA).1 = .ok prev)
    (inj : Set.InjOn H.digest {s | s ∈ pairHashed H digestsA digestsB nodesA nodesB nodesA.length}) :
    ((∃ cp, (emitCheckpoint H nodesB signer logId (some prev) timestamp).1 = .ok cp) ↔
      digestsA <+: digestsB ∧ digestsA ≠ digestsB ∧ logA = logId) ∧
    (∀ cp, (emitCheckpoint H nodesB signer logId (some prev) timestamp).1 = .ok cp →
      cp.logId = logId ∧ cp.prevSize = nodesA.length ∧ cp.mmrSize = nodesB.length ∧
      ∃ rootA rootB proof, rootAt H nodesA nodesA.length = .ok rootA ∧ cp.prevRoot = toHex rootA ∧
        rootAt H nodesB nodesB.length = .ok rootB ∧ cp.root = toHex rootB ∧
        consistencyProof nodesB cp.prevSize cp.mmrSize = .ok proof ∧
        verifyConsistency H (.bytes rootA) (.int cp.prevSize) (.bytes rootB) (.int cp.mmrSize)
          proof.toObj = true) ∧
    (∀ e, (emitCheckpoint H nodesB signer logId (some prev) timestamp).1 = .error e →
      (emitCheckpoint H nodesB signer logId (some prev) timestamp).2 = []) := by
  have first := Emitted.of_ok emitted
  refine ⟨⟨?_, ?_⟩, ?_, fun e => emitCheckpoint_unsigned⟩
  -- What is returned extends the previous log, which is where collisions matter.
  · rintro ⟨cp, ok⟩
    exact first.extends buildA buildB (.of_ok ok) inj
  -- A proper extension of the same log passes every check.
  · rintro ⟨extends_, ne, rfl⟩
    have lt : digestsA.length < digestsB.length := by
      by_contra ge
      exact ne (extends_.eq_of_length_le (Nat.not_lt.mp ge))
    have grown : nodesA.length < nodesB.length := by
      rw [length_of_addDigests buildA, length_of_addDigests buildB]
      exact forestSize_strictMono lt
    have read : rootHex H nodesB nodesA.length = .ok prev.root := by
      rw [← first.root, ← Int.ofNat_eq_natCast, rootHex, rootHex,
        rootAt_of_prefix buildA buildB small extends_]
    have full := rootHex_eq buildB le_rfl small
    rw [← length_of_addDigests buildB] at full
    refine emitCheckpoint_returns (Nat.ne_of_gt (Nat.zero_lt_of_lt grown)) (p := (prev.mmrSize, prev.root))
      (checkPrev_eq_ok.mpr ⟨first.logId, ?_, ?_, rfl⟩) full signer timestamp
    · rw [first.mmrSize]
      exact_mod_cast grown
    · rwa [first.mmrSize]
  · intro cp ok
    have second := Emitted.of_ok ok
    obtain ⟨extends_, -, -⟩ := first.extends buildA buildB second inj
    obtain ⟨-, -, -, carried⟩ := checkPrev_eq_ok.mp second.prev
    obtain ⟨size, root⟩ := Prod.mk.inj carried
    obtain ⟨rootA, rootB, proof, readA, readB, made, accepted⟩ :=
      consistencyProof_of_prefix buildA buildB small extends_
    have hexA := first.root
    have hexB := second.root
    rw [← Int.ofNat_eq_natCast, rootHex, readA] at hexA
    rw [← Int.ofNat_eq_natCast, rootHex, readB] at hexB
    rw [size, first.mmrSize, second.mmrSize, root]
    exact ⟨second.logId, rfl, rfl, rootA, rootB, proof, readA, (Except.ok.inj hexA).symm, readB,
      (Except.ok.inj hexB).symm, made, accepted⟩

/-- No collision in a list is no collision in its set. -/
lemma injOn_list {H : HashFunction} {xs : List Bytes}
    (inj : ∀ m ∈ xs, ∀ n ∈ xs, H.digest m = H.digest n → m = n) : Set.InjOn H.digest {m | m ∈ xs} :=
  fun m hm n hn eq => inj m hm n hn eq

/-- The first leaf of the sample log makes one node. -/
lemma addDigests_samplePrefix : addDigests sha256Hash [] (sampleDigests.take 1) = .ok
    [Cbor.bigEndian 32 0xdcffe786ded16d283c663846ad0c4ff26558fccde36ca9d30b2ea19eade9fc0e] := by
  rw [sha256Hash_eq]
  decide +kernel

/-- It is stored. -/
lemma samplePrefix_ok : (addDigests sha256Hash [] (sampleDigests.take 1)).toBool = true := by
  rw [addDigests_samplePrefix]
  rfl

def samplePrefix : List Bytes := (addDigests sha256Hash [] (sampleDigests.take 1)).val samplePrefix_ok

/-- The nodes of the sample log at its first leaf. -/
lemma samplePrefix_eq : addDigests sha256Hash [] (sampleDigests.take 1) = .ok samplePrefix :=
  Py.eq_ok_val samplePrefix_ok

/-- They are one digest. -/
lemma samplePrefix_bytes : samplePrefix =
    [Cbor.bigEndian 32 0xdcffe786ded16d283c663846ad0c4ff26558fccde36ca9d30b2ea19eade9fc0e] :=
  Except.ok.inj (samplePrefix_eq.symm.trans addDigests_samplePrefix)

def sampleSigner : Signer := ⟨Str.lit "k", id⟩

/-- A checkpoint at the first leaf is emitted. -/
lemma samplePrev_ok :
    (emitCheckpoint sha256Hash samplePrefix sampleSigner (Str.lit "log") none []).1.toBool = true := by
  rw [sha256Hash_eq, samplePrefix_bytes]
  decide +kernel

def samplePrev : CheckpointRecord :=
  (emitCheckpoint sha256Hash samplePrefix sampleSigner (Str.lit "log") none []).1.val samplePrev_ok

/-- One at the full size is emitted after it. -/
theorem emitCheckpoint_iff_sample :
    ∃ cp, (emitCheckpoint sha256Hash sampleNodes sampleSigner (Str.lit "log") (some samplePrev) []).1 =
      .ok cp := by
  refine (emitCheckpoint_iff samplePrefix_eq sampleNodes_eq (by decide)
    (Py.eq_ok_val samplePrev_ok) (injOn_list ?_)).1.mpr ⟨List.take_prefix 1 _, by decide, rfl⟩
  simp only [samplePrefix_bytes, sampleNodes_bytes, sha256Hash_eq]
  decide +kernel

/-- What the audit of two checkpoints compares. -/
lemma verifyCheckpointConsistency_eq_true {prev current : CheckpointRecord} {nodes : List Bytes} :
    verifyCheckpointConsistency H prev current nodes = true ↔
      current.logId = prev.logId ∧ current.prevSize = prev.mmrSize ∧ prev.mmrSize < current.mmrSize ∧
        rootHex H nodes prev.mmrSize = .ok current.prevRoot := by
  rw [verifyCheckpointConsistency, verdict_eq_true]
  constructor
  · intro ok
    obtain ⟨_, sameLog, ok⟩ := bind_eq_ok.mp ok
    obtain ⟨_, size, ok⟩ := bind_eq_ok.mp ok
    obtain ⟨_, grown, ok⟩ := bind_eq_ok.mp ok
    obtain ⟨actual, read, same⟩ := bind_eq_ok.mp ok
    rw [ensure_eq_ok] at sameLog size grown
    rw [Except.ok.injEq, decide_eq_true_eq] at same
    exact ⟨sameLog, size, grown, same ▸ read⟩
  · rintro ⟨sameLog, size, grown, read⟩
    rw [ensure_of sameLog, ok_bind, ensure_of size, ok_bind, ensure_of grown, ok_bind, read, ok_bind,
      decide_eq_true rfl]

/-- The version of the ledger leaves the log ids out. -/
lemma ledgerVerifyCheckpointConsistency_eq_true {prev current : CheckpointRecord} {nodes : List Bytes} :
    ledgerVerifyCheckpointConsistency H prev current nodes = true ↔
      current.prevSize = prev.mmrSize ∧ prev.mmrSize < current.mmrSize ∧
        rootHex H nodes prev.mmrSize = .ok current.prevRoot := by
  rw [ledgerVerifyCheckpointConsistency, verdict_eq_true]
  constructor
  · intro ok
    obtain ⟨_, size, ok⟩ := bind_eq_ok.mp ok
    obtain ⟨_, grown, ok⟩ := bind_eq_ok.mp ok
    obtain ⟨actual, read, same⟩ := bind_eq_ok.mp ok
    rw [ensure_eq_ok] at size grown
    rw [Except.ok.injEq, decide_eq_true_eq] at same
    exact ⟨size, grown, same ▸ read⟩
  · rintro ⟨size, grown, read⟩
    rw [ensure_of size, ok_bind, ensure_of grown, ok_bind, read, ok_bind, decide_eq_true rfl]

variable (H) in
/-- One of the two functions accepts the pair. -/
def Audited (nodes : List Bytes) (prev current : CheckpointRecord) : Prop :=
  verifyCheckpointConsistency H prev current nodes = true ∨
    ledgerVerifyCheckpointConsistency H prev current nodes = true

/-- An audited root is read again. -/
lemma Audited.root {nodes : List Bytes} {prev current : CheckpointRecord}
    (audited : Audited H nodes prev current) :
    rootHex H nodes prev.mmrSize = .ok current.prevRoot := by
  cases audited with
  | inl accepted => exact (verifyCheckpointConsistency_eq_true.mp accepted).2.2.2
  | inr accepted => exact (ledgerVerifyCheckpointConsistency_eq_true.mp accepted).2.2

variable (H) in
/-- A checkpoint carries the root of the live log, and the log it was signed over is a prefix of it, where
`S` has the strings hashed for that log. -/
def Anchored (S : Set Bytes) (digests : List Digest) (nodes : List Bytes) (cp : CheckpointRecord) : Prop :=
  rootHex H nodes cp.mmrSize = .ok cp.root ∧
    ∀ digestsA nodesA, addDigests H [] digestsA = .ok nodesA → cp.mmrSize = nodesA.length →
      rootHex H nodesA cp.mmrSize = .ok cp.root → (∀ s ∈ storeHashed digestsA nodesA, s ∈ S) →
      (∀ s ∈ rootAtHashed H nodesA nodesA.length, s ∈ S) → digestsA <+: digests

/-- A checkpoint whose root is read again is anchored in the log. -/
lemma anchored_of_root {S : Set Bytes} (inj : Set.InjOn H.digest S) {digests : List Digest}
    {nodes : List Bytes} (build : addDigests H [] digests = .ok nodes)
    (inStore : ∀ s ∈ storeHashed digests nodes, s ∈ S) {cp : CheckpointRecord}
    (inRoot : ∀ s ∈ rootAtHashed H nodes cp.mmrSize.toNat, s ∈ S)
    (root : rootHex H nodes cp.mmrSize = .ok cp.root) : Anchored H S digests nodes cp := by
  refine ⟨root, ?_⟩
  intro digestsA nodesA buildA size rootA inA inRootA
  rw [size] at rootA root inRoot
  obtain ⟨m, e, -, -, same⟩ := rootHex_pins inj buildA build rootA root inA inStore inRootA inRoot
  rw [length_of_addDigests buildA] at e
  obtain rfl := forestSize_injective (Int.ofNat_inj.mp e)
  rw [List.take_length] at same
  exact List.prefix_iff_eq_take.mpr same

/-- In a chain that passes the audit, all records but the last commit to prefixes of the live log exactly
when each carries the root that the next one names as its previous root. -/
theorem chain_iff {S : Set Bytes} (inj : Set.InjOn H.digest S) {digests : List Digest}
    {nodes : List Bytes} (build : addDigests H [] digests = .ok nodes)
    (inStore : ∀ s ∈ storeHashed digests nodes, s ∈ S) (cps : List CheckpointRecord)
    (inRoots : ∀ cp ∈ cps, ∀ s ∈ rootAtHashed H nodes cp.mmrSize.toNat, s ∈ S)
    (audited : cps.IsChain (Audited H nodes)) :
    (∀ cp ∈ cps.dropLast, Anchored H S digests nodes cp) ↔
      cps.IsChain fun prev current => prev.root = current.prevRoot := by
  induction audited with
  | nil => simp
  | singleton => simp
  | @cons_cons prev current cps first rest ih =>
    have ih := ih fun cp hcp => inRoots cp (List.mem_cons_of_mem _ hcp)
    rw [List.dropLast_cons_cons, List.forall_mem_cons, List.isChain_cons_cons, ih]
    refine and_congr_left fun _ => ?_
    constructor
    · intro anchored
      have same := anchored.1.symm.trans first.root
      exact Except.ok.inj same
    · intro same
      exact anchored_of_root inj build inStore (inRoots prev List.mem_cons_self) (same ▸ first.root)

/-- A record over the second sample digest alone. -/
def rewrittenPrev : CheckpointRecord where
  v := 1
  kind := Str.lit "mmr_checkpoint"
  logId := Str.lit "log"
  mmrSize := 1
  root := toHex (sha256Hash.digest (0 :: List.replicate 32 2))
  prevSize := 0
  prevRoot := []
  keyId := Str.lit "k"
  timestamp := []
  signature := []
  witnesses := []

/-- The record of a later checkpoint over the sample log. -/
def liveNext : CheckpointRecord where
  v := 1
  kind := Str.lit "mmr_checkpoint"
  logId := Str.lit "log"
  mmrSize := 4
  root := toHex sampleRoot
  prevSize := 1
  prevRoot := toHex (sha256Hash.digest (0 :: List.replicate 32 1))
  keyId := Str.lit "k"
  timestamp := []
  signature := []
  witnesses := []

/-- Both functions accept a pair whose first record is of another log. -/
theorem chain_rewritten :
    verifyCheckpointConsistency sha256Hash rewrittenPrev liveNext sampleNodes = true ∧
    ledgerVerifyCheckpointConsistency sha256Hash rewrittenPrev liveNext sampleNodes = true ∧
    rootHex sha256Hash sampleNodes rewrittenPrev.mmrSize ≠ .ok rewrittenPrev.root ∧
    ∃ nodesA, addDigests sha256Hash [] [⟨List.replicate 32 2, rfl⟩] = .ok nodesA ∧
      rootHex sha256Hash nodesA rewrittenPrev.mmrSize = .ok rewrittenPrev.root ∧
      ¬ [⟨List.replicate 32 2, rfl⟩] <+: sampleDigests := by
  rw [sha256Hash_eq, sampleNodes_bytes]
  refine ⟨?_, ?_, ?_, [evalHash.digest (0 :: List.replicate 32 2)], ?_, ?_, ?_⟩
  · decide +kernel
  · decide +kernel
  · decide +kernel
  · rfl
  · decide +kernel
  · decide

/-- A checkpoint of the sample log at its first leaf. -/
def livePrev : CheckpointRecord :=
  { rewrittenPrev with root := toHex (sha256Hash.digest (0 :: List.replicate 32 1)) }

/-- Two checkpoints of the sample log form a chain. -/
theorem chain_iff_sample :
    ([livePrev, liveNext].IsChain fun prev current => prev.root = current.prevRoot) ∧
      ∀ cp ∈ [livePrev, liveNext].dropLast,
        Anchored sha256Hash {s | s ∈ pairHashed sha256Hash sampleDigests [] sampleNodes [] 1 ++
          rootAtHashed sha256Hash sampleNodes 4} sampleDigests sampleNodes cp := by
  have named : [livePrev, liveNext].IsChain fun prev current => prev.root = current.prevRoot :=
    .cons_cons rfl (.singleton _)
  refine ⟨named, (chain_iff (injOn_list ?_) sampleNodes_eq ?_ _ ?_ ?_).mpr named⟩
  · simp only [sampleNodes_bytes, sha256Hash_eq]
    decide +kernel
  · intro s hs
    exact List.mem_append_left _ (List.mem_append_left _ (List.mem_append_left _ hs))
  · intro cp hcp
    simp only [List.mem_cons, List.not_mem_nil, or_false] at hcp
    rcases hcp with rfl | rfl
    · exact fun s hs => List.mem_append_left _ (List.mem_append_right _ (List.mem_append_left _ hs))
    · exact fun s hs => List.mem_append_right _ hs
  · refine .cons_cons (.inl ?_) (.singleton _)
    simp only [livePrev, liveNext, sampleNodes_bytes, sha256Hash_eq]
    decide +kernel

end CLL.Checkpoint
