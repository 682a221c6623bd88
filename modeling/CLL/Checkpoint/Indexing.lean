import CLL.Checkpoint.Runner

/-!
# What a checkpoint runner indexes

`Indexes` says what the fields of a state mean beside the entries of the log, `Certified` what a checkpoint is
signed over and which one it names. `advance_builds` says that a pass over a state that is indexed builds one that
is, with the same checkpoint or a certified one after it.
-/

namespace CLL.Checkpoint
open CLL.Core CLL.Log

variable {P : Packages} {H : HashFunction} {verify : Bytes → Bytes → Bytes → Bool} {key : KeyPair verify}
  {cfg : RunnerConfig}

/-- `nodes` is the MMR of the first `n` entries. -/
structure TreeOf (H : HashFunction) (entries : List Entry) (n : ℕ) (nodes : List Bytes) : Prop where
  le : n ≤ entries.length
  built : ∃ digests : List Digest, digests.map (fun d => d.1) = (entries.take n).map Entry.value ∧
    addDigests H [] digests = .ok nodes

/-- A digest is folded in after the others. -/
lemma addDigests_snoc (nodes : List Bytes) (digests : List Digest) (d : Digest) :
    addDigests H nodes (digests ++ [d]) = addDigests H nodes digests >>= fun nodes => addDigests H nodes [d] := by
  induction digests generalizing nodes with
  | nil => rfl
  | cons c digests ih =>
    simp only [List.cons_append, addDigests, bind_assoc, ih]

/-- The tree is built of as many digests as entries. -/
lemma length_of_built {entries : List Entry} {n : ℕ} {digests : List Digest} (le : n ≤ entries.length)
    (same : digests.map (fun d => d.1) = (entries.take n).map Entry.value) : digests.length = n := by
  have length := congrArg List.length same
  rw [List.length_map, List.length_map, List.length_take, Nat.min_eq_left le] at length
  exact length

/-- The tree of no entries is empty. -/
lemma treeOf_nil (H : HashFunction) (entries : List Entry) : TreeOf H entries 0 [] :=
  ⟨Nat.zero_le _, [], rfl, rfl⟩

/-- Entries that are appended do not change the tree of earlier ones. -/
lemma TreeOf.mono {entries later : List Entry} {n : ℕ} {nodes : List Bytes} (tree : TreeOf H entries n nodes)
    (older : entries <+: later) : TreeOf H later n nodes := by
  obtain ⟨more, rfl⟩ := older
  obtain ⟨digests, same, build⟩ := tree.built
  refine ⟨tree.le.trans (by simp), digests, ?_, build⟩
  rw [same, List.take_append_of_le_length tree.le]

/-- A tree of `n` leaves has the nodes that these need. -/
lemma TreeOf.length_eq {entries : List Entry} {n : ℕ} {nodes : List Bytes} (tree : TreeOf H entries n nodes) :
    nodes.length = nodeCount n := by
  obtain ⟨digests, same, build⟩ := tree.built
  rw [(IsMmr.of_addDigests build).length_eq, length_leaves, length_of_built tree.le same]

/-- The next entry is added to the tree. -/
lemma TreeOf.add {entries : List Entry} {n : ℕ} {nodes nodes' : List Bytes} (tree : TreeOf H entries n nodes)
    {entry : Entry} (next : entries[n]? = some entry) (ok : addEntry H nodes entry = .ok nodes') :
    TreeOf H entries (n + 1) nodes' := by
  obtain ⟨digests, same, build⟩ := tree.built
  obtain ⟨lt, at_⟩ := List.getElem?_eq_some_iff.mp next
  obtain ⟨leaf, hleaf, added⟩ := bind_eq_ok.mp ok
  have width : entry.value.length = digestLen := by
    obtain ⟨_, checked, -⟩ := bind_eq_ok.mp hleaf
    exact require_eq_ok.mp checked
  refine ⟨lt, digests ++ [⟨entry.value, width⟩], ?_, ?_⟩
  · rw [List.map_append, same, List.take_add_one, next, List.map_append]
    rfl
  · rw [addDigests_snoc, build, ok_bind, addDigests, hleaf, ok_bind]
    obtain ⟨⟨grown, p, new⟩, hadd, ok⟩ := bind_eq_ok.mp added
    cases ok
    rw [hadd, ok_bind]
    rfl

/-- The peaks and the root of fewer entries are read out of the tree of more. -/
lemma TreeOf.peakHashes_eq {entries : List Entry} {m n : ℕ} {nodes older : List Bytes}
    (tree : TreeOf H entries n nodes) (before : TreeOf H entries m older) (le : m ≤ n) :
    peakHashes nodes (nodeCount m) = peakHashes older (nodeCount m) := by
  obtain ⟨digests, same, build⟩ := tree.built
  obtain ⟨digests', same', build'⟩ := before.built
  have length := length_of_built tree.le same
  have equal : digests' = digests.take m := by
    apply List.map_injective_iff.mpr Subtype.val_injective
    rw [List.map_take, same, same', ← List.map_take, List.take_take, Nat.min_eq_left le]
  have mmr := IsMmr.of_addDigests build
  have mmr' := IsMmr.of_addDigests build'
  have count : m ≤ (leaves H digests).length := by
    rw [length_leaves, length]
    exact le
  by_cases small : nodeCount m < maxMmrSize
  · rw [mmr.peakHashes count small, mmr'.peakHashes _ small, equal, leaves_take, mountainHashes_take count]
    rw [equal, length_leaves, List.length_take, length, Nat.min_eq_left le]
  · -- `peaks` refuses the size of both.
    rw [peakHashes, peakHashes]
    cases hp : peaks (nodeCount m) with
    | error e => rfl
    | ok ps => exact absurd (peaks_eq_ok hp).1 small

/-- The loop adds the entries that it is given to the tree, and takes the time of the first if none is pending. -/
lemma indexEntries_eq_ok {entries scanned : List Entry} {n m : ℕ} {nodes nodes' : List Bytes}
    {firstPending pending : Option Time} (tree : TreeOf H entries n nodes) (next : scanned <+: entries.drop n)
    (ok : indexEntries H nodes n firstPending scanned = .ok (nodes', m, pending)) :
    m = n + scanned.length ∧ TreeOf H entries m nodes' ∧
      pending = firstPending.or (scanned.head?.map Entry.appendedAt) := by
  induction scanned generalizing n nodes firstPending with
  | nil =>
    cases ok
    exact ⟨rfl, tree, (Option.or_none).symm⟩
  | cons entry scanned ih =>
    obtain ⟨_, follows, ok⟩ := bind_eq_ok.mp ok
    obtain ⟨grown, added, ok⟩ := bind_eq_ok.mp ok
    obtain ⟨appendedAt, time, ok⟩ := bind_eq_ok.mp ok
    rw [normalizeTime_timeObj] at time
    cases time
    rw [require_eq_ok.mp follows] at ok
    obtain ⟨rest, split⟩ := next
    have at_ : entries[n]? = some entry := by
      have head := congrArg List.head? split
      rw [List.cons_append, List.head?_cons, List.head?_drop] at head
      exact head.symm
    have after : scanned <+: entries.drop (n + 1) := by
      refine ⟨rest, ?_⟩
      rw [← List.drop_drop, ← split]
      rfl
    obtain ⟨count, tree', time⟩ := ih (tree.add at_ (orCorrupt_eq_ok added)) after ok
    refine ⟨?_, tree', ?_⟩
    · rw [count, List.length_cons]
      omega
    · rw [time]
      cases firstPending <;> rfl

/-- The time of the first entry that is indexed and not covered by a checkpoint. -/
def pendingOf (entries : List Entry) (covered indexed : ℕ) : Option Time :=
  if covered < indexed then (entries[covered]?).map Entry.appendedAt else none

/-- What the fields of a state mean beside the entries of the log. -/
structure Indexes (H : HashFunction) (entries : List Entry) (state : Snapshot) : Prop where
  tree : TreeOf H entries state.indexedSeq state.nodes
  size : state.size = state.nodes.length
  covered : state.lastCheckpointed ≤ state.indexedSeq
  pending : state.firstPendingAt = pendingOf entries state.lastCheckpointed state.indexedSeq

/-- A checkpoint is signed over the tree of the entries it covers, and names the one before it. -/
structure Certified (P : Packages) (H : HashFunction) (key : KeyPair verify) (cfg : RunnerConfig)
    (entries : List Entry) (prev : Option StoredCheckpoint) (c : StoredCheckpoint) : Prop where
  tree : ∃ nodes, TreeOf H entries c.indexedSeq nodes ∧ peakHashes nodes c.size = .ok c.peaks
  size : c.size = nodeCount c.indexedSeq
  after : (prev.map StoredCheckpoint.indexedSeq).getD 0 < c.indexedSeq
  signed : ∃ decoded root prevRoot, verifyCheckpointCoseOffline P H c.bytes = .ok decoded ∧
    decoded.logId = cfg.logId.1 ∧ decoded.keyId = toHex key.publicKey ∧ decoded.mmrSize = c.size ∧
    decoded.newPeakHashes = c.peaks ∧ rootFromPeaks H c.peaks = .ok root ∧ decoded.root = toHex root ∧
    decoded.prevSize = (prev.map StoredCheckpoint.size).getD 0 ∧ prevRootOf H prev = .ok prevRoot ∧
    decoded.prevRoot = prevRoot

/-- Entries that are appended leave what is pending among the earlier ones. -/
lemma TreeOf.pending_mono {entries later : List Entry} (older : entries <+: later) {covered indexed : ℕ}
    (le : indexed ≤ entries.length) : pendingOf later covered indexed = pendingOf entries covered indexed := by
  unfold pendingOf
  split
  · rename_i lt
    obtain ⟨more, rfl⟩ := older
    rw [List.getElem?_append_left (lt.trans_le le)]
  · rfl

/-- What is indexed stays indexed. -/
lemma Indexes.mono {entries later : List Entry} {state : Snapshot} (indexes : Indexes H entries state)
    (older : entries <+: later) : Indexes H later state :=
  ⟨indexes.tree.mono older, indexes.size, indexes.covered, by
    rw [TreeOf.pending_mono older indexes.tree.le]
    exact indexes.pending⟩

/-- A certified checkpoint stays certified. -/
lemma Certified.mono {entries later : List Entry} {prev : Option StoredCheckpoint} {c : StoredCheckpoint}
    (certified : Certified P H key cfg entries prev c) (older : entries <+: later) :
    Certified P H key cfg later prev c := by
  obtain ⟨nodes, tree, peaks⟩ := certified.tree
  exact ⟨⟨nodes, tree.mono older, peaks⟩, certified.size, certified.after, certified.signed⟩

/-- The digits of a digest are read back as they are. -/
lemma mapM_lowerHex_toHex (bs : List Bytes) : (bs.map toHex).mapM lowerHex = some (bs.map toHex) := by
  induction bs with
  | nil => rfl
  | cons b bs ih =>
    rw [List.map_cons, List.mapM_cons, lowerHex_toHex, ih]
    rfl

/-- Digits of hex digits are in lower case. -/
lemma mapM_mapM_lowerHex_toHex (bss : List (List Bytes)) :
    (bss.map (·.map toHex)).mapM (fun bs => bs.mapM lowerHex) = some (bss.map (·.map toHex)) := by
  induction bss with
  | nil => rfl
  | cons bs bss ih =>
    rw [List.map_cons, List.mapM_cons, mapM_lowerHex_toHex, ih]
    rfl

/-- The digests of a round of a proof are written in one way. -/
lemma oldPeakProof_digits {reader : List Bytes} {newPeakPositions : List ℕ} {p : ℕ} {round : Str × List Str}
    (ok : oldPeakProof reader newPeakPositions p = .ok round) :
    ∃ (peak : Bytes) (path : List Bytes), round = (toHex peak, path.map toHex) := by
  obtain ⟨h, -, ok⟩ := bind_eq_ok.mp ok
  split at ok
  · exact (raise_ne_ok ok).elim
  · obtain ⟨w, -, ok⟩ := bind_eq_ok.mp ok
    cases ok
    exact ⟨h, w, rfl⟩

/-- A proof that `consistency_proof` makes is read back as it is. -/
lemma sameProof_consistencyProof {reader : List Bytes} {a b : ℤ} {proof : ConsistencyProof}
    (ok : consistencyProof reader a b = .ok proof) : SameProof proof proof := by
  obtain ⟨_, -, ok⟩ := bind_eq_ok.mp ok
  obtain ⟨_, -, ok⟩ := bind_eq_ok.mp ok
  obtain ⟨_, -, ok⟩ := bind_eq_ok.mp ok
  obtain ⟨olds, -, ok⟩ := bind_eq_ok.mp ok
  obtain ⟨news, -, ok⟩ := bind_eq_ok.mp ok
  obtain ⟨rounds, hrounds, ok⟩ := bind_eq_ok.mp ok
  obtain ⟨peaks, -, ok⟩ := bind_eq_ok.mp ok
  cases ok
  obtain ⟨digits, rfl⟩ : ∃ digits : List (Bytes × List Bytes),
      rounds = digits.map fun d => (toHex d.1, d.2.map toHex) := by
    clear * - hrounds
    induction olds generalizing rounds with
    | nil =>
      cases hrounds
      exact ⟨[], rfl⟩
    | cons p olds ih =>
      rw [List.mapM_cons] at hrounds
      obtain ⟨round, hround, hrounds⟩ := bind_eq_ok.mp hrounds
      obtain ⟨rest, hrest, hrounds⟩ := bind_eq_ok.mp hrounds
      cases hrounds
      obtain ⟨peak, path, rfl⟩ := oldPeakProof_digits hround
      obtain ⟨digits, rfl⟩ := ih rest hrest
      exact ⟨(peak, path) :: digits, rfl⟩
  refine ⟨rfl, rfl, rfl, rfl, ?_, ?_, mapM_lowerHex_toHex peaks⟩
  · rw [List.map_map]
    have map : digits.map ((fun r : Str × List Str => r.1) ∘ fun d => (toHex d.1, d.2.map toHex)) =
        (digits.map fun d => d.1).map toHex := by
      rw [List.map_map]
      rfl
    rw [map]
    exact mapM_lowerHex_toHex _
  · have paths : ((digits.map fun d => (toHex d.1, d.2.map toHex)).map fun r => r.2) =
        (digits.map fun d => d.2).map (·.map toHex) := by
      rw [List.map_map, List.map_map]
      rfl
    show List.mapM _ ((digits.map fun d => (toHex d.1, d.2.map toHex)).map fun r => r.2) =
      some ((digits.map fun d => (toHex d.1, d.2.map toHex)).map fun r => r.2)
    rw [paths]
    exact mapM_mapM_lowerHex_toHex _

/-- The statement that is signed over the tree of the first entries certifies them. -/
lemma signCheckpoint_certified (lawful : P.Lawful verify) {entries : List Entry} {n : ℕ} {nodes : List Bytes}
    (tree : TreeOf H entries n nodes) {prev : Option StoredCheckpoint}
    (before : ∀ p ∈ prev, ∃ first, Certified P H key cfg entries first p)
    (after : (prev.map StoredCheckpoint.indexedSeq).getD 0 < n) {now : Time} {statement : Bytes}
    {peaks : List Bytes} (ok : signCheckpoint P H key cfg now prev nodes = .ok (statement, peaks)) :
    Certified P H key cfg entries prev ⟨statement, nodes.length, n, peaks⟩ := by
  obtain ⟨peaks', hpeaks, ok⟩ := bind_eq_ok.mp ok
  obtain ⟨root, hroot, ok⟩ := bind_eq_ok.mp ok
  obtain ⟨prevRoot, hprev, ok⟩ := bind_eq_ok.mp ok
  obtain ⟨proof, hproof, ok⟩ := bind_eq_ok.mp ok
  obtain ⟨statement', hstatement, ok⟩ := bind_eq_ok.mp ok
  cases ok
  obtain ⟨digests, same, build⟩ := tree.built
  have length := length_of_built tree.le same
  have size := tree.length_eq
  -- What is signed is true of the entries, as the checkpoint before was.
  have log : TrueFor H (recordOf key cfg now prev nodes.length (toHex root) prevRoot) peaks
      (prev.map StoredCheckpoint.peaks) proof digests nodes ((prev.map StoredCheckpoint.indexedSeq).getD 0) n := by
    refine ⟨build, after.le, length.ge, ?_, ?_, ?_, ?_, ?_⟩
    · cases prev with
      | none => rfl
      | some p =>
        obtain ⟨first, certified⟩ := before p rfl
        exact congrArg Nat.cast certified.size
    · exact congrArg Nat.cast size
    · rw [← size]
      exact hpeaks
    · intro nonzero
      cases prev with
      | none => exact absurd rfl nonzero
      | some p =>
        obtain ⟨first, certified⟩ := before p rfl
        obtain ⟨older, ptree, ppeaks⟩ := certified.tree
        refine ⟨p.peaks, rfl, ?_⟩
        rw [Option.map_some, Option.getD_some, tree.peakHashes_eq ptree after.le, ← certified.size]
        exact ppeaks
    · intro p hp
      cases prev with
      | none =>
        cases hproof
        cases hp
      | some c =>
        have proved : (consistencyProof nodes c.size nodes.length).map some = .ok proof := hproof
        obtain ⟨q, hq, rfl⟩ := map_eq_ok.mp proved
        cases hp
        refine ⟨p, ?_, sameProof_consistencyProof hq⟩
        obtain ⟨first, certified⟩ := before c rfl
        rw [certified.size, size] at hq
        exact hq
  have positive : (0 : ℤ) ≤ (recordOf key cfg now prev nodes.length (toHex root) prevRoot).prevSize :=
    Int.natCast_nonneg _
  obtain ⟨decoded, verified, read, keyId⟩ := checkpointToCose_verified lawful cfg.logId_ne_nil
    (Int.natCast_nonneg _) positive hstatement log
  -- The root is written in lower case, so it is read back as it is.
  have digits : decoded.root = toHex root := by
    have lower := read.root
    rw [show (recordOf key cfg now prev nodes.length (toHex root) prevRoot).root = toHex root from rfl,
      lowerHex_toHex] at lower
    exact (Option.some.inj lower).symm
  refine ⟨⟨nodes, tree, hpeaks⟩, size, after, decoded, root, prevRoot, verified, read.logId, keyId, read.mmrSize,
    read.newPeakHashes, hroot, digits, read.prevSize, hprev, ?_⟩
  cases prev with
  | none =>
    cases hprev
    exact (read.first rfl).2
  | some p =>
    obtain ⟨r, -, rfl⟩ := map_eq_ok.mp hprev
    obtain ⟨first, certified⟩ := before p rfl
    have covers : 0 < p.indexedSeq := Nat.zero_lt_of_lt certified.after
    have size : 0 < p.size := by
      rw [certified.size]
      exact covers.trans_le PostOrder.forestSize_strictMono.le_apply
    have lower := (read.prev (Int.natCast_pos.mpr size)).2
    exact (Option.some.inj ((lowerHex_toHex r).symm.trans lower)).symm

/-- What a pass builds. -/
structure Builds (P : Packages) (H : HashFunction) (key : KeyPair verify) (cfg : RunnerConfig)
    (entries : List Entry) (now : Time) (state next : Snapshot) : Prop where
  indexes : Indexes H entries next
  checkpoint : next.checkpoint = state.checkpoint ∧ next.witnesses = state.witnesses ∨
    ∃ c, next.checkpoint = some c ∧ Certified P H key cfg entries state.checkpoint c ∧
      next.witnesses = state.witnesses ++ cfg.witnessIds.map (newRow c.size c.bytes now)

/-- A pass from a state that is indexed builds one that is, with the same checkpoint or a new one. -/
lemma advance_builds (lawful : P.Lawful verify) {entries scanned : List Entry} {state next : Snapshot} {now : Time}
    (indexes : Indexes H entries state)
    (before : ∀ p ∈ state.checkpoint, ∃ first, Certified P H key cfg entries first p)
    (follow : scanned <+: entries.drop state.indexedSeq)
    (ok : advance P H key cfg now state scanned = .ok (some next)) :
    Builds P H key cfg entries now state next := by
  obtain ⟨⟨nodes, indexed, firstPending⟩, grown, ok⟩ := bind_eq_ok.mp ok
  obtain ⟨count, tree, time⟩ := indexEntries_eq_ok indexes.tree follow grown
  dsimp only at ok
  split at ok
  · rename_i due
    obtain ⟨⟨statement, peaks⟩, signed, ok⟩ := bind_eq_ok.mp ok
    cases ok
    have uncovered : state.lastCheckpointed < indexed := by
      unfold isDue at due
      cases firstPending with
      | none => cases due
      | some t =>
        rw [Option.any_some, Bool.and_eq_true, decide_eq_true_eq] at due
        omega
    have certified := signCheckpoint_certified lawful tree before uncovered signed
    refine ⟨⟨tree, rfl, le_refl _, ?_⟩, .inr ⟨_, rfl, certified, rfl⟩⟩
    exact (if_neg (Nat.lt_irrefl _)).symm
  · split at ok
    · cases ok
    · cases ok
      have later : state.lastCheckpointed ≤ indexed := indexes.covered.trans (by omega)
      refine ⟨⟨tree, rfl, later, ?_⟩, .inl ⟨rfl, rfl⟩⟩
      show firstPending = pendingOf entries state.lastCheckpointed indexed
      rw [time, indexes.pending]
      unfold pendingOf
      rcases Nat.lt_or_ge state.lastCheckpointed state.indexedSeq with old | all
      · -- An entry was pending already.
        have present := List.getElem?_eq_getElem (old.trans_le indexes.tree.le)
        rw [if_pos old, if_pos (old.trans_le (by omega)), present]
        rfl
      · have same : state.lastCheckpointed = state.indexedSeq := le_antisymm indexes.covered all
        rw [if_neg (Nat.not_lt.mpr all), Option.none_or, same, ← List.head?_drop]
        cases scanned with
        | nil => rw [if_neg (by rw [count]; simp)]; rfl
        | cons entry scanned =>
          obtain ⟨rest, split⟩ := follow
          rw [if_pos (by rw [count]; simp), ← split]
          rfl

end CLL.Checkpoint
