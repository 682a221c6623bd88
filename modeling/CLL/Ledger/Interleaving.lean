import CLL.Core.Suffix
import CLL.Core.Verifiers
import CLL.Ledger.Index
import CLL.Lib.Run

/-!
# An index over a ledger with other writers

The `MmrLedger` of `checkpoint/index.py` over a ledger that other writers append to as well. A call of
either may raise. `Indexed.Sound` is the invariant: the nodes are those of the first records of the ledger.
`interleaving_sync` says what a sync restores, and that proofs that were given earlier stay valid.
-/

namespace CLL.Ledger
open CLL.Core PostOrder Run

variable (H : HashFunction)

namespace MmrLedger

/-- `append`, given what the ledger's own `append` returns or raises. -/
def append (m : MmrLedger) (appended : Py LedgerRecord) : Py LedgerRecord × MmrLedger :=
  match appended with
  | .error e => (.error e, m)
  | .ok record =>
    match m.indexRecord H record with
    | .error e => (.error e, m)
    | .ok m => (.ok record, m)

/-- `sync` over a scan that yields records and then ends or raises. -/
def syncScan (m : MmrLedger) (yielded : List LedgerRecord) (after : Py Unit) : Py ℕ × MmrLedger :=
  let (added, m) := m.syncLoop H 0 yielded
  (do
    let added ← added
    after
    .ok added, m)

/-- `body_digest`. -/
def bodyDigest (m : MmrLedger) (seq : ℤ) : Py Bytes :=
  if seq < 1 ∨ seq > m.bodyDigests.length then raise .integrity s!"no indexed leaf for seq {seq}"
  else .ok (m.bodyDigests.getD (seq - 1).toNat [])

/-- `inclusion_proof`. -/
def inclusionProof (m : MmrLedger) (seq : ℤ) (size : Option ℤ) : Py InclusionProof :=
  let targetSize := size.getD m.nodes.length
  Core.inclusionProof m.nodes (seq - 1) targetSize

end MmrLedger

/-- A ledger and the index over it. -/
structure Indexed where
  ledger : List LedgerRecord
  index : MmrLedger

/-- A call of a party. The ledger numbers the records that it stores. -/
inductive Call where
  /-- Another writer appends to the ledger. -/
  | foreign (record : LedgerRecord)
  /-- `append` of the index, where that of the ledger stores and returns a record. -/
  | append (record : LedgerRecord)
  /-- `append` of the index, where that of the ledger raises, and may have stored a record before. -/
  | appendRaises (error : Error) (stored : Option LedgerRecord)
  /-- `sync`, with as many records as its scan yields, and how the scan ends. -/
  | sync (yielded : ℕ) (after : Py Unit)

namespace Indexed

/-- The next record of the ledger. -/
def number (s : Indexed) (record : LedgerRecord) : LedgerRecord := { record with seq := s.ledger.length + 1 }

/-- The state after a call. -/
def step (s : Indexed) : Call → Indexed
  | .foreign record => ⟨s.ledger ++ [s.number record], s.index⟩
  | .append record => ⟨s.ledger ++ [s.number record], (s.index.append H (.ok (s.number record))).2⟩
  | .appendRaises error stored =>
    ⟨s.ledger ++ (stored.map s.number).toList, (s.index.append H (.error error)).2⟩
  | .sync yielded after => ⟨s.ledger, (s.index.syncScan H (s.ledger.take yielded) after).2⟩

/-- An empty ledger and a fresh index. -/
def empty : Indexed := ⟨[], .empty⟩

variable {H}

/-- The records are numbered, and the nodes are those of the digests that the first of them have. -/
structure Sound (H : HashFunction) (s : Indexed) (digests : List Digest) : Prop where
  numbered : Numbered 0 s.ledger
  tree : s.index.Over H digests
  folded : Digested digests (s.ledger.take digests.length)
  le : digests.length ≤ s.ledger.length

/-- An empty index is sound. -/
lemma sound_empty : Sound H empty [] := ⟨trivial, MmrLedger.over_empty, rfl, le_refl _⟩

/-- A sound index has one body digest for each record. -/
lemma Sound.count {s : Indexed} {digests : List Digest} (sound : s.Sound H digests) :
    s.index.bodyDigests.length = digests.length := by
  rw [sound.tree.bodies, List.length_map]

/-- A new record is numbered after the ledger. -/
lemma numbered_append {s : Indexed} (numbered : Numbered 0 s.ledger) (record : LedgerRecord) :
    Numbered 0 (s.ledger ++ [s.number record]) := by
  refine Numbered.append.mpr ⟨numbered, ?_, trivial⟩
  rw [Nat.zero_add]
  exact rfl

/-- Another writer leaves the index as it is. -/
lemma Sound.foreign {s : Indexed} {digests : List Digest} (sound : s.Sound H digests) (record : LedgerRecord) :
    Sound H ⟨s.ledger ++ [s.number record], s.index⟩ digests := by
  refine ⟨numbered_append sound.numbered record, sound.tree, ?_, ?_⟩
  · rw [List.take_append_of_le_length sound.le]
    exact sound.folded
  · rw [List.length_append]
    exact Nat.le_add_right_of_le sound.le

/-- A record that is appended through the index is folded in if it is the next one, and not at all if other
records come before it. -/
lemma Sound.append {s : Indexed} {digests : List Digest} (sound : s.Sound H digests) (record : LedgerRecord) :
    ∃ more, Sound H ⟨s.ledger ++ [s.number record], (s.index.append H (.ok (s.number record))).2⟩
      (digests ++ more) := by
  rw [MmrLedger.append]
  cases e : s.index.indexRecord H (s.number record) with
  | error err =>
    refine ⟨[], ?_⟩
    rw [List.append_nil]
    exact sound.foreign record
  | ok m =>
    obtain ⟨seq, d, hd, tree⟩ := MmrLedger.indexRecord_spec sound.tree e
    have seq : s.ledger.length + 1 = digests.length + 1 := seq
    have length : s.ledger.length = digests.length := by omega
    refine ⟨[d], numbered_append sound.numbered record, tree, ?_, ?_⟩
    · have folded := sound.folded
      rw [← length, List.take_length] at folded
      rw [List.length_append, ← length, List.take_of_length_le (by simp)]
      unfold Digested at folded ⊢
      rw [List.map_append, List.map_append, folded]
      exact congrArg (_ ++ [·]) hd
    · simp [length]

/-- The first records of a numbered ledger are numbered. -/
lemma numbered_take {s : Indexed} (numbered : Numbered 0 s.ledger) (yielded : ℕ) :
    Numbered 0 (s.ledger.take yielded) := by
  rw [← List.take_append_drop yielded s.ledger] at numbered
  exact (Numbered.append.mp numbered).1

/-- Records that are folded in already are passed over. -/
lemma Sound.syncLoop_old {s : Indexed} {digests : List Digest} (sound : s.Sound H digests) {yielded : ℕ}
    (le : yielded ≤ digests.length) :
    s.index.syncLoop H 0 (s.ledger.take yielded) = (.ok 0, s.index) := by
  have count := sound.count
  have length : 0 + (s.ledger.take yielded).length ≤ s.index.bodyDigests.length := by
    rw [Nat.zero_add, List.length_take]
    omega
  have old : s.index.syncLoop H 0 (s.ledger.take yielded ++ []) = s.index.syncLoop H 0 [] :=
    MmrLedger.syncLoop_old (numbered_take sound.numbered yielded) length []
  rw [List.append_nil] at old
  exact old

/-- A scan that yields the first records folds in those that are new. -/
lemma Sound.syncLoop {s : Indexed} {digests : List Digest} (sound : s.Sound H digests) (yielded : ℕ) :
    ∃ more, Sound H ⟨s.ledger, (s.index.syncLoop H 0 (s.ledger.take yielded)).2⟩ (digests ++ more) ∧
      ∀ n, (s.index.syncLoop H 0 (s.ledger.take yielded)).1 = .ok n →
        min yielded s.ledger.length ≤ (digests ++ more).length := by
  rcases Nat.le_total yielded digests.length with le | ge
  · refine ⟨[], ?_, fun n _ => ?_⟩
    · rw [sound.syncLoop_old le, List.append_nil]
      exact sound
    · rw [List.append_nil]
      exact Nat.le_trans (Nat.min_le_left _ _) le
  · have bound := sound.le
    have length : (s.ledger.take yielded).length = min yielded s.ledger.length := List.length_take
    have scanned : ∀ records, Except.ok (s.ledger.take yielded) = (.ok records : Py _) →
        Numbered 0 records ∧ digests.length ≤ records.length := by
      intro records e
      cases e
      exact ⟨numbered_take sound.numbered yielded, by omega⟩
    obtain ⟨more, tree, folded, all⟩ := MmrLedger.sync_spec sound.tree scanned
    obtain ⟨folded, fits⟩ := folded _ rfl
    have within : (digests ++ more).length ≤ yielded := by omega
    refine ⟨more, ⟨sound.numbered, tree, ?_, by dsimp only; omega⟩, fun n hn => ?_⟩
    · -- The new digests are those of the records after the first.
      have records : s.ledger.take (digests ++ more).length = s.ledger.take digests.length ++
          ((s.ledger.take yielded).drop digests.length).take more.length := by
        rw [List.length_append] at within ⊢
        rw [List.take_add, List.drop_take, List.take_take, Nat.min_eq_left (by omega)]
      rw [records]
      unfold Digested at folded ⊢
      rw [List.map_append, List.map_append, folded, sound.folded]
    · obtain ⟨records, e, whole⟩ := all n hn
      cases e
      omega

/-- What is folded in stays, and every call keeps the invariant. -/
lemma Sound.step {s : Indexed} {digests : List Digest} (sound : s.Sound H digests) (call : Call) :
    ∃ more, Sound H (s.step H call) (digests ++ more) := by
  cases call with
  | foreign record => exact ⟨[], by rw [List.append_nil]; exact sound.foreign record⟩
  | append record => exact sound.append record
  | appendRaises error stored =>
    refine ⟨[], ?_⟩
    rw [List.append_nil]
    cases stored with
    | none =>
      have same : s.step H (.appendRaises error none) = s := by
        rw [Indexed.step, Option.map_none, Option.toList_none, List.append_nil]
        exact rfl
      rw [same]
      exact sound
    | some record => exact sound.foreign record
  | sync yielded after =>
    obtain ⟨more, sound, -⟩ := sound.syncLoop yielded
    exact ⟨more, sound⟩

/-- The digests of a run begin with those before it. -/
lemma Sound.run {s : Indexed} {digests : List Digest} (sound : s.Sound H digests) (calls : List Call) :
    ∃ more, Sound H (run (Indexed.step H) s calls) (digests ++ more) := by
  induction calls generalizing s digests with
  | nil => exact ⟨[], by rw [List.append_nil]; exact sound⟩
  | cons call calls ih =>
    obtain ⟨first, sound⟩ := sound.step call
    obtain ⟨rest, sound⟩ := ih sound
    rw [List.append_assoc] at sound
    exact ⟨_, sound⟩

/-- A successful sync folds in every record, and the next has nothing to fold in. -/
lemma Sound.sync_ok {s : Indexed} {digests : List Digest} (sound : s.Sound H digests) {added : ℕ}
    (ok : (s.index.sync H (.ok s.ledger)).1 = .ok added) :
    ∃ more, Sound H ⟨s.ledger, (s.index.sync H (.ok s.ledger)).2⟩ (digests ++ more) ∧
      (digests ++ more).length = s.ledger.length ∧
      (s.index.sync H (.ok s.ledger)).2.sync H (.ok s.ledger) = (.ok 0, (s.index.sync H (.ok s.ledger)).2) := by
  have same (m : MmrLedger) : m.sync H (.ok s.ledger) = m.syncLoop H 0 (s.ledger.take s.ledger.length) := by
    rw [List.take_length]
    exact rfl
  obtain ⟨more, sound', all⟩ := sound.syncLoop s.ledger.length
  rw [same] at ok ⊢
  have ge := all added ok
  have le := sound'.le
  rw [Nat.min_self] at ge
  refine ⟨more, sound', Nat.le_antisymm le ge, ?_⟩
  rw [same]
  exact sound'.syncLoop_old ge

end Indexed

variable {H}

/-- The id of a record is a digest. -/
def Identified (record : LedgerRecord) : Prop := ∃ d : Digest, fromHex record.capsuleId = some d.1

/-- The next record is folded in. -/
lemma MmrLedger.indexRecord_ok {m : MmrLedger} {digests : List Digest} (tree : m.Over H digests)
    {record : LedgerRecord} (next : record.seq = digests.length + 1) (identified : Identified record)
    (small : nodeCount digests.length < maxMmrSize) : ∃ m', m.indexRecord H record = .ok m' := by
  obtain ⟨d, hd⟩ := identified
  have count : m.bodyDigests.length = digests.length := by rw [tree.bodies, List.length_map]
  have mmr := IsMmr.of_addDigests tree.nodes
  obtain ⟨newNodes, added, -⟩ := mmr.addLeaf (length_of_mem_leaves H digests) (H.length_digest (0 :: d.1))
    (by rwa [length_leaves])
  rw [MmrLedger.indexRecord]
  dsimp only
  rw [require_of (by omega), ok_bind, fromHexStr_eq_ok.mpr hd, ok_bind, leafHash_eq H d.2, ok_bind, added]
  exact ⟨_, rfl⟩

/-- A scan of new records folds in all of them. -/
lemma MmrLedger.syncLoop_ok {m : MmrLedger} {digests : List Digest} (added : ℕ) {records : List LedgerRecord}
    (tree : m.Over H digests) (numbered : Numbered digests.length records)
    (identified : ∀ record ∈ records, Identified record)
    (small : nodeCount (digests.length + records.length) < maxMmrSize) :
    (m.syncLoop H added records).1 = .ok (added + records.length) := by
  induction records generalizing m digests added with
  | nil => exact rfl
  | cons record records ih =>
    obtain ⟨here, numbered⟩ := numbered
    have count : m.bodyDigests.length = digests.length := by rw [tree.bodies, List.length_map]
    have le : nodeCount digests.length ≤ nodeCount (digests.length + (record :: records).length) :=
      forestSize_le (Nat.le_add_right _ _)
    obtain ⟨m', e⟩ := MmrLedger.indexRecord_ok tree here (identified record List.mem_cons_self)
      (Nat.lt_of_le_of_lt le small)
    obtain ⟨-, d, -, tree'⟩ := MmrLedger.indexRecord_spec tree e
    have length : (digests ++ [d]).length = digests.length + 1 := by simp
    have rest := ih (added + 1) tree' (by rwa [length]) (fun r mem => identified r (List.mem_cons_of_mem _ mem))
      (by rwa [length, Nat.add_assoc, Nat.add_comm 1, ← List.length_cons])
    rw [syncLoop, if_neg (by omega), e]
    dsimp only
    rw [rest, List.length_cons, Nat.add_assoc, Nat.add_comm 1]

/-- A sync over a ledger whose ids are digests does not fail. -/
lemma Indexed.Sound.recovers {s : Indexed} {digests : List Digest} (sound : s.Sound H digests)
    (identified : ∀ record ∈ s.ledger, Identified record) (small : nodeCount s.ledger.length < maxMmrSize) :
    (s.index.sync H (.ok s.ledger)).1 = .ok (s.ledger.length - s.index.bodyDigests.length) := by
  have split := List.take_append_drop digests.length s.ledger
  have length : (s.ledger.take digests.length).length = digests.length := by simp [sound.le]
  have numbered := sound.numbered
  rw [← split] at numbered
  obtain ⟨old, new⟩ := Numbered.append.mp numbered
  rw [length, Nat.zero_add] at new
  have same : s.index.sync H (.ok s.ledger) = s.index.syncLoop H 0 (s.ledger.drop digests.length) := by
    rw [MmrLedger.sync]
    conv_lhs => rw [← split]
    exact MmrLedger.syncLoop_old old (by rw [length, sound.count]; omega) _
  have le := sound.le
  rw [same, sound.count, MmrLedger.syncLoop_ok 0 sound.tree new
    (fun record mem => identified record (List.mem_of_mem_drop mem))
    (by rwa [List.length_drop, Nat.add_sub_cancel' le]), List.length_drop, Nat.zero_add]

/-- A body digest is looked up by its sequence number. -/
lemma MmrLedger.bodyDigest_eq {m : MmrLedger} {digests : List Digest} (bodies : m.bodyDigests = digests.map (·.1))
    {k : ℕ} (lt : k < digests.length) : m.bodyDigest (k + 1) = .ok digests[k].1 := by
  have count : m.bodyDigests.length = digests.length := by rw [bodies, List.length_map]
  rw [bodyDigest, if_neg (by omega), show ((k : ℤ) + 1 - 1).toNat = k by omega, bodies]
  simp [lt]

/-- A node that is read is in the store. -/
lemma lt_of_mapM_node {nodes hashes : List Bytes} {ps : List ℕ} (ok : ps.mapM (node nodes) = .ok hashes) :
    ∀ p ∈ ps, p < nodes.length := by
  induction ps generalizing hashes with
  | nil => exact fun p mem => absurd mem List.not_mem_nil
  | cons p ps ih =>
    rw [List.mapM_cons] at ok
    obtain ⟨hash, here, ok⟩ := bind_eq_ok.mp ok
    obtain ⟨rest, all, -⟩ := bind_eq_ok.mp ok
    refine List.forall_mem_cons.mpr ⟨?_, ih all⟩
    by_contra out
    rw [node, List.getElem?_eq_none (Nat.not_lt.mp out)] at here
    cases here

/-- A root is that of some of the first leaves. -/
lemma exists_of_rootAt {leaves nodes : List Bytes} (mmr : IsMmr H leaves nodes) {size : ℕ} {root : Bytes}
    (ok : rootAt H nodes size = .ok root) :
    ∃ k ≤ leaves.length, size = nodeCount k ∧ nodeCount k < maxMmrSize := by
  obtain ⟨hashes, ok, -⟩ := bind_eq_ok.mp ok
  obtain ⟨ps, peaks, ok⟩ := bind_eq_ok.mp ok
  obtain ⟨small, k, rfl, rfl⟩ := peaks_eq_ok peaks
  refine ⟨k, ?_, rfl, small⟩
  rcases Nat.eq_zero_or_pos k with rfl | pos
  · exact Nat.zero_le _
  · -- The last peak is the last node of the size.
    obtain ⟨left, h, j, e, ends⟩ := mountains_last pos
    have mem : PostOrder.root h j ∈ peakRoots k k.size := by
      rw [peakRoots_eq, e]
      exact List.mem_map.mpr ⟨(h, j), by simp, rfl⟩
    have lt := lt_of_mapM_node ok _ mem
    rw [mmr.length_eq] at lt
    rw [← ends]
    exact complete_of_root_lt lt

/-- The root of a size is the same in a later index. -/
lemma rootAt_later {digests more : List Digest} {nodes later : List Bytes}
    (mmr : IsMmr H (leaves H digests) nodes) (mmr' : IsMmr H (leaves H (digests ++ more)) later) {size : ℕ}
    {root : Bytes} (ok : rootAt H nodes size = .ok root) : rootAt H later size = .ok root := by
  obtain ⟨k, le, rfl, small⟩ := exists_of_rootAt mmr ok
  have le' : k ≤ (leaves H (digests ++ more)).length := by
    rw [length_leaves] at le ⊢
    rw [List.length_append]
    exact Nat.le_add_right_of_le le
  rw [mmr.rootAt (length_of_mem_leaves H _) le small] at ok
  rw [mmr'.rootAt (length_of_mem_leaves H _) le' small, ← ok]
  refine congrArg (Except.ok <| bag H ·) ?_
  have split : leaves H (digests ++ more) = leaves H digests ++ leaves H more := List.map_append
  rw [← mountainHashes_take le', ← mountainHashes_take le, split, List.take_append_of_le_length le]

/-- A size that a store has holds some of its first leaves. -/
lemma le_of_nodeCount_le {digests : List Digest} {nodes : List Bytes} (mmr : IsMmr H (leaves H digests) nodes)
    {k : ℕ} (le : nodeCount k ≤ nodes.length) : k ≤ digests.length := by
  rw [mmr.length_eq, length_leaves] at le
  exact forestSize_strictMono.le_iff_le.mp le

/-- An inclusion proof is valid for the root of its size in a later index. -/
lemma inclusionProof_valid {digests more : List Digest} {nodes later : List Bytes}
    (build : addDigests H [] digests = .ok nodes) (mmr' : IsMmr H (leaves H (digests ++ more)) later)
    {i size : ℤ} {proof : InclusionProof} (ok : Core.inclusionProof nodes i size = .ok proof) :
    ∃ (k : ℕ) (root : Bytes) (lt : k < digests.length), i = k ∧ rootAt H later size.toNat = .ok root ∧
      verifyInclusion H (.bytes root) (.int size) (.int i) (.bytes digests[k].1) proof.toObj = true := by
  have made := ok
  obtain ⟨lc, count, ok⟩ := bind_eq_ok.mp ok
  obtain ⟨_, range, ok⟩ := bind_eq_ok.mp ok
  obtain ⟨_, reader, -⟩ := bind_eq_ok.mp ok
  obtain ⟨small, size_⟩ := leafCountObj_eq_ok count
  obtain ⟨low, high⟩ := require_eq_ok.mp range
  have reader := require_eq_ok.mp reader
  obtain rfl : size = (nodeCount lc : ℕ) := Obj.int.inj size_
  obtain ⟨k, rfl⟩ : ∃ k : ℕ, i = k := ⟨i.toNat, by omega⟩
  have mmr := IsMmr.of_addDigests build
  have le := le_of_nodeCount_le mmr (k := lc) (by exact_mod_cast reader)
  have lt : k < lc := by exact_mod_cast high
  obtain ⟨proof', made', accepted⟩ := inclusionProof_accepted build le small lt
  obtain rfl : proof' = proof := Except.ok.inj (made'.symm.trans made)
  have root := mmr.rootAt (length_of_mem_leaves H _) (by rwa [length_leaves]) small
  exact ⟨k, _, Nat.lt_of_lt_of_le lt le, rfl, rootAt_later mmr mmr' root, accepted⟩

/-- The checks of the verifier of ranges by `seq`. -/
lemma verifyRange_of_core {root : Bytes} {lo hi : ℕ} {bodyDigests : List Bytes} {witness : List Obj}
    (small : nodeCount (hi + 1) < maxMmrSize) (le : lo ≤ hi)
    (accepted : Core.verifyRange H (.bytes root) (.int (nodeCount (hi + 1))) (.int lo) (.int hi)
      (.list (bodyDigests.map .bytes)) (rangeProofObj (nodeCount (hi + 1)) lo hi (.tuple witness)) = true) :
    verifyRange H root (lo + 1) (hi + 1) bodyDigests ⟨lo + 1, hi + 1, nodeCount (hi + 1), lo, hi, witness⟩ =
      true := by
  have order : (1 : ℤ) ≤ lo + 1 ∧ (lo : ℤ) + 1 ≤ hi + 1 := by omega
  have count : leafCountObj (.int (nodeCount (hi + 1))) = .ok (hi + 1) := leafCount_nodeCount small
  rw [verifyRange, verdict_eq_true, ensure_of ⟨rfl, rfl⟩, ok_bind, ensure_of order, ok_bind, count, ok_bind]
  rw [ensure_of (by push_cast; rfl), ok_bind, add_sub_cancel_right, add_sub_cancel_right, accepted]

/-- A range proof is valid for the root of its size in a later index. -/
lemma rangeProof_valid {digests more : List Digest} {m : MmrLedger} {later : List Bytes}
    (tree : m.Over H digests) (mmr' : IsMmr H (leaves H (digests ++ more)) later) {fromSeq toSeq : ℤ}
    {proof : RangeProof} (ok : m.rangeProof fromSeq toSeq = .ok proof) :
    ∃ (lo hi : ℕ) (root : Bytes), fromSeq = lo + 1 ∧ toSeq = hi + 1 ∧ hi < digests.length ∧
      rootAt H later (nodeCount toSeq.toNat) = .ok root ∧
      verifyRange H root fromSeq toSeq (rangeOf digests lo hi) proof = true := by
  obtain ⟨_, order, ok⟩ := bind_eq_ok.mp ok
  obtain ⟨core, made, ok⟩ := bind_eq_ok.mp ok
  obtain ⟨low, high⟩ := require_eq_ok.mp order
  obtain ⟨lo, rfl⟩ : ∃ lo : ℕ, fromSeq = lo + 1 := ⟨(fromSeq - 1).toNat, by omega⟩
  obtain ⟨hi, rfl⟩ : ∃ hi : ℕ, toSeq = hi + 1 := ⟨(toSeq - 1).toNat, by omega⟩
  have own : ((hi : ℤ) + 1).toNat = hi + 1 := by omega
  rw [add_sub_cancel_right, add_sub_cancel_right, own] at made
  have checks := made
  obtain ⟨_, -, checks⟩ := bind_eq_ok.mp checks
  obtain ⟨_, -, checks⟩ := bind_eq_ok.mp checks
  obtain ⟨lc, count, checks⟩ := bind_eq_ok.mp checks
  obtain ⟨_, -, checks⟩ := bind_eq_ok.mp checks
  obtain ⟨_, reader, -⟩ := bind_eq_ok.mp checks
  obtain ⟨small, size⟩ := leafCountObj_eq_ok count
  have same : nodeCount (hi + 1) = nodeCount lc := by exact_mod_cast Obj.int.inj size
  rw [← same] at small
  have mmr := IsMmr.of_addDigests tree.nodes
  have le := le_of_nodeCount_le mmr (k := hi + 1) (by exact_mod_cast require_eq_ok.mp reader)
  have le' : hi + 1 ≤ (leaves H digests).length := by rwa [length_leaves]
  have order : lo ≤ hi := by omega
  rw [rangeProof_eq mmr le' small order (Nat.lt_succ_self hi)] at made
  cases made
  cases ok
  have lens : ∀ w ∈ honestWitness H (leaves H digests) (hi + 1) lo hi, w.length = 32 :=
    length_of_mem_honestWitness (length_of_mem_leaves H digests) le'
  have accepted : Core.verifyRange H (.bytes (bag H (mountainHashes H (leaves H digests) (hi + 1))))
      (.int (nodeCount (hi + 1))) (.int lo) (.int hi) (.list ((rangeOf digests lo hi).map .bytes))
      (rangeProofObj (nodeCount (hi + 1)) lo hi
        (.tuple (((honestWitness H (leaves H digests) (hi + 1) lo hi).map toHex).map .str))) = true :=
    verifyRange_honest le small order (Nat.lt_succ_self hi) rfl (map_digest?_bytes _) rfl
      (parseDigests_toHex lens)
  have root := mmr.rootAt (length_of_mem_leaves H _) le' small
  rw [own]
  exact ⟨lo, hi, _, rfl, rfl, le, rootAt_later mmr mmr' root, verifyRange_of_core small order accepted⟩

/-- A successful sync after any interleaving of calls: the nodes are the MMR of the ids of the ledger, a
second sync changes nothing, and every root and proof given before some of the calls is that of its size
still. -/
theorem interleaving_sync (before after : List Call) {added : ℕ}
    (ok : ((run (Indexed.step H) (run (Indexed.step H) .empty before) after).index.sync H
      (.ok (run (Indexed.step H) (run (Indexed.step H) .empty before) after).ledger)).1 = .ok added) :
    let t := run (Indexed.step H) .empty before
    let s := run (Indexed.step H) t after
    let m := (s.index.sync H (.ok s.ledger)).2
    (∃ digests : List Digest, Digested digests s.ledger ∧ m.bodyDigests = digests.map (·.1) ∧
      IsMmr H (leaves H digests) m.nodes) ∧
    m.sync H (.ok s.ledger) = (.ok 0, m) ∧
    (∀ size root, rootAt H t.index.nodes size = .ok root → rootAt H m.nodes size = .ok root) ∧
    (∀ seq size proof, t.index.inclusionProof seq size = .ok proof → ∃ root body,
      rootAt H m.nodes (size.getD t.index.nodes.length).toNat = .ok root ∧ m.bodyDigest seq = .ok body ∧
        verifyInclusion H (.bytes root) (.int (size.getD t.index.nodes.length)) (.int (seq - 1)) (.bytes body)
          proof.toObj = true) ∧
    ∀ fromSeq toSeq proof, t.index.rangeProof fromSeq toSeq = .ok proof → ∃ root bodies,
      rootAt H m.nodes (nodeCount toSeq.toNat) = .ok root ∧ bodies.map .ok =
        (List.range (toSeq + 1 - fromSeq).toNat).map (fun i : ℕ => m.bodyDigest (fromSeq + i)) ∧
        verifyRange H root fromSeq toSeq bodies proof = true := by
  intro t s m
  obtain ⟨old, soundT⟩ := Indexed.sound_empty.run (H := H) before
  obtain ⟨rest, soundS⟩ := soundT.run after
  -- What was indexed before and after stands in front of what `sync` adds.
  obtain ⟨more, sound, whole, again⟩ := soundS.sync_ok ok
  rw [List.nil_append] at soundT soundS sound whole
  have mmr := IsMmr.of_addDigests sound.tree.nodes
  have bodies : m.bodyDigests = _ := sound.tree.bodies
  rw [List.append_assoc] at mmr bodies
  have body {k : ℕ} (lt : k < old.length) : m.bodyDigest (k + 1) = .ok old[k].1 := by
    have lt' : k < (old ++ (rest ++ more)).length := by
      rw [List.length_append]
      exact Nat.lt_add_right _ lt
    rw [MmrLedger.bodyDigest_eq bodies lt', List.getElem_append_left lt]
  refine ⟨⟨_, ?_, sound.tree.bodies, IsMmr.of_addDigests sound.tree.nodes⟩, again, fun size root given => ?_,
    fun seq size proof given => ?_, fun fromSeq toSeq proof given => ?_⟩
  · have folded := sound.folded
    rw [whole, List.take_length] at folded
    exact folded
  · exact rootAt_later (IsMmr.of_addDigests soundT.tree.nodes) mmr given
  · obtain ⟨k, root, lt, seq_, then_, accepted⟩ := inclusionProof_valid soundT.tree.nodes mmr given
    refine ⟨root, old[k].1, then_, ?_, accepted⟩
    rw [show seq = k + 1 by omega, body lt]
  · obtain ⟨lo, hi, root, rfl, rfl, lt, then_, accepted⟩ := rangeProof_valid soundT.tree mmr given
    refine ⟨root, rangeOf old lo hi, then_, ?_, accepted⟩
    have width : ((hi : ℤ) + 1 + 1 - (lo + 1)).toNat = hi + 1 - lo := by omega
    rw [width]
    -- The bodies of the range, one by one.
    refine List.ext_getElem ?_ fun i h h' => ?_
    · rw [List.length_map, List.length_map, List.length_range, length_rangeOf lt]
    · rw [List.length_map, List.length_range] at h'
      rw [List.getElem_map, List.getElem_map, List.getElem_range]
      have here : m.bodyDigest ((lo + i : ℕ) + 1) = .ok old[lo + i].1 := body (by omega)
      rw [show (lo : ℤ) + 1 + i = (lo + i : ℕ) + 1 by omega, here]
      simp [rangeOf]

/-- A record of a digest. -/
def sampleRecord (d : Digest) : LedgerRecord := ⟨0, toHex d.1, .null, [], true, .unsigned, []⟩

/-- A record through the index. -/
def sampleBefore : List Call := [.append (sampleRecord sampleDigests[0])]

/-- A record of another writer, and one through the index that the gap refuses. -/
def sampleAfter : List Call :=
  [.foreign (sampleRecord sampleDigests[1]), .append (sampleRecord sampleDigests[2])]

/-- The state after them. -/
def sampleIndexed : Indexed :=
  run (Indexed.step sha256Hash) (run (Indexed.step sha256Hash) .empty sampleBefore) sampleAfter

/-- The records of the sample ledger are identified. -/
lemma sampleIndexed_identified : ∀ record ∈ sampleIndexed.ledger, Identified record := by
  have identified (d : Digest) (n : ℕ) : Identified { sampleRecord d with seq := n } :=
    ⟨d, fromHex_toHex d.1⟩
  exact List.forall_mem_cons.mpr ⟨identified _ _, List.forall_mem_cons.mpr
    ⟨identified _ _, List.forall_mem_cons.mpr ⟨identified _ _, List.forall_mem_nil _⟩⟩⟩

/-- The state after the first record. -/
def sampleGiven : Indexed := run (Indexed.step sha256Hash) .empty sampleBefore

/-- A root, an inclusion proof and a range proof are given then. -/
lemma sampleGiven_returns : (rootAt sha256Hash sampleGiven.index.nodes 1).toBool = true ∧
    (sampleGiven.index.inclusionProof 1 none).toBool = true ∧
    (sampleGiven.index.rangeProof 1 1).toBool = true := by
  simp only [sampleGiven, sha256Hash_eq]
  decide +kernel

/-- What a sync after the gap restores of what was given before it. -/
theorem interleaving_sync_sample :
    let m := (sampleIndexed.index.sync sha256Hash (.ok sampleIndexed.ledger)).2
    (∃ digests : List Digest, Digested digests sampleIndexed.ledger ∧ m.bodyDigests = digests.map (·.1) ∧
      IsMmr sha256Hash (leaves sha256Hash digests) m.nodes) ∧
    m.sync sha256Hash (.ok sampleIndexed.ledger) = (.ok 0, m) ∧
    (∃ root, rootAt sha256Hash sampleGiven.index.nodes 1 = .ok root ∧ rootAt sha256Hash m.nodes 1 = .ok root) ∧
    (∃ proof root body, sampleGiven.index.inclusionProof 1 none = .ok proof ∧
      rootAt sha256Hash m.nodes sampleGiven.index.nodes.length = .ok root ∧ m.bodyDigest 1 = .ok body ∧
        verifyInclusion sha256Hash (.bytes root) (.int sampleGiven.index.nodes.length) (.int 0) (.bytes body)
          proof.toObj = true) ∧
    ∃ proof root bodies, sampleGiven.index.rangeProof 1 1 = .ok proof ∧
      rootAt sha256Hash m.nodes (nodeCount 1) = .ok root ∧ bodies.map .ok = [m.bodyDigest 1] ∧
        verifyRange sha256Hash root 1 1 bodies proof = true := by
  obtain ⟨before, sound⟩ := Indexed.sound_empty.run (H := sha256Hash) sampleBefore
  obtain ⟨after, sound⟩ := sound.run sampleAfter
  have ok := sound.recovers sampleIndexed_identified (by decide)
  obtain ⟨restored, again, roots, inclusions, ranges⟩ := interleaving_sync sampleBefore sampleAfter ok
  obtain ⟨rootGiven, inclusionGiven, rangeGiven⟩ := sampleGiven_returns
  refine ⟨restored, again, ⟨_, Py.eq_ok_val rootGiven, roots _ _ (Py.eq_ok_val rootGiven)⟩, ?_, ?_⟩
  · obtain ⟨root, body, then_, held, accepted⟩ := inclusions 1 none _ (Py.eq_ok_val inclusionGiven)
    exact ⟨_, root, body, Py.eq_ok_val inclusionGiven, then_, held, accepted⟩
  · obtain ⟨root, bodies, then_, held, accepted⟩ := ranges 1 1 _ (Py.eq_ok_val rangeGiven)
    exact ⟨_, root, bodies, Py.eq_ok_val rangeGiven, then_, held, accepted⟩

/-- After any interleaving of calls a sync of a ledger whose ids are digests does not fail, and folds in as
many records as the index had not. -/
theorem interleaving_recovers (calls : List Call)
    (identified : ∀ record ∈ (run (Indexed.step H) .empty calls).ledger, Identified record)
    (small : nodeCount (run (Indexed.step H) .empty calls).ledger.length < maxMmrSize) :
    ((run (Indexed.step H) .empty calls).index.sync H (.ok (run (Indexed.step H) .empty calls).ledger)).1 =
      .ok ((run (Indexed.step H) .empty calls).ledger.length -
        (run (Indexed.step H) .empty calls).index.bodyDigests.length) := by
  obtain ⟨digests, sound⟩ := Indexed.sound_empty.run (H := H) calls
  exact sound.recovers identified small

/-- A `sync` after any calls on the sample index adds what was missing. -/
theorem interleaving_recovers_sample :
    (sampleIndexed.index.sync sha256Hash (.ok sampleIndexed.ledger)).1 =
      .ok (3 - sampleIndexed.index.bodyDigests.length) := by
  have same : sampleIndexed = run (Indexed.step sha256Hash) .empty (sampleBefore ++ sampleAfter) :=
    (run_append _ _ _ _).symm
  have identified := sampleIndexed_identified
  rw [same] at identified ⊢
  exact interleaving_recovers (sampleBefore ++ sampleAfter) identified (by decide)

end CLL.Ledger
