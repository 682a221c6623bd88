import CLL.Core.Range
import CLL.Ledger.Admission

/-!
# The MMR over a ledger

`checkpoint/index.py`: the MMR that `MmrLedger` keeps over the records of a ledger, its range proofs by
`seq` and their verifier. `MmrCheckpointer` of `ledger/segments.py` syncs it and takes a checkpoint, of
which a store reads the root and the size.

`MmrLedger.Over` is the invariant: the nodes are those of the digests folded in. `sync_spec` says that a
sync keeps it and folds in records in the order of their `seq`.
-/

namespace CLL.Ledger
open CLL.Core PostOrder

/-- `LedgerRecord`. -/
structure LedgerRecord where
  seq : ℕ
  capsuleId : Str
  capsule : Json
  segment : Str
  consequential : Bool
  authenticity : Authenticity
  envelopes : List ProducerEnvelope

/-- `index.RangeProof`. -/
structure RangeProof where
  fromSeq : ℤ
  toSeq : ℤ
  size : ℤ
  fromIndex : ℤ
  toIndex : ℤ
  witness : List Obj

variable (H : HashFunction)

/-- `index.verify_range`. -/
def verifyRange (root : Bytes) (fromSeq toSeq : ℤ) (bodyDigests : List Bytes) (proof : RangeProof) :
    Bool :=
  verdict do
    ensure (proof.fromSeq = fromSeq ∧ proof.toSeq = toSeq)
    ensure (1 ≤ fromSeq ∧ fromSeq ≤ toSeq)
    let lc ← leafCountObj (.int proof.size)
    ensure ((lc : ℤ) = toSeq)
    .ok (Core.verifyRange H (.bytes root) (.int proof.size) (.int (fromSeq - 1)) (.int (toSeq - 1))
      (.list (bodyDigests.map .bytes))
      (rangeProofObj proof.size proof.fromIndex proof.toIndex (.tuple proof.witness)))

/-- The strings `verifyRange` hashes. -/
def verifyRangeHashed (root : Bytes) (fromSeq toSeq : ℤ) (bodyDigests : List Bytes)
    (proof : RangeProof) : List Bytes :=
  Core.verifyRangeHashed H (.bytes root) (.int proof.size) (.int (fromSeq - 1)) (.int (toSeq - 1))
    (.list (bodyDigests.map .bytes))
    (rangeProofObj proof.size proof.fromIndex proof.toIndex (.tuple proof.witness))

/-- `MmrLedger`, without the ledger it reads. -/
structure MmrLedger where
  nodes : List Bytes
  bodyDigests : List Bytes

namespace MmrLedger

/-- A fresh index over a `MemoryNodeStore`. -/
def empty : MmrLedger := ⟨[], []⟩

/-- `_index_record`. -/
def indexRecord (m : MmrLedger) (record : LedgerRecord) : Py MmrLedger := do
  let expectedSeq := m.bodyDigests.length + 1
  require (record.seq = expectedSeq) .integrity
    (s!"cannot index record seq={record.seq} out of order (expected seq={expectedSeq}) -- " ++
      "MMR indexing requires a gapless, seq-ordered log")
  let bodyDigest ← fromHexStr record.capsuleId
  let leaf ← leafHash H bodyDigest
  let (nodes, _, _) ← addLeaf H m.nodes leaf
  .ok ⟨nodes, m.bodyDigests ++ [bodyDigest]⟩

/-- `for record in self._ledger.scan(): …` of `sync`. What was folded in before a failure stays. -/
def syncLoop (m : MmrLedger) (added : ℕ) : List LedgerRecord → Py ℕ × MmrLedger
  | [] => (.ok added, m)
  | record :: records =>
    if record.seq ≤ m.bodyDigests.length then syncLoop m added records
    else match indexRecord H m record with
      | .error e => (.error e, m)
      | .ok m => syncLoop m (added + 1) records

/-- `sync`, given what `scan()` returns or raises. -/
def sync (m : MmrLedger) (scan : Py (List LedgerRecord)) : Py ℕ × MmrLedger :=
  match scan with
  | .error e => (.error e, m)
  | .ok records => syncLoop H m 0 records

/-- `_root_hex`. -/
def rootHex (m : MmrLedger) (size : ℕ) : Py Str := (rootAt H m.nodes size).map toHex

/-- `range_proof`. -/
def rangeProof (m : MmrLedger) (fromSeq toSeq : ℤ) : Py RangeProof := do
  require (1 ≤ fromSeq ∧ fromSeq ≤ toSeq) .invalidArgument s!"invalid range [{fromSeq}, {toSeq}]"
  let size := nodeCount toSeq.toNat
  let proof ← Core.rangeProof m.nodes (fromSeq - 1) (toSeq - 1) size
  .ok ⟨fromSeq, toSeq, size, proof.fromIndex, proof.toIndex, proof.witness.map .str⟩

end MmrLedger

/-- What a store and the next checkpoint read of a `CheckpointRecord`. -/
structure CheckpointRecord where
  mmrSize : ℕ
  root : Str
  prevSize : ℕ
  prevRoot : Str

/-- `emit_checkpoint`, up to what the signature covers besides. -/
def emitCheckpoint (mmr : MmrLedger) (prev : Option CheckpointRecord) : Py CheckpointRecord := do
  let currentSize := mmr.nodes.length
  require (currentSize ≠ 0) .checkpoint "cannot checkpoint an empty MMR (no leaves appended yet)"
  let (prevSize, prevRoot) ←
    match prev with
    | none => .ok (0, [])
    | some prev => do
      require (prev.mmrSize < currentSize) .rollback
        (s!"MMR size {currentSize} is not greater than previous checkpoint size {prev.mmrSize} -- " ++
          "monotonicity violated")
      let actualPrevRoot ← mmr.rootHex H prev.mmrSize
      require (actualPrevRoot = prev.root) .rollback "MMR root at prev_size -- log has been mutated"
      .ok (prev.mmrSize, prev.root)
  let rootHex ← mmr.rootHex H currentSize
  .ok ⟨currentSize, rootHex, prevSize, prevRoot⟩

/-- `Checkpointer`: `checkpoint()` may scan the store that it is attached to, and returns an object with
`root` and `mmr_size`. -/
structure Checkpointer (κ : Type) where
  checkpoint : κ → Py (List LedgerRecord) → Py (Str × ℤ) × κ
  rangeProof : κ → ℤ → ℤ → Py RangeProof

/-- `MmrCheckpointer`. -/
structure MmrCheckpointer where
  mmr : MmrLedger
  prev : Option CheckpointRecord

namespace MmrCheckpointer

/-- `checkpoint`. -/
def checkpoint (c : MmrCheckpointer) (scan : Py (List LedgerRecord)) :
    Py (Str × ℤ) × MmrCheckpointer :=
  match c.mmr.sync H scan with
  | (.error e, mmr) => (.error e, ⟨mmr, c.prev⟩)
  | (.ok _, mmr) =>
    match emitCheckpoint H mmr c.prev with
    | .error e => (.error e, ⟨mmr, c.prev⟩)
    | .ok cp => (.ok (cp.root, cp.mmrSize), ⟨mmr, some cp⟩)

/-- A fresh `MmrCheckpointer`. -/
def empty : MmrCheckpointer := ⟨.empty, none⟩

/-- `MmrCheckpointer` as the `Checkpointer` of a store. -/
def protocol : Checkpointer MmrCheckpointer where
  checkpoint := checkpoint H
  rangeProof c := c.mmr.rangeProof

end MmrCheckpointer

variable {H}

/-- The nodes are those of the digests folded in. -/
structure MmrLedger.Over (H : HashFunction) (m : MmrLedger) (digests : List Digest) : Prop where
  bodies : m.bodyDigests = digests.map (·.1)
  nodes : addDigests H [] digests = .ok m.nodes

/-- An empty index is over no digests. -/
lemma MmrLedger.over_empty : MmrLedger.Over H .empty [] := ⟨rfl, rfl⟩

/-- Digests are added one list after the other. -/
lemma addDigests_append (nodes : List Bytes) (digests more : List Digest) :
    addDigests H nodes (digests ++ more) =
      addDigests H nodes digests >>= fun nodes => addDigests H nodes more := by
  rw [addDigests_eq, addDigests_eq, leaves, List.map_append, addLeaves_append]
  simp only [addDigests_eq, leaves]

/-- One record is folded in as the next digest. -/
lemma MmrLedger.indexRecord_spec {m m' : MmrLedger} {digests : List Digest} {record : LedgerRecord}
    (based : m.Over H digests) (ok : m.indexRecord H record = .ok m') :
    record.seq = digests.length + 1 ∧ ∃ d : Digest, fromHex record.capsuleId = some d.1 ∧
      m'.Over H (digests ++ [d]) := by
  obtain ⟨_, next, ok⟩ := bind_eq_ok.mp ok
  obtain ⟨body, hbody, ok⟩ := bind_eq_ok.mp ok
  obtain ⟨leaf, hleaf, ok⟩ := bind_eq_ok.mp ok
  obtain ⟨⟨nodes, pos, new⟩, hadd, ok⟩ := bind_eq_ok.mp ok
  cases ok
  have count : m.bodyDigests.length = digests.length := by rw [based.bodies, List.length_map]
  have seq := require_eq_ok.mp next
  obtain ⟨_, len, -⟩ := bind_eq_ok.mp hleaf
  have len := assertDigest_eq_ok.mp len
  refine ⟨by omega, ⟨body, len⟩, fromHexStr_eq_ok.mp hbody, ?_, ?_⟩
  · rw [List.map_append, based.bodies]
    rfl
  · rw [addDigests_append, based.nodes, ok_bind]
    simp only [addDigests, hleaf, hadd, ok_bind]

/-- The records are numbered from `start + 1` on. -/
def Numbered (start : ℕ) : List LedgerRecord → Prop
  | [] => True
  | record :: records => record.seq = start + 1 ∧ Numbered (start + 1) records

/-- The ids of the records are the hex forms of the digests. -/
def Digested (digests : List Digest) (records : List LedgerRecord) : Prop :=
  records.map (fun r => fromHex r.capsuleId) = digests.map fun d => some d.1

/-- Later records are numbered after earlier ones. -/
lemma Numbered.append {start : ℕ} {records more : List LedgerRecord} :
    Numbered start (records ++ more) ↔
      Numbered start records ∧ Numbered (start + records.length) more := by
  induction records generalizing start with
  | nil => simp [Numbered]
  | cons record records ih =>
    have shift : start + (record :: records).length = start + 1 + records.length := by
      rw [List.length_cons]
      omega
    rw [List.cons_append, Numbered, Numbered, ih, shift, and_assoc]

/-- Records already folded in are passed over. -/
lemma MmrLedger.syncLoop_old {m : MmrLedger} {start added : ℕ} {old : List LedgerRecord}
    (numbered : Numbered start old) (le : start + old.length ≤ m.bodyDigests.length)
    (records : List LedgerRecord) :
    m.syncLoop H added (old ++ records) = m.syncLoop H added records := by
  induction old generalizing start with
  | nil => rfl
  | cons record old ih =>
    obtain ⟨here, numbered⟩ := numbered
    rw [List.length_cons] at le
    rw [List.cons_append, syncLoop, if_pos (by omega), ih numbered (by omega)]

/-- New records are folded in one by one, all of them if nothing fails. -/
lemma MmrLedger.syncLoop_new {m : MmrLedger} {digests : List Digest} (added : ℕ)
    {records : List LedgerRecord} (based : m.Over H digests)
    (numbered : Numbered digests.length records) :
    ∃ more : List Digest, (m.syncLoop H added records).2.Over H (digests ++ more) ∧
      Digested more (records.take more.length) ∧ more.length ≤ records.length ∧
        ∀ n, (m.syncLoop H added records).1 = .ok n → more.length = records.length := by
  induction records generalizing m digests added with
  | nil => exact ⟨[], by simpa [syncLoop] using based, rfl, le_rfl, fun _ _ => rfl⟩
  | cons record records ih =>
    obtain ⟨here, numbered⟩ := numbered
    have count : m.bodyDigests.length = digests.length := by rw [based.bodies, List.length_map]
    rw [syncLoop, if_neg (by omega)]
    cases e : m.indexRecord H record with
    | error err => exact ⟨[], by simpa using based, rfl, Nat.zero_le _, fun n hn => by cases hn⟩
    | ok m' =>
      obtain ⟨-, d, hd, based'⟩ := MmrLedger.indexRecord_spec based e
      obtain ⟨more, based'', folded, le, all⟩ := ih (added + 1) based'
        (by simpa using numbered)
      refine ⟨d :: more, by simpa using based'', ?_, by simpa using le, fun n hn => ?_⟩
      · unfold Digested at folded ⊢
        rw [List.length_cons, List.take_succ_cons, List.map_cons, List.map_cons, hd, folded]
      · rw [List.length_cons, List.length_cons, all n hn]

/-- A sync over a numbered ledger folds in the records it had not, in their order. -/
lemma MmrLedger.sync_spec {m : MmrLedger} {digests : List Digest} {scan : Py (List LedgerRecord)}
    (based : m.Over H digests)
    (scanned : ∀ records, scan = .ok records → Numbered 0 records ∧ digests.length ≤ records.length) :
    ∃ more : List Digest, (m.sync H scan).2.Over H (digests ++ more) ∧
      (∀ records, scan = .ok records →
        Digested more ((records.drop digests.length).take more.length) ∧
          (digests ++ more).length ≤ records.length) ∧
      (∀ n, (m.sync H scan).1 = .ok n → ∃ records, scan = .ok records ∧
        (digests ++ more).length = records.length) := by
  cases scan with
  | error e => exact ⟨[], by simpa [sync] using based, by simp, by simp [sync]⟩
  | ok records =>
    obtain ⟨numbered, le⟩ := scanned records rfl
    have split := List.take_append_drop digests.length records
    have length : (records.take digests.length).length = digests.length := by simpa using le
    have count : m.bodyDigests.length = digests.length := by rw [based.bodies, List.length_map]
    rw [← split] at numbered
    obtain ⟨old, new⟩ := Numbered.append.mp numbered
    rw [length, Nat.zero_add] at new
    have same : m.syncLoop H 0 records = m.syncLoop H 0 (records.drop digests.length) := by
      conv_lhs => rw [← split]
      exact MmrLedger.syncLoop_old old (by omega) _
    obtain ⟨more, based', folded, le', all⟩ := MmrLedger.syncLoop_new 0 based new
    rw [List.length_drop] at le'
    rw [sync, same]
    refine ⟨more, based', fun records' e => ?_, fun n hn => ⟨records, rfl, ?_⟩⟩
    · cases e
      refine ⟨folded, ?_⟩
      rw [List.length_append]
      omega
    · have := all n hn
      rw [List.length_drop] at this
      rw [List.length_append]
      omega

end CLL.Ledger
