import CLL.Core.Hash
import CLL.Lib.Utf8

/-!
# Values of the log

The limits and dataclasses of `log/__init__.py`. A stored value carries the rules that the engine checks
before it stores it, as subtypes of its fields and as fields that state what holds between them. `toObj`
gives each value as the Python object it is, the form in which it reaches a function that checks it again.
-/

namespace CLL.Log
open CLL.Core (Digest)

/-- `ENTRY_BYTES`. -/
def entryBytes : ℕ := 32

/-- `MAX_WITNESSES`. -/
def maxWitnesses : ℕ := 32

/-- `MAX_CHECKPOINT_BYTES`. -/
def maxCheckpointBytes : ℕ := 65536

/-- `MAX_JOURNAL_EVENT_BYTES`. -/
def maxJournalEventBytes : ℕ := 4194304

/-- `MAX_WITNESS_RESPONSE_BYTES`. -/
def maxWitnessResponseBytes : ℕ := 2097152

/-- `MAX_IDENTIFIER_BYTES`. -/
def maxIdentifierBytes : ℕ := 191

/-- `MAX_REASON_BYTES`. -/
def maxReasonBytes : ℕ := 4096

/-- `MAX_SCAN_LIMIT`. -/
def maxScanLimit : ℕ := 1000

/-- `MAX_PORTABLE_INTEGER`. -/
def maxPortableInteger : ℕ := 9007199254740991

/-- `MAX_ATTEMPTS`. -/
def maxAttempts : ℕ := 4294967295

/-- The largest unsigned 64-bit integer. -/
def maxUint64 : ℕ := 2 ^ 64 - 1

/-- `sys.maxsize`: no Python sequence is longer. -/
def maxSize : ℕ := 2 ^ 63 - 1

/-- An ASCII letter or digit, or one of dot, slash, colon, underscore and hyphen. -/
def isIdentifierChar (c : ℕ) : Bool :=
  (65 ≤ c && c ≤ 90) || (97 ≤ c && c ≤ 122) || (46 ≤ c && c ≤ 58) || c == 95 || c == 45

/-- `validate_identifier` of a `str`. -/
def isIdentifier (s : Str) : Bool :=
  !s.isEmpty && s.all isIdentifierChar && s.length ≤ maxIdentifierBytes

/-- A portable log or witness identifier. -/
abbrev Identifier := {s : Str // isIdentifier s = true}

/-- Between `lo` and `hi` bytes. -/
abbrev Sized (lo hi : ℕ) := {b : Bytes // lo ≤ b.length ∧ b.length ≤ hi}

/-- A number between `lo` and `hi`. -/
abbrev Counter (lo hi : ℕ) := {n : ℕ // lo ≤ n ∧ n ≤ hi}

/-- `_ENTRY_HASH.fullmatch`. -/
def isEntryHash (s : Str) : Bool :=
  s.length == 64 && s.all fun c => (48 ≤ c && c ≤ 57) || (97 ≤ c && c ≤ 102)

abbrev EntryHash := {s : Str // isEntryHash s = true}

/-- `_utf8_length`. -/
def utf8Length (s : Str) : Option ℕ := (Utf8.encode s).map List.length

/-- The rule for `last_error`. -/
def isReason (s : Str) : Bool := (utf8Length s).any (· ≤ maxReasonBytes)

abbrev Reason := {s : Str // isReason s = true}

/-- The only entry hash scheme that has a name. -/
inductive EntryHashScheme where
  | legacy
  deriving DecidableEq, Repr

/-- The name of a scheme. -/
def EntryHashScheme.name : EntryHashScheme → Str
  | .legacy => Str.lit "legacy"

structure Entry where
  seq : ℕ
  value : Bytes
  appendedAt : Time
  deriving DecidableEq

structure CheckpointState where
  bytes : Sized 1 maxCheckpointBytes
  size : ℕ
  indexedSeq : ℕ
  peaks : List Digest
  deriving DecidableEq

structure WitnessReceipt where
  bytes : Sized 1 maxWitnessResponseBytes
  entryHash : Option EntryHash
  entryHashScheme : Option EntryHashScheme
  leafIndex : Option (Counter 0 maxPortableInteger)
  treeSize : Option (Counter 0 maxPortableInteger)
  deriving DecidableEq

structure WitnessState where
  witnessId : Identifier
  checkpointSize : Counter 1 maxUint64
  checkpoint : Sized 1 maxCheckpointBytes
  attempts : Counter 0 maxAttempts
  nextAttemptAt : Time
  receipt : Option WitnessReceipt
  permanent : Bool
  lastError : Option Reason
  deriving DecidableEq

/-- `witness_key` of a row. -/
def WitnessState.key (row : WitnessState) : Identifier × ℕ := (row.witnessId, row.checkpointSize.1)

instance : LawfulBEq (Identifier × ℕ) := inferInstance

/-- `mountain` is the height of the largest mountain in `remaining` nodes, below the previous one. -/
def mmrLeafCountLoop : ℕ → ℕ → Option ℕ → ℕ → Option ℕ
  | 0, _, _, _ => none
  | fuel + 1, remaining, previous, leaves =>
    if remaining = 0 then some leaves
    else
      let height := (remaining + 1).size - 2
      if previous.any (· ≤ height) then none
      else mmrLeafCountLoop fuel (remaining - (2 ^ (height + 1) - 1)) (some height)
        (leaves + 2 ^ height)

/-- `mmr_leaf_count`. Every mountain takes a node, which bounds the rounds. -/
def mmrLeafCount (size : ℕ) : Option ℕ := mmrLeafCountLoop (size + 1) size none 0

/-- The height that a round takes off. -/
lemma height_bounds {remaining : ℕ} (pos : remaining ≠ 0) :
    2 ^ ((remaining + 1).size - 2 + 1) - 1 ≤ remaining ∧
      remaining < 2 ^ ((remaining + 1).size - 2 + 2) - 1 := by
  have two : 2 ≤ (remaining + 1).size := by
    have := Nat.size_le_size (m := 2) (n := remaining + 1) (by omega)
    exact this
  obtain ⟨k, e⟩ : ∃ k, (remaining + 1).size = k + 2 := ⟨(remaining + 1).size - 2, by omega⟩
  have hi := Nat.lt_size_self (remaining + 1)
  have lo : 2 ^ (k + 1) ≤ remaining + 1 := Nat.lt_size.mp (by omega)
  rw [e] at hi ⊢
  rw [Nat.add_sub_cancel]
  omega

/-- A loop that returns a count took the size of a forest apart. -/
lemma mmrLeafCountLoop_eq_some {fuel remaining leaves n : ℕ} {previous : Option ℕ}
    (ok : mmrLeafCountLoop fuel remaining previous leaves = some n) :
    ∃ r, remaining = PostOrder.forestSize r ∧ n = leaves + r ∧ ∀ q ∈ previous, r < 2 ^ q := by
  induction fuel generalizing remaining previous leaves with
  | zero => cases ok
  | succ fuel ih =>
    rw [mmrLeafCountLoop] at ok
    split at ok
    · rename_i zero
      cases ok
      exact ⟨0, by simpa using zero, rfl, fun q _ => Nat.two_pow_pos q⟩
    · rename_i pos
      obtain ⟨lo, hi⟩ := height_bounds pos
      generalize (remaining + 1).size - 2 = h at lo hi ok
      dsimp only at ok
      split at ok
      · cases ok
      · rename_i high
        obtain ⟨r, e, sum, lt⟩ := ih ok
        have lt := lt h rfl
        refine ⟨2 ^ h + r, ?_, by omega, fun q hq => ?_⟩
        · have := PostOrder.forestSize_mul_pow_add 1 lt
          simp only [Nat.one_mul, PostOrder.forestSize_pow] at this
          omega
        · subst hq
          have hq : h + 1 ≤ q := by simpa using high
          have := Nat.pow_le_pow_right (n := 2) (by norm_num) hq
          rw [pow_succ] at this
          omega

/-- The height of a round is that of the mountain between the bounds. -/
lemma height_unique {remaining h : ℕ} (lo : 2 ^ (h + 1) - 1 ≤ remaining)
    (hi : remaining < 2 ^ (h + 2) - 1) : (remaining + 1).size - 2 = h := by
  have hp := PostOrder.pow_pos_two h
  have above : (remaining + 1).size ≤ h + 2 := Nat.size_le.mpr (by omega)
  have below : h + 1 < (remaining + 1).size := Nat.lt_size.mpr (by omega)
  omega

/-- The loop takes the size of a forest apart when its mountains are below the previous one. -/
lemma mmrLeafCountLoop_forestSize {fuel r leaves : ℕ} {previous : Option ℕ} (enough : r < fuel)
    (lt : ∀ q ∈ previous, r < 2 ^ q) :
    mmrLeafCountLoop fuel (PostOrder.forestSize r) previous leaves = some (leaves + r) := by
  induction fuel generalizing r leaves previous with
  | zero => omega
  | succ fuel ih =>
    rw [mmrLeafCountLoop]
    rcases Nat.eq_zero_or_pos r with rfl | pos
    · rw [PostOrder.forestSize_zero, if_pos rfl, Nat.add_zero]
    · -- the largest mountain covers the leading binary digit of `r`
      obtain ⟨h, lo, hi⟩ : ∃ h, 2 ^ h ≤ r ∧ r < 2 ^ (h + 1) :=
        ⟨r.log2, Nat.log2_self_le pos.ne', Nat.lt_log2_self⟩
      obtain ⟨rest, rfl⟩ := Nat.exists_eq_add_of_le lo
      have small : rest < 2 ^ h := by rw [pow_succ] at hi; omega
      have split : PostOrder.forestSize (2 ^ h + rest) =
          2 ^ (h + 1) - 1 + PostOrder.forestSize rest := by
        have := PostOrder.forestSize_mul_pow_add 1 small
        simpa using this
      have hp := PostOrder.pow_pos_two h
      have upper : PostOrder.forestSize (2 ^ h + rest) < 2 ^ (h + 2) - 1 := by
        rw [← PostOrder.forestSize_pow (h + 1)]
        exact PostOrder.forestSize_strictMono hi
      have height := height_unique (by omega) upper
      have ok : previous.any (· ≤ h) = false := by
        cases previous with
        | none => rfl
        | some q =>
          have := (Nat.pow_lt_pow_iff_right (by norm_num)).mp (Nat.lt_of_le_of_lt lo (lt q rfl))
          simpa using this
      have next := @ih rest (leaves + 2 ^ h) (some h) (by omega) (by simpa using small)
      rw [if_neg (by omega)]
      simp only [height, ok, Bool.false_eq_true, if_false]
      rw [split, Nat.add_sub_cancel_left, next, Nat.add_assoc]

/-- Every complete size has its leaf count. -/
lemma mmrLeafCount_nodeCount (n : ℕ) : mmrLeafCount (Core.nodeCount n) = some n := by
  have enough : n ≤ Core.nodeCount n := PostOrder.forestSize_strictMono.le_apply
  have := @mmrLeafCountLoop_forestSize _ n 0 none
    (Nat.lt_succ_of_le enough) (by simp)
  rwa [Nat.zero_add] at this

/-- Only complete sizes have a leaf count, and it is the one whose node count they are. -/
lemma eq_nodeCount_of_mmrLeafCount {size n : ℕ} (ok : mmrLeafCount size = some n) :
    size = Core.nodeCount n := by
  obtain ⟨r, e, sum, -⟩ := mmrLeafCountLoop_eq_some ok
  rw [e, sum, Nat.zero_add]
  rfl

/-- A size has at least as many nodes as leaves. -/
lemma le_of_mmrLeafCount {size n : ℕ} (ok : mmrLeafCount size = some n) : n ≤ size := by
  rw [eq_nodeCount_of_mmrLeafCount ok]
  exact PostOrder.forestSize_strictMono.le_apply

/-- The engine counts leaves as `leaf_count` does. -/
lemma mmrLeafCount_eq_some_iff {size n : ℕ} (lt : size < Core.maxMmrSize) :
    mmrLeafCount size = some n ↔ Core.leafCount size = .ok n := by
  constructor
  case mp =>
    intro ok
    obtain rfl := eq_nodeCount_of_mmrLeafCount ok
    exact Core.leafCount_nodeCount lt
  case mpr =>
    intro ok
    obtain ⟨-, rfl⟩ := Core.leafCount_eq_ok ok
    exact mmrLeafCount_nodeCount n

/-- Below `MAX_MMR_SIZE` the sizes that `peaks`, `leaf_count` and `mmr_leaf_count` accept are the values of
`node_count`, whose inverse the two counts are, and so are the positions of height zero, on which
`pos_to_leaf_index` and `leaf_index_to_pos` are inverse. -/
theorem sizes_and_positions (s p n i : ℕ) (size : s < Core.maxMmrSize) (position : p < Core.maxMmrSize)
    (leaves : Core.nodeCount n < Core.maxMmrSize) :
    ((∃ ps, Core.peaks s = .ok ps) ↔ ∃ k, s = Core.nodeCount k) ∧
    Core.leafCount (Core.nodeCount n) = .ok n ∧
    (Core.heightAt p = 0 ↔ ∃ i, p = Core.nodeCount i) ∧
    (Core.heightAt p = 0 → ∃ i, Core.posToLeafIndex p = .ok i) ∧
    (Core.posToLeafIndex p = .ok i ↔ Core.leafIndexToPos i = .ok p) ∧
    Core.leafIndexToPos n = .ok (Core.nodeCount n) ∧
    (∀ m, mmrLeafCount s = some m ↔ Core.leafCount s = .ok m) := by
  refine ⟨Core.exists_peaks_iff size, Core.leafCount_nodeCount leaves, Core.heightAt_eq_zero_iff, ?_, ?_, ?_,
    fun _ => mmrLeafCount_eq_some_iff size⟩
  · intro zero
    obtain ⟨i, rfl⟩ := Core.heightAt_eq_zero_iff.mp zero
    refine ⟨i, Core.posToLeafIndex_leafIndexToPos ?_⟩
    rw [Core.leafIndexToPos, if_neg (by omega)]
  · exact ⟨Core.leafIndexToPos_posToLeafIndex, Core.posToLeafIndex_leafIndexToPos⟩
  · rw [Core.leafIndexToPos, if_neg (by omega)]

/-- The sizes and positions of a log with 21 leaves. -/
theorem sizes_and_positions_sample :
    (39 < Core.maxMmrSize ∧ Core.nodeCount 21 < Core.maxMmrSize) ∧
    ((∃ ps, Core.peaks 39 = .ok ps) ↔ ∃ k, 39 = Core.nodeCount k) ∧
    Core.leafCount (Core.nodeCount 21) = .ok 21 ∧
    (Core.heightAt 38 = 0 ↔ ∃ i, 38 = Core.nodeCount i) ∧
    (Core.heightAt 38 = 0 → ∃ i, Core.posToLeafIndex 38 = .ok i) ∧
    (Core.posToLeafIndex 38 = .ok 20 ↔ Core.leafIndexToPos 20 = .ok 38) ∧
    Core.leafIndexToPos 21 = .ok (Core.nodeCount 21) ∧
    (∀ m, mmrLeafCount 39 = some m ↔ Core.leafCount 39 = .ok m) :=
  ⟨by decide, sizes_and_positions 39 38 21 20 (by decide) (by decide) (by decide)⟩

/-- The fields of a `CllState` that pass `_validate_metadata`. -/
structure Header where
  size : ℕ
  indexedSeq : ℕ
  firstPendingAt : Option Time
  checkpoint : Option CheckpointState
  witnesses : List WitnessState
  size_lt : size < 2 ^ 64
  leafCount_eq : mmrLeafCount size = some indexedSeq
  checkpoint_le : ∀ c ∈ checkpoint, 0 < c.size ∧ c.size ≤ size ∧ c.indexedSeq ≤ indexedSeq
  nodup_keys : (witnesses.map WitnessState.key).Nodup

/-- A `CllState` whose nodes and witnesses may be only those that a commit adds. -/
structure Delta extends Header where
  nodes : List Digest

/-- A `CllState` that passes `validate_state`. -/
structure CllState extends Delta where
  length_eq : nodes.length = size
  size_le : size ≤ maxSize

/-- Headers with the same fields are equal. -/
lemma Header.ext {s t : Header} (size : s.size = t.size) (indexedSeq : s.indexedSeq = t.indexedSeq)
    (pending : s.firstPendingAt = t.firstPendingAt) (checkpoint : s.checkpoint = t.checkpoint)
    (witnesses : s.witnesses = t.witnesses) : s = t := by
  cases s
  cases t
  simp_all

/-- States with the same header and nodes are equal. -/
lemma CllState.ext {s t : CllState} (header : s.toHeader = t.toHeader) (nodes : s.nodes = t.nodes) :
    s = t := by
  obtain ⟨⟨h, ns⟩, _, _⟩ := s
  obtain ⟨⟨h', ns'⟩, _, _⟩ := t
  cases header
  cases nodes
  rfl

/-- `CllState()`. -/
def CllState.empty : CllState where
  size := 0
  nodes := []
  indexedSeq := 0
  firstPendingAt := none
  checkpoint := none
  witnesses := []
  size_lt := by norm_num
  leafCount_eq := rfl
  checkpoint_le := by simp
  nodup_keys := by simp
  length_eq := rfl
  size_le := Nat.zero_le _

/-- An optional value: `None` when absent. -/
def optional {α : Type} (toObj : α → Obj) : Option α → Obj
  | some a => toObj a
  | none => .none

def natObj (n : ℕ) : Obj := .int n

def timeObj (t : Time) : Obj := .datetime t.toDateTime

/-- `AppendInput(value, appended_at)`. -/
def appendInputObj (value appendedAt : Obj) : Obj :=
  .inst .appendInput [("value", value), ("appended_at", appendedAt)]

/-- `CheckpointState(bytes, size, indexed_seq, peaks)`. -/
def checkpointObj (bytes size indexedSeq peaks : Obj) : Obj :=
  .inst .checkpointState
    [("bytes", bytes), ("size", size), ("indexed_seq", indexedSeq), ("peaks", peaks)]

/-- `WitnessReceipt(bytes, entry_hash, entry_hash_scheme, leaf_index, tree_size)`. -/
def receiptObj (bytes entryHash entryHashScheme leafIndex treeSize : Obj) : Obj :=
  .inst .witnessReceipt
    [("bytes", bytes), ("entry_hash", entryHash), ("entry_hash_scheme", entryHashScheme),
      ("leaf_index", leafIndex), ("tree_size", treeSize)]

/-- `WitnessState(witness_id, …, last_error)`. -/
def witnessObj (witnessId checkpointSize checkpoint attempts nextAttemptAt receipt permanent
    lastError : Obj) : Obj :=
  .inst .witnessState
    [("witness_id", witnessId), ("checkpoint_size", checkpointSize), ("checkpoint", checkpoint),
      ("attempts", attempts), ("next_attempt_at", nextAttemptAt), ("receipt", receipt),
      ("permanent", permanent), ("last_error", lastError)]

/-- `CllState(size, nodes, indexed_seq, first_pending_at, checkpoint, witnesses)`. -/
def cllStateObj (size nodes indexedSeq firstPendingAt checkpoint witnesses : Obj) : Obj :=
  .inst .cllState
    [("size", size), ("nodes", nodes), ("indexed_seq", indexedSeq),
      ("first_pending_at", firstPendingAt), ("checkpoint", checkpoint), ("witnesses", witnesses)]

def CheckpointState.toObj (c : CheckpointState) : Obj :=
  checkpointObj (.bytes c.bytes) (natObj c.size) (natObj c.indexedSeq)
    (.tuple (c.peaks.map fun p => .bytes p.1))

def WitnessReceipt.toObj (r : WitnessReceipt) : Obj :=
  receiptObj (.bytes r.bytes) (optional (fun h => .str h.1) r.entryHash)
    (optional (fun s => .str s.name) r.entryHashScheme) (optional (fun n => natObj n.1) r.leafIndex)
    (optional (fun n => natObj n.1) r.treeSize)

def WitnessState.toObj (w : WitnessState) : Obj :=
  witnessObj (.str w.witnessId) (natObj w.checkpointSize) (.bytes w.checkpoint) (natObj w.attempts)
    (timeObj w.nextAttemptAt) (optional WitnessReceipt.toObj w.receipt) (.bool w.permanent)
    (optional (fun r => .str r.1) w.lastError)

def Delta.toObj (s : Delta) : Obj :=
  cllStateObj (natObj s.size) (.tuple (s.nodes.map fun n => .bytes n.1)) (natObj s.indexedSeq)
    (optional timeObj s.firstPendingAt) (optional CheckpointState.toObj s.checkpoint)
    (.tuple (s.witnesses.map WitnessState.toObj))

end CLL.Log
