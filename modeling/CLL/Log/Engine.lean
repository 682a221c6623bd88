import CLL.Log.Validate

/-!
# The transition engine

The transitions of `log/engine.py` and its in-memory `Engine`. A stored state carries the rules of
`validate_state`, and an engine carries those of `validate_entries`, so every transition keeps them by
type. `applyCllDelta_deltaSince` says that replaying the delta of a commit gives what the commit gave.
-/

namespace CLL.Log
open CLL.Core (Digest)

/-- The bytes of the latest checkpoint. -/
def CllState.checkpointBytes (state : CllState) : Option Bytes := state.checkpoint.map (·.bytes.1)

/-- `None`, or a buffer. -/
def expectedBytes : Obj → Py (Option Bytes)
  | .none => .ok none
  | value => (orRaise .invalid "expected checkpoint must be bytes or None" value.buf?).map some

/-- `_check_expected`. -/
def checkExpected (current : CllState) (expectedSize expectedCheckpoint : Obj) : Py Unit := do
  let expected ← expectedBytes expectedCheckpoint
  let size ← orRaise .invalid "expected size must be an integer" expectedSize.int?
  require ((current.size : ℤ) = size ∧ current.checkpointBytes = expected) .contention
    "CLL state changed"

/-- The rows of `next` whose keys no row of `current` has. -/
def freshRows (current next : List WitnessState) : List WitnessState :=
  next.filter fun row => row.key ∉ current.map WitnessState.key

/-- The stored row with the key of `row`, if there is one, is for the same checkpoint. -/
def checkRow (current : List WitnessState) (row : WitnessState) : Py Unit :=
  match current.find? (·.key = row.key) with
  | some stored => require (stored.checkpoint = row.checkpoint) .contention "witness checkpoint changed"
  | none => .ok ()

/-- The rules between the latest checkpoints of two states. -/
def checkCheckpoint : Option CheckpointState → Option CheckpointState → Py Unit
  | some _, none => raise .contention "checkpoint cannot be removed"
  | some old, some new => do
    require (old.size ≤ new.size ∧ old.indexedSeq ≤ new.indexedSeq) .contention
      "checkpoint moved backward"
    require (new.size = old.size → new = old) .contention "checkpoint changed at an existing size"
  | none, _ => .ok ()

/-- The latest checkpoint stays, or a larger one takes its place. -/
lemma checkCheckpoint_eq_ok {old new : Option CheckpointState} {u : Unit}
    (ok : checkCheckpoint old new = .ok u) :
    ∀ c ∈ old, ∃ d ∈ new, c.size ≤ d.size ∧ c.indexedSeq ≤ d.indexedSeq ∧ (d.size = c.size → d = c) := by
  intro c hc
  cases hc
  cases new with
  | none => cases ok
  | some d =>
    obtain ⟨_, grow, ok⟩ := bind_eq_ok.mp ok
    obtain ⟨le, le'⟩ := require_eq_ok.mp grow
    exact ⟨d, rfl, le, le', require_eq_ok.mp ok⟩

/-- The rows that `next` adds to those of `current`. -/
abbrev Added (current next : Header) :=
  {added : List WitnessState // added = freshRows current.witnesses next.witnesses}

/-- `added_witnesses`. -/
def addedWitnesses (current next : Header) : Py (Added current next) := do
  require (current.indexedSeq ≤ next.indexedSeq) .invalid "CLL state is not append-only"
  checkCheckpoint current.checkpoint next.checkpoint
  next.witnesses.forM (checkRow current.witnesses)
  .ok ⟨freshRows current.witnesses next.witnesses, rfl⟩

/-- Rows of a state and the rows that a commit adds to them have distinct keys. -/
lemma nodup_merge {current next : Header} (added : Added current next) :
    ((current.witnesses ++ added.1).map WitnessState.key).Nodup := by
  rw [added.2, List.map_append, List.nodup_append']
  refine ⟨current.nodup_keys, next.nodup_keys.sublist (List.filter_sublist.map _), ?_⟩
  intro key old new
  obtain ⟨row, hrow, rfl⟩ := List.mem_map.mp new
  exact of_decide_eq_true (List.mem_filter.mp hrow).2 old

/-- `next` with the rows of `current`, followed by the added ones. -/
def merge (current next : Header) (added : Added current next) : Header :=
  { next with witnesses := current.witnesses ++ added.1, nodup_keys := nodup_merge added }

/-- `apply_cll`. -/
def applyCll (current : CllState) (expectedSize expectedCheckpoint next : Obj) : Py CllState := do
  checkExpected current expectedSize expectedCheckpoint
  let next ← validateState .invalid next
  require (current.size ≤ next.size ∧ current.indexedSeq ≤ next.indexedSeq ∧
    next.nodes.take current.nodes.length = current.nodes) .invalid "CLL state is not append-only"
  let added ← addedWitnesses current.toHeader next.toHeader
  .ok { next with toHeader := merge current.toHeader next.toHeader added }

/-- `apply_cll_delta`. The last check is that of the tuple concatenation. -/
def applyCllDelta (current : CllState) (expectedSize expectedCheckpoint delta : Obj) :
    Py CllState := do
  checkExpected current expectedSize expectedCheckpoint
  let items ← delta.attr "nodes" >>= nodeItems .invalid
  let nodes ← nodesOf .invalid items
  let count ← lengthOf items
  let size ← delta.attr "size"
  require (size.eq (natObj (current.size + count.1)) = true) .invalid
    "CLL node delta does not match size"
  have lt : current.size + count.1 < 2 ^ 64 :=
    lt_of_le_of_lt (Nat.add_le_add current.size_le count.2.2) (by decide)
  let header ← validateMetadata .invalid delta (current.size + count.1) lt
  let added ← addedWitnesses current.toHeader header.1
  have length : (current.nodes ++ nodes.1).length = current.size + count.1 := by
    rw [List.length_append, current.length_eq, nodes.2]
    exact congrArg _ count.2.1.symm
  if le : current.size + count.1 ≤ maxSize then
    .ok ⟨⟨merge current.toHeader header.1 added, current.nodes ++ nodes.1⟩,
      length.trans header.2.symm, le_of_eq_of_le header.2 le⟩
  else raise .memoryError ""

/-- The place of a row, and a row with its key. -/
abbrev Replacement (rows : List WitnessState) :=
  {r : ℕ × WitnessState // (rows.map WitnessState.key)[r.1]? = some r.2.key}

/-- `apply_witness`. -/
def applyWitness (rows : List WitnessState) (expectedAttempts next : Obj) : Py (Replacement rows) := do
  let next ← validateWitness .invalid next
  let attempts ← checkExpectedAttempts expectedAttempts
  match found : rows.findIdx? (·.key = next.key) with
  | some index =>
    have spec := List.findIdx?_eq_some_iff_getElem.mp found
    have lt := spec.fst
    require (rows[index].attempts.1 = attempts.1) .contention "witness state changed"
    require (rows[index].checkpoint = next.checkpoint) .contention "witness checkpoint changed"
    .ok ⟨(index, next), by simpa [lt] using spec.snd.1⟩
  | none => raise .contention "witness state changed"

/-- What an accepted row replaces. -/
lemma applyWitness_eq_ok {rows : List WitnessState} {expectedAttempts next : Obj}
    {r : Replacement rows} (ok : applyWitness rows expectedAttempts next = .ok r) :
    ∃ stored attempts, validateWitness .invalid next = .ok r.1.2 ∧
      checkExpectedAttempts expectedAttempts = .ok attempts ∧ rows[r.1.1]? = some stored ∧
      stored.key = r.1.2.key ∧ stored.attempts.1 = attempts.1 ∧ stored.checkpoint = r.1.2.checkpoint := by
  obtain ⟨w, valid, ok⟩ := bind_eq_ok.mp ok
  obtain ⟨attempts, check, ok⟩ := bind_eq_ok.mp ok
  split at ok
  · rename_i index found
    obtain ⟨_, sameAttempts, ok⟩ := bind_eq_ok.mp ok
    obtain ⟨_, sameCheckpoint, ok⟩ := bind_eq_ok.mp ok
    cases ok
    obtain ⟨lt, key, -⟩ := List.findIdx?_eq_some_iff_getElem.mp found
    exact ⟨rows[index], attempts, valid, check, List.getElem?_eq_getElem lt, of_decide_eq_true key,
      require_eq_ok.mp sameAttempts, require_eq_ok.mp sameCheckpoint⟩
  · cases ok

/-- `apply_witness` where there is no row to replace. -/
lemma applyWitness_missing {rows : List WitnessState} {expectedAttempts next : Obj} {w : WitnessState}
    {attempts : Counter 0 maxAttempts} (valid : validateWitness .invalid next = .ok w)
    (check : checkExpectedAttempts expectedAttempts = .ok attempts)
    (missing : rows.findIdx? (·.key = w.key) = none) :
    applyWitness rows expectedAttempts next = raise .contention "witness state changed" := by
  rw [applyWitness, valid, ok_bind, check, ok_bind]
  split
  · rename_i index found
    cases missing.symm.trans found
  · rfl

/-- `apply_witness` against the row of the same key. -/
lemma applyWitness_found {rows : List WitnessState} {expectedAttempts next : Obj}
    {w stored : WitnessState} {attempts : Counter 0 maxAttempts} {index : ℕ}
    (valid : validateWitness .invalid next = .ok w)
    (check : checkExpectedAttempts expectedAttempts = .ok attempts)
    (found : rows.findIdx? (·.key = w.key) = some index) (at_ : rows[index]? = some stored) :
    ∃ key, applyWitness rows expectedAttempts next =
      (require (stored.attempts.1 = attempts.1) .contention "witness state changed" >>= fun _ =>
        require (stored.checkpoint = w.checkpoint) .contention "witness checkpoint changed" >>= fun _ =>
          .ok ⟨(index, w), key⟩) := by
  obtain ⟨lt, get⟩ := List.getElem?_eq_some_iff.mp at_
  obtain ⟨_, same, -⟩ := List.findIdx?_eq_some_iff_getElem.mp found
  refine ⟨by simpa [lt] using same, ?_⟩
  rw [applyWitness, valid, ok_bind, check, ok_bind]
  split
  · rename_i index' found'
    obtain rfl : index = index' := Option.some.inj (found.symm.trans found')
    subst get
    rfl
  · rename_i missing
    cases found.symm.trans missing

/-- Writing a row in the place of one with the same key. -/
lemma map_key_set {rows : List WitnessState} (r : Replacement rows) :
    (rows.set r.1.1 r.1.2).map WitnessState.key = rows.map WitnessState.key := by
  obtain ⟨⟨i, row⟩, found⟩ := r
  rw [List.map_set]
  apply List.ext_getElem?
  intro j
  rw [List.getElem?_set]
  split
  · rename_i e
    subst e
    obtain ⟨lt, -⟩ := List.getElem?_eq_some_iff.mp found
    rw [if_pos lt, found]
  · rfl

/-- The order of `pending`: numeric size, then the bytes of the identifier. -/
def dueBefore (a b : WitnessState) : Bool :=
  a.checkpointSize.1 < b.checkpointSize.1 ||
    (a.checkpointSize.1 == b.checkpointSize.1 && decide (a.witnessId.1 ≤ b.witnessId.1))

/-- `pending`. Identifiers are ASCII, so their code points order them as their bytes do. -/
def pending (rows : List WitnessState) (now : Time) (limit : ℕ) (witnessId : Option Identifier) :
    List WitnessState :=
  ((rows.filter fun row => row.receipt.isNone && !row.permanent && row.nextAttemptAt ≤ now &&
    witnessId.all (row.witnessId = ·)).mergeSort dueBefore).take limit

/-- Rows are due in the order of their sizes and then of their ids. -/
lemma dueBefore_iff (a b : WitnessState) :
    dueBefore a b = true ↔ a.checkpointSize.1 < b.checkpointSize.1 ∨
      a.checkpointSize.1 = b.checkpointSize.1 ∧ a.witnessId.1 ≤ b.witnessId.1 := by
  simp [dueBefore]

/-- The order in which rows are due is transitive. -/
lemma dueBefore_trans (a b c : WitnessState) (hab : dueBefore a b = true) (hbc : dueBefore b c = true) :
    dueBefore a c = true := by
  rw [dueBefore_iff] at *
  rcases hab with lt | ⟨same, le⟩ <;> rcases hbc with lt' | ⟨same', le'⟩
  · exact Or.inl (lt.trans lt')
  · exact Or.inl (by omega)
  · exact Or.inl (by omega)
  · exact Or.inr ⟨same.trans same', le_trans le le'⟩

/-- The order in which rows are due is total. -/
lemma dueBefore_total (a b : WitnessState) : (dueBefore a b || dueBefore b a) = true := by
  rw [Bool.or_eq_true, dueBefore_iff, dueBefore_iff]
  rcases lt_trichotomy a.checkpointSize.1 b.checkpointSize.1 with lt | same | gt
  · exact Or.inl (Or.inl lt)
  · cases le_total a.witnessId.1 b.witnessId.1 with
    | inl le => exact Or.inl (Or.inr ⟨same, le⟩)
    | inr ge => exact Or.inr (Or.inr ⟨same.symm, ge⟩)
  · exact Or.inr (Or.inl gt)

/-- Rows that are due together have one key. -/
lemma key_of_dueBefore {a b : WitnessState} (hab : dueBefore a b = true) (hba : dueBefore b a = true) :
    a.key = b.key := by
  rw [dueBefore_iff] at *
  have size : a.checkpointSize.1 = b.checkpointSize.1 := by omega
  have le : a.witnessId.1 ≤ b.witnessId.1 := by
    rcases hab with lt | ⟨-, le⟩
    · omega
    · exact le
  have ge : b.witnessId.1 ≤ a.witnessId.1 := by
    rcases hba with lt | ⟨-, le⟩
    · omega
    · exact le
  exact Prod.ext (Subtype.ext (le_antisymm le ge)) size

/-- Rows with distinct keys are told apart by them. -/
lemma eq_of_key {rows : List WitnessState} (nodup : (rows.map WitnessState.key).Nodup)
    {a b : WitnessState} (ha : a ∈ rows) (hb : b ∈ rows) (same : a.key = b.key) : a = b :=
  List.inj_on_of_nodup_map nodup ha hb same

/-- The order of the stored rows does not show in `pending`. -/
lemma pending_perm {rows rows' : List WitnessState} (perm : rows.Perm rows')
    (nodup : (rows.map WitnessState.key).Nodup) (now : Time) (limit : ℕ)
    (witnessId : Option Identifier) :
    pending rows now limit witnessId = pending rows' now limit witnessId := by
  unfold pending
  congr 1
  have due := perm.filter fun row => row.receipt.isNone && !row.permanent &&
    row.nextAttemptAt ≤ now && witnessId.all (row.witnessId = ·)
  refine @List.Perm.eq_of_pairwise _ (fun a b => dueBefore a b = true) _ _ ?_
    (List.pairwise_mergeSort dueBefore_trans dueBefore_total _)
    (List.pairwise_mergeSort dueBefore_trans dueBefore_total _)
    (((List.mergeSort_perm _ _).trans due).trans (List.mergeSort_perm _ _).symm)
  intro a b ha hb hab hba
  have ha : a ∈ rows := (List.mem_filter.mp ((List.mergeSort_perm _ _).subset ha)).1
  have hb : b ∈ rows := perm.symm.subset (List.mem_filter.mp ((List.mergeSort_perm _ _).subset hb)).1
  exact eq_of_key nodup ha hb (key_of_dueBefore hab hba)

/-- `AppendResult.outcome`. -/
inductive Outcome where
  | inserted
  | idempotent
  deriving DecidableEq, Repr

structure AppendResult where
  entry : Entry
  outcome : Outcome
  deriving DecidableEq

/-- `Engine`: entries that pass `validate_entries`, their index by value, and the state. -/
structure Engine where
  entries : List Entry
  byValue : Bytes → Option ℕ
  state : CllState
  dense : ∀ i e, entries[i]? = some e → e.seq = i + 1
  width : ∀ e ∈ entries, e.value.length = entryBytes
  distinct : (entries.map Entry.value).Nodup
  length_le : entries.length ≤ maxPortableInteger
  byValue_eq : ∀ v, byValue v = entries.findIdx? (·.value = v)

namespace Engine

/-- Engines with the same entries and state are equal. -/
lemma ext {e f : Engine} (entries : e.entries = f.entries) (state : e.state = f.state) : e = f := by
  have byValue : e.byValue = f.byValue := by
    funext v
    rw [e.byValue_eq, f.byValue_eq, entries]
  cases e
  cases f
  simp_all

/-- `Engine()`. -/
def empty : Engine where
  entries := []
  byValue _ := none
  state := .empty
  dense := by simp
  width := by simp
  distinct := by simp
  length_le := Nat.zero_le _
  byValue_eq _ := rfl

/-- `self._entries.append(entry); self._by_value[value] = seq - 1`. -/
def push (e : Engine) (entry : Entry) (seq : entry.seq = e.entries.length + 1)
    (width : entry.value.length = entryBytes) (fresh : e.byValue entry.value = none)
    (le : e.entries.length + 1 ≤ maxPortableInteger) : Engine where
  entries := e.entries ++ [entry]
  byValue v := if v = entry.value then some (entry.seq - 1) else e.byValue v
  state := e.state
  dense i f hf := by
    rw [List.getElem?_append] at hf
    split at hf
    · exact e.dense i f hf
    · rename_i ge
      obtain ⟨lt, eq⟩ := List.getElem?_eq_some_iff.mp hf
      rw [List.length_singleton] at lt
      rw [List.getElem_singleton] at eq
      rw [← eq, seq]
      omega
  width f hf := by
    cases List.mem_append.mp hf with
    | inl hf => exact e.width f hf
    | inr hf => rw [List.mem_singleton.mp hf]; exact width
  distinct := by
    rw [e.byValue_eq, List.findIdx?_eq_none_iff] at fresh
    rw [List.map_append, List.nodup_append']
    refine ⟨e.distinct, List.nodup_singleton _, ?_⟩
    intro v hv hv'
    obtain ⟨f, hf, rfl⟩ := List.mem_map.mp hv
    have ne := fresh f hf
    rw [List.map_singleton, List.mem_singleton] at hv'
    simp [hv'] at ne
  length_le := by simpa using le
  byValue_eq v := by
    rw [List.findIdx?_append]
    by_cases same : v = entry.value
    · subst same
      rw [e.byValue_eq] at fresh
      simp [fresh, seq]
    · rw [if_neg same, e.byValue_eq]
      simp [Ne.symm same]

/-- `self._entries[index]`. -/
def entryAt (e : Engine) (index : ℕ) : Py Entry :=
  match e.entries[index]? with
  | some entry => .ok entry
  | none => raise .indexError "list index out of range"

/-- `append`. -/
def append (e : Engine) (input : Obj) : Py (Engine × AppendResult) := do
  let (value, appendedAt) ← checkAppend input
  match fresh : e.byValue value.1 with
  | some index =>
    let entry ← e.entryAt index
    .ok (e, ⟨entry, .idempotent⟩)
  | none =>
    if le : e.entries.length + 1 ≤ maxPortableInteger then
      let entry : Entry := ⟨e.entries.length + 1, value.1, appendedAt⟩
      .ok (e.push entry rfl value.2 fresh le, ⟨entry, .inserted⟩)
    else raise .invalid "entry sequence exceeds the portable range"

/-- `replay_entry`. -/
def replayEntry (e : Engine) (entry : Entry) : Py Engine :=
  match e.append (appendInputObj (.bytes entry.value) (timeObj entry.appendedAt)) with
  | .ok (e, result) => do
    require (result.outcome = .inserted ∧ result.entry.seq = entry.seq ∧
      result.entry.appendedAt = entry.appendedAt) .corrupt "invalid stored entry"
    .ok e
  | .error exc =>
    if exc.kind.isCllError then raise .corrupt s!"invalid stored entry: {exc.text}" else .error exc

/-- `get_entry`. -/
def getEntry (e : Engine) (value : Obj) : Py Entry := do
  let value ← checkValue value
  match e.byValue value.1 with
  | some index => e.entryAt index
  | none => raise .notFound "entry not found"

/-- `scan_entries`. -/
def scanEntries (e : Engine) (afterSeq limit : Obj) : Py (List Entry) := do
  let (afterSeq, limit) ← checkScan afterSeq limit
  .ok ((e.entries.drop afterSeq).take limit)

/-- `commit_cll`. -/
def commitCll (e : Engine) (expectedSize expectedCheckpoint next : Obj) : Py Engine := do
  let state ← applyCll e.state expectedSize expectedCheckpoint next
  .ok { e with state := state }

/-- `commit_cll_delta`. -/
def commitCllDelta (e : Engine) (expectedSize expectedCheckpoint delta : Obj) : Py Engine := do
  let state ← applyCllDelta e.state expectedSize expectedCheckpoint delta
  .ok { e with state := state }

/-- `pending_witnesses`. -/
def pendingWitnesses (e : Engine) (now limit : Obj) : Py (List WitnessState) := do
  let (now, limit) ← checkPending now limit
  .ok (pending e.state.witnesses now limit none)

/-- `pending_witnesses_for`. -/
def pendingWitnessesFor (e : Engine) (witnessId now limit : Obj) : Py (List WitnessState) := do
  let (witnessId, now, limit) ← checkPendingFor witnessId now limit
  .ok (pending e.state.witnesses now limit (some witnessId))

/-- `get_witness`. -/
def getWitness (e : Engine) (witnessId checkpointSize : Obj) : Py (Option WitnessState) := do
  let key ← checkWitnessKey witnessId checkpointSize
  .ok (e.state.witnesses.find? (·.key = key))

/-- `commit_witness`. -/
def commitWitness (e : Engine) (expectedAttempts next : Obj) : Py Engine := do
  let r ← applyWitness e.state.witnesses expectedAttempts next
  let state : CllState :=
    { e.state with
      witnesses := e.state.witnesses.set r.1.1 r.1.2
      nodup_keys := by rw [map_key_set]; exact e.state.nodup_keys }
  .ok { e with state := state }

/-- `snapshot`. -/
def snapshot (e : Engine) : ℕ × CllState := (e.entries.length, e.state)

/-- The entries that a restore deletes have no index any more, the others keep theirs. -/
lemma findIdx?_take (e : Engine) (count : ℕ) (v : Bytes) :
    (if v ∈ (e.entries.drop count).map Entry.value then none else e.byValue v) =
      (e.entries.take count).findIdx? (·.value = v) := by
  have distinct := e.distinct
  conv at distinct => rw [← List.take_append_drop count e.entries, List.map_append]
  rw [List.nodup_append'] at distinct
  split
  · rename_i dropped
    symm
    rw [List.findIdx?_eq_none_iff]
    intro f hf
    rw [decide_eq_false_iff_not]
    rintro rfl
    exact distinct.2.2 (List.mem_map_of_mem hf) dropped
  · rename_i kept
    rw [e.byValue_eq]
    conv_lhs => rw [← List.take_append_drop count e.entries, List.findIdx?_append]
    have none : (e.entries.drop count).findIdx? (·.value = v) = none := by
      rw [List.findIdx?_eq_none_iff]
      intro f hf
      rw [decide_eq_false_iff_not]
      rintro rfl
      exact kept (List.mem_map_of_mem hf)
    rw [none]
    simp

/-- `restore`. -/
def restore (e : Engine) (snapshot : ℕ × CllState) : Engine where
  entries := e.entries.take snapshot.1
  byValue v := if v ∈ (e.entries.drop snapshot.1).map Entry.value then none else e.byValue v
  state := snapshot.2
  dense i f hf := e.dense i f (by
    rw [List.getElem?_take] at hf
    split at hf
    · exact hf
    · cases hf)
  width f hf := e.width f (List.mem_of_mem_take hf)
  distinct := by
    rw [List.map_take]
    exact e.distinct.sublist (List.take_sublist _ _)
  length_le := (List.length_take_le' _ _).trans e.length_le
  byValue_eq := e.findIdx?_take snapshot.1

/-- Undoing a transition that only appended entries. -/
lemma restore_snapshot {e f : Engine} (older : e.entries <+: f.entries) :
    f.restore e.snapshot = e := by
  apply Engine.ext
  · exact (List.prefix_iff_eq_take.mp older).symm
  · rfl

/-- What an append does. -/
lemma append_eq_ok {e e' : Engine} {input : Obj} {result : AppendResult}
    (ok : e.append input = .ok (e', result)) :
    (result.outcome = .idempotent ∧ e' = e ∧ result.entry ∈ e.entries) ∨
    (result.outcome = .inserted ∧ ∃ seq width fresh le, e' = e.push result.entry seq width fresh le) := by
  obtain ⟨⟨value, appendedAt⟩, -, ok⟩ := bind_eq_ok.mp ok
  dsimp only at ok
  split at ok
  · rename_i index found
    obtain ⟨entry, at_, ok⟩ := bind_eq_ok.mp ok
    cases ok
    refine Or.inl ⟨rfl, rfl, ?_⟩
    unfold entryAt at at_
    split at at_
    · rename_i get
      cases at_
      exact List.mem_of_getElem? get
    · cases at_
  · rename_i fresh
    split at ok
    · rename_i le
      cases ok
      exact Or.inr ⟨rfl, rfl, value.2, fresh, le, rfl⟩
    · cases ok

/-- A stored entry is replayed as the append that stored it. -/
lemma replayEntry_push {e : Engine} {entry : Entry} (seq : entry.seq = e.entries.length + 1)
    (width : entry.value.length = entryBytes) (fresh : e.byValue entry.value = none)
    (le : e.entries.length + 1 ≤ maxPortableInteger) :
    e.replayEntry entry = .ok (e.push entry seq width fresh le) := by
  have same : (⟨e.entries.length + 1, entry.value, entry.appendedAt⟩ : Entry) = entry := by
    rw [← seq]
  have check : checkAppend (appendInputObj (.bytes entry.value) (timeObj entry.appendedAt)) =
      .ok (⟨entry.value, width⟩, entry.appendedAt) := by
    have digestOk := digest_bytes ⟨entry.value, width⟩
    have value : checkValue (.bytes entry.value) = .ok ⟨entry.value, width⟩ :=
      orRaise_eq_ok.mpr digestOk
    have isInst : isInstance .appendInput
        (appendInputObj (.bytes entry.value) (timeObj entry.appendedAt)) = true := rfl
    have valueAttr : (appendInputObj (.bytes entry.value) (timeObj entry.appendedAt)).attr "value" =
        .ok (.bytes entry.value) := rfl
    have timeAttr : (appendInputObj (.bytes entry.value) (timeObj entry.appendedAt)).attr
        "appended_at" = .ok (timeObj entry.appendedAt) := rfl
    rw [checkAppend, require_of isInst, ok_bind, valueAttr, ok_bind, value, ok_bind, timeAttr, ok_bind,
      normalizeTime_timeObj, ok_bind]
  have ok : e.append (appendInputObj (.bytes entry.value) (timeObj entry.appendedAt)) =
      .ok (e.push entry seq width fresh le, ⟨entry, .inserted⟩) := by
    rw [append, check, ok_bind]
    dsimp only
    split
    · rename_i index found
      rw [fresh] at found
      cases found
    · rw [dif_pos le]
      congr 2
      · apply Engine.ext
        · simp [push, same]
        · rfl
      · rw [same]
  rw [replayEntry, ok]
  dsimp only
  rw [require_of ⟨rfl, rfl, rfl⟩, ok_bind]

end Engine

/-- An appended value that is known returns its entry. -/
lemma append_of_some {e : Engine} {input : Obj} {value : Digest} {appendedAt : Time} {index : ℕ}
    (check : checkAppend input = .ok (value, appendedAt)) (found : e.byValue value.1 = some index) :
    e.append input = (e.entryAt index).map fun entry => (e, ⟨entry, .idempotent⟩) := by
  rw [Engine.append, check, ok_bind]
  dsimp only
  split
  · rename_i index' found'
    obtain rfl : index = index' := Option.some.inj (found.symm.trans found')
    rfl
  · rename_i fresh
    cases found.symm.trans fresh

/-- An appended value that is new returns a new entry. -/
lemma append_of_none {e : Engine} {input : Obj} {value : Digest} {appendedAt : Time}
    (check : checkAppend input = .ok (value, appendedAt)) (fresh : e.byValue value.1 = none) :
    e.append input =
      if le : e.entries.length + 1 ≤ maxPortableInteger then
        .ok (e.push ⟨e.entries.length + 1, value.1, appendedAt⟩ rfl value.2 fresh le,
          ⟨⟨e.entries.length + 1, value.1, appendedAt⟩, .inserted⟩)
      else raise .invalid "entry sequence exceeds the portable range" := by
  rw [Engine.append, check, ok_bind]
  dsimp only
  split
  · rename_i index found
    cases fresh.symm.trans found
  · rfl

/-- `Engine.delta_since`: `before` is the state of the snapshot, `current` that of the engine. -/
def deltaSince (before current : CllState) : Delta where
  size := current.size
  nodes := current.nodes.drop before.nodes.length
  indexedSeq := current.indexedSeq
  firstPendingAt := current.firstPendingAt
  checkpoint := current.checkpoint
  witnesses := freshRows before.witnesses current.witnesses
  size_lt := current.size_lt
  leafCount_eq := current.leafCount_eq
  checkpoint_le := current.checkpoint_le
  nodup_keys := current.nodup_keys.sublist (List.filter_sublist.map _)

/-- A state with other rows. -/
abbrev CllState.withRows (state : CllState) (rows : List WitnessState)
    (nodup : (rows.map WitnessState.key).Nodup) : CllState :=
  { state with witnesses := rows, nodup_keys := nodup }

/-- No rows have distinct keys. -/
lemma nodup_keys_nil : (([] : List WitnessState).map WitnessState.key).Nodup := List.nodup_nil

/-- What a commit does. -/
lemma applyCll_eq_ok {current s' : CllState} {expectedSize expectedCheckpoint next : Obj}
    (ok : applyCll current expectedSize expectedCheckpoint next = .ok s') :
    ∃ (n : CllState) (added : Added current.toHeader n.toHeader),
      checkExpected current expectedSize expectedCheckpoint = .ok () ∧
      validateState .invalid next = .ok n ∧ current.nodes <+: n.nodes ∧
      addedWitnesses current.toHeader n.toHeader = .ok added ∧
      s' = { n with toHeader := merge current.toHeader n.toHeader added } := by
  obtain ⟨_, expected, ok⟩ := bind_eq_ok.mp ok
  obtain ⟨n, valid, ok⟩ := bind_eq_ok.mp ok
  obtain ⟨_, grow, ok⟩ := bind_eq_ok.mp ok
  obtain ⟨added, merged, ok⟩ := bind_eq_ok.mp ok
  rw [require_eq_ok] at grow
  refine ⟨n, added, expected, valid, ?_, merged, (Except.ok.inj ok).symm⟩
  rw [← grow.2.2]
  exact List.take_prefix _ _

/-- The expected size and checkpoint are the current ones. -/
lemma checkExpected_eq_ok {current : CllState} {expectedSize expectedCheckpoint : Obj} {u : Unit}
    (ok : checkExpected current expectedSize expectedCheckpoint = .ok u) :
    expectedSize = natObj current.size ∧
      expectedBytes expectedCheckpoint = .ok current.checkpointBytes := by
  obtain ⟨expected, bytes, ok⟩ := bind_eq_ok.mp ok
  obtain ⟨size, int, ok⟩ := bind_eq_ok.mp ok
  obtain ⟨e, e'⟩ := require_eq_ok.mp ok
  refine ⟨?_, by rw [bytes, e']⟩
  rw [orRaise_eq_ok] at int
  cases expectedSize with
  | int n => cases int; rw [natObj, e]
  | _ => cases int

/-- The values that a state expects of itself. -/
lemma checkExpected_self (current : CllState) :
    checkExpected current (natObj current.size) (optional .bytes current.checkpointBytes) = .ok () := by
  have expected : expectedBytes (optional .bytes current.checkpointBytes) =
      .ok current.checkpointBytes := by
    cases current.checkpointBytes <;> rfl
  rw [checkExpected, expected, ok_bind]
  exact require_of ⟨rfl, rfl⟩

/-- Fresh rows are fresh. -/
lemma freshRows_freshRows (current next : List WitnessState) :
    freshRows current (freshRows current next) = freshRows current next := by
  unfold freshRows
  rw [List.filter_filter]
  simp

/-- Rows that are known add nothing fresh. -/
lemma freshRows_append (current next : List WitnessState) :
    freshRows current (current ++ freshRows current next) = freshRows current next := by
  have stored : freshRows current current = [] := by
    rw [freshRows, List.filter_eq_nil_iff]
    intro row hrow fresh
    exact of_decide_eq_true fresh (List.mem_map_of_mem hrow)
  have split (more : List WitnessState) :
      freshRows current (current ++ more) = freshRows current current ++ freshRows current more :=
    List.filter_append _ _
  rw [split, stored, List.nil_append, freshRows_freshRows]

/-- Fresh rows pass the check. -/
lemma forM_checkRow_fresh (current next : List WitnessState) :
    (freshRows current next).forM (checkRow current) = .ok () := by
  have each : ∀ row ∈ freshRows current next, checkRow current row = .ok () := by
    intro row hrow
    have fresh := of_decide_eq_true (List.mem_filter.mp hrow).2
    have none : current.find? (·.key = row.key) = none := by
      rw [List.find?_eq_none]
      intro stored hstored same
      rw [decide_eq_true_eq] at same
      exact fresh (same ▸ List.mem_map_of_mem hstored)
    rw [checkRow, none]
  generalize freshRows current next = rows at each
  induction rows with
  | nil => rfl
  | cons row rows ih =>
    show (checkRow current row >>= fun _ => rows.forM (checkRow current)) = .ok ()
    rw [each row List.mem_cons_self, ok_bind]
    exact ih fun r hr => each r (List.mem_cons_of_mem _ hr)

/-- Applying a delta whose nodes follow those of the state. -/
lemma applyCllDelta_toObj {current : CllState} {expectedSize expectedCheckpoint : Obj}
    (expected : checkExpected current expectedSize expectedCheckpoint = .ok ()) (delta : Delta)
    (size : delta.size = current.size + delta.nodes.length) (le : delta.size ≤ maxSize)
    {added : Added current.toHeader delta.toHeader}
    (merged : addedWitnesses current.toHeader delta.toHeader = .ok added) :
    ∃ s', applyCllDelta current expectedSize expectedCheckpoint delta.toObj = .ok s' ∧
      s'.toHeader = merge current.toHeader delta.toHeader added ∧
      s'.nodes = current.nodes ++ delta.nodes := by
  have nodesAttr : delta.toObj.attr "nodes" = .ok (.tuple (delta.nodes.map fun d => .bytes d.1)) := rfl
  have sizeAttr : delta.toObj.attr "size" = .ok (natObj delta.size) := rfl
  obtain ⟨len, read⟩ := digests_map delta.nodes
  have total : delta.size = current.size + (delta.nodes.map fun d => Obj.bytes d.1).length := by
    rw [List.length_map, size]
  have fits := total ▸ le
  have metadata := fun lt => validateMetadata_toObj .invalid delta total lt
  have sameSize : (natObj delta.size).eq
      (natObj (current.size + (delta.nodes.map fun d => Obj.bytes d.1).length)) = true := by
    simp [natObj, size]
  have length : (current.nodes ++ delta.nodes).length = delta.size := by
    rw [List.length_append, current.length_eq, size]
  refine ⟨⟨⟨merge current.toHeader delta.toHeader added, current.nodes ++ delta.nodes⟩, length, le⟩,
    ?_, rfl, rfl⟩
  · rw [applyCllDelta, expected, ok_bind, nodesAttr, ok_bind, nodeItems, Obj.seq?, orRaise_some,
      ok_bind, nodesOf, read, orRaise_some, ok_bind, lengthOf, dif_pos (by omega), ok_bind, sizeAttr,
      ok_bind, require_of sameSize, ok_bind]
    dsimp only
    rw [metadata, ok_bind, merged, ok_bind, dif_pos fits]

/-- Applying the delta of a commit to the state before it gives the state after it. -/
theorem applyCllDelta_deltaSince {current s' : CllState} {expectedSize expectedCheckpoint next : Obj}
    (ok : applyCll current expectedSize expectedCheckpoint next = .ok s')
    {expectedSize' expectedCheckpoint' : Obj}
    (expected : checkExpected current expectedSize' expectedCheckpoint' = .ok ()) :
    applyCllDelta current expectedSize' expectedCheckpoint' (deltaSince current s').toObj = .ok s' := by
  obtain ⟨n, added, -, -, ⟨suffix, older⟩, merged, rfl⟩ := applyCll_eq_ok ok
  obtain ⟨_, grow, merged⟩ := bind_eq_ok.mp merged
  obtain ⟨_, checkpoint, -⟩ := bind_eq_ok.mp merged
  rw [require_eq_ok] at grow
  generalize next : { n with toHeader := merge current.toHeader n.toHeader added } = s'
  have rows : s'.witnesses = current.witnesses ++ added.1 := by rw [← next]; rfl
  have nodes : s'.nodes = current.nodes ++ suffix := by rw [← next]; exact older.symm
  have deltaNodes : (deltaSince current s').nodes = suffix := by
    show s'.nodes.drop current.nodes.length = suffix
    rw [nodes, List.drop_left]
  -- the delta carries exactly the rows that the commit added
  have deltaRows : (deltaSince current s').witnesses = added.1 := by
    show freshRows current.witnesses s'.witnesses = added.1
    rw [rows, added.2, freshRows_append]
  have size : s'.size = current.size + (deltaSince current s').nodes.length := by
    rw [deltaNodes, ← s'.length_eq, nodes, List.length_append, current.length_eq]
  have deltaAdded : addedWitnesses current.toHeader (deltaSince current s').toHeader = .ok
      ⟨freshRows current.witnesses (deltaSince current s').witnesses, rfl⟩ := by
    have sameSeq : (deltaSince current s').indexedSeq = n.indexedSeq := by rw [← next]; rfl
    have sameCheckpoint : (deltaSince current s').checkpoint = n.checkpoint := by rw [← next]; rfl
    have fresh : (deltaSince current s').witnesses.forM (checkRow current.witnesses) = .ok () := by
      rw [deltaRows, added.2]
      exact forM_checkRow_fresh _ _
    rw [addedWitnesses, sameSeq, require_of grow, ok_bind, sameCheckpoint, checkpoint, ok_bind, fresh,
      ok_bind]
  obtain ⟨t, ok, header, tNodes⟩ := applyCllDelta_toObj expected (deltaSince current s') size
    s'.size_le deltaAdded
  have same : t = s' := by
    apply CllState.ext
    · rw [header]
      refine Header.ext rfl rfl rfl rfl ?_
      show current.witnesses ++ freshRows current.witnesses (deltaSince current s').witnesses = _
      rw [deltaRows, added.2, freshRows_freshRows, ← added.2, rows]
    · rw [tNodes, deltaNodes, nodes]
  rw [ok, same]

/-- The row of a key. -/
lemma find?_key {rows : List WitnessState} (nodup : (rows.map WitnessState.key).Nodup)
    {row : WitnessState} (mem : row ∈ rows) : rows.find? (·.key = row.key) = some row := by
  induction rows with
  | nil => cases mem
  | cons r rows ih =>
    rw [List.map_cons, List.nodup_cons] at nodup
    rw [List.find?_cons]
    cases List.mem_cons.mp mem with
    | inl e => simp [e]
    | inr mem =>
      have ne : r.key ≠ row.key := fun same => nodup.1 (same ▸ List.mem_map_of_mem mem)
      simp [ne, ih nodup.2 mem]

/-- The order of rows with distinct keys does not matter to a lookup by key. -/
lemma find?_key_perm {rows rows' : List WitnessState} (perm : rows.Perm rows')
    (nodup : (rows.map WitnessState.key).Nodup) (key : Identifier × ℕ) :
    rows.find? (·.key = key) = rows'.find? (·.key = key) := by
  have nodup' : (rows'.map WitnessState.key).Nodup := (perm.map _).nodup_iff.mp nodup
  cases found : rows.find? (·.key = key) with
  | some row =>
    obtain rfl : row.key = key := by simpa using List.find?_some found
    exact (find?_key nodup' (perm.subset (List.mem_of_find?_eq_some found))).symm
  | none =>
    rw [List.find?_eq_none] at found
    exact (List.find?_eq_none.mpr fun row mem => found row (perm.symm.subset mem)).symm

/-- Fresh rows do not depend on the order of the current ones. -/
lemma freshRows_perm {current current' : List WitnessState} (perm : current.Perm current')
    (next : List WitnessState) : freshRows current next = freshRows current' next := by
  refine List.filter_congr fun row _ => decide_eq_decide.mpr ?_
  rw [(perm.map WitnessState.key).mem_iff]

/-- The order of the stored rows does not matter to what a commit adds to them. -/
lemma addedWitnesses_perm {current current' : Header} (indexedSeq : current.indexedSeq = current'.indexedSeq)
    (checkpoint : current.checkpoint = current'.checkpoint)
    (perm : current.witnesses.Perm current'.witnesses) (next : Header) :
    (addedWitnesses current next).map Subtype.val = (addedWitnesses current' next).map Subtype.val := by
  have check : checkRow current.witnesses = checkRow current'.witnesses := by
    funext row
    rw [checkRow, checkRow, find?_key_perm perm current.nodup_keys]
  have fresh := freshRows_perm perm next.witnesses
  rw [addedWitnesses, addedWitnesses, indexedSeq, checkpoint, check]
  cases require (current'.indexedSeq ≤ next.indexedSeq) .invalid "CLL state is not append-only" with
  | error exc => rfl
  | ok _ =>
    cases checkCheckpoint current'.checkpoint next.checkpoint with
    | error exc => rfl
    | ok _ =>
      cases next.witnesses.forM (checkRow current'.witnesses) with
      | error exc => rfl
      | ok _ => exact congrArg Except.ok fresh

/-- The key of a row, as `get_witness` takes it. -/
lemma checkWitnessKey_of_validateWitness {next : Obj} {w : WitnessState}
    (ok : validateWitness .invalid next = .ok w) :
    ∃ witnessId checkpointSize, next.attr "witness_id" = .ok witnessId ∧
      next.attr "checkpoint_size" = .ok checkpointSize ∧
      checkWitnessKey witnessId checkpointSize = .ok w.key := by
  obtain ⟨_, -, ok⟩ := bind_eq_ok.mp ok
  obtain ⟨checkpoint, -, ok⟩ := bind_eq_ok.mp ok
  obtain ⟨witnessId, idAttr, ok⟩ := bind_eq_ok.mp ok
  obtain ⟨checkpointSize, sizeAttr, ok⟩ := bind_eq_ok.mp ok
  obtain ⟨attempts, -, ok⟩ := bind_eq_ok.mp ok
  obtain ⟨permanent, -, ok⟩ := bind_eq_ok.mp ok
  refine ⟨witnessId, checkpointSize, idAttr, sizeAttr, ?_⟩
  split at ok
  · rename_i id size cp at_ perm idOk sizeOk _ _ _
    obtain ⟨lastError, -, ok⟩ := bind_eq_ok.mp ok
    obtain ⟨nextAttemptAt, -, ok⟩ := bind_eq_ok.mp ok
    obtain ⟨receipt, -, ok⟩ := bind_eq_ok.mp ok
    cases ok
    rw [checkWitnessKey, idOk, sizeOk]
    rfl
  · cases ok

/-- What `commit_witness` does, and that committing the stored row with the same attempts does the same. -/
lemma Engine.commitWitness_eq_ok {e e' : Engine} {expectedAttempts next : Obj}
    (ok : e.commitWitness expectedAttempts next = .ok e') :
    ∃ (w : WitnessState) (attempts : Counter 0 maxAttempts),
      validateWitness .invalid next = .ok w ∧ expectedAttempts = natObj attempts.1 ∧
      w ∈ e'.state.witnesses ∧ e'.entries = e.entries ∧
      e.commitWitness (natObj attempts.1) w.toObj = .ok e' := by
  obtain ⟨r, applied, commit⟩ := bind_eq_ok.mp ok
  obtain ⟨w, valid, rest⟩ := bind_eq_ok.mp applied
  obtain ⟨attempts, check, found⟩ := bind_eq_ok.mp rest
  have same : expectedAttempts = natObj attempts.1 := by
    rw [checkExpectedAttempts, orRaise_eq_ok] at check
    cases expectedAttempts with
    | int n =>
      simp only [counter, Obj.int?, Option.bind_some] at check
      split at check
      · rename_i range
        cases check
        have nonneg : (n.toNat : ℤ) = n := Int.toNat_of_nonneg (by omega)
        rw [natObj, nonneg]
      · cases check
    | _ => cases check
  have again : e.commitWitness (natObj attempts.1) w.toObj = .ok e' := by
    have applied : applyWitness e.state.witnesses (natObj attempts.1) w.toObj = .ok r := by
      rw [applyWitness, validateWitness_toObj, ok_bind, ← same, check, ok_bind]
      exact found
    rw [commitWitness, applied, ok_bind]
    exact commit
  cases commit
  refine ⟨w, attempts, valid, same, ?_, rfl, again⟩
  show w ∈ e.state.witnesses.set r.1.1 r.1.2
  split at found
  · rename_i index spec
    obtain ⟨_, -, found⟩ := bind_eq_ok.mp found
    obtain ⟨_, -, found⟩ := bind_eq_ok.mp found
    cases found
    exact List.mem_set (List.findIdx?_eq_some_iff_getElem.mp spec).fst w
  · cases found

end CLL.Log
