import CLL.Lib.Table
import CLL.Rust.Log
import CLL.Rust.Verifiers

/-!
# The transition engine in Rust

`log/engine.rs`: the rules of a state, and the three commits of a state: `apply_cll` with a whole state,
`apply_append` with a header and what is added to it, and `commit_delta` with what a journal event adds.
`applyAppend_agrees` and `commitDelta_agrees` say that they accept the same changes.
-/

namespace CLL.Rust.Log

/-- `in_range` of `validate_witness`. -/
def inRange (position : Option Int64) : Bool :=
  position.all fun p => 0 ≤ p.toInt && p.toInt ≤ (maxPortableInteger : ℤ)

/-- A digit of `validate_witness`. -/
def isLowerHex (c : ℕ) : Bool := (48 ≤ c && c ≤ 57) || (97 ≤ c && c ≤ 102)

/-- The rules of a receipt. -/
def validateReceipt (receipt : WitnessReceiptState) (code : ErrorCode) : Res Unit := do
  reject (receipt.bytes = [] ∨ maxWitnessResponseBytes < receipt.bytes.length)
    ⟨code, "witness receipt is invalid"⟩
  reject (∃ hash ∈ receipt.entryHash, len hash ≠ 64 ∨ ¬hash.1.all isLowerHex)
    ⟨code, "witness entry hash is invalid"⟩
  reject (∃ scheme ∈ receipt.entryHashScheme, scheme.1 ≠ .lit "legacy")
    ⟨code, "witness entry hash scheme is invalid"⟩
  reject (¬inRange receipt.leafIndex ∨ ¬inRange receipt.treeSize)
    ⟨code, "witness receipt position is invalid"⟩

/-- `validate_witness`. -/
def validateWitness (value : WitnessState) (code : ErrorCode) : Res Unit := do
  reject ((validateIdentifier value.witnessId).toBool = false ∨ value.checkpointSize = 0 ∨
    value.checkpoint = [] ∨ maxCheckpointBytes < value.checkpoint.length ∨
    ¬value.nextAttemptAt.isPortable ∨ ∃ e ∈ value.lastError, maxReasonBytes < len e)
    ⟨code, "witness state is invalid"⟩
  match value.receipt with
  | some receipt => validateReceipt receipt code
  | none => .ok ()

/-- `validate_checkpoint`. -/
def validateCheckpoint (checkpoint : CheckpointState) (state : State) (code : ErrorCode) : Res Unit := do
  reject (checkpoint.bytes = [] ∨ maxCheckpointBytes < checkpoint.bytes.length ∨ checkpoint.size = 0 ∨
    state.size < checkpoint.size ∨ state.indexedSeq < checkpoint.indexedSeq)
    ⟨code, "checkpoint state is invalid"⟩
  reject (∃ peak ∈ checkpoint.peaks, peak.length ≠ entryBytes)
    ⟨code, "checkpoint peak has the wrong width"⟩

/-- `for row in &value.witnesses { … }` of `validate_state_metadata`, with the keys that are seen. -/
def validateRows (code : ErrorCode) : List (Text × UInt64) → List WitnessState → Res Unit
  | _, [] => .ok ()
  | seen, row :: rows => do
    validateWitness row code
    reject (row.key ∈ seen) ⟨code, "duplicate witness key"⟩
    validateRows code (row.key :: seen) rows

/-- The checks of the fields of a header. -/
def validateHeader (value : State) (code : ErrorCode) : Res Unit := do
  reject (leafCount value.size.toNat ≠ some value.indexedSeq.toNat)
    ⟨code, "CLL nodes do not form the MMR of indexedSeq leaves"⟩
  reject (∃ t ∈ value.firstPendingAt, ¬t.isPortable) ⟨code, "pending time is outside the portable range"⟩
  match value.checkpoint with
  | some checkpoint => validateCheckpoint checkpoint value code
  | none => .ok ()

/-- `validate_state_metadata`. -/
def validateStateMetadata (value : State) (nodeCount : ℕ) (code : ErrorCode) : Res Unit := do
  reject (value.size.toNat ≠ nodeCount) ⟨code, "CLL size does not match the nodes"⟩
  validateHeader value code
  validateRows code [] value.witnesses

/-- `nodes.iter().any(|node| node.len() != ENTRY_BYTES)`. -/
def checkWidths (nodes : List Bytes) (code : ErrorCode) : Res Unit :=
  reject (∃ node ∈ nodes, node.length ≠ entryBytes) ⟨code, "node has the wrong width"⟩

/-- `validate_state`. -/
def validateState (value : State) (code : ErrorCode) : Res Unit := do
  validateStateMetadata value value.nodes.length code
  checkWidths value.nodes code

/-- `same_checkpoint`. -/
def sameCheckpoint : Option CheckpointState → Option Bytes → Bool
  | none, none => true
  | some checkpoint, some expected => checkpoint.bytes == expected
  | _, _ => false

/-- The comparison that every commit begins with. -/
def compare (current : State) (expectedSize : UInt64) (expectedCheckpoint : Option Bytes) : Res Unit :=
  reject (current.size ≠ expectedSize ∨ sameCheckpoint current.checkpoint expectedCheckpoint = false)
    (contention "CLL state changed")

/-- The rules of a checkpoint after another. -/
def checkpointFollows : Option CheckpointState → Option CheckpointState → Res Unit
  | some _, none => .error (contention "checkpoint cannot be removed")
  | some old, some new => do
    reject (new.size < old.size ∨ new.indexedSeq < old.indexedSeq) (contention "checkpoint moved backward")
    reject (new.size = old.size ∧ new ≠ old) (contention "checkpoint changed at an existing size")
  | none, _ => .ok ()

/-- `validate_checkpoint_transition`. -/
def validateCheckpointTransition (current next : State) : Res Unit := do
  reject (next.indexedSeq < current.indexedSeq) (invalid "CLL state is not append-only")
  checkpointFollows current.checkpoint next.checkpoint

/-- `existing.get(&key)`; of rows with one key the map holds the last. -/
def existing (rows : List WitnessState) (key : Text × UInt64) : Option WitnessState :=
  rows.reverse.find? (·.key = key)

/-- `merge_witness`. -/
def mergeWitness (stored : Option WitnessState) (row : WitnessState) : Res Bool :=
  match stored with
  | none => .ok true
  | some held => do
    reject (held.checkpoint ≠ row.checkpoint) (contention "witness checkpoint changed")
    .ok false

/-- `for row in &next.witnesses { … }` of `validate_transition`, with the keys that are seen. -/
def addedRows (current : List WitnessState) : List (Text × UInt64) → List WitnessState →
    Res (List WitnessState)
  | _, [] => .ok []
  | seen, row :: rows => do
    reject (row.key ∈ seen) (invalid "duplicate witness key")
    let added ← mergeWitness (existing current row.key) row
    let more ← addedRows current (row.key :: seen) rows
    .ok (if added then row :: more else more)

/-- `validate_transition`. -/
def validateTransition (current next : State) : Res (List WitnessState) := do
  validateCheckpointTransition current next
  addedRows current.witnesses [] next.witnesses

/-- `apply_cll`. -/
def applyCll (current : State) (expectedSize : UInt64) (expectedCheckpoint : Option Bytes) (next : State) :
    Res State := do
  compare current expectedSize expectedCheckpoint
  validateState next .invalid
  reject (next.size < current.size ∨ next.indexedSeq < current.indexedSeq ∨
    next.nodes.length < current.nodes.length ∨ next.nodes.take current.nodes.length ≠ current.nodes)
    (invalid "CLL state is not append-only")
  let added ← validateTransition current next
  .ok { next with witnesses := current.witnesses ++ added }

/-- `check_header`. -/
def checkHeader (header : State) (maxPosition : Option ℕ) : Res Unit := do
  validateStateMetadata header header.size.toNat .corrupt
  reject (maxPosition ≠ if header.size = 0 then none else some (header.size.toNat - 1))
    (corrupt "stored node positions are not dense")

/-- `next` of `apply_append`. -/
def StateAppend.header (update : StateAppend) (size : UInt64) : State where
  size := size
  nodes := []
  indexedSeq := update.indexedSeq
  firstPendingAt := update.firstPendingAt
  checkpoint := update.checkpoint
  witnesses := update.witnesses

/-- `apply_append`. -/
def applyAppend (current : State) (expectedSize : UInt64) (expectedCheckpoint : Option Bytes)
    (update : StateAppend) : Res State := do
  compare current expectedSize expectedCheckpoint
  let size ← okOr (checkedAdd current.size update.nodes.length) (invalid "CLL size overflows")
  validateStateMetadata (update.header size) size.toNat .invalid
  checkWidths update.nodes .invalid
  validateCheckpointTransition current (update.header size)
  .ok (update.header size)

/-- `commit_delta`, as the state after it. -/
def commitDelta (current : State) (expectedSize : UInt64) (expectedCheckpoint : Option Bytes)
    (delta : State) : Res State := do
  compare current expectedSize expectedCheckpoint
  reject (checkedAdd current.size delta.nodes.length ≠ some delta.size)
    (invalid "CLL node delta does not match size")
  validateStateMetadata delta delta.size.toNat .invalid
  checkWidths delta.nodes .invalid
  let added ← validateTransition current delta
  .ok { delta with
    nodes := current.nodes ++ delta.nodes
    witnesses := current.witnesses ++ added }

/-- Rows that pass have distinct keys that were not seen. -/
lemma validateRows_eq_ok {code : ErrorCode} {seen : List (Text × UInt64)} {rows : List WitnessState}
    (ok : validateRows code seen rows = .ok ()) :
    (∀ row ∈ rows, validateWitness row code = .ok ()) ∧ (rows.map (·.key)).Nodup ∧
      ∀ row ∈ rows, row.key ∉ seen := by
  induction rows generalizing seen with
  | nil => simp
  | cons row rows ih =>
    obtain ⟨_, valid, ok⟩ := bind_eq_ok.mp ok
    obtain ⟨_, fresh, ok⟩ := bind_eq_ok.mp ok
    obtain ⟨valids, nodup, unseen⟩ := ih ok
    rw [reject_eq_ok] at fresh
    refine ⟨List.forall_mem_cons.mpr ⟨valid, valids⟩, ?_, List.forall_mem_cons.mpr ⟨fresh, fun r hr => ?_⟩⟩
    · rw [List.map_cons, List.nodup_cons]
      refine ⟨fun mem => ?_, nodup⟩
      obtain ⟨r, hr, same⟩ := List.mem_map.mp mem
      exact unseen r hr (by rw [same]; exact List.mem_cons_self)
    · exact fun mem => unseen r hr (List.mem_cons_of_mem _ mem)

/-- What a witness row must satisfy does not depend on the code that reports it. -/
lemma validateWitness_ok {row : WitnessState} {code code' : ErrorCode}
    (ok : validateWitness row code = .ok ()) : validateWitness row code' = .ok () := by
  obtain ⟨_, fields, ok⟩ := bind_eq_ok.mp ok
  rw [reject_eq_ok] at fields
  rw [validateWitness, reject_of_not fields, ok_bind]
  cases receipt : row.receipt with
  | none => rfl
  | some r =>
    rw [receipt] at ok
    obtain ⟨_, bytes, ok⟩ := bind_eq_ok.mp ok
    obtain ⟨_, hash, ok⟩ := bind_eq_ok.mp ok
    obtain ⟨_, scheme, position⟩ := bind_eq_ok.mp ok
    rw [reject_eq_ok] at bytes hash scheme position
    show validateReceipt r code' = .ok ()
    rw [validateReceipt, reject_of_not bytes, ok_bind, reject_of_not hash, ok_bind, reject_of_not scheme,
      ok_bind, reject_of_not position]

/-- Keys that no row has make no difference. -/
lemma validateRows_congr {code : ErrorCode} {seen seen' : List (Text × UInt64)} {rows : List WitnessState}
    (same : ∀ row ∈ rows, row.key ∈ seen ↔ row.key ∈ seen') :
    validateRows code seen rows = validateRows code seen' rows := by
  induction rows generalizing seen seen' with
  | nil => rfl
  | cons row rows ih =>
    have tail : validateRows code (row.key :: seen) rows = validateRows code (row.key :: seen') rows :=
      ih fun r hr => by simp only [List.mem_cons, same r (List.mem_cons_of_mem _ hr)]
    rw [validateRows, validateRows, tail, reject_congr (same row List.mem_cons_self)]

/-- Valid rows before others, with keys that the others do not have, make no difference. -/
lemma validateRows_append {code : ErrorCode} {seen : List (Text × UInt64)} {held rows : List WitnessState}
    (valid : ∀ row ∈ held, validateWitness row code = .ok ()) (nodup : (held.map (·.key)).Nodup)
    (unseen : ∀ row ∈ held, row.key ∉ seen) (apart : ∀ h ∈ held, ∀ r ∈ rows, h.key ≠ r.key) :
    validateRows code seen (held ++ rows) = validateRows code seen rows := by
  induction held generalizing seen with
  | nil => rfl
  | cons h held ih =>
    rw [List.forall_mem_cons] at valid unseen apart
    rw [List.map_cons, List.nodup_cons] at nodup
    rw [List.cons_append, validateRows, valid.1, ok_bind, reject_of_not unseen.1, ok_bind, ih valid.2 nodup.2
      (fun r hr mem => ?_) apart.2]
    · refine validateRows_congr fun r hr => ?_
      rw [List.mem_cons, or_iff_right fun same => apart.1 r hr same.symm]
    · rcases List.mem_cons.mp mem with same | mem
      · exact nodup.1 (List.mem_map.mpr ⟨r, hr, same⟩)
      · exact unseen.2 r hr mem

/-- What `validate_state` says of a state. -/
structure State.Valid (s : State) : Prop where
  length : s.size.toNat = s.nodes.length
  leaves : leafCount s.size.toNat = some s.indexedSeq.toNat
  rows : ∀ row ∈ s.witnesses, ∀ code, validateWitness row code = .ok ()
  nodup : (s.witnesses.map (·.key)).Nodup
  widths : ∀ node ∈ s.nodes, node.length = entryBytes

/-- A valid header counts the leaves of its size. -/
lemma validateHeader_eq_ok {s : State} {code : ErrorCode} (ok : validateHeader s code = .ok ()) :
    leafCount s.size.toNat = some s.indexedSeq.toNat := by
  obtain ⟨_, leaves, -⟩ := bind_eq_ok.mp ok
  simpa using leaves

/-- A state that passes the check is valid. -/
lemma validateState_eq_ok {s : State} {code : ErrorCode} (ok : validateState s code = .ok ()) : s.Valid := by
  obtain ⟨_, fields, widths⟩ := bind_eq_ok.mp ok
  obtain ⟨_, length, fields⟩ := bind_eq_ok.mp fields
  obtain ⟨_, header, rows⟩ := bind_eq_ok.mp fields
  obtain ⟨valid, nodup, -⟩ := validateRows_eq_ok rows
  simp only [checkWidths, reject_eq_ok, not_not, not_exists, not_and] at length widths
  exact ⟨length, validateHeader_eq_ok header, fun row hr code' => validateWitness_ok (valid row hr), nodup,
    widths⟩

/-- The size of a valid state is the size of an MMR. -/
lemma State.Valid.size_lt {s : State} (valid : s.Valid) : s.size.toNat < 2 ^ 50 := by
  obtain ⟨size, small⟩ := leafCount_eq_some.mp valid.leaves
  rw [size]
  exact small

/-- `next` of the default `append_cll`: the stored state with what is added to it, where the rows of the
update take the place of the stored rows with their keys. -/
def extend (stored : State) (update : StateAppend) : Res State := do
  let size ← okOr (checkedAdd stored.size update.nodes.length) (invalid "CLL size overflows")
  .ok {
    size := size
    nodes := stored.nodes ++ update.nodes
    indexedSeq := update.indexedSeq
    firstPendingAt := update.firstPendingAt
    checkpoint := update.checkpoint
    witnesses := stored.witnesses.filter (fun held => !update.witnesses.any fun row => row.key = held.key) ++
      update.witnesses }

/-- The rows to insert: `merge_witness` of every row with the stored row for its key. -/
def mergeRows (find : Text × UInt64 → Res (Option WitnessState)) : List WitnessState →
    Res (List WitnessState)
  | [] => .ok []
  | row :: rows => do
    let stored ← find row.key
    let insert ← mergeWitness stored row
    let more ← mergeRows find rows
    .ok (if insert then row :: more else more)

/-- The size of a valid state and its new nodes does not overflow. -/
lemma checkedAdd_valid {s : State} (valid : s.Valid) (update : StateAppend) :
    ∃ size, checkedAdd s.size update.nodes.length = some size ∧
      size.toNat = s.nodes.length + update.nodes.length := by
  have small := valid.size_lt
  have length := update.length_nodes
  have lt : s.size.toNat + update.nodes.length < 2 ^ 64 := by
    have : isizeMax < 2 ^ 63 := by decide
    omega
  refine ⟨.ofNat (s.size.toNat + update.nodes.length), if_pos lt, ?_⟩
  rw [UInt64.toNat_ofNat_of_lt' lt, valid.length]

/-- An existing row is found by its key. -/
lemma existing_eq_find? {rows : List WitnessState} (nodup : (rows.map (·.key)).Nodup)
    (key : Text × UInt64) : existing rows key = rows.find? (·.key = key) := by
  refine Table.find?_perm (List.reverse_perm rows) fun a ha b hb ka kb => ?_
  rw [decide_eq_true_eq] at ka kb
  exact List.inj_on_of_nodup_map nodup (List.mem_reverse.mp ha) (List.mem_reverse.mp hb) (ka.trans kb.symm)

/-- A row has no other row under its key. -/
lemma existing_of_mem {rows : List WitnessState} (nodup : (rows.map (·.key)).Nodup) {row : WitnessState}
    (mem : row ∈ rows) : existing rows row.key = some row := by
  rw [existing_eq_find? nodup]
  cases found : rows.find? (·.key = row.key) with
  | none => exact absurd (decide_eq_true rfl) (List.find?_eq_none.mp found row mem)
  | some other =>
    have same := List.find?_some found
    rw [decide_eq_true_eq] at same
    rw [List.inj_on_of_nodup_map nodup (List.mem_of_find?_eq_some found) mem same]

/-- Stored rows add nothing. -/
lemma addedRows_stored {current : List WitnessState} (nodup : (current.map (·.key)).Nodup)
    {seen : List (Text × UInt64)} {held rows : List WitnessState} (stored : ∀ h ∈ held, h ∈ current)
    (distinct : (held.map (·.key)).Nodup) (unseen : ∀ h ∈ held, h.key ∉ seen) :
    addedRows current seen (held ++ rows) =
      addedRows current ((held.map (·.key)).reverse ++ seen) rows := by
  induction held generalizing seen with
  | nil => rfl
  | cons h held ih =>
    rw [List.forall_mem_cons] at stored unseen
    rw [List.map_cons, List.nodup_cons] at distinct
    have merged : mergeWitness (existing current h.key) h = .ok false := by
      rw [existing_of_mem nodup stored.1, mergeWitness, reject_of_not (by simp), ok_bind]
    have tail : ∀ r ∈ held, r.key ∉ h.key :: seen := by
      intro r hr mem
      rcases List.mem_cons.mp mem with same | mem
      · exact distinct.1 (List.mem_map.mpr ⟨r, hr, same⟩)
      · exact unseen.2 r hr mem
    rw [List.cons_append, addedRows, reject_of_not unseen.1, ok_bind, merged, ok_bind,
      ih stored.2 distinct.2 tail, List.map_cons, List.reverse_cons, List.append_assoc, List.singleton_append]
    simp only [Bool.false_eq_true, if_false]
    cases addedRows current ((held.map (·.key)).reverse ++ h.key :: seen) rows <;> rfl

/-- Rows with distinct keys are merged one by one. -/
lemma addedRows_eq_mergeRows {current : List WitnessState} {seen : List (Text × UInt64)}
    {rows : List WitnessState} (distinct : (rows.map (·.key)).Nodup) (unseen : ∀ r ∈ rows, r.key ∉ seen)
    {find : Text × UInt64 → Res (Option WitnessState)}
    (found : ∀ r ∈ rows, find r.key = .ok (existing current r.key)) :
    addedRows current seen rows = mergeRows find rows := by
  induction rows generalizing seen with
  | nil => rfl
  | cons r rows ih =>
    rw [List.forall_mem_cons] at unseen found
    rw [List.map_cons, List.nodup_cons] at distinct
    have tail : ∀ q ∈ rows, q.key ∉ r.key :: seen := by
      intro q hq mem
      rcases List.mem_cons.mp mem with same | mem
      · exact distinct.1 (List.mem_map.mpr ⟨q, hq, same⟩)
      · exact unseen.2 q hq mem
    rw [addedRows, reject_of_not unseen.1, ok_bind, mergeRows, found.1, ok_bind,
      ih distinct.2 tail found.2]

/-- The nodes of an MMR and of a larger one. -/
lemma indexedSeq_le (s next : State) (leaves : leafCount s.size.toNat = some s.indexedSeq.toNat)
    (leaves' : leafCount next.size.toNat = some next.indexedSeq.toNat) (le : s.size.toNat ≤ next.size.toNat) :
    ¬next.indexedSeq < s.indexedSeq := by
  rw [(leafCount_eq_some.mp leaves).1, (leafCount_eq_some.mp leaves').1] at le
  rw [UInt64.lt_iff_toNat_lt, not_lt]
  exact PostOrder.forestSize_strictMono.le_iff_le.mp le

/-- A commit of the extended state does what a commit of the update does: it accepts the same updates and
reports the same errors, and where it accepts one it gives the header of the update with its nodes and the
rows that are merged. -/
theorem applyAppend_agrees {s : State} (valid : s.Valid) (expectedSize : UInt64)
    (expectedCheckpoint : Option Bytes) (update : StateAppend)
    {find : Text × UInt64 → Res (Option WitnessState)}
    (found : ∀ row ∈ update.witnesses, find row.key = .ok (existing s.witnesses row.key)) :
    (extend s update >>= applyCll s expectedSize expectedCheckpoint) =
      applyAppend s.cloneHeader expectedSize expectedCheckpoint update >>= fun next =>
        mergeRows find update.witnesses >>= fun added =>
          .ok { next with nodes := s.nodes ++ update.nodes, witnesses := s.witnesses ++ added } := by
  obtain ⟨size, added, total⟩ := checkedAdd_valid valid update
  have cmp : compare s.cloneHeader expectedSize expectedCheckpoint =
      compare s expectedSize expectedCheckpoint := rfl
  rw [extend, added, okOr, ok_bind, ok_bind, applyCll, applyAppend, cmp]
  cases compare s expectedSize expectedCheckpoint with
  | error _ => rfl
  | ok _ =>
    set rest := s.witnesses.filter fun held => !update.witnesses.any fun row => row.key = held.key
      with hrest
    set next : State := ⟨size, s.nodes ++ update.nodes, update.indexedSeq, update.firstPendingAt,
      update.checkpoint, rest ++ update.witnesses⟩ with hnext
    have held : ∀ h ∈ rest, h ∈ s.witnesses := fun h mem => (List.mem_filter.mp mem).1
    have distinct : (rest.map (·.key)).Nodup := valid.nodup.sublist (List.filter_sublist.map _)
    have apart : ∀ h ∈ rest, ∀ r ∈ update.witnesses, h.key ≠ r.key := by
      intro h mem r hr same
      have := (List.mem_filter.mp mem).2
      simp only [Bool.not_eq_true', List.any_eq_false, decide_eq_true_eq] at this
      exact this r hr same.symm
    -- The rows that were stored pass the check again, so only the new ones decide.
    have fields : validateStateMetadata next next.nodes.length .invalid =
        validateStateMetadata (update.header size) size.toNat .invalid := by
      have length : next.nodes.length = size.toNat := by rw [hnext, List.length_append, total]
      have rows : validateRows .invalid [] next.witnesses = validateRows .invalid [] update.witnesses :=
        validateRows_append (fun row hr => valid.rows row (held row hr) _) distinct (by simp) apart
      rw [validateStateMetadata, validateStateMetadata, length, rows]
      rfl
    have added : checkedAdd s.cloneHeader.size update.nodes.length = some size := added
    have widths : checkWidths next.nodes .invalid = checkWidths update.nodes .invalid := by
      refine reject_congr ?_ _
      simp only [hnext, List.mem_append, or_and_right, exists_or]
      exact or_iff_right fun ⟨node, mem, ne⟩ => ne (valid.widths node mem)
    rw [ok_bind, ok_bind, added, okOr, ok_bind, validateState, fields]
    cases checked : validateStateMetadata (update.header size) size.toNat .invalid with
    | error _ => rfl
    | ok _ =>
      rw [ok_bind, ok_bind, widths]
      cases checkWidths update.nodes .invalid with
      | error _ => rfl
      | ok _ =>
        obtain ⟨_, -, checked⟩ := bind_eq_ok.mp checked
        obtain ⟨_, leaves, rows⟩ := bind_eq_ok.mp checked
        obtain ⟨-, fresh, -⟩ := validateRows_eq_ok rows
        have le : s.size.toNat ≤ size.toNat := by rw [total, valid.length]; omega
        -- The full state is append-only by its construction.
        have appendOnly : ¬(next.size < s.size ∨ next.indexedSeq < s.indexedSeq ∨
            next.nodes.length < s.nodes.length ∨ next.nodes.take s.nodes.length ≠ s.nodes) := by
          simp only [hnext, List.length_append, List.take_left, ne_eq, not_true, or_false, not_or]
          refine ⟨?_, indexedSeq_le s (update.header size) valid.leaves (validateHeader_eq_ok leaves) le, by omega⟩
          rw [UInt64.lt_iff_toNat_lt]
          omega
        have merged : addedRows s.witnesses [] next.witnesses = mergeRows find update.witnesses := by
          rw [hnext, addedRows_stored valid.nodup held distinct (by simp)]
          refine addedRows_eq_mergeRows fresh (fun r hr mem => ?_) found
          obtain ⟨h, mem, same⟩ := List.mem_map.mp (List.mem_reverse.mp (by simpa using mem))
          exact apart h mem r hr same
        rw [ok_bind, ok_bind, reject_of_not appendOnly, ok_bind, validateTransition, merged]
        show (validateCheckpointTransition s.cloneHeader (update.header size) >>= _) >>= _ = _
        cases validateCheckpointTransition s.cloneHeader (update.header size) <;> rfl

/-- `delta` of the journal's `commit_cll`: the new header with the nodes and the rows that it adds. -/
def journalDelta (current updated : State) : State :=
  { updated with
    nodes := updated.nodes.drop current.nodes.length
    witnesses := updated.witnesses.drop current.witnesses.length }

/-- Valid rows with new and distinct keys pass the check. -/
lemma validateRows_of_valid {code : ErrorCode} {seen : List (Text × UInt64)} {rows : List WitnessState}
    (valid : ∀ row ∈ rows, validateWitness row code = .ok ()) (nodup : (rows.map (·.key)).Nodup)
    (unseen : ∀ row ∈ rows, row.key ∉ seen) : validateRows code seen rows = .ok () := by
  have last : validateRows code seen (rows ++ []) = validateRows code seen [] :=
    validateRows_append valid nodup unseen (by simp)
  rw [List.append_nil] at last
  rw [last, validateRows]

/-- The rows that are added are rows of the change, with keys that are not stored. -/
lemma addedRows_eq_ok {current : List WitnessState} {seen : List (Text × UInt64)}
    {rows added : List WitnessState} (ok : addedRows current seen rows = .ok added) :
    added.Sublist rows ∧ ∀ r ∈ added, existing current r.key = none := by
  induction rows generalizing seen added with
  | nil =>
    cases ok
    simp
  | cons r rows ih =>
    obtain ⟨_, -, ok⟩ := bind_eq_ok.mp ok
    obtain ⟨insert, merged, ok⟩ := bind_eq_ok.mp ok
    obtain ⟨more, tail, ok⟩ := bind_eq_ok.mp ok
    obtain ⟨sub, fresh⟩ := ih tail
    cases Except.ok.inj ok
    cases stored : existing current r.key with
    | none =>
      rw [stored] at merged
      cases merged
      exact ⟨sub.cons_cons r, List.forall_mem_cons.mpr ⟨stored, fresh⟩⟩
    | some held =>
      rw [stored] at merged
      obtain ⟨_, -, merged⟩ := bind_eq_ok.mp merged
      cases merged
      exact ⟨sub.cons r, fresh⟩

/-- Rows with keys that are not stored are all added. -/
lemma addedRows_fresh {current : List WitnessState} {seen : List (Text × UInt64)}
    {rows : List WitnessState} (distinct : (rows.map (·.key)).Nodup) (unseen : ∀ r ∈ rows, r.key ∉ seen)
    (fresh : ∀ r ∈ rows, existing current r.key = none) : addedRows current seen rows = .ok rows := by
  have merged : addedRows current seen rows = mergeRows (fun _ => .ok none) rows :=
    addedRows_eq_mergeRows distinct unseen fun r hr => by rw [fresh r hr]
  rw [merged]
  clear distinct unseen fresh merged
  induction rows with
  | nil => rfl
  | cons r rows ih => rw [mergeRows, ok_bind, mergeWitness, ok_bind, ih, ok_bind, if_pos rfl]

/-- What a journal event adds is accepted where the whole state was, and gives the same state. -/
theorem commitDelta_agrees {s next updated : State} (valid : s.Valid) {expectedSize : UInt64}
    {expectedCheckpoint : Option Bytes} (ok : applyCll s expectedSize expectedCheckpoint next = .ok updated) :
    commitDelta s expectedSize expectedCheckpoint (journalDelta s updated) = .ok updated := by
  obtain ⟨_, cmp, ok⟩ := bind_eq_ok.mp ok
  obtain ⟨_, checked, ok⟩ := bind_eq_ok.mp ok
  obtain ⟨_, appendOnly, ok⟩ := bind_eq_ok.mp ok
  obtain ⟨added, transition, ok⟩ := bind_eq_ok.mp ok
  cases Except.ok.inj ok
  obtain ⟨_, follows, transition⟩ := bind_eq_ok.mp transition
  obtain ⟨sub, fresh⟩ := addedRows_eq_ok transition
  have nextValid := validateState_eq_ok checked
  obtain ⟨_, fields, -⟩ := bind_eq_ok.mp checked
  obtain ⟨_, -, fields⟩ := bind_eq_ok.mp fields
  obtain ⟨_, header, -⟩ := bind_eq_ok.mp fields
  simp only [reject_eq_ok, not_or, not_lt, not_not] at appendOnly
  obtain ⟨-, -, le, pref⟩ := appendOnly
  have distinct : (added.map (·.key)).Nodup := nextValid.nodup.sublist (sub.map _)
  have rows : (journalDelta s { next with witnesses := s.witnesses ++ added }).witnesses = added :=
    List.drop_left
  have nodes : s.nodes ++ (journalDelta s { next with witnesses := s.witnesses ++ added }).nodes =
      next.nodes := by
    conv_lhs => rw [← pref]
    exact List.take_append_drop _ _
  have size : checkedAdd s.size (journalDelta s { next with witnesses := s.witnesses ++ added }).nodes.length =
      some next.size := by
    have := congrArg List.length nodes
    rw [List.length_append] at this
    rw [checkedAdd_eq_some, nextValid.length, valid.length, this]
  have valids : validateRows .invalid [] added = .ok () :=
    validateRows_of_valid (fun r hr => nextValid.rows r (sub.subset hr) _) distinct (by simp)
  have fields : validateStateMetadata (journalDelta s { next with witnesses := s.witnesses ++ added })
      next.size.toNat .invalid = .ok () := by
    rw [validateStateMetadata, rows, valids]
    show (reject (¬next.size.toNat = next.size.toNat) _ >>= fun _ => validateHeader next .invalid >>= _) = _
    rw [reject_of_not (by simp), ok_bind, header, ok_bind]
  have widths : checkWidths (journalDelta s { next with witnesses := s.witnesses ++ added }).nodes .invalid =
      .ok () := by
    refine reject_of_not ?_ _
    rintro ⟨node, mem, ne⟩
    exact ne (nextValid.widths node (List.mem_of_mem_drop mem))
  rw [commitDelta, cmp, ok_bind, reject_of_not (by rw [size]; exact not_not.mpr rfl), ok_bind]
  show (validateStateMetadata _ next.size.toNat .invalid >>= _) = _
  rw [fields, ok_bind, widths, ok_bind, validateTransition, rows]
  show ((validateCheckpointTransition s next >>= _) >>= _) = _
  rw [follows, ok_bind, addedRows_fresh distinct (by simp) fresh, ok_bind, nodes]
  rfl

end CLL.Rust.Log
