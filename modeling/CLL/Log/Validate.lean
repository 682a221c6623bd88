import CLL.Log.Wire

/-!
# Argument checks and value rules

The checks of `log/engine.py`. They take an argument as an object and return the value they accept, which
carries the rules it passed. `validateState_toObj` and `validateWitness_toObj` say that every stored value
passes its own check and comes back unchanged.
-/

namespace CLL.Log
open CLL.Core (Digest)

/-- `isinstance(value, cls)`. -/
def isInstance (cls : Cls) : Obj → Bool
  | .inst c _ => c == cls
  | _ => false

/-- `_width`. -/
def width (minimum maximum : ℕ) (value : Obj) : Option (Sized minimum maximum) :=
  value.buf?.bind fun data =>
    if h : minimum ≤ data.length ∧ data.length ≤ maximum then some ⟨data, h⟩ else none

/-- `_width(value, ENTRY_BYTES, ENTRY_BYTES)`. -/
def digest (value : Obj) : Option Digest :=
  value.buf?.bind fun data => if h : data.length = entryBytes then some ⟨data, h⟩ else none

/-- The digests of a sequence, one for each item. -/
def digests : (items : List Obj) → Option {nodes : List Digest // nodes.length = items.length}
  | [] => some ⟨[], rfl⟩
  | item :: items =>
    (digest item).bind fun d => (digests items).map fun nodes => ⟨d :: nodes.1, by simp [nodes.2]⟩

/-- An `int` between `minimum` and `maximum`. -/
def counter (minimum maximum : ℕ) (value : Obj) : Option (Counter minimum maximum) :=
  value.int?.bind fun n =>
    if h : (minimum : ℤ) ≤ n ∧ n ≤ maximum then some ⟨n.toNat, by omega⟩ else none

/-- `validate_identifier`. -/
def identifier : Obj → Option Identifier
  | .str s => if h : isIdentifier s = true then some ⟨s, h⟩ else none
  | _ => none

/-- A `str` of at most `MAX_REASON_BYTES` bytes. -/
def reason : Obj → Option Reason
  | .str s => if h : isReason s = true then some ⟨s, h⟩ else none
  | _ => none

/-- A `str` that `_ENTRY_HASH` matches. -/
def entryHash : Obj → Option EntryHash
  | .str s => if h : isEntryHash s = true then some ⟨s, h⟩ else none
  | _ => none

/-- `value == "legacy"`. -/
def entryHashScheme (value : Obj) : Option EntryHashScheme :=
  if value.eq (.str (Str.lit "legacy")) then some .legacy else none

def boolean : Obj → Option Bool
  | .bool b => some b
  | _ => none

/-- The value, or `raise error(text)`. -/
def orRaise {α : Type} (error : ErrorKind) (text : String) : Option α → Py α
  | some a => .ok a
  | none => raise error text

/-- `None`, or a value that passes the check. -/
def orNone {α : Type} (error : ErrorKind) (text : String) (check : Obj → Option α) :
    Obj → Py (Option α)
  | .none => .ok none
  | value => (orRaise error text (check value)).map some

/-- `check_value`. -/
def checkValue (value : Obj) : Py Digest :=
  orRaise .invalid "entry value must be exactly 32 bytes" (digest value)

/-- `check_append`. -/
def checkAppend (input : Obj) : Py (Digest × Time) := do
  require (isInstance .appendInput input = true) .invalid "append input must be an AppendInput"
  let value ← input.attr "value" >>= checkValue
  let appendedAt ← input.attr "appended_at" >>= normalizeTime .invalid
  .ok (value, appendedAt)

/-- `check_scan`. -/
def checkScan (afterSeq limit : Obj) : Py (ℕ × ℕ) := do
  let afterSeq ← orRaise .invalid "after_seq is outside 0..MaxPortableInteger"
    (counter 0 maxPortableInteger afterSeq)
  let limit ← orRaise .invalid "limit is outside 1..MaxScanLimit" (counter 1 maxScanLimit limit)
  .ok (afterSeq.1, limit.1)

/-- `check_witness_key`. -/
def checkWitnessKey (witnessId checkpointSize : Obj) : Py (Identifier × ℕ) :=
  match identifier witnessId, counter 1 maxUint64 checkpointSize with
  | some witnessId, some checkpointSize => .ok (witnessId, checkpointSize.1)
  | _, _ => raise .invalid "invalid witness key"

/-- `check_pending`. -/
def checkPending (now limit : Obj) : Py (Time × ℕ) := do
  let limit ← orRaise .invalid "limit is outside 1..MaxWitnesses" (counter 1 maxWitnesses limit)
  let now ← normalizeTime .invalid now
  .ok (now, limit.1)

/-- `check_pending_for`. -/
def checkPendingFor (witnessId now limit : Obj) : Py (Identifier × Time × ℕ) := do
  let witnessId ← orRaise .invalid "invalid witness id" (identifier witnessId)
  let (now, limit) ← checkPending now limit
  .ok (witnessId, now, limit)

/-- `check_expected_attempts`. -/
def checkExpectedAttempts (expectedAttempts : Obj) : Py (Counter 0 maxAttempts) :=
  orRaise .invalid "expected_attempts is outside 0..4294967295" (counter 0 maxAttempts expectedAttempts)

/-- The receipt of `validate_witness`. -/
def validateReceipt (error : ErrorKind) (receipt : Obj) : Py WitnessReceipt := do
  require (isInstance .witnessReceipt receipt = true) error "witness receipt is invalid"
  let bytes ← receipt.attr "bytes" >>= fun bytes =>
    orRaise error "witness receipt is invalid" (width 1 maxWitnessResponseBytes bytes)
  let hash ← receipt.attr "entry_hash" >>=
    orNone error "witness entry hash is invalid" entryHash
  let scheme ← receipt.attr "entry_hash_scheme" >>=
    orNone error "witness entry hash scheme is invalid" entryHashScheme
  let leafIndex ← receipt.attr "leaf_index" >>=
    orNone error "witness receipt position is invalid" (counter 0 maxPortableInteger)
  let treeSize ← receipt.attr "tree_size" >>=
    orNone error "witness receipt position is invalid" (counter 0 maxPortableInteger)
  .ok ⟨bytes, hash, scheme, leafIndex, treeSize⟩

/-- `None`, or a receipt. -/
def receiptOrNone (error : ErrorKind) : Obj → Py (Option WitnessReceipt)
  | .none => .ok none
  | receipt => (validateReceipt error receipt).map some

/-- `validate_witness`. -/
def validateWitness (error : ErrorKind) (value : Obj) : Py WitnessState := do
  require (isInstance .witnessState value = true) error "witness state must be a WitnessState"
  let checkpoint ← value.attr "checkpoint"
  let witnessId ← value.attr "witness_id"
  let checkpointSize ← value.attr "checkpoint_size"
  let attempts ← value.attr "attempts"
  let permanent ← value.attr "permanent"
  match identifier witnessId, counter 1 maxUint64 checkpointSize,
    width 1 maxCheckpointBytes checkpoint, counter 0 maxAttempts attempts, boolean permanent with
  | some witnessId, some checkpointSize, some checkpoint, some attempts, some permanent =>
    let lastError ← value.attr "last_error" >>= orNone error "witness last_error is invalid" reason
    let nextAttemptAt ← value.attr "next_attempt_at" >>= normalizeTime error
    let receipt ← value.attr "receipt" >>= receiptOrNone error
    .ok ⟨witnessId, checkpointSize, checkpoint, attempts, nextAttemptAt, receipt, permanent, lastError⟩
  | _, _, _, _, _ => raise error "witness state is invalid"

/-- A checkpoint that `_validate_metadata` accepts beside `size` nodes and `indexedSeq` entries. -/
abbrev CheckpointWithin (size indexedSeq : ℕ) :=
  {c : CheckpointState // 0 < c.size ∧ c.size ≤ size ∧ c.indexedSeq ≤ indexedSeq}

/-- The checkpoint of `_validate_metadata`. -/
def validateCheckpoint (error : ErrorKind) (size indexedSeq : ℕ) (checkpoint : Obj) :
    Py (CheckpointWithin size indexedSeq) := do
  require (isInstance .checkpointState checkpoint = true) error "checkpoint state is invalid"
  let bytes ← checkpoint.attr "bytes"
  let cpSize ← checkpoint.attr "size"
  let cpSeq ← checkpoint.attr "indexed_seq"
  let peaks ← checkpoint.attr "peaks"
  match width 1 maxCheckpointBytes bytes, counter 1 size cpSize, counter 0 indexedSeq cpSeq,
    peaks.seq? with
  | some bytes, some cpSize, some cpSeq, some peaks =>
    let peaks ← orRaise error "checkpoint peak has wrong width" (digests peaks)
    .ok ⟨⟨bytes, cpSize.1, cpSeq.1, peaks.1⟩, cpSize.2.1, cpSize.2.2, cpSeq.2.2⟩
  | _, _, _, _ => raise error "checkpoint state is invalid"

/-- `None`, or a checkpoint. -/
def checkpointOrNone (error : ErrorKind) (size indexedSeq : ℕ) :
    Obj → Py (Option (CheckpointWithin size indexedSeq))
  | .none => .ok none
  | checkpoint => (validateCheckpoint error size indexedSeq checkpoint).map some

/-- `None`, or a time. -/
def timeOrNone (error : ErrorKind) : Obj → Py (Option Time)
  | .none => .ok none
  | value => (normalizeTime error value).map some

/-- Rows with distinct keys. -/
abbrev Rows := {rows : List WitnessState // (rows.map WitnessState.key).Nodup}

/-- `for row in value.witnesses` of `_validate_metadata`. -/
def validateRows (error : ErrorKind) (seen : Rows) : List Obj → Py Rows
  | [] => .ok seen
  | row :: rows => do
    let row ← validateWitness error row
    if h : row.key ∈ seen.1.map WitnessState.key then raise error "duplicate witness key"
    else
      validateRows error ⟨seen.1 ++ [row], by
        rw [List.map_append, List.nodup_append']
        exact ⟨seen.2, List.nodup_singleton _, by simpa using h⟩⟩ rows

/-- `_validate_metadata`. -/
def validateMetadata (error : ErrorKind) (value : Obj) (nodeCount : ℕ) (lt : nodeCount < 2 ^ 64) :
    Py {h : Header // h.size = nodeCount} := do
  let size ← value.attr "size"
  require (size.int? = some (nodeCount : ℤ)) error "CLL size does not match nodes"
  let indexedSeq ← value.attr "indexed_seq"
  match leaves : mmrLeafCount nodeCount with
  | some indexed =>
    require (indexedSeq.int? = some (indexed : ℤ)) error "CLL nodes do not form the indexed MMR"
    let firstPendingAt ← value.attr "first_pending_at" >>= timeOrNone error
    let checkpoint ← value.attr "checkpoint" >>= checkpointOrNone error nodeCount indexed
    let witnesses ← value.attr "witnesses" >>= fun witnesses =>
      orRaise error "witnesses must be a sequence" witnesses.seq?
    let rows ← validateRows error ⟨[], List.nodup_nil⟩ witnesses
    .ok ⟨⟨nodeCount, indexed, firstPendingAt, checkpoint.map Subtype.val, rows.1, lt, leaves, by
      intro c hc
      obtain ⟨c', -, rfl⟩ := Option.map_eq_some_iff.mp hc
      exact c'.2, rows.2⟩, rfl⟩
  | none => raise error "CLL nodes do not form the indexed MMR"

/-- A `tuple` or `list` of nodes. -/
def nodeItems (error : ErrorKind) (nodes : Obj) : Py (List Obj) :=
  orRaise error "nodes must be a sequence" nodes.seq?

/-- `_nodes` of the items of a sequence. -/
def nodesOf (error : ErrorKind) (items : List Obj) :
    Py {nodes : List Digest // nodes.length = items.length} :=
  orRaise error "node has wrong width" (digests items)

/-- `len(items)`. -/
def lengthOf (items : List Obj) : Py {n : ℕ // n = items.length ∧ n ≤ maxSize} :=
  if h : items.length ≤ maxSize then .ok ⟨items.length, rfl, h⟩
  else raise .overflowError "cannot fit 'int' into an index-sized integer"

/-- `validate_state`. -/
def validateState (error : ErrorKind) (value : Obj) : Py CllState := do
  require (isInstance .cllState value = true) error "CLL state must be a CllState"
  let items ← value.attr "nodes" >>= nodeItems error
  let count ← lengthOf items
  let header ← validateMetadata error value count.1 (lt_of_le_of_lt count.2.2 (by decide))
  let nodes ← nodesOf error items
  .ok ⟨⟨header.1, nodes.1⟩, by rw [nodes.2, header.2, count.2.1], by rw [header.2]; exact count.2.2⟩

/-- A present value is returned. -/
@[simp] lemma orRaise_some {α : Type} (error : ErrorKind) (text : String) (a : α) :
    orRaise error text (some a) = .ok a := rfl

/-- A value is returned exactly where it is present. -/
@[simp] lemma orRaise_eq_ok {α : Type} {error : ErrorKind} {text : String} {o : Option α} {a : α} :
    orRaise error text o = .ok a ↔ o = some a := by
  cases o <;> simp [orRaise]

/-- A sized byte string keeps its bytes. -/
@[simp] lemma width_bytes {lo hi : ℕ} (b : Sized lo hi) : width lo hi (.bytes b) = some b := by
  simp [width, Obj.buf?, b.2]

/-- A digest keeps its bytes. -/
@[simp] lemma digest_bytes (d : Digest) : digest (.bytes d) = some d := by
  have len : d.1.length = entryBytes := d.2
  simp [digest, Obj.buf?, len]

/-- Digests keep their bytes. -/
lemma digests_map : ∀ ds : List Digest,
    ∃ len, digests (ds.map fun d => .bytes d.1) = some ⟨ds, len⟩
  | [] => ⟨rfl, rfl⟩
  | d :: ds => by
    obtain ⟨len, e⟩ := digests_map ds
    refine ⟨by simp, ?_⟩
    show (digest (.bytes d.1)).bind _ = _
    rw [digest_bytes, Option.bind_some, e]
    rfl

/-- A counter keeps its number. -/
@[simp] lemma counter_natObj {lo hi : ℕ} (n : Counter lo hi) :
    counter lo hi (natObj n.1) = some n := by
  have := n.2
  have range : (lo : ℤ) ≤ (n.1 : ℕ) ∧ ((n.1 : ℕ) : ℤ) ≤ hi := by omega
  simp [counter, natObj, Obj.int?, range]

/-- An identifier keeps its text. -/
@[simp] lemma identifier_str (s : Identifier) : identifier (.str s) = some s := by
  simp [identifier, s.2]

/-- An optional stored field passes its check. -/
lemma orNone_optional {α : Type} (error : ErrorKind) (text : String) {check : Obj → Option α}
    {toObj : α → Obj} (present : ∀ a, toObj a ≠ .none) (ok : ∀ a, check (toObj a) = some a)
    (o : Option α) : orNone error text check (optional toObj o) = .ok o := by
  cases o with
  | none => rfl
  | some a =>
    have ne := present a
    have ok := ok a
    rw [optional]
    cases e : toObj a with
    | none => exact absurd e ne
    | _ =>
      rw [e] at ok
      rw [orNone, ok]
      · rfl
      · intro absent
        cases absent

/-- An optional time is returned. -/
@[simp] lemma timeOrNone_optional (error : ErrorKind) (t : Option Time) :
    timeOrNone error (optional timeObj t) = .ok t := by
  cases t with
  | none => rfl
  | some t =>
    have e := normalizeTime_timeObj error t
    simp only [optional, timeObj, timeOrNone] at e ⊢
    rw [e]
    rfl

/-- A receipt is returned. -/
lemma validateReceipt_toObj (error : ErrorKind) (r : WitnessReceipt) :
    validateReceipt error r.toObj = .ok r := by
  have hash (h : EntryHash) : entryHash (.str h.1) = some h := by simp [entryHash, h.2]
  have scheme (s : EntryHashScheme) : entryHashScheme (.str s.name) = some s := by
    cases s
    simp [entryHashScheme, EntryHashScheme.name]
  have position (n : Counter 0 maxPortableInteger) : counter 0 maxPortableInteger (natObj n.1) = some n :=
    counter_natObj n
  have e1 := orNone_optional error "witness entry hash is invalid" (by simp) hash r.entryHash
  have e2 := orNone_optional error "witness entry hash scheme is invalid" (by simp) scheme
    r.entryHashScheme
  have e3 := orNone_optional error "witness receipt position is invalid" (by simp [natObj]) position
    r.leafIndex
  have e4 := orNone_optional error "witness receipt position is invalid" (by simp [natObj]) position
    r.treeSize
  simp [validateReceipt, WitnessReceipt.toObj, receiptObj, isInstance, Obj.attr, List.lookup_cons,
    require_of, e1, e2, e3, e4]

/-- An optional receipt is returned. -/
lemma receiptOrNone_optional (error : ErrorKind) (r : Option WitnessReceipt) :
    receiptOrNone error (optional WitnessReceipt.toObj r) = .ok r := by
  cases r with
  | none => rfl
  | some r =>
    have ok := validateReceipt_toObj error r
    rw [WitnessReceipt.toObj, receiptObj] at ok
    rw [optional, WitnessReceipt.toObj, receiptObj, receiptOrNone, ok]
    · rfl
    · intro absent
      cases absent

/-- A stored row passes `validate_witness` and comes back unchanged. -/
theorem validateWitness_toObj (error : ErrorKind) (w : WitnessState) :
    validateWitness error w.toObj = .ok w := by
  have reasonOk (r : Reason) : reason (.str r.1) = some r := by simp [reason, r.2]
  have lastError := orNone_optional error "witness last_error is invalid" (by simp) reasonOk w.lastError
  have isInst : isInstance .witnessState w.toObj = true := rfl
  have checkpoint : w.toObj.attr "checkpoint" = .ok (.bytes w.checkpoint.1) := rfl
  have witnessId : w.toObj.attr "witness_id" = .ok (.str w.witnessId.1) := rfl
  have checkpointSize : w.toObj.attr "checkpoint_size" = .ok (natObj w.checkpointSize.1) := rfl
  have attempts : w.toObj.attr "attempts" = .ok (natObj w.attempts.1) := rfl
  have permanent : w.toObj.attr "permanent" = .ok (.bool w.permanent) := rfl
  have lastErr : w.toObj.attr "last_error" = .ok (optional (fun r => .str r.1) w.lastError) := rfl
  have next : w.toObj.attr "next_attempt_at" = .ok (timeObj w.nextAttemptAt) := rfl
  have receipt : w.toObj.attr "receipt" = .ok (optional WitnessReceipt.toObj w.receipt) := rfl
  rw [validateWitness, require_of isInst, ok_bind, checkpoint, ok_bind, witnessId, ok_bind,
    checkpointSize, ok_bind, attempts, ok_bind, permanent, ok_bind, identifier_str, counter_natObj,
    width_bytes, counter_natObj, boolean]
  dsimp only
  rw [lastErr, ok_bind, lastError, ok_bind, next, ok_bind, normalizeTime_timeObj, ok_bind, receipt,
    ok_bind, receiptOrNone_optional, ok_bind]

/-- Rows with distinct keys are returned. -/
lemma validateRows_map (error : ErrorKind) (seen : Rows) (rows : List WitnessState)
    (nodup : ((seen.1 ++ rows).map WitnessState.key).Nodup) :
    validateRows error seen (rows.map WitnessState.toObj) = .ok ⟨seen.1 ++ rows, nodup⟩ := by
  induction rows generalizing seen with
  | nil => simp [validateRows]
  | cons row rows ih =>
    have fresh : row.key ∉ seen.1.map WitnessState.key := by
      rw [List.map_append, List.map_cons] at nodup
      exact fun mem => (List.nodup_append'.mp nodup).2.2 mem List.mem_cons_self
    rw [List.map_cons, validateRows, validateWitness_toObj, ok_bind, dif_neg fresh, ih]
    · simp
    · simpa using nodup

/-- An optional checkpoint within the state is returned. -/
lemma checkpointOrNone_optional (error : ErrorKind) {size indexedSeq : ℕ} (c : Option CheckpointState)
    (le : ∀ c' ∈ c, 0 < c'.size ∧ c'.size ≤ size ∧ c'.indexedSeq ≤ indexedSeq) :
    ∃ c', checkpointOrNone error size indexedSeq (optional CheckpointState.toObj c) = .ok c' ∧
      c'.map Subtype.val = c := by
  cases c with
  | none => exact ⟨none, rfl, rfl⟩
  | some c =>
    have within := le c rfl
    refine ⟨some ⟨c, within⟩, ?_, rfl⟩
    obtain ⟨len, peaks⟩ := digests_map c.peaks
    have sizeOk : counter 1 size (natObj c.size) = some ⟨c.size, within.1, within.2.1⟩ :=
      counter_natObj (⟨c.size, within.1, within.2.1⟩ : Counter 1 size)
    have seqOk : counter 0 indexedSeq (natObj c.indexedSeq) =
        some ⟨c.indexedSeq, Nat.zero_le _, within.2.2⟩ :=
      counter_natObj (⟨c.indexedSeq, Nat.zero_le _, within.2.2⟩ : Counter 0 indexedSeq)
    have ok : validateCheckpoint error size indexedSeq c.toObj = .ok ⟨c, within⟩ := by
      simp [-List.map_subtype, validateCheckpoint, CheckpointState.toObj, checkpointObj, isInstance,
        Obj.attr, List.lookup_cons, require_of, sizeOk, seqOk, Obj.seq?, peaks]
    rw [CheckpointState.toObj, checkpointObj] at ok
    rw [optional, CheckpointState.toObj, checkpointObj, checkpointOrNone, ok]
    · rfl
    · intro absent
      cases absent

/-- The metadata of a stored state or of a delta passes `_validate_metadata`. -/
lemma validateMetadata_toObj (error : ErrorKind) (s : Delta) {n : ℕ} (e : s.size = n)
    (lt : n < 2 ^ 64) : validateMetadata error s.toObj n lt = .ok ⟨s.toHeader, e⟩ := by
  subst e
  obtain ⟨c, checkpoint, map⟩ := checkpointOrNone_optional error s.checkpoint s.checkpoint_le
  have rows := validateRows_map error ⟨[], List.nodup_nil⟩ s.witnesses s.nodup_keys
  have size : s.toObj.attr "size" = .ok (natObj s.size) := rfl
  have indexedSeq : s.toObj.attr "indexed_seq" = .ok (natObj s.indexedSeq) := rfl
  have pending : s.toObj.attr "first_pending_at" = .ok (optional timeObj s.firstPendingAt) := rfl
  have cp : s.toObj.attr "checkpoint" = .ok (optional CheckpointState.toObj s.checkpoint) := rfl
  have witnesses : s.toObj.attr "witnesses" = .ok (.tuple (s.witnesses.map WitnessState.toObj)) := rfl
  rw [validateMetadata, size, ok_bind, require_of (by simp [natObj, Obj.int?]), ok_bind, indexedSeq,
    ok_bind]
  split
  · rename_i indexed leaves
    obtain rfl : s.indexedSeq = indexed := by
      have same := s.leafCount_eq.symm.trans leaves
      exact Option.some.inj same
    rw [require_of (by simp [natObj, Obj.int?]), ok_bind, pending, ok_bind, timeOrNone_optional,
      ok_bind, cp, ok_bind, checkpoint, ok_bind, witnesses, ok_bind, Obj.seq?, orRaise_some, ok_bind,
      rows, ok_bind]
    congr 2
    exact Header.ext rfl rfl rfl map rfl
  · rename_i none
    rw [s.leafCount_eq] at none
    cases none

/-- A stored state passes `validate_state` and comes back unchanged. -/
theorem validateState_toObj (error : ErrorKind) (s : CllState) :
    validateState error s.toObj = .ok s := by
  have isInst : isInstance .cllState s.toObj = true := rfl
  have attr : s.toObj.attr "nodes" = .ok (.tuple (s.nodes.map fun n => .bytes n.1)) := rfl
  obtain ⟨len, nodes⟩ := digests_map s.nodes
  have count : (s.nodes.map fun n => Obj.bytes n.1).length ≤ maxSize := by
    rw [List.length_map, s.length_eq]
    exact s.size_le
  have metadata := validateMetadata_toObj error s.toDelta
    (show s.size = (s.nodes.map fun n => Obj.bytes n.1).length by rw [List.length_map, s.length_eq])
  rw [validateState, require_of isInst, ok_bind, attr, ok_bind, nodeItems, Obj.seq?, orRaise_some,
    ok_bind, lengthOf, dif_pos count, ok_bind, metadata, ok_bind, nodesOf, nodes, orRaise_some, ok_bind]

end CLL.Log
