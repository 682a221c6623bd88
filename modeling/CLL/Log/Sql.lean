import CLL.Lib.Run
import CLL.Log.Engine

/-!
# The relational backend

`log/sql.py` over the rows of one log, and the calls of a backend over them. A transaction works on a copy
of the tables that its commit puts in their place, so a call that raises leaves them as they were. How texts
compare is up to the database: a `Dialect` gives its collation, that of SQLite or one that MySQL was set up with.
`tablesOf` gives the rows that stand for an engine, `perform_tablesOf` says that every call does to them
what it does to the engine, and `loadState_tablesOf` that they read back as its state. A query orders
witness rows by the text of their size, so a loaded state lists them in the order of `byText`.
-/

namespace CLL.Log

/-- A call of a `Backend`. -/
inductive Request where
  | append (input : Obj)
  | getEntry (value : Obj)
  | entryCount
  | scanEntries (afterSeq limit : Obj)
  | loadCll
  | commitCll (expectedSize expectedCheckpoint next : Obj)
  | pendingWitnesses (now limit : Obj)
  | pendingWitnessesFor (witnessId now limit : Obj)
  | getWitness (witnessId checkpointSize : Obj)
  | commitWitness (expectedAttempts next : Obj)

/-- What a call returns. -/
inductive Reply where
  | appended (result : AppendResult)
  | entry (entry : Entry)
  | count (n : ℕ)
  | entries (entries : List Entry)
  | state (state : CllState)
  | rows (rows : List WitnessState)
  | row (row : Option WitnessState)
  | done

/-- A call of `MemoryStore`: what it returns or raises, and the engine after it. -/
def Engine.perform (e : Engine) : Request → Py Reply × Engine
  | .append input =>
    match e.append input with
    | .ok (e', result) => (.ok (.appended result), e')
    | .error exc => (.error exc, e)
  | .getEntry value => ((e.getEntry value).map .entry, e)
  | .entryCount => (.ok (.count e.snapshot.1), e)
  | .scanEntries afterSeq limit => ((e.scanEntries afterSeq limit).map .entries, e)
  | .loadCll => (.ok (.state e.state), e)
  | .commitCll expectedSize expectedCheckpoint next =>
    match e.commitCll expectedSize expectedCheckpoint next with
    | .ok e' => (.ok .done, e')
    | .error exc => (.error exc, e)
  | .pendingWitnesses now limit => ((e.pendingWitnesses now limit).map .rows, e)
  | .pendingWitnessesFor witnessId now limit =>
    ((e.pendingWitnessesFor witnessId now limit).map .rows, e)
  | .getWitness witnessId checkpointSize => ((e.getWitness witnessId checkpointSize).map .row, e)
  | .commitWitness expectedAttempts next =>
    match e.commitWitness expectedAttempts next with
    | .ok e' => (.ok .done, e')
    | .error exc => (.error exc, e)

/-- The engine after a call. -/
def Engine.step (e : Engine) (request : Request) : Engine := (e.perform request).2

namespace Sql

/-- What the two databases do differently. -/
structure Dialect where
  /-- `append` takes the row lock of MySQL. -/
  lock : Bool
  /-- The collation of the text columns: two texts are equal, and ordered, as their weights are. -/
  weight : Str → Str
  /-- What a duplicate key raises. -/
  duplicate : ErrorKind

/-- SQLite compares the bytes of texts. -/
def sqlite : Dialect := ⟨false, id, .database⟩

/-- MySQL, with the collation of its tables. -/
def mysql (weight : Str → Str) : Dialect := ⟨true, weight, .contention⟩

/-- The collation tells different texts apart. -/
def Dialect.Exact (d : Dialect) : Prop := Function.Injective d.weight

variable (d : Dialect)

/-- A row of `cll_entries`. -/
structure EntryRow where
  seq : ℤ
  value : Bytes
  appendedAt : Str
  deriving DecidableEq

/-- A row of `cll_nodes`. -/
structure NodeRow where
  position : ℤ
  node : Bytes
  deriving DecidableEq

/-- A row of `cll_witnesses`. -/
structure WitnessRow where
  witnessId : Str
  checkpointSize : Str
  attempts : ℤ
  witness : Bytes
  deriving DecidableEq

/-- The rows of one log, each table in the order of its insertions. `state` is that of `cll_meta`. -/
structure Tables where
  state : Option Bytes
  entries : List EntryRow
  nodes : List NodeRow
  witnesses : List WitnessRow
  deriving DecidableEq

/-- `INSERT INTO cll_entries`, with its primary key and its unique values. -/
def insertEntry (t : Tables) (row : EntryRow) : Py Tables := do
  require (∀ r ∈ t.entries, r.seq ≠ row.seq ∧ r.value ≠ row.value) d.duplicate
    "UNIQUE constraint failed: cll_entries"
  .ok { t with entries := t.entries ++ [row] }

/-- `INSERT INTO cll_nodes`. -/
def insertNode (t : Tables) (row : NodeRow) : Py Tables := do
  require (∀ r ∈ t.nodes, r.position ≠ row.position) d.duplicate "UNIQUE constraint failed: cll_nodes"
  .ok { t with nodes := t.nodes ++ [row] }

/-- The columns of a primary key of `cll_witnesses`, as they are compared. -/
def WitnessRow.weights (row : WitnessRow) : Str × Str := (d.weight row.witnessId, d.weight row.checkpointSize)

/-- `INSERT INTO cll_witnesses`. -/
def insertWitness (t : Tables) (row : WitnessRow) : Py Tables := do
  require (∀ r ∈ t.witnesses, r.weights d ≠ row.weights d) d.duplicate "UNIQUE constraint failed: cll_witnesses"
  .ok { t with witnesses := t.witnesses ++ [row] }

/-- `UPDATE cll_meta SET state=?`. -/
def updateMeta (t : Tables) (state : Bytes) : Tables := { t with state := t.state.map fun _ => state }

/-- `WHERE log_id=? AND witness_id=? AND checkpoint_size=?` -/
def hasKey (witnessId checkpointSize : Str) (row : WitnessRow) : Bool :=
  row.weights d == (d.weight witnessId, d.weight checkpointSize)

/-- `UPDATE cll_witnesses SET attempts=?,witness=? WHERE …`, and its `rowcount`. -/
def updateWitness (t : Tables) (attempts : ℤ) (witness : Bytes) (witnessId checkpointSize : Str)
    (expectedAttempts : ℤ) : Tables × ℕ :=
  let matched (row : WitnessRow) :=
    hasKey d witnessId checkpointSize row && row.attempts == expectedAttempts
  ({ t with witnesses := t.witnesses.map fun row =>
      if matched row then { row with attempts := attempts, witness := witness } else row },
    t.witnesses.countP matched)

/-- `ORDER BY checkpoint_size,witness_id`. -/
def rowBefore (a b : WitnessRow) : Bool :=
  decide ((a.weights d).2 < (b.weights d).2) ||
    ((a.weights d).2 == (b.weights d).2 && decide ((a.weights d).1 ≤ (b.weights d).1))

/-- The `CllState` of `metadata`: the header of a state, without nodes and witnesses. -/
def headerOf (state : CllState) : Delta :=
  { state.toHeader with nodes := [], witnesses := [], nodup_keys := nodup_keys_nil }

/-- `metadata`. -/
def metadata (state : CllState) : Py Bytes := dumps (stateToWire (headerOf state))

/-- `_json`. -/
def json (raw : Bytes) (what : String) : Py Json :=
  orRaise .corrupt s!"decode {what}" ((Utf8.decode raw).bind Json.loads)

/-- The fields of a `dict`. -/
def dict? : Json → Option Fields
  | .obj fields => some fields
  | _ => none

/-- `value == text`. -/
def isText (text : Str) : Json → Bool
  | .str s => s == text
  | _ => false

/-- `value == n`. A `float` that equals `n` is refused by `witness_from_wire`, with the same class. -/
def isNumber (n : ℤ) : Json → Bool
  | .int m => m == n
  | .bool b => (if b then 1 else 0) == n
  | _ => false

/-- `entry_from_row`. -/
def entryFromRow (row : EntryRow) : Py Entry := do
  require (0 < row.seq ∧ row.seq ≤ maxPortableInteger) .corrupt "stored entry is invalid"
  require (row.value.length = entryBytes) .corrupt "stored entry is invalid"
  let appendedAt ← parseTime .corrupt (.str row.appendedAt)
  .ok ⟨row.seq.toNat, row.value, appendedAt⟩

/-- `witness_from_row`. -/
def witnessFromRow (row : WitnessRow) : Py WitnessState := do
  let wire ← json row.witness "witness row"
  let fields ← orRaise .corrupt "witness index disagrees with JSON" (dict? wire)
  require (isText row.witnessId (fields.get "witnessId") = true ∧
    isText row.checkpointSize (fields.get "checkpointSize") = true ∧
    isNumber row.attempts (fields.get "attempts") = true) .corrupt "witness index disagrees with JSON"
  let value ← witnessFromWire .corrupt wire
  validateWitness .corrupt value

/-- The rows that a query selects, decoded one after the other. -/
def witnessesFromRows : List WitnessRow → Py (List WitnessState)
  | [] => .ok []
  | row :: rows => do
    let first ← witnessFromRow row
    let others ← witnessesFromRows rows
    .ok (first :: others)

/-- `load_witnesses`. -/
def loadWitnesses (t : Tables) (witnessId : Option Str) : Py (List WitnessState) := do
  let rows ← witnessesFromRows
    ((t.witnesses.filter fun row => witnessId.all (d.weight row.witnessId = d.weight ·)).mergeSort (rowBefore d))
  require ((rows.map WitnessState.key).Nodup) .corrupt "duplicate witness key"
  .ok rows

/-- The loop of `load_state` over the rows of `cll_nodes`, of which `seen` are done. -/
def nodesFromRows (seen : ℕ) : List NodeRow → Py (List Json)
  | [] => .ok []
  | row :: rows => do
    require (row.position = seen) .corrupt "stored node positions are not dense"
    require (row.node.length = entryBytes) .corrupt "stored node is not 32 bytes"
    let others ← nodesFromRows (seen + 1) rows
    .ok (.str (encodeBytes row.node) :: others)

/-- `CllState(size=state.size, …, witnesses=witnesses)`. -/
def withWitnesses (state : Obj) (witnesses : List WitnessState) : Py Obj := do
  let size ← state.attr "size"
  let nodes ← state.attr "nodes"
  let indexedSeq ← state.attr "indexed_seq"
  let firstPendingAt ← state.attr "first_pending_at"
  let checkpoint ← state.attr "checkpoint"
  .ok (cllStateObj size nodes indexedSeq firstPendingAt checkpoint
    (.tuple (witnesses.map WitnessState.toObj)))

/-- `load_state`. -/
def loadState (t : Tables) : Py CllState := do
  let raw ← orRaise .corrupt "missing CLL metadata" t.state
  let wire ← json raw "CLL metadata"
  let fields ← orRaise .corrupt "CLL metadata is not an object" (dict? wire)
  let nodes ← nodesFromRows 0 (t.nodes.mergeSort fun a b => a.position ≤ b.position)
  let fields := Json.insert fields (Str.lit "nodes") (.arr nodes)
  let fields := Json.insert fields (Str.lit "witnesses") (.arr [])
  let state ← stateFromWire .corrupt (.obj fields)
  let witnesses ← loadWitnesses d t none
  let value ← withWitnesses state witnesses
  validateState .corrupt value

/-- `SELECT MAX(seq)`. -/
def maxSeq (t : Tables) : Option ℤ := (t.entries.map EntryRow.seq).max?

/-- `_find_entry`. -/
def findEntry (t : Tables) (value : Bytes) : Py (Option Entry) :=
  match t.entries.find? (·.value = value) with
  | some row => (entryFromRow row).map some
  | none => .ok none

/-- `append`. With the lock the metadata row must be there. -/
def append (t : Tables) (input : Obj) : Py (Tables × AppendResult) := do
  let (value, appendedAt) ← checkAppend input
  require (d.lock = true → t.state.isSome = true) .corrupt "missing CLL metadata"
  match ← findEntry t value.1 with
  | some found => .ok (t, ⟨found, .idempotent⟩)
  | none =>
    let seq := (maxSeq t).elim 1 (· + 1)
    require (seq ≤ maxPortableInteger) .invalid "entry sequence exceeds the portable range"
    let t ← insertEntry d t ⟨seq, value.1, formatTime appendedAt⟩
    .ok (t, ⟨⟨seq.toNat, value.1, appendedAt⟩, .inserted⟩)

/-- `get_entry`. -/
def getEntry (t : Tables) (value : Obj) : Py Entry := do
  let value ← checkValue value
  let found ← findEntry t value.1
  orRaise .notFound "entry not found" found

/-- `entry_count`. -/
def entryCount (t : Tables) : Py ℕ :=
  match maxSeq t with
  | none => .ok 0
  | some count => do
    require (1 ≤ count ∧ count ≤ maxPortableInteger) .corrupt
      "stored entry sequence is outside the portable range"
    .ok count.toNat

/-- `scan_entries`. -/
def scanEntries (t : Tables) (afterSeq limit : Obj) : Py (List Entry) := do
  let (afterSeq, limit) ← checkScan afterSeq limit
  (((t.entries.filter fun row => (afterSeq : ℤ) < row.seq).mergeSort
    fun a b => a.seq ≤ b.seq).take limit).mapM entryFromRow

/-- The new nodes of `commit_cll`, of which the first has position `position`. -/
def insertNodes (t : Tables) (position : ℕ) : List Core.Digest → Py Tables
  | [] => .ok t
  | node :: nodes => do
    let t ← insertNode d t ⟨position, node.1⟩
    insertNodes t (position + 1) nodes

/-- The new rows of `commit_cll`. -/
def insertWitnesses (t : Tables) : List WitnessState → Py Tables
  | [] => .ok t
  | row :: rows => do
    let witness ← dumps (witnessToWire row)
    let t ← insertWitness d t ⟨row.witnessId, formatDecimal row.checkpointSize, row.attempts.1, witness⟩
    insertWitnesses t rows

/-- `commit_cll`. -/
def commitCll (t : Tables) (expectedSize expectedCheckpoint next : Obj) : Py Tables := do
  let current ← loadState d t
  let updated ← applyCll current expectedSize expectedCheckpoint next
  let state ← metadata updated
  let t := updateMeta t state
  let t ← insertNodes d t current.nodes.length (updated.nodes.drop current.nodes.length)
  insertWitnesses d t (updated.witnesses.drop current.witnesses.length)

/-- `pending_witnesses`. -/
def pendingWitnesses (t : Tables) (now limit : Obj) : Py (List WitnessState) := do
  let (now, limit) ← checkPending now limit
  let rows ← loadWitnesses d t none
  .ok (pending rows now limit none)

/-- `pending_witnesses_for`. -/
def pendingWitnessesFor (t : Tables) (witnessId now limit : Obj) : Py (List WitnessState) := do
  let (witnessId, now, limit) ← checkPendingFor witnessId now limit
  let rows ← loadWitnesses d t (some witnessId.1)
  .ok (pending rows now limit (some witnessId))

/-- `get_witness` of a checked key. -/
def findWitness (t : Tables) (witnessId : Str) (checkpointSize : ℕ) : Py (Option WitnessState) :=
  match t.witnesses.find? (hasKey d witnessId (formatDecimal checkpointSize)) with
  | some row => (witnessFromRow row).map some
  | none => .ok none

/-- `get_witness`. -/
def getWitness (t : Tables) (witnessId checkpointSize : Obj) : Py (Option WitnessState) := do
  let key ← checkWitnessKey witnessId checkpointSize
  findWitness d t key.1 key.2

/-- `commit_witness`. -/
def commitWitness (t : Tables) (expectedAttempts next : Obj) : Py Tables := do
  let next ← validateWitness .invalid next
  let attempts ← checkExpectedAttempts expectedAttempts
  let found ← getWitness d t (.str next.witnessId) (natObj next.checkpointSize)
  let current ← orRaise .contention "witness state changed" found
  let r ← applyWitness [current] expectedAttempts next.toObj
  let updated := r.1.2
  let witness ← dumps (witnessToWire updated)
  let (t, rowcount) := updateWitness d t updated.attempts.1 witness updated.witnessId
    (formatDecimal updated.checkpointSize) attempts.1
  require (rowcount = 1) .contention "witness compare-and-set failed"
  .ok t

/-- The tables of `init`. -/
def provision : Py Tables := do
  let state ← metadata .empty
  .ok ⟨some state, [], [], []⟩

/-- `COMMIT`, or `ROLLBACK` to the rows before the transaction. -/
def transaction {α : Type} (t : Tables) (reply : α → Reply) : Py (Tables × α) → Py Reply × Tables
  | .ok (t', a) => (.ok (reply a), t')
  | .error exc => (.error exc, t)

/-- A call of the store. -/
def perform (t : Tables) : Request → Py Reply × Tables
  | .append input => transaction t .appended (append d t input)
  | .getEntry value => ((getEntry t value).map .entry, t)
  | .entryCount => ((entryCount t).map .count, t)
  | .scanEntries afterSeq limit => ((scanEntries t afterSeq limit).map .entries, t)
  | .loadCll => ((loadState d t).map .state, t)
  | .commitCll expectedSize expectedCheckpoint next =>
    transaction t (fun _ => .done) ((commitCll d t expectedSize expectedCheckpoint next).map (·, ()))
  | .pendingWitnesses now limit => ((pendingWitnesses d t now limit).map .rows, t)
  | .pendingWitnessesFor witnessId now limit =>
    ((pendingWitnessesFor d t witnessId now limit).map .rows, t)
  | .getWitness witnessId checkpointSize => ((getWitness d t witnessId checkpointSize).map .row, t)
  | .commitWitness expectedAttempts next =>
    transaction t (fun _ => .done) ((commitWitness d t expectedAttempts next).map (·, ()))

/-- The tables after a call. -/
def step (t : Tables) (request : Request) : Tables := (perform d t request).2

/-- A row is written. -/
lemma returns_witness (w : WitnessState) : (dumps (witnessToWire w)).toBool = true := by
  obtain ⟨bytes, ok⟩ := exists_dumps (chars_witnessToWire w)
  rw [ok]
  rfl

/-- The JSON column of a witness row. -/
def witnessBytes (w : WitnessState) : Bytes := (dumps (witnessToWire w)).val (returns_witness w)

/-- The bytes of a row. -/
lemma dumps_witnessToWire (w : WitnessState) : dumps (witnessToWire w) = .ok (witnessBytes w) :=
  Py.eq_ok_val (returns_witness w)

/-- The metadata of a state is written. -/
lemma returns_metadata (state : CllState) : (metadata state).toBool = true := by
  obtain ⟨bytes, ok⟩ := exists_dumps (chars_stateToWire (headerOf state))
  rw [metadata, ok]
  rfl

/-- The state column of `cll_meta`. -/
def stateBytes (state : CllState) : Bytes := (metadata state).val (returns_metadata state)

/-- The bytes of the metadata of a state. -/
lemma metadata_eq (state : CllState) : metadata state = .ok (stateBytes state) :=
  Py.eq_ok_val (returns_metadata state)

def entryRow (entry : Entry) : EntryRow := ⟨entry.seq, entry.value, formatTime entry.appendedAt⟩

/-- The rows of nodes of which the first has position `position`. -/
def nodeRows (position : ℕ) : List Core.Digest → List NodeRow
  | [] => []
  | node :: nodes => ⟨position, node.1⟩ :: nodeRows (position + 1) nodes

def witnessRow (w : WitnessState) : WitnessRow :=
  ⟨w.witnessId, formatDecimal w.checkpointSize, w.attempts.1, witnessBytes w⟩

/-- The rows that stand for an engine. -/
def tablesOf (e : Engine) : Tables where
  state := some (stateBytes e.state)
  entries := e.entries.map entryRow
  nodes := nodeRows 0 e.state.nodes
  witnesses := e.state.witnesses.map witnessRow

/-- The order of a query over witness rows. -/
def textBefore (a b : WitnessState) : Bool := rowBefore d (witnessRow a) (witnessRow b)

end Sql

/-- A state with its witness rows in the order of a query. -/
def CllState.byText (d : Sql.Dialect) (state : CllState) : CllState :=
  state.withRows (state.witnesses.mergeSort (Sql.textBefore d))
    (((List.mergeSort_perm _ _).map _).nodup_iff.mpr state.nodup_keys)

/-- The rows in the order of their texts are the same rows. -/
lemma CllState.byText_perm (d : Sql.Dialect) (state : CllState) :
    (state.byText d).witnesses.Perm state.witnesses :=
  List.mergeSort_perm _ _

/-- A reply whose state lists its rows in the order of a query. -/
def Reply.byText (d : Sql.Dialect) : Reply → Reply
  | .state s => .state (s.byText d)
  | reply => reply

namespace Sql

variable {d : Dialect}

/-- What was written is read back. -/
lemma json_of_dumps {value : Json} {raw : Bytes} (plain : Json.plain value = true)
    (ok : dumps value = .ok raw) (what : String) : json raw what = .ok value := by
  rw [json, (loads_dumps plain ok).1, orRaise_some]

/-- The entries are numbered from one on. -/
lemma seq_of_mem (e : Engine) {entry : Entry} (mem : entry ∈ e.entries) :
    0 < entry.seq ∧ entry.seq ≤ e.entries.length := by
  obtain ⟨i, hi⟩ := List.getElem?_of_mem mem
  have seq := e.dense i entry hi
  have lt := (List.getElem?_eq_some_iff.mp hi).fst
  omega

/-- A stored entry is read back. -/
lemma entryFromRow_entryRow (e : Engine) {entry : Entry} (mem : entry ∈ e.entries) :
    entryFromRow (entryRow entry) = .ok entry := by
  have seq := seq_of_mem e mem
  have le := e.length_le
  have range : 0 < (entry.seq : ℤ) ∧ (entry.seq : ℤ) ≤ maxPortableInteger := by omega
  rw [entryRow, entryFromRow, require_of range, ok_bind, require_of (e.width entry mem), ok_bind,
    parseTime_formatTime, ok_bind, Int.toNat_natCast]

/-- The entries are read back from their rows. -/
lemma mapM_entryFromRow (e : Engine) {entries : List Entry} (sub : ∀ entry ∈ entries, entry ∈ e.entries) :
    (entries.map entryRow).mapM entryFromRow = .ok entries := by
  induction entries with
  | nil => rfl
  | cons entry entries ih =>
    rw [List.map_cons, List.mapM_cons, entryFromRow_entryRow e (sub entry List.mem_cons_self), ok_bind,
      ih fun f hf => sub f (List.mem_cons_of_mem _ hf)]
    rfl

/-- A stored witness row is read back. -/
lemma witnessFromRow_witnessRow (w : WitnessState) : witnessFromRow (witnessRow w) = .ok w := by
  have wire := json_of_dumps (plain_witnessToWire w) (dumps_witnessToWire w) "witness row"
  have columns : isText w.witnessId ((witnessFields w).get "witnessId") = true ∧
      isText (formatDecimal w.checkpointSize) ((witnessFields w).get "checkpointSize") = true ∧
      isNumber w.attempts.1 ((witnessFields w).get "attempts") = true := by
    simp [Fields.get, witnessFields, isText, isNumber]
  rw [witnessRow, witnessFromRow, wire, ok_bind]
  show (orRaise .corrupt _ (some (witnessFields w)) >>= _) = _
  rw [orRaise_some, ok_bind, require_of columns, ok_bind, witnessFromWire_witnessToWire, ok_bind,
    validateWitness_toObj]

/-- The witnesses are read back from their rows. -/
lemma witnessesFromRows_map (rows : List WitnessState) :
    witnessesFromRows (rows.map witnessRow) = .ok rows := by
  induction rows with
  | nil => rfl
  | cons w rows ih =>
    rw [List.map_cons, witnessesFromRows, witnessFromRow_witnessRow, ok_bind, ih, ok_bind]

/-- The rows that a query selects, in its order. -/
lemma loadWitnesses_map {t : Tables} {rows : List WitnessState} (stored : t.witnesses = rows.map witnessRow)
    (nodup : (rows.map WitnessState.key).Nodup) (witnessId : Option Str) :
    loadWitnesses d t witnessId =
      .ok ((rows.filter fun w => witnessId.all (d.weight w.witnessId.1 = d.weight ·)).mergeSort (textBefore d)) := by
  have selected : (t.witnesses.filter fun row => witnessId.all (d.weight row.witnessId = d.weight ·)).mergeSort (rowBefore d) =
      ((rows.filter fun w => witnessId.all (d.weight w.witnessId.1 = d.weight ·)).mergeSort (textBefore d)).map witnessRow := by
    rw [stored, List.filter_map, List.map_mergeSort (r := textBefore d) (s := rowBefore d)
      (f := witnessRow) fun _ _ _ _ => rfl]
    rfl
  have sub : (((rows.filter fun w => witnessId.all (d.weight w.witnessId.1 = d.weight ·)).mergeSort (textBefore d)).map
      WitnessState.key).Nodup :=
    ((List.mergeSort_perm _ _).map _).nodup_iff.mpr (nodup.sublist (List.filter_sublist.map _))
  rw [loadWitnesses, selected, witnessesFromRows_map, ok_bind, require_of sub, ok_bind]

/-- The rows of nodes are numbered from a position on. -/
lemma mem_nodeRows {nodes : List Core.Digest} {position : ℕ} {row : NodeRow}
    (mem : row ∈ nodeRows position nodes) :
    (position : ℤ) ≤ row.position ∧ row.position < (position + nodes.length : ℕ) := by
  induction nodes generalizing position with
  | nil => cases mem
  | cons node nodes ih =>
    rw [List.length_cons]
    cases List.mem_cons.mp mem with
    | inl same =>
      subst same
      exact ⟨le_refl _, by push_cast; omega⟩
    | inr mem =>
      obtain ⟨le, lt⟩ := ih mem
      push_cast at le lt ⊢
      omega

/-- Rows of nodes are in the order of their positions. -/
lemma sort_nodeRows (position : ℕ) (nodes : List Core.Digest) :
    ((nodeRows position nodes).mergeSort fun a b => a.position ≤ b.position) =
      nodeRows position nodes := by
  apply List.mergeSort_of_pairwise
  induction nodes generalizing position with
  | nil => exact List.Pairwise.nil
  | cons node nodes ih =>
    refine List.pairwise_cons.mpr ⟨fun row mem => ?_, ih (position + 1)⟩
    obtain ⟨le, -⟩ := mem_nodeRows mem
    push_cast at le
    exact decide_eq_true (by show (position : ℤ) ≤ row.position; omega)

/-- The nodes are read back from their rows. -/
lemma nodesFromRows_nodeRows (position : ℕ) (nodes : List Core.Digest) :
    nodesFromRows position (nodeRows position nodes) =
      .ok (nodes.map fun node => .str (encodeBytes node.1)) := by
  induction nodes generalizing position with
  | nil => rfl
  | cons node nodes ih =>
    have width : node.1.length = entryBytes := node.2
    rw [nodeRows, nodesFromRows, require_of rfl, ok_bind, require_of width, ok_bind, ih, ok_bind]
    rfl

/-- A `CllState` without witnesses. -/
def nodesOnly (state : CllState) : Delta :=
  (state.withRows [] nodup_keys_nil).toDelta

/-- Adding the nodes to the fields of the metadata. -/
lemma insert_stateFields (state : CllState) :
    Json.insert (Json.insert (stateFields (headerOf state)) (Str.lit "nodes")
      (.arr (state.nodes.map fun node => .str (encodeBytes node.1)))) (Str.lit "witnesses") (.arr []) =
      stateFields (nodesOnly state) := by
  have header : (headerOf state).firstPendingAt = state.firstPendingAt ∧
      (headerOf state).checkpoint = state.checkpoint := ⟨rfl, rfl⟩
  cases pending : state.firstPendingAt <;> cases checkpoint : state.checkpoint <;>
    simp [stateFields, nodesOnly, headerOf, Json.insert, field?, checkpointFields, pending, checkpoint]

/-- The tables read back as the state, with its rows in the order of a query. -/
theorem loadState_tablesOf (e : Engine) : loadState d (tablesOf e) = .ok (e.state.byText d) := by
  have wire := json_of_dumps (plain_stateToWire (headerOf e.state)) (metadata_eq e.state) "CLL metadata"
  have rows : loadWitnesses d (tablesOf e) none = .ok (e.state.byText d).witnesses := by
    rw [loadWitnesses_map rfl e.state.nodup_keys]
    simp [CllState.byText]
  have value : withWitnesses (nodesOnly e.state).toObj (e.state.byText d).witnesses =
      .ok (e.state.byText d).toObj := rfl
  have fields := stateFromWire_stateToWire .corrupt (nodesOnly e.state)
  rw [stateToWire] at fields
  rw [loadState]
  show (orRaise .corrupt _ (some (stateBytes e.state)) >>= _) = _
  rw [orRaise_some, ok_bind, wire, ok_bind]
  show (orRaise .corrupt _ (some (stateFields (headerOf e.state))) >>= _) = _
  rw [orRaise_some, ok_bind]
  show (nodesFromRows 0 ((nodeRows 0 e.state.nodes).mergeSort _) >>= _) = _
  rw [sort_nodeRows, nodesFromRows_nodeRows, ok_bind]
  dsimp only
  rw [insert_stateFields, fields, ok_bind, rows, ok_bind, value, ok_bind, validateState_toObj]

/-- The first item that satisfies `p`, by its index and by itself. -/
lemma findIdx?_cases {α : Type} (p : α → Bool) (xs : List α) :
    (xs.findIdx? p = none ∧ xs.find? p = none) ∨
    ∃ index a, xs.findIdx? p = some index ∧ xs[index]? = some a ∧ xs.find? p = some a := by
  cases found : xs.findIdx? p with
  | none =>
    rw [List.findIdx?_eq_none_iff] at found
    refine Or.inl ⟨rfl, List.find?_eq_none.mpr fun a mem same => ?_⟩
    rw [found a mem] at same
    cases same
  | some index =>
    obtain ⟨lt, same, first⟩ := List.findIdx?_eq_some_iff_getElem.mp found
    exact Or.inr ⟨index, xs[index], rfl, List.getElem?_eq_getElem lt,
      List.find?_eq_some_iff_getElem.mpr ⟨same, index, lt, rfl, fun j lt => by simpa using first j lt⟩⟩

/-- The entry of a value, by its index and by a query. -/
lemma byValue_cases (e : Engine) (value : Bytes) :
    (e.byValue value = none ∧ e.entries.find? (·.value = value) = none) ∨
    ∃ index entry, e.byValue value = some index ∧ e.entryAt index = .ok entry ∧
      e.entries.find? (·.value = value) = some entry := by
  rw [e.byValue_eq]
  cases findIdx?_cases (fun entry : Entry => entry.value = value) e.entries with
  | inl absent => exact Or.inl absent
  | inr present =>
    obtain ⟨index, entry, found, at_, query⟩ := present
    exact Or.inr ⟨index, entry, found, by rw [Engine.entryAt, at_], query⟩

/-- An entry is found by its value. -/
lemma findEntry_tablesOf (e : Engine) (value : Bytes) :
    findEntry (tablesOf e) value = .ok (e.entries.find? (·.value = value)) := by
  have query : (tablesOf e).entries.find? (·.value = value) =
      (e.entries.find? (·.value = value)).map entryRow := List.find?_map
  rw [findEntry, query]
  cases found : e.entries.find? (·.value = value) with
  | none => rfl
  | some entry =>
    show (entryFromRow (entryRow entry)).map some = _
    rw [entryFromRow_entryRow e (List.mem_of_find?_eq_some found)]
    rfl

/-- Sequences are dense, so the last one is the count. -/
lemma maxSeq_tablesOf (e : Engine) :
    maxSeq (tablesOf e) = if e.entries = [] then none else some (e.entries.length : ℤ) := by
  show ((e.entries.map entryRow).map EntryRow.seq).max? = _
  rw [List.map_map]
  split
  · rename_i empty
    rw [empty]
    rfl
  · rename_i nonempty
    have pos : 0 < e.entries.length := List.length_pos_iff.mpr nonempty
    refine List.max?_eq_some_iff.mpr ⟨?_, ?_⟩
    · have lt : e.entries.length - 1 < e.entries.length := by omega
      have last := e.dense (e.entries.length - 1) _ (List.getElem?_eq_getElem lt)
      refine List.mem_map.mpr ⟨_, List.getElem_mem lt, ?_⟩
      show (e.entries[e.entries.length - 1].seq : ℤ) = _
      rw [last]
      omega
    · intro seq mem
      obtain ⟨entry, stored, rfl⟩ := List.mem_map.mp mem
      have le := (seq_of_mem e stored).2
      show (entry.seq : ℤ) ≤ _
      omega

/-- The next sequence number follows the entries. -/
lemma nextSeq_tablesOf (e : Engine) :
    (maxSeq (tablesOf e)).elim 1 (· + 1) = ((e.entries.length + 1 : ℕ) : ℤ) := by
  rw [maxSeq_tablesOf]
  split
  · rename_i empty
    rw [empty]
    rfl
  · push_cast
    rfl

/-- The entries are counted. -/
lemma entryCount_tablesOf (e : Engine) : entryCount (tablesOf e) = .ok e.entries.length := by
  rw [entryCount, maxSeq_tablesOf]
  split_ifs with empty
  · rw [empty]
    rfl
  · have pos := List.length_pos_iff.mpr empty
    have le := e.length_le
    have range : (1 : ℤ) ≤ e.entries.length ∧ (e.entries.length : ℤ) ≤ maxPortableInteger := by omega
    dsimp only
    rw [require_of range, ok_bind, Int.toNat_natCast]

/-- An entry is returned as by the engine. -/
lemma getEntry_tablesOf (e : Engine) (value : Obj) : getEntry (tablesOf e) value = e.getEntry value := by
  rw [getEntry, Engine.getEntry]
  cases checkValue value with
  | error exc => rfl
  | ok value =>
    rw [ok_bind, ok_bind, findEntry_tablesOf, ok_bind]
    cases byValue_cases e value.1 with
    | inl absent => rw [absent.1, absent.2]; rfl
    | inr present =>
      obtain ⟨index, entry, byValue, at_, found⟩ := present
      rw [byValue, found, orRaise_some, ← at_]

/-- The entries after a number are the rest. -/
lemma scan_entries (e : Engine) (afterSeq : ℕ) :
    e.entries.filter (fun entry => (afterSeq : ℤ) < (entryRow entry).seq) = e.entries.drop afterSeq := by
  have split := congrArg (List.filter fun entry => decide ((afterSeq : ℤ) < (entryRow entry).seq))
    (List.take_append_drop afterSeq e.entries)
  rw [List.filter_append] at split
  have before : (e.entries.take afterSeq).filter
      (fun entry => decide ((afterSeq : ℤ) < (entryRow entry).seq)) = [] := by
    rw [List.filter_eq_nil_iff]
    intro entry mem
    obtain ⟨i, lt, rfl⟩ := List.mem_take_iff_getElem.mp mem
    have seq := e.dense i _ (List.getElem?_eq_getElem (by omega))
    rw [decide_eq_true_eq]
    show ¬(afterSeq : ℤ) < (e.entries[i].seq : ℤ)
    omega
  have after : (e.entries.drop afterSeq).filter
      (fun entry => decide ((afterSeq : ℤ) < (entryRow entry).seq)) = e.entries.drop afterSeq := by
    rw [List.filter_eq_self]
    intro entry mem
    obtain ⟨i, lt, rfl⟩ := List.mem_drop_iff_getElem.mp mem
    have seq := e.dense (afterSeq + i) _ (List.getElem?_eq_getElem (by omega))
    rw [decide_eq_true_eq]
    show (afterSeq : ℤ) < ((e.entries[afterSeq + i]).seq : ℤ)
    omega
  rw [before, after, List.nil_append] at split
  exact split.symm

/-- A page of entries is returned as by the engine. -/
lemma scanEntries_tablesOf (e : Engine) (afterSeq limit : Obj) :
    scanEntries (tablesOf e) afterSeq limit = e.scanEntries afterSeq limit := by
  rw [scanEntries, Engine.scanEntries]
  cases checkScan afterSeq limit with
  | error exc => rfl
  | ok checked =>
    obtain ⟨after, limit⟩ := checked
    rw [ok_bind, ok_bind]
    dsimp only
    have selected : (tablesOf e).entries.filter (fun row => (after : ℤ) < row.seq) =
        (e.entries.drop after).map entryRow := by
      rw [← scan_entries]
      exact List.filter_map
    have ordered : ((e.entries.drop after).map entryRow).Pairwise
        fun a b => decide (a.seq ≤ b.seq) = true := by
      rw [List.pairwise_map]
      refine List.Pairwise.sublist (List.drop_sublist _ _) (List.pairwise_iff_getElem.mpr ?_)
      intro i j hi hj lt
      have seqI := e.dense i _ (List.getElem?_eq_getElem hi)
      have seqJ := e.dense j _ (List.getElem?_eq_getElem hj)
      rw [decide_eq_true_eq]
      show (e.entries[i].seq : ℤ) ≤ e.entries[j].seq
      omega
    rw [selected, List.mergeSort_of_pairwise ordered, ← List.map_take]
    exact mapM_entryFromRow e fun entry mem => List.mem_of_mem_drop (List.mem_of_mem_take mem)

/-- An append to the tables of an engine. -/
lemma append_tablesOf (e : Engine) (input : Obj) :
    append d (tablesOf e) input =
      (e.append input).map fun r => (tablesOf r.1, r.2) := by
  rw [append]
  cases check : checkAppend input with
  | error exc => rw [Engine.append, check]; rfl
  | ok checked =>
    obtain ⟨value, appendedAt⟩ := checked
    have locked : d.lock = true → (tablesOf e).state.isSome = true := fun _ => rfl
    rw [ok_bind]
    dsimp only
    rw [require_of locked, ok_bind, findEntry_tablesOf, ok_bind]
    cases byValue_cases e value.1 with
    | inr present =>
      obtain ⟨index, entry, byValue, at_, found⟩ := present
      rw [found, append_of_some check byValue, at_]
      rfl
    | inl absent =>
      obtain ⟨fresh, found⟩ := absent
      rw [found, append_of_none check fresh]
      dsimp only
      rw [nextSeq_tablesOf]
      by_cases le : e.entries.length + 1 ≤ maxPortableInteger
      · have le' : ((e.entries.length + 1 : ℕ) : ℤ) ≤ maxPortableInteger := by omega
        have unique : ∀ r ∈ (tablesOf e).entries,
            r.seq ≠ ((e.entries.length + 1 : ℕ) : ℤ) ∧ r.value ≠ value.1 := by
          intro r mem
          obtain ⟨entry, stored, rfl⟩ := List.mem_map.mp mem
          have seq := (seq_of_mem e stored).2
          refine ⟨?_, fun same => ?_⟩
          · show (entry.seq : ℤ) ≠ _
            omega
          · exact absurd (decide_eq_true same) (List.find?_eq_none.mp found entry stored)
        have rows : (tablesOf e).entries ++
            [EntryRow.mk ((e.entries.length + 1 : ℕ) : ℤ) value.1 (formatTime appendedAt)] =
            (e.entries ++ [Entry.mk (e.entries.length + 1) value.1 appendedAt]).map entryRow := by
          rw [List.map_append]
          rfl
        rw [require_of le', ok_bind, insertEntry, require_of unique, ok_bind, dif_pos le, ok_bind, rows]
        rfl
      · have gt : ¬((e.entries.length + 1 : ℕ) : ℤ) ≤ maxPortableInteger := by omega
        rw [require, if_neg gt, dif_neg le]
        rfl

/-- Pending witnesses are returned as by the engine. -/
lemma pendingWitnesses_tablesOf (e : Engine) (now limit : Obj) :
    pendingWitnesses d (tablesOf e) now limit = e.pendingWitnesses now limit := by
  rw [pendingWitnesses, Engine.pendingWitnesses]
  cases checkPending now limit with
  | error exc => rfl
  | ok checked =>
    obtain ⟨now, limit⟩ := checked
    rw [ok_bind, ok_bind]
    dsimp only
    rw [loadWitnesses_map rfl e.state.nodup_keys, ok_bind]
    have all : (e.state.witnesses.filter fun w => (none : Option Str).all (d.weight w.witnessId.1 = d.weight ·)) =
        e.state.witnesses := List.filter_eq_self.mpr fun _ _ => rfl
    rw [all]
    exact congrArg _ (pending_perm (List.mergeSort_perm _ _)
      (((List.mergeSort_perm _ _).map _).nodup_iff.mpr e.state.nodup_keys) now limit none)

/-- The pending rows of one witness are returned as by the engine. -/
lemma pendingWitnessesFor_tablesOf (e : Engine) (witnessId now limit : Obj) :
    pendingWitnessesFor d (tablesOf e) witnessId now limit = e.pendingWitnessesFor witnessId now limit := by
  rw [pendingWitnessesFor, Engine.pendingWitnessesFor]
  cases checkPendingFor witnessId now limit with
  | error exc => rfl
  | ok checked =>
    obtain ⟨id, now, limit⟩ := checked
    rw [ok_bind, ok_bind]
    dsimp only
    rw [loadWitnesses_map rfl e.state.nodup_keys, ok_bind]
    have nodup : ((e.state.witnesses.filter fun w => (some id.1).all (d.weight w.witnessId.1 = d.weight ·)).map
        WitnessState.key).Nodup := e.state.nodup_keys.sublist (List.filter_sublist.map _)
    rw [pending_perm (List.mergeSort_perm _ _)
      (((List.mergeSort_perm _ _).map _).nodup_iff.mpr nodup) now limit (some id)]
    -- the rows of the other witnesses are not due anyway
    have same : ((e.state.witnesses.filter fun w => (some id.1).all (d.weight w.witnessId.1 = d.weight ·)).filter
        fun row => row.receipt.isNone && !row.permanent && row.nextAttemptAt ≤ now &&
          (some id).all (row.witnessId = ·)) =
        e.state.witnesses.filter fun row => row.receipt.isNone && !row.permanent &&
          row.nextAttemptAt ≤ now && (some id).all (row.witnessId = ·) := by
      rw [List.filter_filter]
      refine List.filter_congr fun row _ => ?_
      simp only [Option.all_some, Subtype.ext_iff]
      by_cases own : row.witnessId.1 = id.1
      · simp [own]
      · rw [decide_eq_false own, Bool.and_false, Bool.false_and]
    unfold pending
    rw [same]

/-- A row has the key of the witness row that it stands for. -/
lemma hasKey_witnessRow (exact_ : d.Exact) (w : WitnessState) (key : Identifier × ℕ) :
    hasKey d key.1 (formatDecimal key.2) (witnessRow w) = decide (w.key = key) := by
  show ((d.weight w.witnessId.1, d.weight (formatDecimal w.checkpointSize.1)) ==
    (d.weight key.1.1, d.weight (formatDecimal key.2))) = _
  rw [beq_eq_decide]
  refine decide_eq_decide.mpr ?_
  rw [WitnessState.key, Prod.ext_iff, Prod.ext_iff, Subtype.ext_iff, exact_.eq_iff, exact_.eq_iff,
    formatDecimal_inj]

/-- A witness is found by its key. -/
lemma findWitness_tablesOf (exact_ : d.Exact) (e : Engine) (key : Identifier × ℕ) :
    findWitness d (tablesOf e) key.1 key.2 = .ok (e.state.witnesses.find? (·.key = key)) := by
  have query : (tablesOf e).witnesses.find? (hasKey d key.1 (formatDecimal key.2)) =
      (e.state.witnesses.find? (·.key = key)).map witnessRow := by
    show (e.state.witnesses.map witnessRow).find? _ = _
    rw [List.find?_map]
    congr 2
    funext w
    exact hasKey_witnessRow exact_ w key
  rw [findWitness, query]
  cases e.state.witnesses.find? (·.key = key) with
  | none => rfl
  | some w =>
    show (witnessFromRow (witnessRow w)).map some = _
    rw [witnessFromRow_witnessRow]
    rfl

/-- A witness is returned as by the engine. -/
lemma getWitness_tablesOf (exact_ : d.Exact) (e : Engine) (witnessId checkpointSize : Obj) :
    getWitness d (tablesOf e) witnessId checkpointSize = e.getWitness witnessId checkpointSize := by
  rw [getWitness, Engine.getWitness]
  cases checkWitnessKey witnessId checkpointSize with
  | error exc => rfl
  | ok key => rw [ok_bind, ok_bind, findWitness_tablesOf exact_]

/-- The one row of a key, replaced by an update with the attempts that it has. -/
lemma updateWitness_tablesOf (exact_ : d.Exact) (e : Engine) {index : ℕ} {stored next : WitnessState}
    (at_ : e.state.witnesses[index]? = some stored) (key : stored.key = next.key) :
    updateWitness d (tablesOf e) next.attempts.1 (witnessBytes next) next.witnessId
      (formatDecimal next.checkpointSize) stored.attempts.1 =
    ({ tablesOf e with witnesses := (e.state.witnesses.set index next).map witnessRow }, 1) := by
  obtain ⟨lt, get⟩ := List.getElem?_eq_some_iff.mp at_
  have mem : stored ∈ e.state.witnesses := get ▸ List.getElem_mem lt
  -- The condition of the statement holds of one row: the keys are distinct.
  have matched (w : WitnessState) (hw : w ∈ e.state.witnesses) :
      (hasKey d next.witnessId (formatDecimal next.checkpointSize) (witnessRow w) &&
        (witnessRow w).attempts == (stored.attempts.1 : ℤ)) = decide (w.key = next.key) := by
    rw [show hasKey d next.witnessId (formatDecimal next.checkpointSize) (witnessRow w) =
      decide (w.key = next.key) from hasKey_witnessRow exact_ w next.key]
    by_cases same : w.key = next.key
    · have row := eq_of_key e.state.nodup_keys hw mem (same.trans key.symm)
      subst row
      simp [witnessRow]
    · simp [same]
  have count : (e.state.witnesses.map witnessRow).countP (fun row =>
      hasKey d next.witnessId (formatDecimal next.checkpointSize) row &&
        row.attempts == (stored.attempts.1 : ℤ)) = 1 := by
    rw [List.countP_map]
    have keys : e.state.witnesses.countP ((fun row =>
        hasKey d next.witnessId (formatDecimal next.checkpointSize) row &&
          row.attempts == (stored.attempts.1 : ℤ)) ∘ witnessRow) =
        (e.state.witnesses.map WitnessState.key).count next.key := by
      rw [List.count, List.countP_map]
      refine List.countP_congr fun w hw => ?_
      show (_ && _) = true ↔ (w.key == next.key) = true
      rw [matched w hw, decide_eq_true_eq, beq_iff_eq]
    rw [keys]
    exact List.count_eq_one_of_mem e.state.nodup_keys (key ▸ List.mem_map_of_mem mem)
  have rows : ((e.state.witnesses.map witnessRow).map fun row =>
      if (hasKey d next.witnessId (formatDecimal next.checkpointSize) row &&
        row.attempts == (stored.attempts.1 : ℤ)) = true then
        { row with attempts := next.attempts.1, witness := witnessBytes next } else row) =
      (e.state.witnesses.set index next).map witnessRow := by
    rw [List.map_map]
    apply List.ext_getElem?
    intro j
    rw [List.getElem?_map, List.getElem?_map, List.getElem?_set]
    by_cases here : index = j
    · subst here
      rw [if_pos rfl, if_pos lt, at_]
      show some (if _ then _ else _) = some (witnessRow next)
      rw [if_pos (by rw [matched stored mem]; exact decide_eq_true key)]
      have id : stored.witnessId = next.witnessId := congrArg Prod.fst key
      have size : stored.checkpointSize.1 = next.checkpointSize.1 := congrArg Prod.snd key
      simp [witnessRow, id, size]
    · rw [if_neg here]
      cases other : e.state.witnesses[j]? with
      | none => rfl
      | some w =>
        obtain ⟨lt', get'⟩ := List.getElem?_eq_some_iff.mp other
        have ne : w.key ≠ next.key := by
          intro same
          have keys : (e.state.witnesses.map WitnessState.key)[index]? =
              (e.state.witnesses.map WitnessState.key)[j]? := by
            rw [List.getElem?_map, List.getElem?_map, at_, other]
            exact congrArg some (key.trans same.symm)
          exact here ((List.getElem?_inj (by simpa using lt) e.state.nodup_keys).mp keys)
        show some (if _ then _ else _) = some (witnessRow w)
        rw [if_neg]
        rw [matched w (get' ▸ List.getElem_mem lt'), decide_eq_true_eq]
        exact ne
  rw [updateWitness]
  exact Prod.ext (congrArg (fun rows => { tablesOf e with witnesses := rows }) rows) count

/-- A witness commit to the tables of an engine. -/
lemma commitWitness_tablesOf (exact_ : d.Exact) (e : Engine) (expectedAttempts next : Obj) :
    commitWitness d (tablesOf e) expectedAttempts next =
      (e.commitWitness expectedAttempts next).map tablesOf := by
  rw [commitWitness, Engine.commitWitness]
  cases valid : validateWitness .invalid next with
  | error exc => rw [applyWitness, valid]; rfl
  | ok w =>
    cases check : checkExpectedAttempts expectedAttempts with
    | error exc => rw [applyWitness, valid, ok_bind, ok_bind, check]; rfl
    | ok attempts =>
      have key : checkWitnessKey (.str w.witnessId) (natObj w.checkpointSize) = .ok w.key := by
        rw [checkWitnessKey, identifier_str, counter_natObj]
        rfl
      have query : getWitness d (tablesOf e) (.str w.witnessId) (natObj w.checkpointSize) =
          .ok (e.state.witnesses.find? (·.key = w.key)) := by
        rw [getWitness_tablesOf exact_, Engine.getWitness, key, ok_bind]
      rw [ok_bind, ok_bind, query, ok_bind]
      cases findIdx?_cases (fun row : WitnessState => row.key = w.key) e.state.witnesses with
      | inl absent =>
        rw [applyWitness_missing valid check absent.1, absent.2]
        rfl
      | inr present =>
        obtain ⟨index, current, found, at_, first⟩ := present
        have same : current.key = w.key := by simpa using List.find?_some first
        have single : [current].findIdx? (·.key = w.key) = some 0 := by simp [same]
        obtain ⟨keyHere, here⟩ := applyWitness_found (validateWitness_toObj .invalid w) check single rfl
        obtain ⟨keyThere, there⟩ := applyWitness_found valid check found at_
        rw [first, orRaise_some, ok_bind, here, there]
        by_cases unchanged : current.attempts.1 = attempts.1
        · by_cases checkpoint : current.checkpoint = w.checkpoint
          · rw [require_of unchanged, require_of checkpoint, ok_bind, ok_bind, ok_bind]
            dsimp only
            rw [dumps_witnessToWire, ok_bind, ← unchanged, updateWitness_tablesOf exact_ e at_ same]
            rfl
          · rw [require_of unchanged, ok_bind, ok_bind, require, if_neg checkpoint]
            rfl
        · rw [require, if_neg unchanged]
          rfl

/-- A commit on the rows in the order of a query does what it does on the rows as stored. -/
lemma applyCll_byText (s : CllState) (expectedSize expectedCheckpoint next : Obj) :
    (∃ exc, applyCll s expectedSize expectedCheckpoint next = .error exc ∧
      applyCll (s.byText d) expectedSize expectedCheckpoint next = .error exc) ∨
    ∃ s' u, applyCll s expectedSize expectedCheckpoint next = .ok s' ∧
      applyCll (s.byText d) expectedSize expectedCheckpoint next = .ok u ∧ headerOf u = headerOf s' ∧
      u.nodes = s'.nodes ∧ ∃ added, s'.witnesses = s.witnesses ++ added ∧
        u.witnesses = (s.byText d).witnesses ++ added := by
  rw [applyCll, applyCll]
  have expected : checkExpected (s.byText d) expectedSize expectedCheckpoint =
      checkExpected s expectedSize expectedCheckpoint := rfl
  rw [expected]
  cases checkExpected s expectedSize expectedCheckpoint with
  | error exc => exact Or.inl ⟨exc, rfl, rfl⟩
  | ok _ =>
    cases validateState .invalid next with
    | error exc => exact Or.inl ⟨exc, rfl, rfl⟩
    | ok n =>
      rw [ok_bind, ok_bind, ok_bind, ok_bind]
      have grow : require ((s.byText d).size ≤ n.size ∧ (s.byText d).indexedSeq ≤ n.indexedSeq ∧
          n.nodes.take (s.byText d).nodes.length = (s.byText d).nodes) .invalid "CLL state is not append-only" =
          require (s.size ≤ n.size ∧ s.indexedSeq ≤ n.indexedSeq ∧
            n.nodes.take s.nodes.length = s.nodes) .invalid "CLL state is not append-only" := rfl
      rw [grow]
      cases require (s.size ≤ n.size ∧ s.indexedSeq ≤ n.indexedSeq ∧
        n.nodes.take s.nodes.length = s.nodes) .invalid "CLL state is not append-only" with
      | error exc => exact Or.inl ⟨exc, rfl, rfl⟩
      | ok _ =>
        have indexedSeq : s.toHeader.indexedSeq = (s.byText d).toHeader.indexedSeq := rfl
        have checkpoint : s.toHeader.checkpoint = (s.byText d).toHeader.checkpoint := rfl
        -- The order of the stored rows does not matter to the rows that are added.
        have rows := addedWitnesses_perm indexedSeq checkpoint (s.byText_perm d).symm n.toHeader
        rw [ok_bind, ok_bind]
        cases here : addedWitnesses s.toHeader n.toHeader with
        | error exc =>
          cases there : addedWitnesses (s.byText d).toHeader n.toHeader with
          | error exc' =>
            rw [here, there] at rows
            cases rows
            exact Or.inl ⟨exc, rfl, rfl⟩
          | ok added' => rw [here, there] at rows; cases rows
        | ok added =>
          cases there : addedWitnesses (s.byText d).toHeader n.toHeader with
          | error exc' => rw [here, there] at rows; cases rows
          | ok added' =>
            rw [here, there] at rows
            have same : added.1 = added'.1 := Except.ok.inj rows
            refine Or.inr ⟨_, _, rfl, rfl, rfl, rfl, added.1, rfl, ?_⟩
            rw [same]
            rfl

/-- More nodes are written after the earlier ones. -/
lemma nodeRows_append (position : ℕ) (nodes more : List Core.Digest) :
    nodeRows position (nodes ++ more) =
      nodeRows position nodes ++ nodeRows (position + nodes.length) more := by
  induction nodes generalizing position with
  | nil => rfl
  | cons node nodes ih =>
    rw [List.cons_append, nodeRows, ih, nodeRows, List.cons_append, List.length_cons]
    congr 3
    omega

/-- New nodes follow the stored ones. -/
lemma insertNodes_nodeRows {t : Tables} {older : List Core.Digest} (stored : t.nodes = nodeRows 0 older)
    (newer : List Core.Digest) :
    insertNodes d t older.length newer = .ok { t with nodes := nodeRows 0 (older ++ newer) } := by
  induction newer generalizing t older with
  | nil => rw [insertNodes, List.append_nil, ← stored]
  | cons node newer ih =>
    have unique : ∀ r ∈ t.nodes, r.position ≠ (older.length : ℤ) := by
      intro r mem
      rw [stored] at mem
      have lt := (mem_nodeRows mem).2
      rw [Nat.zero_add] at lt
      omega
    have inserted : t.nodes ++ [⟨older.length, node.1⟩] = nodeRows 0 (older ++ [node]) := by
      rw [stored, nodeRows_append, Nat.zero_add]
      rfl
    have length : older.length + 1 = (older ++ [node]).length := by simp
    rw [insertNodes, insertNode, require_of unique, ok_bind, ok_bind, length,
      ih (t := { t with nodes := t.nodes ++ [⟨older.length, node.1⟩] }) inserted]
    simp

/-- New witness rows follow the stored ones. -/
lemma insertWitnesses_map (exact_ : d.Exact) {t : Tables} {older : List WitnessState}
    (stored : t.witnesses = older.map witnessRow) {newer : List WitnessState}
    (nodup : ((older ++ newer).map WitnessState.key).Nodup) :
    insertWitnesses d t newer = .ok { t with witnesses := (older ++ newer).map witnessRow } := by
  induction newer generalizing t older with
  | nil => rw [insertWitnesses, List.append_nil, ← stored]
  | cons w newer ih =>
    have unique : ∀ r ∈ t.witnesses, r.weights d ≠
        (WitnessRow.mk w.witnessId (formatDecimal w.checkpointSize) w.attempts.1 (witnessBytes w)).weights d := by
      intro r mem same
      rw [stored] at mem
      obtain ⟨old, hold, rfl⟩ := List.mem_map.mp mem
      rw [List.map_append, List.map_cons] at nodup
      have fresh := (List.nodup_append'.mp nodup).2.2 (List.mem_map_of_mem hold)
      refine fresh ?_
      have id : old.witnessId.1 = w.witnessId.1 := exact_ (congrArg Prod.fst same)
      have size : formatDecimal old.checkpointSize = formatDecimal w.checkpointSize :=
        exact_ (congrArg Prod.snd same)
      have key : old.key = w.key := Prod.ext (Subtype.ext id) (formatDecimal_inj.mp size)
      rw [key]
      exact List.mem_cons_self
    have inserted : t.witnesses ++ [witnessRow w] = (older ++ [w]).map witnessRow := by
      rw [stored, List.map_append]
      rfl
    have rest : ((older ++ [w] ++ newer).map WitnessState.key).Nodup := by simpa using nodup
    rw [insertWitnesses, dumps_witnessToWire, ok_bind, insertWitness, require_of unique, ok_bind, ok_bind]
    have next := ih (t := { t with witnesses := t.witnesses ++ [witnessRow w] }) inserted rest
    rw [List.append_assoc] at next
    exact next

/-- A commit to the tables of an engine. -/
lemma commitCll_tablesOf (exact_ : d.Exact) (e : Engine) (expectedSize expectedCheckpoint next : Obj) :
    commitCll d (tablesOf e) expectedSize expectedCheckpoint next =
      (e.commitCll expectedSize expectedCheckpoint next).map tablesOf := by
  rw [commitCll, Engine.commitCll, loadState_tablesOf, ok_bind]
  cases applyCll_byText e.state expectedSize expectedCheckpoint next with
  | inl raised =>
    obtain ⟨exc, here, there⟩ := raised
    rw [here, there]
    rfl
  | inr committed =>
    obtain ⟨s', u, here, there, header, nodes, added, rows, rows'⟩ := committed
    obtain ⟨n, _, -, -, ⟨suffix, older⟩, -, merged⟩ := applyCll_eq_ok here
    have grown : s'.nodes = e.state.nodes ++ suffix := by rw [merged]; exact older.symm
    have state : metadata u = .ok (stateBytes s') := by rw [← metadata_eq, metadata, header, metadata]
    have newNodes : u.nodes.drop (e.state.byText d).nodes.length = suffix := by
      rw [nodes, grown]
      exact List.drop_left
    have newRows : u.witnesses.drop (e.state.byText d).witnesses.length = added := by
      rw [rows', List.drop_left]
    have nodup : ((e.state.witnesses ++ added).map WitnessState.key).Nodup := rows ▸ s'.nodup_keys
    let t := updateMeta (tablesOf e) (stateBytes s')
    have nodesIn : insertNodes d t (e.state.byText d).nodes.length suffix =
        .ok { t with nodes := nodeRows 0 (e.state.nodes ++ suffix) } := insertNodes_nodeRows rfl suffix
    have rowsIn : insertWitnesses d { t with nodes := nodeRows 0 (e.state.nodes ++ suffix) } added =
        .ok { t with
          nodes := nodeRows 0 (e.state.nodes ++ suffix)
          witnesses := (e.state.witnesses ++ added).map witnessRow } := insertWitnesses_map exact_ rfl nodup
    rw [here, there, ok_bind, ok_bind, state, ok_bind]
    dsimp only
    rw [newNodes, newRows, nodesIn, ok_bind, rowsIn, ← rows, ← grown]
    rfl

/-- Every call does to the tables of an engine what it does to the engine, and gives the same reply or
exception. -/
lemma perform_tablesOf (exact_ : d.Exact) (e : Engine) (request : Request) :
    perform d (tablesOf e) request =
      ((e.perform request).1.map (Reply.byText d), tablesOf (e.perform request).2) := by
  cases request with
  | append input =>
    rw [perform, append_tablesOf, Engine.perform]
    cases e.append input <;> rfl
  | getEntry value =>
    rw [perform, getEntry_tablesOf, Engine.perform]
    cases e.getEntry value <;> rfl
  | entryCount => rw [perform, entryCount_tablesOf]; rfl
  | scanEntries afterSeq limit =>
    rw [perform, scanEntries_tablesOf, Engine.perform]
    cases e.scanEntries afterSeq limit <;> rfl
  | loadCll => rw [perform, loadState_tablesOf]; rfl
  | commitCll expectedSize expectedCheckpoint next =>
    rw [perform, commitCll_tablesOf exact_, Engine.perform]
    cases e.commitCll expectedSize expectedCheckpoint next <;> rfl
  | pendingWitnesses now limit =>
    rw [perform, pendingWitnesses_tablesOf, Engine.perform]
    cases e.pendingWitnesses now limit <;> rfl
  | pendingWitnessesFor witnessId now limit =>
    rw [perform, pendingWitnessesFor_tablesOf, Engine.perform]
    cases e.pendingWitnessesFor witnessId now limit <;> rfl
  | getWitness witnessId checkpointSize =>
    rw [perform, getWitness_tablesOf exact_, Engine.perform]
    cases e.getWitness witnessId checkpointSize <;> rfl
  | commitWitness expectedAttempts next =>
    rw [perform, commitWitness_tablesOf exact_, Engine.perform]
    cases e.commitWitness expectedAttempts next <;> rfl

/-- One request has the effect that it has on the engine. -/
lemma step_tablesOf (exact_ : d.Exact) (e : Engine) (request : Request) :
    step d (tablesOf e) request = tablesOf (e.step request) := by
  rw [step, perform_tablesOf exact_]
  rfl

/-- Requests have the effect that they have on the engine. -/
lemma run_tablesOf (exact_ : d.Exact) (e : Engine) (requests : List Request) :
    Run.run (step d) (tablesOf e) requests = tablesOf (Run.run Engine.step e requests) := by
  induction requests generalizing e with
  | nil => rfl
  | cons request requests ih => rw [Run.run_cons, Run.run_cons, step_tablesOf exact_, ih]

/-- A provisioned store is empty. -/
lemma provision_eq : provision = .ok (tablesOf .empty) := by
  rw [provision, metadata_eq, ok_bind]
  rfl

/-- A relational store whose database tells different texts apart refines the engine: after any calls, any
further call gives the reply or the exception of the engine, and the tables then read back as its state, both
with the witness rows of a state in the order of a query. -/
theorem run_refines (exact_ : d.Exact) : ∃ t₀, provision = .ok t₀ ∧
    ∀ (requests : List Request) (request : Request),
      let t := Run.run (step d) t₀ requests
      let e := Run.run Engine.step .empty requests
      (perform d t request).1 = (e.perform request).1.map (Reply.byText d) ∧
      loadState d (perform d t request).2 = .ok ((e.perform request).2.state.byText d) ∧
      ((e.perform request).2.state.byText d).witnesses.Perm (e.perform request).2.state.witnesses := by
  refine ⟨tablesOf .empty, provision_eq, fun requests request => ?_⟩
  intro t e
  have tables : t = tablesOf e := run_tablesOf exact_ .empty requests
  rw [tables, perform_tablesOf exact_]
  exact ⟨rfl, loadState_tablesOf _, CllState.byText_perm _ _⟩

/-- Rows of two witnesses whose ids the database finds equal are not both stored for one checkpoint, which is why
the collation has to tell them apart: the engine stores them. -/
theorem insertWitnesses_collision (t : Tables) {v w : WitnessState}
    (ids : d.weight v.witnessId = d.weight w.witnessId) (sizes : v.checkpointSize = w.checkpointSize) :
    insertWitnesses d t [v, w] = raise d.duplicate "UNIQUE constraint failed: cll_witnesses" := by
  rw [insertWitnesses, dumps_witnessToWire, ok_bind, insertWitness]
  by_cases fresh : ∀ r ∈ t.witnesses, r.weights d ≠
      (WitnessRow.mk v.witnessId (formatDecimal v.checkpointSize) v.attempts.1 (witnessBytes v)).weights d
  · rw [require_of fresh, ok_bind, ok_bind, insertWitnesses, dumps_witnessToWire, ok_bind, insertWitness, require,
      if_neg]
    · rfl
    · intro free
      refine free (witnessRow v) (List.mem_append_right _ (List.mem_singleton_self _)) ?_
      exact Prod.ext ids (congrArg (fun n : Counter 1 maxUint64 => d.weight (formatDecimal n)) sizes)
  · rw [require, if_neg fresh]
    rfl

/-- Texts that SQLite finds equal are. -/
lemma sqlite_exact : sqlite.Exact := Function.injective_id

/-- The epoch is a time. -/
lemma epoch_lt : 0 < maxMillis := by decide

/-- A row of a checkpoint of some size. -/
def sampleRow (size : Counter 1 maxUint64) : WitnessState where
  witnessId := ⟨Str.lit "w", by decide⟩
  checkpointSize := size
  checkpoint := ⟨[1], by decide⟩
  attempts := ⟨0, by decide⟩
  nextAttemptAt := ⟨0, epoch_lt⟩
  receipt := none
  permanent := false
  lastError := none

/-- An empty state with rows for two sizes. -/
def sampleState : CllState :=
  { CllState.empty with
    witnesses := [sampleRow ⟨4, by decide⟩, sampleRow ⟨10, by decide⟩]
    nodup_keys := by decide }

/-- The commit of the rows, and a load. -/
theorem run_refines_sample : ∃ t₀, provision = .ok t₀ ∧
    loadState sqlite (perform sqlite (step sqlite t₀ (.commitCll (natObj 0) .none sampleState.toObj)) .loadCll).2 =
      .ok ((Engine.empty.step (.commitCll (natObj 0) .none sampleState.toObj)).state.byText sqlite) := by
  obtain ⟨t₀, init, refines⟩ := run_refines sqlite_exact
  exact ⟨t₀, init, (refines [.commitCll (natObj 0) .none sampleState.toObj] .loadCll).2.1⟩

/-- The order in which `load_cll` lists witness rows is that of the text of their sizes, not the order in
which the engine keeps them. -/
theorem loadCll_order : ¬∀ (t₀ : Tables) (requests : List Request) (request : Request),
    provision = .ok t₀ → (perform sqlite (Run.run (step sqlite) t₀ requests) request).1 =
      ((Run.run Engine.step .empty requests).perform request).1 := by
  intro same
  let commit := Request.commitCll (natObj 0) .none sampleState.toObj
  have replies := same (tablesOf .empty) [commit] .loadCll provision_eq
  rw [run_tablesOf sqlite_exact, perform_tablesOf sqlite_exact] at replies
  have state : (Run.run Engine.step .empty [commit]).state = sampleState := by
    show (Engine.empty.perform commit).2.state = sampleState
    rw [Engine.perform, Engine.commitCll, applyCll, validateState_toObj]
    rfl
  have states := Reply.state.inj (Except.ok.inj replies)
  rw [state] at states
  have rows : [sampleRow ⟨4, by decide⟩, sampleRow ⟨10, by decide⟩].mergeSort (textBefore sqlite) =
      [sampleRow ⟨10, by decide⟩, sampleRow ⟨4, by decide⟩] := by
    have before : textBefore sqlite (sampleRow ⟨4, by decide⟩) (sampleRow ⟨10, by decide⟩) = false := by
      simp [textBefore, rowBefore, witnessRow, sampleRow, formatDecimal, Decimal.text]
      decide
    simp [List.mergeSort, before]
  have order : [sampleRow ⟨10, by decide⟩, sampleRow ⟨4, by decide⟩] =
      [sampleRow ⟨4, by decide⟩, sampleRow ⟨10, by decide⟩] :=
    rows.symm.trans (congrArg (fun s : CllState => s.witnesses) states)
  cases order

end Sql
end CLL.Log
