import CLL.Rust.Engine
import CLL.Rust.Wire

/-!
# Commits of the SQLite backend in Rust

`load_cll`, `commit_cll` and `append_cll` of `log/sqlite.rs` with the row codecs of `log/sql.rs`, and the
default `append_cll` of `log/mod.rs`. A transaction works on a copy of the rows, which its commit puts in
their place. A position of a node is below `2 ^ 50` wherever it is written, so it is an `i64`.
-/

namespace CLL.Rust.Log.Sqlite

/-- A row of `cll_nodes`. -/
structure NodeRow where
  position : ℤ
  node : Bytes
deriving DecidableEq

/-- A row of `cll_witnesses`. -/
structure WitnessRow where
  witnessId : Text
  checkpointSize : Str
  attempts : ℤ
  json : Bytes
deriving DecidableEq

/-- The rows of one log, each table in the order of its insertions. -/
structure Tables where
  metadata : Option Bytes
  nodes : List NodeRow
  witnesses : List WitnessRow
deriving DecidableEq

/-- `INSERT INTO cll_nodes`. -/
def insertNode (t : Tables) (row : NodeRow) : Res Tables := do
  reject (∃ r ∈ t.nodes, r.position = row.position) ⟨.storage, "SQLite"⟩
  .ok { t with nodes := t.nodes ++ [row] }

/-- `INSERT INTO cll_witnesses`. -/
def insertWitness (t : Tables) (row : WitnessRow) : Res Tables := do
  reject (∃ r ∈ t.witnesses, (r.witnessId, r.checkpointSize) = (row.witnessId, row.checkpointSize))
    ⟨.storage, "SQLite"⟩
  .ok { t with witnesses := t.witnesses ++ [row] }

/-- `UPDATE cll_meta SET state=?`. -/
def updateMeta (t : Tables) (metadata : Bytes) : Tables :=
  { t with metadata := t.metadata.map fun _ => metadata }

/-- `ORDER BY checkpoint_size,witness_id`, over the bytes of two texts. -/
def rowBefore (a b : WitnessRow) : Bool :=
  decide (a.checkpointSize < b.checkpointSize) ||
    (a.checkpointSize == b.checkpointSize && decide (a.witnessId.1 ≤ b.witnessId.1))

variable (serde : SerdeJson)

/-- `metadata_json`. -/
def metadataJson (state : State) : Res Bytes := do
  let wire ← stateToWire state.cloneHeader
  okOr (serde.stateToVec wire) (corrupt "encode row JSON")

/-- `witness_json`. -/
def witnessJson (row : WitnessState) : Res Bytes := do
  let wire ← witnessToWire row
  okOr (serde.witnessToVec wire) (corrupt "encode row JSON")

/-- `witness_from_row`, with `witness_from_wire`. -/
def witnessFromRow (row : WitnessRow) : Res WitnessState := do
  let wire ← okOr (serde.witnessFromSlice row.json) (corrupt "decode witness row")
  reject (wire.witnessId ≠ row.witnessId ∨ wire.checkpointSize ≠ row.checkpointSize ∨
    (wire.attempts.toNat : ℤ) ≠ row.attempts) (corrupt "witness index disagrees with its JSON")
  let value ← decodeWitness wire .corrupt
  validateWitness value .corrupt
  .ok value

/-- `header_from_metadata`. -/
def headerFromMetadata (metadata : Bytes) : Res State := do
  let wire ← okOr (serde.stateFromSlice metadata) (corrupt "decode CLL metadata")
  decodeState { wire with nodes := [], witnesses := [] } .corrupt

/-- `for (expected, (position, node)) in nodes.into_iter().enumerate() { … }` of `state_from_rows`. A
negative position is no `u64`. -/
def nodesFromRows (expected : ℕ) : List NodeRow → Res (List Bytes)
  | [] => .ok []
  | row :: rows => do
    reject (row.position ≠ expected) (corrupt "stored node positions are not dense")
    let nodes ← nodesFromRows (expected + 1) rows
    .ok (row.node :: nodes)

/-- `metadata_row`. -/
def metadataRow (t : Tables) : Res Bytes := okOr t.metadata (corrupt "missing CLL metadata; call init")

/-- `load_state`, with `state_from_rows`. -/
def loadState (t : Tables) : Res State := do
  let metadata ← metadataRow t
  let header ← headerFromMetadata serde metadata
  let nodes ← nodesFromRows 0 (t.nodes.mergeSort fun a b => a.position ≤ b.position)
  let witnesses ← (t.witnesses.mergeSort rowBefore).mapM (witnessFromRow serde)
  let state : State := { header with nodes := nodes, witnesses := witnesses }
  validateState state .corrupt
  .ok state

/-- `find_witness`. -/
def findWitness (t : Tables) (key : Text × UInt64) : Res (Option WitnessState) :=
  match t.witnesses.find? fun row => row.witnessId = key.1 ∧ row.checkpointSize = decimal key.2 with
  | some row => (witnessFromRow serde row).map some
  | none => .ok none

/-- `for (offset, node) in nodes.iter().enumerate() { … }`, from the position of the first. -/
def insertNodes (t : Tables) (position : ℕ) : List Bytes → Res Tables
  | [] => .ok t
  | node :: nodes => do
    let t ← insertNode t ⟨position, node⟩
    insertNodes t (position + 1) nodes

/-- `for row in witnesses { … }`. -/
def insertWitnesses (t : Tables) : List WitnessState → Res Tables
  | [] => .ok t
  | row :: rows => do
    let json ← witnessJson serde row
    let t ← insertWitness t ⟨row.witnessId, decimal row.checkpointSize, row.attempts.toNat, json⟩
    insertWitnesses t rows

/-- The statements that write a header, nodes from a position on, and rows. -/
def writeRows (t : Tables) (header : State) (position : ℕ) (nodes : List Bytes)
    (witnesses : List WitnessState) : Res Tables := do
  let metadata ← metadataJson serde header
  let t ← insertNodes (updateMeta t metadata) position nodes
  insertWitnesses serde t witnesses

/-- `commit_cll`, as the rows that its transaction commits. -/
def commitCll (t : Tables) (expectedSize : UInt64) (expectedCheckpoint : Option Bytes) (next : State) :
    Res Tables := do
  let current ← loadState serde t
  let updated ← applyCll current expectedSize expectedCheckpoint next
  writeRows serde t updated current.nodes.length (updated.nodes.drop current.nodes.length)
    (updated.witnesses.drop current.witnesses.length)

/-- The default `append_cll` over `load_cll` and `commit_cll`. -/
def defaultAppendCll (t : Tables) (expectedSize : UInt64) (expectedCheckpoint : Option Bytes)
    (update : StateAppend) : Res Tables := do
  let stored ← loadState serde t
  let next ← extend stored update
  commitCll serde t expectedSize expectedCheckpoint next

/-- `SELECT MAX(position)`, cast to a `u64`. -/
def maxPosition (t : Tables) : Option ℕ :=
  (t.nodes.map (·.position)).max?.map fun last => (last % 2 ^ 64).toNat

/-- `append_cll_in`, as the rows that the transaction of `append_cll` commits. -/
def appendCll (t : Tables) (expectedSize : UInt64) (expectedCheckpoint : Option Bytes)
    (update : StateAppend) : Res Tables := do
  let metadata ← metadataRow t
  let current ← headerFromMetadata serde metadata
  checkHeader current (maxPosition t)
  let next ← applyAppend current expectedSize expectedCheckpoint update
  let added ← mergeRows (findWitness serde t) update.witnesses
  writeRows serde t next current.size.toNat update.nodes added

variable {serde}

/-- A decoded number is written in its text. -/
lemma decodeDecimal_eq_ok {value : Str} {code : ErrorCode} {n : UInt64}
    (ok : decodeDecimal value code = .ok n) : decimal n = value := by
  unfold decodeDecimal at ok
  split at ok
  · next canonical =>
    cases Except.ok.inj ok
    rw [decimal, UInt64.toNat_ofNat_of_lt' canonical.2, Decimal.text_value canonical.1]
  · cases ok

/-- A decoded row has the key of its columns. -/
lemma witnessFromRow_key {row : WitnessRow} {w : WitnessState} (ok : witnessFromRow serde row = .ok w) :
    (w.witnessId, decimal w.checkpointSize) = (row.witnessId, row.checkpointSize) := by
  obtain ⟨wire, -, ok⟩ := bind_eq_ok.mp ok
  obtain ⟨_, agrees, ok⟩ := bind_eq_ok.mp ok
  obtain ⟨value, decoded, ok⟩ := bind_eq_ok.mp ok
  obtain ⟨_, -, ok⟩ := bind_eq_ok.mp ok
  cases Except.ok.inj ok
  obtain ⟨receipt, -, decoded⟩ := bind_eq_ok.mp decoded
  obtain ⟨size, decimals, decoded⟩ := bind_eq_ok.mp decoded
  obtain ⟨checkpoint, -, decoded⟩ := bind_eq_ok.mp decoded
  obtain ⟨at_, -, decoded⟩ := bind_eq_ok.mp decoded
  cases Except.ok.inj decoded
  rw [reject_eq_ok] at agrees
  simp only [not_or, not_not] at agrees
  rw [← agrees.1, ← agrees.2.1, ← decodeDecimal_eq_ok decimals]

/-- Different numbers have different texts. -/
lemma decimal_injective : Function.Injective decimal := by
  intro a b same
  have := congrArg Decimal.value same
  rw [decimal, decimal, Decimal.value_text, Decimal.value_text] at this
  exact UInt64.toNat_inj.mp this

/-- The keys of the columns are the keys of the rows. -/
lemma mapM_keys {rows : List WitnessRow} {ws : List WitnessState}
    (ok : rows.mapM (witnessFromRow serde) = .ok ws) :
    rows.map (fun row => (row.witnessId, row.checkpointSize)) =
      ws.map fun w => (w.witnessId, decimal w.checkpointSize) := by
  induction rows generalizing ws with
  | nil =>
    cases Except.ok.inj ok
    rfl
  | cons row rows ih =>
    rw [List.mapM_cons] at ok
    obtain ⟨w, decoded, ok⟩ := bind_eq_ok.mp ok
    obtain ⟨more, tail, ok⟩ := bind_eq_ok.mp ok
    cases Except.ok.inj ok
    rw [List.map_cons, List.map_cons, ih tail, witnessFromRow_key decoded]

/-- A search for a key among the rows finds what a search among the decoded rows finds. -/
lemma find?_mapM {rows : List WitnessRow} {ws : List WitnessState} (key : Text × UInt64)
    (ok : rows.mapM (witnessFromRow serde) = .ok ws) :
    (match rows.find? fun row => row.witnessId = key.1 ∧ row.checkpointSize = decimal key.2 with
      | some row => (witnessFromRow serde row).map some
      | none => .ok none) = .ok (ws.find? (·.key = key)) := by
  induction rows generalizing ws with
  | nil =>
    cases Except.ok.inj ok
    rfl
  | cons row rows ih =>
    rw [List.mapM_cons] at ok
    obtain ⟨w, decoded, ok⟩ := bind_eq_ok.mp ok
    obtain ⟨more, tail, ok⟩ := bind_eq_ok.mp ok
    cases Except.ok.inj ok
    have columns := Prod.ext_iff.mp (witnessFromRow_key decoded)
    dsimp only at columns
    have same : (row.witnessId = key.1 ∧ row.checkpointSize = decimal key.2) ↔ w.key = key := by
      rw [← columns.1, ← columns.2, decimal_injective.eq_iff, WitnessState.key, Prod.ext_iff]
    by_cases own : w.key = key
    · rw [List.find?_cons_of_pos (by simpa using same.mpr own), List.find?_cons_of_pos (by simpa using own)]
      show (witnessFromRow serde row).map some = .ok (some w)
      rw [decoded]
      rfl
    · have other : ¬(row.witnessId = key.1 ∧ row.checkpointSize = decimal key.2) := mt same.mp own
      rw [List.find?_cons_of_neg (by rwa [decide_eq_true_eq]), List.find?_cons_of_neg (by simpa using own)]
      exact ih tail

/-- The rows of the nodes are dense. -/
lemma nodesFromRows_eq_ok {expected : ℕ} {rows : List NodeRow} {nodes : List Bytes}
    (ok : nodesFromRows expected rows = .ok nodes) :
    rows.map (·.position) = (List.range' expected nodes.length).map ((↑) : ℕ → ℤ) := by
  induction rows generalizing expected nodes with
  | nil =>
    cases Except.ok.inj ok
    rfl
  | cons row rows ih =>
    obtain ⟨_, position, ok⟩ := bind_eq_ok.mp ok
    obtain ⟨more, tail, ok⟩ := bind_eq_ok.mp ok
    cases Except.ok.inj ok
    rw [reject_eq_ok, not_not] at position
    rw [List.map_cons, ih tail, position, List.length_cons, List.range'_succ, List.map_cons]

/-- The parts of stored rows that are loaded. -/
structure Stored (serde : SerdeJson) (t : Tables) (s : State) : Prop where
  metadata : ∃ metadata, metadataRow t = .ok metadata ∧ headerFromMetadata serde metadata = .ok s.cloneHeader
  nodes : nodesFromRows 0 (t.nodes.mergeSort fun a b => a.position ≤ b.position) = .ok s.nodes
  witnesses : (t.witnesses.mergeSort rowBefore).mapM (witnessFromRow serde) = .ok s.witnesses
  checked : validateState s .corrupt = .ok ()

/-- A state that is loaded is the stored one. -/
lemma loadState_eq_ok {t : Tables} {s : State} (ok : loadState serde t = .ok s) : Stored serde t s := by
  obtain ⟨metadata, row, ok⟩ := bind_eq_ok.mp ok
  obtain ⟨header, decoded, ok⟩ := bind_eq_ok.mp ok
  obtain ⟨nodes, dense, ok⟩ := bind_eq_ok.mp ok
  obtain ⟨witnesses, rows, ok⟩ := bind_eq_ok.mp ok
  obtain ⟨_, checked, ok⟩ := bind_eq_ok.mp ok
  cases Except.ok.inj ok
  refine ⟨⟨metadata, row, ?_⟩, dense, rows, checked⟩
  have empty : header.nodes = [] ∧ header.witnesses = [] := by
    obtain ⟨wire, -, decoded⟩ := bind_eq_ok.mp decoded
    obtain ⟨_, -, decoded⟩ := bind_eq_ok.mp decoded
    obtain ⟨_, -, decoded⟩ := bind_eq_ok.mp decoded
    obtain ⟨nodes, hnodes, decoded⟩ := bind_eq_ok.mp decoded
    obtain ⟨_, -, decoded⟩ := bind_eq_ok.mp decoded
    obtain ⟨_, -, decoded⟩ := bind_eq_ok.mp decoded
    obtain ⟨witnesses, hwitnesses, decoded⟩ := bind_eq_ok.mp decoded
    cases Except.ok.inj decoded
    exact ⟨(Except.ok.inj hnodes).symm, (Except.ok.inj hwitnesses).symm⟩
  rw [decoded, State.cloneHeader]
  congr 1
  rw [← empty.1, ← empty.2]

namespace Stored

variable {t : Tables} {s : State}

/-- A stored state is valid. -/
lemma valid (stored : Stored serde t s) : s.Valid := validateState_eq_ok stored.checked

/-- The stored row for a key is the row of the state. -/
lemma findWitness (stored : Stored serde t s) (key : Text × UInt64) :
    Sqlite.findWitness serde t key = .ok (existing s.witnesses key) := by
  have keys := mapM_keys stored.witnesses
  have nodup : ((t.witnesses.mergeSort rowBefore).map fun row => (row.witnessId, row.checkpointSize)).Nodup := by
    rw [keys]
    have distinct := stored.valid.nodup.map (f := fun k : Text × UInt64 => (k.1, decimal k.2)) fun a b same => by
      rw [Prod.mk.injEq] at same
      exact Prod.ext same.1 (decimal_injective same.2)
    rwa [List.map_map] at distinct
  have sorted := List.mergeSort_perm t.witnesses rowBefore
  have same := Table.find?_perm sorted.symm (p := fun row : WitnessRow =>
    decide (row.witnessId = key.1 ∧ row.checkpointSize = decimal key.2)) fun a ha b hb pa pb => by
      rw [decide_eq_true_eq] at pa pb
      refine List.inj_on_of_nodup_map nodup (sorted.mem_iff.mpr ha) (sorted.mem_iff.mpr hb) ?_
      rw [pa.1, pa.2, pb.1, pb.2]
  rw [Sqlite.findWitness, same, existing_eq_find? stored.valid.nodup, ← find?_mapM key stored.witnesses]

/-- The header passes the check that a commit of an update makes of it. -/
lemma checkHeader (stored : Stored serde t s) :
    Log.checkHeader s.cloneHeader (maxPosition t) = .ok () := by
  obtain ⟨_, fields, -⟩ := bind_eq_ok.mp stored.checked
  obtain ⟨_, -, fields⟩ := bind_eq_ok.mp fields
  obtain ⟨_, header, -⟩ := bind_eq_ok.mp fields
  have size : s.cloneHeader.size = s.size := rfl
  have small := stored.valid.size_lt
  have length := stored.valid.length
  have positions := nodesFromRows_eq_ok stored.nodes
  have fields : validateStateMetadata s.cloneHeader s.size.toNat .corrupt = .ok () := by
    show (reject (¬s.size.toNat = s.size.toNat) _ >>= fun _ => validateHeader s .corrupt >>= _) = _
    rw [reject_of_not (by simp), ok_bind, header, ok_bind]
    rfl
  have perm := ((List.mergeSort_perm t.nodes fun a b => a.position ≤ b.position).map (·.position)).symm
  rw [positions] at perm
  rw [Log.checkHeader, size, fields, ok_bind, reject_eq_ok, not_not, maxPosition]
  by_cases zero : s.size = 0
  · have none_ : s.nodes.length = 0 := by rw [← length, zero]; rfl
    rw [none_, List.range'_zero, List.map_nil] at perm
    rw [if_pos zero, perm.eq_nil]
    rfl
  · have pos : 0 < s.nodes.length := by
      rw [← length, Nat.pos_iff_ne_zero]
      exact fun h => zero (UInt64.toNat_inj.mp h)
    have last : (t.nodes.map (·.position)).max? = some ((s.nodes.length - 1 : ℕ) : ℤ) := by
      rw [List.max?_eq_some_iff]
      constructor
      · rw [perm.mem_iff, List.mem_map]
        exact ⟨s.nodes.length - 1, by rw [List.mem_range'_1]; omega, rfl⟩
      · intro b hb
        obtain ⟨n, hn, rfl⟩ := List.mem_map.mp (perm.mem_iff.mp hb)
        rw [List.mem_range'_1] at hn
        omega
    rw [if_neg zero, last, Option.map_some, length]
    congr 1
    omega

end Stored

/-- A commit that holds only the change does to the rows what a commit of the whole state does, and raises
the same errors; and where a state is accepted, the journal's delta gives the same state. -/
theorem appendCll_agrees {t : Tables} {s : State} (stored : loadState serde t = .ok s)
    (expectedSize : UInt64) (expectedCheckpoint : Option Bytes) (update : StateAppend) :
    appendCll serde t expectedSize expectedCheckpoint update =
        defaultAppendCll serde t expectedSize expectedCheckpoint update ∧
      ∀ next updated, applyCll s expectedSize expectedCheckpoint next = .ok updated →
        commitDelta s expectedSize expectedCheckpoint (journalDelta s updated) = .ok updated := by
  have parts := loadState_eq_ok stored
  refine ⟨?_, fun next updated ok => commitDelta_agrees parts.valid ok⟩
  obtain ⟨metadata, row, header⟩ := parts.metadata
  have agrees := applyAppend_agrees parts.valid expectedSize expectedCheckpoint update
    fun row _ => parts.findWitness row.key
  have size : s.cloneHeader.size.toNat = s.nodes.length := parts.valid.length
  have default_ : defaultAppendCll serde t expectedSize expectedCheckpoint update =
      (extend s update >>= applyCll s expectedSize expectedCheckpoint) >>= fun updated =>
        writeRows serde t updated s.nodes.length (updated.nodes.drop s.nodes.length)
          (updated.witnesses.drop s.witnesses.length) := by
    rw [defaultAppendCll, stored, ok_bind, bind_assoc]
    simp only [commitCll, stored, ok_bind]
  rw [default_, agrees, appendCll, row, ok_bind, header, ok_bind, parts.checkHeader, ok_bind, size]
  cases applyAppend s.cloneHeader expectedSize expectedCheckpoint update with
  | error _ => rfl
  | ok next =>
    rw [ok_bind, ok_bind]
    cases mergeRows (findWitness serde t) update.witnesses with
    | error _ => rfl
    | ok added =>
      rw [ok_bind, ok_bind, ok_bind, List.drop_left, List.drop_left]
      rfl

/-- The header of a log whose checkpoint is at its full size, which has one peak. -/
def headerWire (size indexedSeq checkpoint peak : String) : WireState where
  size := .lit size
  indexedSeq := .lit indexedSeq
  nodes := []
  firstPendingAt := none
  checkpoint := some (.lit checkpoint)
  checkpointSize := some (.lit size)
  checkpointIndexedSeq := some (.lit indexedSeq)
  checkpointPeaks := some [.lit peak]
  witnesses := []

/-- A row of such a checkpoint. -/
def rowWire (size checkpoint : String) : WireWitness where
  witnessId := ⟨.lit "w", by decide⟩
  checkpointSize := .lit size
  checkpoint := .lit checkpoint
  attempts := 0
  nextAttemptAt := .lit "2026-09-01T12:00:00.000Z"
  receipt := none
  entryHash := none
  entryHashScheme := none
  leafIndex := none
  treeSize := none
  permanent := false
  lastError := none

/-- The bytes of a text. -/
def utf8 (text : String) : Bytes := (Str.lit text).flatMap Utf8.encodeChar

/-- The text of such a header. -/
def headerJson (size indexedSeq checkpoint peak : String) : Bytes :=
  utf8 ("\x7b\"size\":\"" ++ size ++ "\",\"indexedSeq\":\"" ++ indexedSeq ++ "\",\"nodes\":[],\"checkpoint\":\"" ++
    checkpoint ++ "\",\"checkpointSize\":\"" ++ size ++ "\",\"checkpointIndexedSeq\":\"" ++ indexedSeq ++
    "\",\"checkpointPeaks\":[\"" ++ peak ++ "\"],\"witnesses\":[]\x7d")

/-- The text of such a row. -/
def rowJson (size checkpoint : String) : Bytes :=
  utf8 ("\x7b\"witnessId\":\"w\",\"checkpointSize\":\"" ++ size ++ "\",\"checkpoint\":\"" ++ checkpoint ++
    "\",\"attempts\":0,\"nextAttemptAt\":\"2026-09-01T12:00:00.000Z\",\"permanent\":false\x7d")

/-- The peak of the first leaf, and that of the first two. -/
def samplePeaks : String × String :=
  ("AQEBAQEBAQEBAQEBAQEBAQEBAQEBAQEBAQEBAQEBAQE=", "AwMDAwMDAwMDAwMDAwMDAwMDAwMDAwMDAwMDAwMDAwM=")

/-- The texts of two headers and of two rows. -/
def sampleSerde : SerdeJson :=
  let states := [
    (headerWire "1" "1" "AQ==" samplePeaks.1, headerJson "1" "1" "AQ==" samplePeaks.1),
    (headerWire "3" "2" "Ag==" samplePeaks.2, headerJson "3" "2" "Ag==" samplePeaks.2)]
  let rows := [(rowWire "1" "AQ==", rowJson "1" "AQ=="), (rowWire "3" "Ag==", rowJson "3" "Ag==")]
  { stateToVec := fun wire => (states.find? (·.1 = wire)).map (·.2)
    stateFromSlice := fun bytes => (states.find? (·.2 = bytes)).map (·.1)
    witnessToVec := fun wire => (rows.find? (·.1 = wire)).map (·.2)
    witnessFromSlice := fun bytes => (rows.find? (·.2 = bytes)).map (·.1) }

/-- The row of a checkpoint. -/
def sampleRow (size : UInt64) (checkpoint : Bytes) : WitnessState :=
  ⟨⟨.lit "w", by decide⟩, size, checkpoint, 0, ⟨1788264000000⟩, none, false, none⟩

/-- The rows of a log of one leaf with a checkpoint at it. -/
def sampleTables : Tables where
  metadata := some (headerJson "1" "1" "AQ==" samplePeaks.1)
  nodes := [⟨0, List.replicate 32 1⟩]
  witnesses := [⟨⟨.lit "w", by decide⟩, .lit "1", 0, rowJson "1" "AQ=="⟩]

/-- The state of that log. -/
def sampleState : State :=
  ⟨1, [List.replicate 32 1], 1, none, some ⟨[1], 1, 1, [List.replicate 32 1]⟩, [sampleRow 1 [1]]⟩

/-- A second leaf and its parent, with a checkpoint at it. -/
def sampleUpdate : StateAppend :=
  ⟨[List.replicate 32 2, List.replicate 32 3], 2, none, some ⟨[2], 3, 2, [List.replicate 32 3]⟩,
    [sampleRow 3 [2]], by decide⟩

/-- The rows are read as the state. -/
lemma sampleTables_stored : loadState sampleSerde sampleTables = .ok sampleState := by decide +kernel

/-- The update is committed, with its checkpoint and its row. -/
theorem appendCll_agrees_sample :
    appendCll sampleSerde sampleTables 1 (some [1]) sampleUpdate =
        defaultAppendCll sampleSerde sampleTables 1 (some [1]) sampleUpdate ∧
      (appendCll sampleSerde sampleTables 1 (some [1]) sampleUpdate).map
        (fun t => (t.nodes.length, t.witnesses.length)) = .ok (3, 2) :=
  ⟨(appendCll_agrees sampleTables_stored 1 (some [1]) sampleUpdate).1, by decide +kernel⟩

end CLL.Rust.Log.Sqlite
