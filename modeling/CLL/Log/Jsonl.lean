import CLL.Log.Engine
import CLL.Lib.Lines

/-!
# The JSONL journal

`log/jsonl.py`. A store is the bytes of its journal, its engine and whether it is closed. Every mutation is
applied in memory, then written as one line, and undone in memory when the write fails. A failing write is
described by a `Fault`: how many bytes reached the file and how the rollback went. The path, the lock and
the descriptor of the journal are not modelled.
-/

namespace CLL.Log

/-- `SCHEMA_VERSION`. -/
def schemaVersion : ℤ := 4

/-- How the truncation of a failed write goes. -/
inductive Rollback where
  | done
  | truncateFailed
  | syncFailed
  deriving DecidableEq, Repr

/-- A write or its `fsync` fails after `written` bytes. -/
structure Fault where
  written : ℕ
  rollback : Rollback
  deriving DecidableEq, Repr

structure JsonlStore where
  file : Bytes
  engine : Engine
  closed : Bool

/-- The fields of an event. -/
def eventFields (type : String) (fields : Fields) : Fields :=
  (Str.lit "version", .int schemaVersion) :: (Str.lit "type", .str (Str.lit type)) :: fields

def initEvent : Fields := eventFields "cll.init" []

/-- The event of `append`. -/
def entryEvent (entry : Entry) : Fields := eventFields "entry.append" [(Str.lit "entry", entryToWire entry)]

/-- The event of `commit_cll`. -/
def commitEvent (expectedSize : Str) (expectedCheckpoint : Option Bytes) (delta : Delta) : Fields :=
  eventFields "cll.commit" ((Str.lit "expected_size", .str expectedSize) ::
    (field? "expected_checkpoint" (fun b => .str (encodeBytes b)) expectedCheckpoint ++
      [(Str.lit "state", stateToWire delta)]))

/-- The event of `commit_witness`. -/
def witnessEvent (expectedAttempts : ℤ) (stored : WitnessState) : Fields :=
  eventFields "witness.commit" [(Str.lit "expected_attempts", .int expectedAttempts),
    (Str.lit "witness", witnessToWire stored)]

/-- `key in item`. -/
def Fields.has (item : Fields) (key : String) : Bool := (Json.get? item (Str.lit key)).isSome

/-- `value == text`. -/
def isText (text : String) : Json → Bool
  | .str s => s == Str.lit text
  | _ => false

/-- `type(value) is int`, with the value. -/
def int? : Json → Option ℤ
  | .int n => some n
  | _ => none

/-- `cll.init` of `_apply_event`. -/
def applyInit (engine : Engine) (item : Fields) : Py Engine := do
  require (engine.entries = [] ∧ engine.state.size = 0) .corrupt
    "duplicate CLL initialization after state"
  require ((item.has "entry" || item.has "state" || item.has "witness") = false) .corrupt
    "invalid CLL initialization"
  .ok engine

/-- `item[key]` of an event that must have it. -/
def eventField (item : Fields) (key text : String) : Py Json :=
  orRaise .corrupt text (Json.get? item (Str.lit key))

/-- `cll.commit` of `_apply_event`. -/
def applyCommit (engine : Engine) (item : Fields) : Py Engine :=
  eventField item "state" "missing CLL state" >>= fun state =>
  parseDecimal .corrupt (item.get "expected_size") >>= fun expectedSize =>
  nullable .bytes (decodeBytes .corrupt) (item.get "expected_checkpoint") >>= fun checkpoint =>
  stateFromWire .corrupt state >>= fun delta =>
  engine.commitCllDelta (natObj expectedSize) checkpoint delta

/-- `witness.commit` of `_apply_event`. -/
def applyWitnessCommit (engine : Engine) (item : Fields) : Py Engine :=
  eventField item "witness" "missing witness commit fields" >>= fun witness =>
  orRaise .corrupt "missing witness commit fields" (int? (item.get "expected_attempts")) >>=
    fun attempts =>
  orRaise .corrupt "expected_attempts is outside 0..4294967295"
    (counter 0 maxAttempts (.int attempts)) >>= fun _ =>
  witnessFromWire .corrupt witness >>= fun next =>
  engine.commitWitness (.int attempts) next

/-- `_apply_event`. -/
def applyEvent (engine : Engine) (item : Fields) : Py Engine :=
  let kind := item.get "type"
  if isText "cll.init" kind then applyInit engine item
  else if isText "entry.append" kind then
    eventField item "entry" "missing entry" >>= entryFromWire .corrupt >>= engine.replayEntry
  else if isText "cll.commit" kind then applyCommit engine item
  else if isText "witness.commit" kind then applyWitnessCommit engine item
  else raise .corrupt "unknown event type"

/-- `version == 3`. A float is not compared. -/
def isLegacy (version : Json) : Bool := int? version == some 3

/-- A complete line at byte `start`: an object of the supported version. -/
def parseLine (start : ℕ) (line : Bytes) : Py Fields :=
  match (Utf8.decode line).bind Json.loads with
  | some (.obj item) =>
    if int? (Fields.get item "version") = some schemaVersion then .ok item
    else if isLegacy (Fields.get item "version") || isLegacy (Fields.get item "v") then
      raise .corrupt "legacy JSONL schema version 3 is unsupported"
    else raise .corrupt "unsupported JSONL schema version"
  | some _ => raise .corrupt s!"JSONL line at byte {start} is not an object"
  | none => raise .corrupt s!"corrupt complete JSONL line at byte {start}"

/-- `except CllError as exc: raise CorruptError(…)`. -/
def asCorrupt {α : Type} (start : ℕ) : Py α → Py α
  | .ok a => .ok a
  | .error exc =>
    if exc.kind.isCllError then raise .corrupt s!"event at byte {start}: {exc.text}" else .error exc

/-- The loop of `_replay` over the complete lines, the first of which begins at byte `start`. -/
def replayLines (engine : Engine) (initialized : Bool) (start : ℕ) : List Bytes → Py Engine
  | [] => .ok engine
  | line :: lines => do
    require (line.length ≤ maxJournalEventBytes) .corrupt "JSONL event exceeds size limit"
    let item ← parseLine start line
    require (initialized = true ∨ isText "cll.init" (item.get "type") = true) .corrupt
      "JSONL journal does not begin with cll.init"
    let engine ← asCorrupt start (applyEvent engine item)
    replayLines engine true (start + line.length + 1) lines

/-- The byte of a line feed. -/
def newline : UInt8 := 10

/-- `_replay` of the bytes of a journal: the engine, and the bytes that remain. -/
def replay (repair : Bool) (data : Bytes) : Py (Engine × Bytes) := do
  let (lines, tail) := Lines.splitLines newline data
  let engine ← replayLines .empty false 0 lines
  require (tail = [] ∨ repair = true) .corrupt "incomplete JSONL tail; call init to recover"
  .ok (engine, data.take (data.length - tail.length))

namespace JsonlStore

/-- The write of `encoded` fails, and `_rollback` truncates what reached the file. -/
def rollback (s : JsonlStore) (encoded : Bytes) (fault : Fault) : JsonlStore × Py Unit :=
  let torn := s.file ++ encoded.take fault.written
  match fault.rollback with
  | .done => ({ s with file := torn.take s.file.length }, raise .osError "short JSONL write")
  | .truncateFailed => ({ s with file := torn, closed := true }, raise .corrupt "JSONL rollback failed")
  | .syncFailed =>
    ({ s with file := torn.take s.file.length, closed := true },
      raise .corrupt "JSONL rollback failed")

/-- `_append_event`. -/
def appendEvent (s : JsonlStore) (item : Fields) (fault : Option Fault) : JsonlStore × Py Unit :=
  match dumps (.obj item) with
  | .error exc => (s, .error exc)
  | .ok text =>
    let encoded := text ++ [newline]
    if maxJournalEventBytes < encoded.length then
      (s, raise .invalid "JSONL event exceeds size limit")
    else match fault with
      | none => ({ s with file := s.file ++ encoded }, .ok ())
      | some fault => s.rollback encoded fault

/-- `_mutate`. `event` gets the engine after the operation and the result of the operation. -/
def mutate {α : Type} (s : JsonlStore) (fault : Option Fault)
    (operation : Engine → Py (Engine × α)) (event : Engine → α → Py (Option Fields)) :
    JsonlStore × Py α :=
  if s.closed then (s, raise .closed "backend is closed")
  else
    let snapshot := s.engine.snapshot
    match operation s.engine with
    | .error exc => (s, .error exc)
    | .ok (engine, result) =>
      let applied := { s with engine := engine }
      match event engine result with
      | .error exc => (applied, .error exc)
      | .ok none => (applied, .ok result)
      | .ok (some item) =>
        match applied.appendEvent item fault with
        | (t, .ok ()) => (t, .ok result)
        | (t, .error exc) => ({ t with engine := t.engine.restore snapshot }, .error exc)

/-- `append`. -/
def append (s : JsonlStore) (input : Obj) (fault : Option Fault) : JsonlStore × Py AppendResult :=
  s.mutate fault (fun e => e.append input) fun _ result =>
    .ok (if result.outcome = .inserted then some (entryEvent result.entry) else none)

/-- `str(expected_size)`. -/
def sizeText : Obj → Py Str
  | .int n =>
    if (Decimal.text n.natAbs).length ≤ Json.maxDigits then .ok (Json.dumpInt n)
    else raise .valueError "Exceeds the limit for integer string conversion"
  | _ => raise .typeError "not an integer"

/-- `commit_cll`. -/
def commitCll (s : JsonlStore) (expectedSize expectedCheckpoint next : Obj) (fault : Option Fault) :
    JsonlStore × Py Unit :=
  s.mutate fault
    (fun e => (e.commitCll expectedSize expectedCheckpoint next).map fun e => (e, ()))
    fun e _ => do
      let size ← sizeText expectedSize
      let expected ← expectedBytes expectedCheckpoint
      .ok (some (commitEvent size expected (deltaSince s.engine.snapshot.2 e.state)))

/-- The event of `commit_witness`, from the row that the engine stored. -/
def storedWitnessEvent (e : Engine) (expectedAttempts next : Obj) : Py Fields := do
  let witnessId ← next.attr "witness_id"
  let checkpointSize ← next.attr "checkpoint_size"
  let stored ← e.getWitness witnessId checkpointSize
  match stored, expectedAttempts.int? with
  | some stored, some attempts => .ok (witnessEvent attempts stored)
  | none, _ => raise .attributeError "'NoneType' object has no attribute 'witness_id'"
  | _, none => raise .typeError "Object is not JSON serializable"

/-- `commit_witness`. -/
def commitWitness (s : JsonlStore) (expectedAttempts next : Obj) (fault : Option Fault) :
    JsonlStore × Py Unit :=
  s.mutate fault
    (fun e => (e.commitWitness expectedAttempts next).map fun e => (e, ()))
    fun e _ => (storedWitnessEvent e expectedAttempts next).map some

/-- `_open` on the bytes of a journal: the bytes it leaves, and the store. -/
def openJournal (initializing : Bool) (data : Bytes) (fault : Option Fault) : Bytes × Py JsonlStore :=
  match replay initializing data with
  | .error exc => (data, .error exc)
  | .ok (engine, file) =>
    if file ≠ [] then (file, .ok ⟨file, engine, false⟩)
    else if initializing = false then
      (file, raise .corrupt "missing JSONL initialization; call init")
    else
      match appendEvent ⟨file, engine, false⟩ initEvent fault with
      | (s, .ok ()) => (s.file, .ok s)
      | (s, .error exc) => (s.file, .error exc)

/-- A call of a mutating method. -/
inductive Mutation where
  | append (input : Obj)
  | commitCll (expectedSize expectedCheckpoint next : Obj)
  | commitWitness (expectedAttempts next : Obj)

/-- The result of a call without its value. -/
def discard {α : Type} (x : JsonlStore × Py α) : JsonlStore × Py Unit := (x.1, x.2.map fun _ => ())

/-- One call, whose write may fail. -/
def step (s : JsonlStore) (m : Mutation) (fault : Option Fault) : JsonlStore × Py Unit :=
  match m with
  | .append input => discard (s.append input fault)
  | .commitCll expectedSize expectedCheckpoint next =>
    discard (s.commitCll expectedSize expectedCheckpoint next fault)
  | .commitWitness expectedAttempts next => discard (s.commitWitness expectedAttempts next fault)

/-- The store after a sequence of calls. -/
def run (s : JsonlStore) (calls : List (Mutation × Option Fault)) : JsonlStore :=
  calls.foldl (fun s call => (s.step call.1 call.2).1) s

/-- The store after calls whose writes do not fail. -/
def runAll (s : JsonlStore) (ms : List Mutation) : JsonlStore := s.run (ms.map fun m => (m, none))

end JsonlStore

end CLL.Log
