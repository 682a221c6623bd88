import CLL.Ledger.Lookup
import CLL.Ledger.Segments
import CLL.Lib.Run
import CLL.Lib.Table

/-!
# The store

`LedgerStore` of `ledger/store.py`: the segment files, the store manifest with the segment manifests it
names, the rows of `index.sqlite3` in the order of their key and the lookup index. A method returns what
the source returns or raises, and the store after it.

A store that rotates at checkpoints is managed: its manifest lists the segments and says which one is
active. Any other store finds its segments by their names.
-/

namespace CLL.Ledger
open CLL.Core

/-- What the store uses from outside: the hash, the package, the text SQLite gives a float, and what its
checkpointer does. -/
structure Env (κ : Type) where
  hash : HashFunction
  aac : Aac
  realText : Str → Cell
  protocol : Checkpointer κ

/-- The arguments of `LedgerStore`. -/
structure Config where
  logId : Str
  segmentMaxRecords : ℤ
  maxSegmentBytes : ℤ
  rotateAtCheckpoint : Bool
  correlationFields : List Str

/-- The columns of `records` that are read out of a record. -/
structure Columns where
  timestamp : Cell
  operator : Cell
  developer : Cell
  actionType : Cell
  verdictClass : Cell
  parentCapsuleId : Cell
  chainRelation : Cell
  deriving DecidableEq

/-- What `_record_params` returns. -/
structure Params where
  capsuleId : Str
  segment : Str
  byteOffset : ℕ
  columns : Columns
  consequential : Bool
  authenticity : Authenticity
  deriving DecidableEq

/-- A row of `records`. -/
structure Row extends Params where
  seq : ℕ
  deriving DecidableEq

/-- `LedgerStore`, with the checkpointer attached to it. -/
structure Store (κ : Type) where
  files : List (Str × Bytes)
  archived : List (Str × Bytes)
  manifests : List (Str × SegmentManifest)
  manifest : StoreManifest
  rows : List Row
  lookup : Option LookupIndex
  needsRecover : Bool
  checkpointer : Option κ

/-- `_line_id_problem`. -/
def lineIdProblem (line : Fields) : Option String :=
  match Json.get? line (Str.lit "capsule_id") with
  | none => none
  | some (.str (_ :: _)) => none
  | some _ => some "capsule_id is not a non-empty string"

/-- The id of a line that has no problem. -/
def idString : Json → Py Str
  | .str capsuleId => .ok capsuleId
  | _ => raise .valueError "capsule_id is not a non-empty string"

/-- `to_store.get("capsule_id") in (None, capsule_id)`. -/
def carries (toStore : Fields) (capsuleId : Str) : Bool :=
  match toStore.get "capsule_id" with
  | .null => true
  | .str carried => carried = capsuleId
  | _ => false

/-- `value or {}`. -/
def orEmpty (value : Json) : Json := if truthy value then value else .obj []

/-- The values that an index row binds. -/
def indexable : Json → Bool
  | .str s => encodable s
  | .int n => isInt64 n
  | .null | .bool _ | .float _ => true
  | .arr _ | .obj _ => false

/-- The column of an authenticity. -/
def Authenticity.text : Authenticity → Str
  | .unsigned => Str.lit "unsigned"
  | .signed => Str.lit "signed"

/-- `_record_params`. -/
def recordParams (realText : Str → Cell) (toStore : Fields) (capsuleId segment : Str) (offset : ℕ)
    (consequential : Bool) (authenticity : Authenticity) : Py Params :=
  match orEmpty (toStore.get "chain"), orEmpty (toStore.get "disposition") with
  | .obj chain, .obj disposition => do
    let columns := [toStore.get "timestamp", toStore.get "operator", toStore.get "developer",
      toStore.get "action_type", Fields.get disposition "verdict_class", Fields.get chain "parent_capsule_id",
      Fields.get chain "relation"]
    let params := [.str capsuleId, .str segment, .int offset] ++ columns ++
      [.int (if consequential then 1 else 0), .str authenticity.text]
    require (params.all indexable) .valueError "record field value cannot be indexed"
    .ok ⟨capsuleId, segment, offset,
      ⟨toCell realText (toStore.get "timestamp"), toCell realText (toStore.get "operator"),
        toCell realText (toStore.get "developer"), toCell realText (toStore.get "action_type"),
        toCell realText (Fields.get disposition "verdict_class"),
        toCell realText (Fields.get chain "parent_capsule_id"), toCell realText (Fields.get chain "relation")⟩,
      consequential, authenticity⟩
  | _, _ => raise .valueError "chain and disposition must be objects"

/-- The next `rowid`. -/
def nextSeq (rows : List Row) : ℕ := (rows.map Row.seq).foldr max 0 + 1

/-- `INSERT INTO records`. -/
def insertRow (rows : List Row) (params : Params) : Py (ℕ × List Row) := do
  require (rows.all fun r => r.capsuleId ≠ params.capsuleId) .database
    "UNIQUE constraint failed: records.capsule_id"
  .ok (nextSeq rows, rows ++ [⟨params, nextSeq rows⟩])

/-- `json.dumps(to_store, separators=(",", ":")) + "\n"`. -/
def lineOf (toStore : Fields) : Bytes := Text.ascii (Json.dumpsAscii (.obj toStore)) ++ [10]

/-- What `fh.seek(offset)` and `fh.readline()` read of a file opened as text. -/
def readLine (bytes : Bytes) (offset : ℕ) : Py Str :=
  decodeUtf8 ((bytes.drop offset).takeWhile fun c => c ≠ 10 && c ≠ 13)

/-- `_bundled_envelopes` of what a line holds. -/
def rehydrated (capsule : Json) (authenticity : Authenticity) : Py (List ProducerEnvelope) :=
  match authenticity, capsule with
  | .unsigned, _ => .ok []
  | .signed, .obj fields => .ok (bundledEnvelopes fields .signed)
  | .signed, _ => raise .attributeError "object has no attribute 'get'"

/-- What `for raw in fh` reads of a file opened as bytes. -/
def rawLines (bytes : Bytes) : List Bytes :=
  let (lines, rest) := Lines.splitLines 10 bytes
  lines.map (· ++ [10]) ++ if rest = [] then [] else [rest]

/-- What `_leaves` yields. -/
structure Leaf where
  segment : Str
  offset : ℕ
  capsule : Fields
  capsuleId : Str

/-- One line of `_leaves`. -/
def parseLeaf (aac : Aac) (raw : Bytes) : Py (Fields × Str) := do
  let text ← decodeUtf8 raw
  let capsule ← loads text
  match capsule with
  | .obj fields => do
    let capsuleId ← carriedOrComputed aac fields
    match capsuleId with
    | .str capsuleId => .ok (fields, capsuleId)
    -- No line that was written carries another id.
    | _ => raise .typeError "unhashable type"
  | _ => raise .attributeError "object has no attribute 'get'"

/-- The lines of one segment in `_leaves`: what is yielded, then the ids seen so far or the failure. -/
def leafLoop (aac : Aac) (segment : Str) (offset : ℕ) (seen : List Str) :
    List Bytes → List Leaf × Py (List Str)
  | [] => ([], .ok seen)
  | raw :: raws =>
    match parseLeaf aac raw with
    | .error e => ([], .error e)
    | .ok (capsule, capsuleId) =>
      if capsuleId ∈ seen then leafLoop aac segment (offset + raw.length) seen raws
      else
        let (leaves, end_) := leafLoop aac segment (offset + raw.length) (capsuleId :: seen) raws
        (⟨segment, offset, capsule, capsuleId⟩ :: leaves, end_)

/-- `seg-{n:06d}.jsonl`. -/
def segmentName (n : ℕ) : Str := Str.lit "seg-" ++ Decimal.pad 6 n ++ Str.lit ".jsonl"

/-- `SELECT MIN(timestamp)`, which passes over `NULL`. -/
def minCell (cells : List Cell) : Cell := (cells.filterMap id).min?

/-- `SELECT MAX(timestamp)`. -/
def maxCell (cells : List Cell) : Cell := (cells.filterMap id).max?

namespace Store

variable {κ : Type} (E : Env κ) (cfg : Config)

/-- `_existing_segments`. -/
def existingSegments (s : Store κ) : List Str := (s.files.map Prod.fst).insertionSort (· ≤ ·)

/-- `_segment_record_count`. -/
def segmentRecordCount (s : Store κ) (name : Str) : ℕ := s.rows.countP fun r => r.segment = name

/-- `(self._segments_dir / name).touch()`. -/
def touch (s : Store κ) (name : Str) : Store κ :=
  { s with files := Table.put s.files name ((s.files.lookup name).getD []) }

/-- `_new_segment_name`. -/
def newSegmentName (s : Store κ) : Str := segmentName (s.manifest.segments.length + 1)

/-- A new segment of a managed store, which becomes the active one. -/
def openSegment (s : Store κ) : Str × Store κ :=
  let name := s.newSegmentName
  (name, { s.touch name with
    manifest := { s.manifest with
      segments := s.manifest.segments ++ [⟨name, true, none, none, none⟩]
      activeSegment := some name } })

/-- `_sync_write_segment`, with the name of the segment it points at. -/
def syncWriteSegment (s : Store κ) : Str × Store κ :=
  if cfg.rotateAtCheckpoint then
    match s.manifest.activeSegment with
    | some name => (name, s)
    | none => s.openSegment
  else
    let segments := s.existingSegments
    let next := segmentName (segments.length + 1)
    match segments.getLast? with
    | none => (next, s.touch next)
    | some name =>
      if (s.segmentRecordCount name : ℤ) ≥ cfg.segmentMaxRecords then (next, s.touch next)
      else (name, s)

/-- Whether a segment's file lies in the archive. -/
def isArchived (s : Store κ) (segment : Str) : Bool :=
  cfg.rotateAtCheckpoint && (s.manifest.entry segment).any fun entry => !entry.mounted

/-- `_require_mounted`. -/
def requireMounted (s : Store κ) (segment : Str) : Py Unit :=
  require (!s.isArchived cfg segment) .segmentUnmounted "segment is not mounted"

/-- The bytes at `_resolve_segment_path`. -/
def readSegment (s : Store κ) (segment : Str) : Py Bytes :=
  match (if s.isArchived cfg segment then s.archived else s.files).lookup segment with
  | some bytes => .ok bytes
  | none => raise .osError "No such file or directory"

/-- The record on the line at an offset. -/
def readCapsule (s : Store κ) (segment : Str) (offset : ℕ) : Py Json := do
  let bytes ← s.readSegment cfg segment
  let line ← readLine bytes offset
  loads line

/-- `_row_to_record`. -/
def rowToRecord (s : Store κ) (row : Row) : Py LedgerRecord := do
  s.requireMounted cfg row.segment
  let capsule ← s.readCapsule cfg row.segment row.byteOffset
  let envelopes ← rehydrated capsule row.authenticity
  .ok ⟨row.seq, row.capsuleId, capsule, row.segment, row.consequential, row.authenticity, envelopes⟩

/-- `scan` without a query. -/
def scan (s : Store κ) : Py (List LedgerRecord) := s.rows.mapM (s.rowToRecord cfg)

/-- `_record_row`. -/
def recordRow (s : Store κ) (capsuleId : Str) : Py (Option Row) := do
  bind_ (.str capsuleId)
  .ok (s.rows.find? fun r => r.capsuleId = capsuleId)

/-- `_existing_record`. -/
def existingRecord (s : Store κ) (row : Row) : Py (Option LedgerRecord) :=
  match s.rowToRecord cfg row with
  | .ok record => .ok (some record)
  | .error e => if e.kind = .segmentUnmounted then .ok none else .error e

/-- `_lookup_record`. -/
def lookupRecord (s : Store κ) (input : LookupInput) : Py Bool × Store κ :=
  match s.lookup with
  | none => (.ok false, s)
  | some ix =>
    match ix.record E.realText cfg.correlationFields input with
    | (.ok _, ix) => (.ok true, { s with lookup := some ix })
    | (.error e, ix) =>
      if e.kind = .database then (.ok false, { s with lookup := none })
      else (.error e, { s with lookup := some ix })

/-- The manifest that closes a segment, and where it is written. -/
def segmentManifest (s : Store κ) (name : Str) (first last : ℕ) (root : Str) (mmrSize : ℤ)
    (proof : RangeProof) : SegmentManifest :=
  let own := s.rows.filter fun r => r.segment = name
  let bytes := (s.files.lookup name).getD []
  { logId := cfg.logId
    firstSeq := first
    lastSeq := last
    firstTs := minCell (own.map fun r => r.columns.timestamp)
    lastTs := maxCell (own.map fun r => r.columns.timestamp)
    checkpointRoot := root
    mmrSize := mmrSize
    bytes := bytes.length
    recordCount := own.length
    sha256OfSegment := toHex (E.hash.digest bytes)
    rangeProof := proof }

/-- What `_rotate_segment` writes once the checkpoint is made. -/
def closeSegment (s : Store κ) (name : Str) (m : SegmentManifest) : Store κ :=
  let path := Str.lit "segments/" ++ manifestFilename cfg.logId m.mmrSize
  let closed (entry : SegmentEntry) : SegmentEntry :=
    if entry.name = name then
      { entry with manifest := some path, checkpointRoot := some m.checkpointRoot, mmrSize := some m.mmrSize }
    else entry
  ({ s with
    manifests := Table.put s.manifests path m
    manifest := { s.manifest with segments := s.manifest.segments.map closed } } : Store κ).openSegment.2

/-- `_rotate_segment`. -/
def rotateSegment (s : Store κ) (name : Str) : Py SegmentManifest × Store κ :=
  match s.checkpointer with
  | none => (raise .segmentRotation "rotate_at_checkpoint is True but no checkpointer is attached", s)
  | some checkpointer =>
    let seqs := (s.rows.filter fun r => r.segment = name).map Row.seq
    match seqs.min?, seqs.max? with
    | some first, some last =>
      let (result, checkpointer) := E.protocol.checkpoint checkpointer (s.scan cfg)
      let s := { s with checkpointer := some checkpointer }
      let manifest := do
        let (root, mmrSize) ← result
        let proof ← E.protocol.rangeProof checkpointer first last
        require (proof.size = mmrSize) .segmentRotation
          "checkpoint does not close exactly at this segment's boundary"
        .ok (s.segmentManifest E cfg name first last root mmrSize proof)
      match manifest with
      | .error e => (.error e, s)
      | .ok m => (.ok m, s.closeSegment cfg name m)
    | _, _ => (raise .segmentRotation "segment has no records -- nothing to close", s)

/-- What `append` decides before it touches a file. -/
def prepare (s : Store κ) (capsule : Fields) (admission : AdmissionRequest) :
    Py (Resolution × Fields × Str) := do
  let resolution ← resolveAdmission E.aac capsule admission
  let (stored, capsuleId) ← toStore E.aac capsule resolution
  require (!s.needsRecover) .ledgerCorrupt "an earlier append or recover() did not finish"
  require (lineIdProblem stored = none) .valueError "capsule_id is not a non-empty string"
  let capsuleId ← idString capsuleId
  require (carries stored capsuleId) .valueError "capsule_id is not the recomputed one"
  let existing ← s.recordRow capsuleId
  match existing with
  | some row => do
    let _ ← s.existingRecord cfg row
    raise .duplicateRecord "capsule_id is already in the ledger"
  | none => .ok (resolution, stored, capsuleId)

/-- The line and the index row of a prepared record. -/
def writeRecord (s : Store κ) (segment : Str) (stored : Fields) (params : Params) :
    Py ℕ × Store κ :=
  let bytes := (s.files.lookup segment).getD [] ++ lineOf stored
  let s := { s with files := Table.put s.files segment bytes }
  match insertRow s.rows params with
  | .error e => (.error e, { s with needsRecover := true })
  | .ok (seq, rows) => (.ok seq, { s with rows := rows })

/-- `if self._rotate_at_checkpoint and fh.tell() >= self._max_segment_bytes`. -/
def isFull (s : Store κ) (segment : Str) : Bool :=
  cfg.rotateAtCheckpoint && (((s.files.lookup segment).getD []).length : ℤ) ≥ cfg.maxSegmentBytes

/-- `append`. -/
def append (s : Store κ) (capsule : Fields) (consequential : Bool) (admission : AdmissionRequest) :
    Py LedgerRecord × Store κ :=
  match s.prepare E cfg capsule admission with
  | .error e => (.error e, s)
  | .ok (resolution, stored, capsuleId) =>
    let (segment, s) := s.syncWriteSegment cfg
    let offset := ((s.files.lookup segment).getD []).length
    match recordParams E.realText stored capsuleId segment offset consequential
        resolution.authenticity with
    | .error e => (.error e, s)
    | .ok params =>
      match s.writeRecord segment stored params with
      | (.error e, s) => (.error e, s)
      | (.ok seq, s) =>
        match s.lookupRecord E cfg
            ⟨seq, stored.get "timestamp", capsuleId, segment, offset, stored⟩ with
        | (.error e, s) => (.error e, s)
        | (.ok _, s) =>
          let record := ⟨seq, capsuleId, .obj stored, segment, consequential, resolution.authenticity,
            resolution.verifiedEnvelopes⟩
          if s.isFull cfg segment then
            match s.rotateSegment E cfg segment with
            | (.error e, s) => (.error e, s)
            | (.ok _, s) => (.ok record, s)
          else (.ok record, s)

/-- The segments that `reindex` reads, in its order. -/
def segmentNames (s : Store κ) : List Str :=
  if cfg.rotateAtCheckpoint then s.manifest.segments.map SegmentEntry.name else s.existingSegments

/-- `_leaves`: what is yielded, and how it ends. -/
def leaves (s : Store κ) (seen : List Str) : List Str → List Leaf × Py Unit
  | [] => ([], .ok ())
  | segment :: segments =>
    match s.readSegment cfg segment with
    | .error e => ([], .error e)
    | .ok bytes =>
      match leafLoop E.aac segment 0 seen (rawLines bytes) with
      | (own, .error e) => (own, .error e)
      | (own, .ok seen) =>
        let (more, end_) := leaves s seen segments
        (own ++ more, end_)

/-- `_insert_leaves` of what is yielded. -/
def insertLeaves (rows : List Row) : List Leaf → Py (List Row)
  | [] => .ok rows
  | leaf :: leaves => do
    let authenticity ← reindexAuthenticity E.aac leaf.capsule
    let params ← recordParams E.realText leaf.capsule leaf.capsuleId leaf.segment leaf.offset true
      authenticity
    let (_, rows) ← insertRow rows params
    insertLeaves rows leaves

/-- `reindex`. -/
def reindex (s : Store κ) : Py Unit × Store κ :=
  let (leaves, end_) := s.leaves E cfg [] (s.segmentNames cfg)
  let rebuilt := do
    let rows ← insertLeaves E [] leaves
    end_
    .ok rows
  match rebuilt with
  | .error e => (.error e, s)
  | .ok rows => (.ok (), { s with rows := rows, needsRecover := false })

/-- `rebuild_lookup_index`. -/
def rebuildLookupIndex (s : Store κ) : Py Unit × Store κ :=
  match s.leaves E cfg [] (s.segmentNames cfg) with
  | (_, .error e) => (.error e, { s with lookup := some .empty })
  | (leaves, .ok _) =>
    let rows := leaves.mapIdx fun i leaf =>
      ⟨i + 1, leaf.capsule.get "timestamp", leaf.capsuleId, leaf.segment, leaf.offset, leaf.capsule⟩
    let (result, ix) := LookupIndex.rebuild E.realText cfg.correlationFields rows
    (result, { s with lookup := some ix })

/-- `self._manifest` of a managed store. -/
def requireManaged : Py Unit :=
  require (cfg.rotateAtCheckpoint = true) .attributeError "'NoneType' object has no attribute 'entry'"

/-- `entry.mounted = mounted`. -/
def setMounted (m : StoreManifest) (name : Str) (mounted : Bool) : StoreManifest :=
  { m with segments := m.segments.map fun entry =>
      if entry.name = name then { entry with mounted := mounted } else entry }

/-- `unmount_segment`. -/
def unmountSegment (s : Store κ) (name : Str) : Py Unit × Store κ :=
  let checked := do
    requireManaged cfg
    require (s.manifest.activeSegment ≠ some name) .valueError "cannot unmount the active write segment"
    require (s.manifest.entry name ≠ none) .valueError "no such segment"
  match checked with
  | .error e => (.error e, s)
  | .ok _ =>
    if s.isArchived cfg name then (.ok (), s)
    else match s.files.lookup name with
      | none => (raise .osError "No such file or directory", s)
      | some bytes =>
        (.ok (), { s with
          files := Table.remove s.files name
          archived := Table.put s.archived name bytes
          manifest := setMounted s.manifest name false })

/-- `mount_segment`. -/
def mountSegment (s : Store κ) (name : Str) : Py Unit × Store κ :=
  let checked := do
    requireManaged cfg
    require (s.manifest.entry name ≠ none) .valueError "no such segment"
  match checked with
  | .error e => (.error e, s)
  | .ok _ =>
    if s.isArchived cfg name then
      match s.archived.lookup name with
      | none => (raise .osError "No such file or directory", s)
      | some bytes =>
        (.ok (), { s with
          archived := Table.remove s.archived name
          files := Table.put s.files name bytes
          manifest := setMounted s.manifest name true })
    else (.ok (), s)

/-- `verify_segment_standalone`. -/
def verifySegmentStandalone (s : Store κ) (name : Str) : Py (Bool × List Str) := do
  requireManaged cfg
  match s.manifest.entry name with
  | none => .ok (false, [Str.lit "no such segment"])
  | some entry =>
    match entry.manifest with
    | none => .ok (false, [Str.lit "segment has not been closed yet -- nothing to verify"])
    | some path =>
      match s.manifests.lookup path with
      | none => .ok (false, [Str.lit "segment manifest is missing"])
      | some m =>
        match s.readSegment cfg name with
        | .error _ => .ok (false, [Str.lit "segment file is missing"])
        | .ok bytes => .ok (verifySegment E.hash E.aac bytes m)

/-- `LedgerStore(root)` over an empty directory, and `set_checkpointer`. -/
def fresh (checkpointer : Option κ) : Store κ :=
  (syncWriteSegment cfg ⟨[], [], [], ⟨cfg.logId, none, []⟩, [], some .empty, false, checkpointer⟩).2

/-- The calls of a history. -/
inductive Call where
  | append (capsule : Capsule) (consequential : Bool) (admission : AdmissionRequest)
  | unmountSegment (name : Str)
  | mountSegment (name : Str)

/-- The store after a call, whether it returned or raised. -/
def step (s : Store κ) : Call → Store κ
  | .append capsule consequential admission =>
    (s.append E cfg capsule.fields consequential admission).2
  | .unmountSegment name => (s.unmountSegment cfg name).2
  | .mountSegment name => (s.mountSegment cfg name).2

/-- The sample package, SHA-256 and the checkpointer of the repository. -/
def sampleEnv : Env MmrCheckpointer where
  hash := sha256Hash
  aac := sampleAac
  realText _ := none
  protocol := MmrCheckpointer.protocol sha256Hash

/-- A store with the defaults of `LedgerStore`. -/
def sampleConfig : Config where
  logId := []
  segmentMaxRecords := 20000
  maxSegmentBytes := 268435456
  rotateAtCheckpoint := false
  correlationFields := []

end Store

end CLL.Ledger
