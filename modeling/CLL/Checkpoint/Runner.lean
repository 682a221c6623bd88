import CLL.Checkpoint.RoundTrip
import CLL.Log.Object

/-!
# The checkpoint runner

`checkpoint/runner.py`: a pass loads the stored state, indexes the next entries into its MMR, signs a checkpoint
when one is due, and commits what it built against what it loaded. A pass touches the store three times, to load
the state, to scan entries and to commit, and between these calls it is `load` and `advance`.

`advance_rows` says what a pass adds to the rows that it loaded: one row for each witness, for the checkpoint
that it signed, which names a size no larger than its own.
-/

namespace CLL.Checkpoint
open CLL.Core CLL.Log

/-- What a `CheckpointRunner` is made with, as its `__init__` checks it. Times are in microseconds. -/
structure RunnerConfig where
  logId : Identifier
  witnessIds : List Identifier
  cadenceEntries : ℕ
  cadenceAge : ℕ
  scanLimit : ℕ
  cadenceEntries_pos : 1 ≤ cadenceEntries
  cadenceAge_pos : 0 < cadenceAge
  scanLimit_pos : 1 ≤ scanLimit
  scanLimit_le : scanLimit ≤ maxScanLimit
  witnesses_le : witnessIds.length ≤ maxWitnesses
  distinct : witnessIds.Nodup

/-- `CheckpointRunner.__init__`. -/
def RunnerConfig.init (logId : Str) (witnessIds : List Str) (cadenceEntries cadenceAge scanLimit : ℤ) :
    Py RunnerConfig :=
  match identifier (.str logId) with
  | none => raise .invalid "invalid runner configuration"
  | some logId =>
    if h : 1 ≤ scanLimit ∧ scanLimit ≤ maxScanLimit ∧ 1 ≤ cadenceEntries ∧ 0 < cadenceAge then
      if few : witnessIds.length ≤ maxWitnesses then
        match ids : witnessIds.mapM fun id => identifier (.str id) with
        | none => raise .invalid "invalid witness ID"
        | some checked =>
          if distinct : checked.Nodup then
            .ok ⟨logId, checked, cadenceEntries.toNat, cadenceAge.toNat, scanLimit.toNat, by omega, by omega,
              by omega, by omega, by rw [Table.length_of_mapM ids]; exact few, distinct⟩
          else raise .invalid "duplicate witness ID"
      else raise .invalid "too many witnesses"
    else raise .invalid "invalid runner configuration"

/-- A runner's log has a name. -/
lemma RunnerConfig.logId_ne_nil (cfg : RunnerConfig) : cfg.logId.1 ≠ [] := by
  intro empty
  have identifier := cfg.logId.2
  rw [empty] at identifier
  cases identifier

/-- A `CheckpointState` as a runner holds it. -/
structure StoredCheckpoint where
  bytes : Bytes
  size : ℕ
  indexedSeq : ℕ
  peaks : List Bytes
  deriving DecidableEq

/-- A `CllState` as a runner holds it: one that was loaded, or one that it built. -/
structure Snapshot where
  size : ℕ
  nodes : List Bytes
  indexedSeq : ℕ
  firstPendingAt : Option Time
  checkpoint : Option StoredCheckpoint
  witnesses : List Obj

/-- A checkpoint that was loaded. -/
def loadedCheckpoint (c : CheckpointState) : StoredCheckpoint :=
  ⟨c.bytes.1, c.size, c.indexedSeq, c.peaks.map fun p => p.1⟩

/-- A state that was loaded. -/
def loadedState (s : CllState) : Snapshot :=
  ⟨s.size, s.nodes.map fun d => d.1, s.indexedSeq, s.firstPendingAt, s.checkpoint.map loadedCheckpoint,
    s.witnesses.map WitnessState.toObj⟩

def StoredCheckpoint.toObj (c : StoredCheckpoint) : Obj :=
  checkpointObj (.bytes c.bytes) (natObj c.size) (natObj c.indexedSeq) (.tuple (c.peaks.map .bytes))

def Snapshot.toObj (s : Snapshot) : Obj :=
  cllStateObj (natObj s.size) (.tuple (s.nodes.map .bytes)) (natObj s.indexedSeq)
    (optional timeObj s.firstPendingAt) (optional StoredCheckpoint.toObj s.checkpoint) (.tuple s.witnesses)

/-- `except ValueError as exc: raise CorruptError(text) from exc`. -/
def orCorrupt {α : Type} (x : Py α) (text : String) : Py α :=
  match x with
  | .ok a => .ok a
  | .error e => if e.kind.isValueError then raise .corrupt text else .error e

variable (P : Packages) (H : HashFunction) {verify : Bytes → Bytes → Bytes → Bool} (key : KeyPair verify)
  (cfg : RunnerConfig)

/-- `_verify_checkpoint`. -/
def verifyCheckpoint (state : Snapshot) : Py Unit :=
  match state.checkpoint with
  | none => .ok ()
  | some checkpoint => do
    let leaves ← orCorrupt (leafCount checkpoint.size) "invalid stored checkpoint position"
    require (checkpoint.size ≤ state.size ∧ leaves = checkpoint.indexedSeq ∧
      checkpoint.indexedSeq ≤ state.indexedSeq) .corrupt "invalid stored checkpoint position"
    let peaks ← peakHashes state.nodes checkpoint.size
    require (peaks = checkpoint.peaks) .corrupt "stored checkpoint peaks mismatch"
    match verifyCheckpointCoseOffline P H checkpoint.bytes with
    | .error _ => raise .corrupt "stored checkpoint signature mismatch"
    | .ok decoded => do
      require (decoded.logId = cfg.logId.1 ∧ decoded.keyId = toHex key.publicKey ∧
        decoded.mmrSize = checkpoint.size ∧ decoded.newPeakHashes = checkpoint.peaks) .corrupt
        "stored checkpoint metadata mismatch"
      let root ← rootFromPeaks H checkpoint.peaks
      require (decoded.root = toHex root) .corrupt "stored checkpoint metadata mismatch"

/-- `_load`, with the state that `load_cll` returned. The node store it builds holds the nodes of the state. -/
def load (state : Snapshot) : Py Snapshot := do
  let leaves ← orCorrupt (leafCount state.size) "MMR size is not a complete MMR"
  require (leaves = state.indexedSeq ∧ state.size = state.nodes.length) .corrupt
    "MMR size does not match indexed sequence"
  verifyCheckpoint P H key cfg state
  .ok state

/-- `core.add_leaf(nodes, core.leaf_hash(entry.value))`. -/
def addEntry (nodes : List Bytes) (entry : Entry) : Py (List Bytes) := do
  let leaf ← leafHash H entry.value
  let (nodes, _, _) ← addLeaf H nodes leaf
  .ok nodes

/-- The loop of `_advance`. -/
def indexEntries (nodes : List Bytes) (indexed : ℕ) (firstPending : Option Time) :
    List Entry → Py (List Bytes × ℕ × Option Time)
  | [] => .ok (nodes, indexed, firstPending)
  | entry :: entries => do
    require (entry.seq = indexed + 1) .corrupt "CLL entry sequence is not contiguous"
    let nodes ← orCorrupt (addEntry H nodes entry) "CLL entry value is invalid"
    let appendedAt ← normalizeTime .corrupt (timeObj entry.appendedAt)
    indexEntries nodes entry.seq (some (firstPending.getD appendedAt)) entries

/-- `due`. -/
def isDue (now : Time) (firstPending : Option Time) (uncheckpointed : ℤ) : Bool :=
  firstPending.any fun firstPending => 0 < uncheckpointed && (cfg.cadenceEntries ≤ uncheckpointed ||
    (cfg.cadenceAge : ℤ) ≤ ((now.millis : ℤ) - firstPending.millis) * 1000)

/-- `s.rstrip("0")`. -/
def stripZeros (s : Str) : Str := (s.reverse.dropWhile (· = 48)).reverse

/-- `checkpoint_timestamp`. -/
def checkpointTimestamp (value : Time) : Str :=
  let f := timeFields value
  let text := Decimal.pad 4 f.year ++ 45 :: (Decimal.pad 2 f.month ++ 45 :: (Decimal.pad 2 f.day ++ 84 ::
    (Decimal.pad 2 f.hour ++ 58 :: (Decimal.pad 2 f.minute ++ 58 :: Decimal.pad 2 f.second))))
  let fraction := stripZeros (Decimal.pad 3 f.millis)
  if fraction = [] then text ++ [90] else text ++ 46 :: (fraction ++ [90])

/-- The root of the previous checkpoint, in digits. -/
def prevRootOf : Option StoredCheckpoint → Py Str
  | none => .ok []
  | some checkpoint => (rootFromPeaks H checkpoint.peaks).map toHex

/-- The record that is signed. -/
def recordOf (now : Time) (checkpoint : Option StoredCheckpoint) (size : ℕ) (root prevRoot : Str) :
    CheckpointRecord :=
  ⟨1, Str.lit "mmr_checkpoint", cfg.logId.1, size, root, (checkpoint.map StoredCheckpoint.size).getD 0, prevRoot,
    toHex key.publicKey, checkpointTimestamp now, [], []⟩

/-- The statement that is signed, and the peaks it commits to. -/
def signCheckpoint (now : Time) (checkpoint : Option StoredCheckpoint) (nodes : List Bytes) :
    Py (Bytes × List Bytes) := do
  let size := nodes.length
  let peaks ← peakHashes nodes size
  let root ← rootFromPeaks H peaks
  let prevRoot ← prevRootOf H checkpoint
  let proof ← checkpoint.mapM fun checkpoint => consistencyProof nodes checkpoint.size size
  let statement ← checkpointToCose P.cbor2 H (recordOf key cfg now checkpoint size (toHex root) prevRoot) key peaks
    (checkpoint.map StoredCheckpoint.peaks) proof none
  .ok (statement, peaks)

/-- `WitnessState(witness_id, size, statement, 0, now)`. -/
def newRow (size : ℕ) (statement : Bytes) (now : Time) (witnessId : Identifier) : Obj :=
  witnessObj (.str witnessId.1) (natObj size) (.bytes statement) (natObj 0) (timeObj now) .none (.bool false) .none

/-- The checkpoint that a state was indexed up to. -/
def Snapshot.lastCheckpointed (state : Snapshot) : ℕ := (state.checkpoint.map StoredCheckpoint.indexedSeq).getD 0

/-- `_advance` up to its commit, with the entries that `scan_entries` returned: the state to commit, if there is
one. -/
def advance (now : Time) (state : Snapshot) (entries : List Entry) : Py (Option Snapshot) := do
  let (nodes, indexed, firstPending) ← indexEntries H state.nodes state.indexedSeq state.firstPendingAt entries
  let uncheckpointed : ℤ := indexed - state.lastCheckpointed
  if isDue cfg now firstPending uncheckpointed then do
    let (statement, peaks) ← signCheckpoint P H key cfg now state.checkpoint nodes
    .ok (some ⟨nodes.length, nodes, indexed, none, some ⟨statement, nodes.length, indexed, peaks⟩,
      state.witnesses ++ cfg.witnessIds.map (newRow nodes.length statement now)⟩)
  else if entries = [] then .ok none
  else .ok (some ⟨nodes.length, nodes, indexed, firstPending, state.checkpoint, state.witnesses⟩)

/-- `self._store.scan_entries(state.indexed_seq, self._scan_limit)`. -/
def scanNext (e : Engine) (state : Snapshot) : Py (List Entry) :=
  e.scanEntries (natObj state.indexedSeq) (natObj cfg.scanLimit)

/-- `self._store.commit_cll(state.size, expected, next_state)`. -/
def commitNext (e : Engine) (state next : Snapshot) : Py Engine :=
  e.commitCll (natObj state.size) (optional .bytes (state.checkpoint.map StoredCheckpoint.bytes)) next.toObj

variable {P H key cfg}

/-- What is not corrupt was returned. -/
lemma orCorrupt_eq_ok {α : Type} {x : Py α} {text : String} {a : α} (ok : orCorrupt x text = .ok a) :
    x = .ok a := by
  cases x with
  | ok b => exact ok
  | error e =>
    unfold orCorrupt at ok
    dsimp only at ok
    split at ok
    · exact (raise_ne_ok ok).elim
    · cases ok

/-- A state that is loaded is the one that is stored. -/
lemma load_eq_ok {state loaded : Snapshot} (ok : load P H key cfg state = .ok loaded) : loaded = state := by
  obtain ⟨_, -, ok⟩ := bind_eq_ok.mp ok
  obtain ⟨_, -, ok⟩ := bind_eq_ok.mp ok
  obtain ⟨_, -, ok⟩ := bind_eq_ok.mp ok
  exact (Except.ok.inj ok).symm

/-- Indexing entries only adds nodes. -/
lemma indexEntries_length {entries : List Entry} {n m : ℕ} {nodes nodes' : List Bytes}
    {firstPending pending : Option Time}
    (ok : indexEntries H nodes n firstPending entries = .ok (nodes', m, pending)) :
    nodes.length ≤ nodes'.length := by
  induction entries generalizing n nodes firstPending with
  | nil =>
    cases ok
    exact le_refl _
  | cons entry entries ih =>
    obtain ⟨_, -, ok⟩ := bind_eq_ok.mp ok
    obtain ⟨grown, added, ok⟩ := bind_eq_ok.mp ok
    obtain ⟨appendedAt, -, ok⟩ := bind_eq_ok.mp ok
    refine le_trans ?_ (ih ok)
    obtain ⟨leaf, -, added⟩ := bind_eq_ok.mp (orCorrupt_eq_ok added)
    obtain ⟨⟨grown', pos, new⟩, leafAdded, added⟩ := bind_eq_ok.mp added
    cases added
    obtain ⟨_, -, leafAdded⟩ := bind_eq_ok.mp leafAdded
    obtain ⟨_, -, leafAdded⟩ := bind_eq_ok.mp leafAdded
    obtain ⟨_, -, leafAdded⟩ := bind_eq_ok.mp leafAdded
    cases leafAdded
    rw [List.length_append]
    exact Nat.le_add_right _ _

/-- A statement that is accepted names the earlier size that it was signed for. -/
lemma prevSize_of_signed (lawful : P.Lawful verify) {now : Time} {checkpoint : Option StoredCheckpoint}
    {nodes peaks : List Bytes} {statement : Bytes}
    (ok : signCheckpoint P H key cfg now checkpoint nodes = .ok (statement, peaks))
    {decoded : DecodedCheckpointCose} (accepted : verifyCheckpointCoseOffline P H statement = .ok decoded) :
    decoded.prevSize = (checkpoint.map StoredCheckpoint.size).getD 0 := by
  obtain ⟨peaks', -, ok⟩ := bind_eq_ok.mp ok
  obtain ⟨root, -, ok⟩ := bind_eq_ok.mp ok
  obtain ⟨prevRoot, -, ok⟩ := bind_eq_ok.mp ok
  obtain ⟨proof, -, ok⟩ := bind_eq_ok.mp ok
  obtain ⟨statement', signed, ok⟩ := bind_eq_ok.mp ok
  cases ok
  obtain ⟨_, -, signed⟩ := bind_eq_ok.mp signed
  obtain ⟨_, -, signed⟩ := bind_eq_ok.mp signed
  obtain ⟨fields, encoded, signed⟩ := bind_eq_ok.mp signed
  obtain ⟨payload, dumped, signed⟩ := bind_eq_ok.mp signed
  -- The claims are read back, and what is read of the envelope is what was signed.
  obtain ⟨claims, read, loaded, decodes, same, -⟩ := decodeClaims_encoded lawful.cbor2 encoded
    (dumps_eq_ok.mp dumped) cfg.logId_ne_nil (Int.natCast_nonneg _) (Int.natCast_nonneg _) (toHex key.publicKey)
  obtain ⟨parsed, opened, issuer, subject⟩ := openEnvelope_signed lawful signed loaded
  rw [verifyCheckpointCoseOffline, opened, ok_bind] at accepted
  dsimp only at accepted
  rw [issuer, subject, decodes, ok_bind] at accepted
  obtain ⟨_, -, accepted⟩ := bind_eq_ok.mp accepted
  cases accepted
  exact same.prevSize

/-- The latest checkpoint of a state is no larger than its tree. -/
def Snapshot.Within (state : Snapshot) : Prop := ∀ c ∈ state.checkpoint, c.size ≤ state.nodes.length

/-- A row for the checkpoint that `next` was built with, which names no larger size as the one before. -/
def NewRow (P : Packages) (H : HashFunction) (next : Snapshot) (row : Obj) : Prop :=
  ∃ statement now witnessId, row = newRow next.nodes.length statement now witnessId ∧
    (∃ c ∈ next.checkpoint, c.size = next.nodes.length) ∧
    ∀ decoded, verifyCheckpointCoseOffline P H statement = .ok decoded → decoded.prevSize ≤ next.nodes.length

/-- The loaded state is within its bounds. -/
lemma within_loadedState (s : CllState) : (loadedState s).Within := by
  intro c hc
  obtain ⟨stored, hstored, rfl⟩ := Option.map_eq_some_iff.mp hc
  refine (s.checkpoint_le stored hstored).2.1.trans (le_of_eq ?_)
  rw [← s.length_eq]
  exact (List.length_map _).symm

/-- What a pass builds from the rows that it loaded. -/
lemma advance_rows (lawful : P.Lawful verify) {now : Time} {state next : Snapshot} {entries : List Entry}
    (within : state.Within) (ok : advance P H key cfg now state entries = .ok (some next)) :
    next.Within ∧ ∀ row ∈ next.witnesses, row ∈ state.witnesses ∨ NewRow P H next row := by
  obtain ⟨⟨nodes, indexed, firstPending⟩, hindex, ok⟩ := bind_eq_ok.mp ok
  have grown := indexEntries_length hindex
  dsimp only at ok
  split at ok
  · obtain ⟨⟨statement, peaks⟩, signed, ok⟩ := bind_eq_ok.mp ok
    cases ok
    refine ⟨?_, fun row hrow => ?_⟩
    · intro c hc
      cases hc
      exact le_refl _
    · rcases List.mem_append.mp hrow with old | new
      · exact Or.inl old
      · obtain ⟨witnessId, -, rfl⟩ := List.mem_map.mp new
        refine Or.inr ⟨statement, now, witnessId, rfl, ⟨_, rfl, rfl⟩, fun decoded accepted => ?_⟩
        rw [prevSize_of_signed lawful signed accepted]
        cases loaded : state.checkpoint with
        | none => exact Int.natCast_nonneg _
        | some c => exact Int.ofNat_le.mpr ((within c loaded).trans grown)
  · split at ok
    · cases ok
    · cases ok
      exact ⟨fun c hc => (within c hc).trans grown, fun row hrow => Or.inl hrow⟩

end CLL.Checkpoint
