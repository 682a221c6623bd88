import CLL.Checkpoint.Runner
import CLL.Checkpoint.Witness
import CLL.Lib.Run

/-!
# Witness delivery

`WitnessDeliveryRunner` of `checkpoint/witness.py`, with the checkpoint runners and the writers that share its
store. Every call of the store is a step of its own, and so is a submission, so the steps of one pass have those
of others between them.

A delivery works on rows that it read earlier. `Later` says what any step does to stored rows, and
`deliveries_ordered` follows for every run: when a row is submitted the row before it is absent or has its
receipt, and neither a receipt nor a row is ever lost.
-/

namespace CLL.Checkpoint
open CLL.Core CLL.Log CLL.Run

/-- What a `WitnessDeliveryRunner` spaces its retries with. Delays are in microseconds. -/
structure Backoff where
  baseBackoff : ℕ
  maxBackoff : ℕ
  jitter : Bool
  base_pos : 0 < baseBackoff
  base_le : baseBackoff ≤ maxBackoff

/-- `timedelta.max`. -/
def maxDelta : ℕ := 86399999999999999999

/-- The loop of `_backoff`. -/
def doubled (maxBackoff : ℕ) : ℕ → ℕ → Py ℕ
  | 0, delay => .ok delay
  | attempts + 1, delay =>
    if maxBackoff ≤ delay then .ok delay
    else if maxDelta < delay * 2 then raise .overflowError "days; must have magnitude <= 999999999"
    else doubled maxBackoff attempts (min (delay * 2) maxBackoff)

/-- `_backoff`, where a delay that is drawn at random is `drawn`. -/
def Backoff.delay (b : Backoff) (attempts drawn : ℕ) : Py ℕ := do
  let delay ← doubled b.maxBackoff attempts b.baseBackoff
  .ok (if b.jitter then min drawn delay else delay)

/-- `normalize_time(now + delay)`. -/
def after (now : Time) (delay : ℕ) : Py Time :=
  if h : now.millis * 1000 + delay < maxMicros then
    .ok ⟨(now.millis * 1000 + delay) / 1000, by simp only [maxMicros, maxMillis] at *; omega⟩
  else raise .overflowError "date value out of range"

/-- The longest beginning of a text that is encoded in `left` bytes, with `?` for what cannot be encoded. -/
def bounded : ℕ → Str → Str
  | _, [] => []
  | left, c :: s =>
    let c := if Utf8.isScalar c then c else 63
    let size := (Utf8.encodeChar c).length
    if size ≤ left then c :: bounded (left - size) s else []

/-- `_bounded_text`. -/
def boundedText (value : Str) : Str := bounded maxReasonBytes value

/-- `replace(item, attempts=item.attempts + 1, …)`. -/
def attempted (item : WitnessState) (nextAttemptAt : Time) (receipt : Obj) (permanent : Bool) (lastError : Obj) :
    Obj :=
  witnessObj (.str item.witnessId.1) (natObj item.checkpointSize.1) (.bytes item.checkpoint.1)
    (natObj (item.attempts.1 + 1)) (timeObj nextAttemptAt) receipt (.bool permanent) lastError

/-- The row of `_fail`. -/
def failedRow (b : Backoff) (now : Time) (item : WitnessState) (permanent : Bool) (reason : Str) (drawn : ℕ) :
    Py Obj := do
  let delay ← b.delay item.attempts.1 drawn
  let nextAttemptAt ← after now delay
  .ok (attempted item nextAttemptAt (optional WitnessReceipt.toObj item.receipt) permanent
    (.str (boundedText reason)))

variable {verify : Bytes → Bytes → Bytes → Bool}

/-- A pass of a checkpoint runner, with what it has built and not committed. -/
structure Pass (verify : Bytes → Bytes → Bytes → Bool) where
  key : KeyPair verify
  cfg : RunnerConfig
  now : Time
  loaded : Snapshot
  built : Option Snapshot

/-- Where `_deliver` is with the first of its items. -/
inductive Phase where
  | look
  /-- The row before it does not hold it. -/
  | ready
  /-- `client.submit` returned a receipt. -/
  | answered (receipt : Obj)
  /-- What `_fail` is called with. -/
  | failing (permanent : Bool) (reason : Str)

/-- `_deliver_all` for one witness, with the items that are left. -/
structure Delivery where
  backoff : Backoff
  now : Time
  items : List WitnessState
  phase : Phase

/-- What `client.submit` does. -/
inductive Answer where
  | returned (receipt : Obj)
  | raised (retryable : Bool) (text : Str)

/-- A store, those at work on it, and every row that was submitted with the state of the store then. -/
structure System (verify : Bytes → Bytes → Bytes → Bool) where
  engine : Engine
  passes : ℕ → Option (Pass verify)
  deliveries : ℕ → Option Delivery
  submitted : List (CllState × WitnessState)

/-- A store on which nobody has been at work. -/
def System.init : System verify := ⟨.empty, fun _ => none, fun _ => none, []⟩

inductive Event (verify : Bytes → Bytes → Bytes → Bool) where
  | append (input : Obj)
  /-- `_load` of a checkpoint runner. -/
  | load (i : ℕ) (key : KeyPair verify) (cfg : RunnerConfig) (now : Obj)
  /-- `_advance` up to its commit. -/
  | advance (i : ℕ)
  /-- `commit_cll` of what was built. -/
  | commit (i : ℕ)
  /-- `pending_witnesses_for` in `run_once`. -/
  | pending (j : ℕ) (backoff : Backoff) (witnessId now limit : Obj)
  /-- `_deliver` up to `client.submit`. -/
  | look (j : ℕ)
  | submit (j : ℕ) (answer : Answer)
  /-- What `_deliver` stores, where `verifier.verify` raises `refused` if that is given. -/
  | settle (j : ℕ) (refused : Option Str) (drawn : ℕ)

variable (P : Packages) (H : HashFunction)

/-- The pass that `_load` begins. -/
def beginPass (e : Engine) (key : KeyPair verify) (cfg : RunnerConfig) (now : Obj) : Py (Pass verify) := do
  let now ← normalizeTime .invalid now
  let loaded ← load P H key cfg (loadedState e.state)
  .ok ⟨key, cfg, now, loaded, none⟩

/-- The pass with what it builds; `none` when there is nothing to do. -/
def Pass.advance (p : Pass verify) (e : Engine) : Py (Option (Pass verify)) := do
  let entries ← scanNext p.cfg e p.loaded
  let next ← Checkpoint.advance P H p.key p.cfg p.now p.loaded entries
  .ok (next.map fun next => { p with built := some next })

/-- The engine after the commit, and the pass, which goes on from what it committed. -/
def Pass.commit (p : Pass verify) (e : Engine) (next : Snapshot) : Py (Engine × Pass verify) := do
  let e ← commitNext e p.loaded next
  .ok (e, { p with loaded := next, built := none })

/-- The rows that `run_once` reads for one witness. -/
def beginDelivery (e : Engine) (backoff : Backoff) (witnessId now limit : Obj) : Py Delivery := do
  let now ← normalizeTime .invalid now
  let items ← e.pendingWitnessesFor witnessId (timeObj now) limit
  .ok ⟨backoff, now, items, .look⟩

/-- `predecessor is not None and predecessor.receipt is None`. -/
def isHeld (predecessor : Option WitnessState) : Bool := predecessor.any fun row => row.receipt.isNone

/-- `_deliver` of an item up to `client.submit`; `none` when it stops the pass. -/
def lookAt (e : Engine) (item : WitnessState) : Py (Option Phase) :=
  match verifiedCheckpoint P H item.checkpoint.1 with
  | .error _ => .ok (some (.failing true (Str.lit "stored checkpoint failed verification")))
  | .ok decoded =>
    if 0 < decoded.prevSize then do
      let predecessor ← e.getWitness (.str item.witnessId.1) (.int decoded.prevSize)
      .ok (if isHeld predecessor then none else some .ready)
    else .ok (some .ready)

/-- The phase after an answer. -/
def Answer.phase : Answer → Phase
  | .returned receipt => .answered receipt
  | .raised retryable text => .failing (!retryable) text

/-- The engine after `commit_witness` of a row, and whether the pass goes on. -/
def store (e : Engine) (item : WitnessState) (row : Obj) (goesOn : Bool) : Py (Engine × Bool) := do
  let e ← e.commitWitness (natObj item.attempts.1) row
  .ok (e, goesOn)

/-- The rest of `_deliver`. -/
def settleItem (e : Engine) (d : Delivery) (item : WitnessState) (refused : Option Str) (drawn : ℕ) :
    Py (Engine × Bool) :=
  match d.phase, refused with
  | .answered receipt, none => store e item (attempted item d.now receipt false .none) true
  | .answered _, some text => do
    let row ← failedRow d.backoff d.now item true text drawn
    store e item row true
  | .failing permanent text, _ => do
    let row ← failedRow d.backoff d.now item permanent text drawn
    store e item row permanent
  | _, _ => .ok (e, true)

def System.setPass (s : System verify) (i : ℕ) (p : Option (Pass verify)) : System verify :=
  { s with passes := Function.update s.passes i p }

def System.setDelivery (s : System verify) (j : ℕ) (d : Option Delivery) : System verify :=
  { s with deliveries := Function.update s.deliveries j d }

/-- An append of any writer. -/
def System.append (s : System verify) (input : Obj) : System verify :=
  match s.engine.append input with
  | .ok (e, _) => { s with engine := e }
  | .error _ => s

/-- `advance` of one pass. A pass that raises, or has nothing to do, ends. -/
def System.advance (s : System verify) (i : ℕ) : System verify :=
  match s.passes i with
  | none => s
  | some p => s.setPass i (p.advance P H s.engine).toOption.join

/-- `commit` of one pass. -/
def System.commit (s : System verify) (i : ℕ) : System verify :=
  match s.passes i with
  | none => s
  | some p =>
    match p.built with
    | none => s
    | some next =>
      match p.commit s.engine next with
      | .ok (e, p) => { s with engine := e }.setPass i (some p)
      | .error _ => s.setPass i none

/-- `look` of one delivery. -/
def System.look (s : System verify) (j : ℕ) : System verify :=
  match s.deliveries j with
  | some ⟨backoff, now, item :: items, .look⟩ =>
    s.setDelivery j ((lookAt P H s.engine item).toOption.join.map fun phase => ⟨backoff, now, item :: items, phase⟩)
  | _ => s

/-- `submit` of one delivery. -/
def System.submit (s : System verify) (j : ℕ) (answer : Answer) : System verify :=
  match s.deliveries j with
  | some ⟨backoff, now, item :: items, .ready⟩ =>
    { s with submitted := s.submitted ++ [(s.engine.state, item)] }.setDelivery j
      (some ⟨backoff, now, item :: items, answer.phase⟩)
  | _ => s

/-- `settle` of one delivery. Before there is an answer there is nothing to settle. -/
def System.settle (s : System verify) (j : ℕ) (refused : Option Str) (drawn : ℕ) : System verify :=
  match s.deliveries j with
  | some ⟨_, _, _, .look⟩ => s
  | some ⟨_, _, _, .ready⟩ => s
  | some ⟨backoff, now, item :: items, phase⟩ =>
    match settleItem s.engine ⟨backoff, now, item :: items, phase⟩ item refused drawn with
    | .ok (e, goesOn) =>
      { s with engine := e }.setDelivery j (if goesOn then some ⟨backoff, now, items, .look⟩ else none)
    | .error _ => s.setDelivery j none
  | _ => s

/-- What an event does. A call that raises ends what made it. -/
def System.step (s : System verify) : Event verify → System verify
  | .append input => s.append input
  | .load i key cfg now => s.setPass i (beginPass P H s.engine key cfg now).toOption
  | .advance i => s.advance P H i
  | .commit i => s.commit i
  | .pending j backoff witnessId now limit =>
    s.setDelivery j (beginDelivery s.engine backoff witnessId now limit).toOption
  | .look j => s.look P H j
  | .submit j answer => s.submit j answer
  | .settle j refused drawn => s.settle j refused drawn

/-- A counter of a number is that number. -/
lemma counter_natObj_eq_some {lo hi n : ℕ} {c : Counter lo hi} (some : counter lo hi (natObj n) = some c) :
    c.1 = n := by
  obtain ⟨m, int, some⟩ := Option.bind_eq_some_iff.mp some
  cases int
  split at some
  · cases some
    exact Int.toNat_natCast n
  · cases some

/-- Bytes of the right width are those bytes. -/
lemma width_bytes_eq_some {lo hi : ℕ} {b : Bytes} {w : Sized lo hi} (some : width lo hi (.bytes b) = some w) :
    w.1 = b := by
  obtain ⟨data, buf, some⟩ := Option.bind_eq_some_iff.mp some
  cases buf
  split at some
  · cases some
    rfl
  · cases some

/-- The row that a `WitnessState` is validated to. -/
lemma validateWitness_witnessObj {witnessId : Str} {size attempts : ℕ} {checkpoint : Bytes} {permanent : Bool}
    {nextAttemptAt receipt lastError : Obj} {w : WitnessState}
    (ok : validateWitness .invalid (witnessObj (.str witnessId) (natObj size) (.bytes checkpoint) (natObj attempts)
      nextAttemptAt receipt (.bool permanent) lastError) = .ok w) :
    w.witnessId.1 = witnessId ∧ w.checkpointSize.1 = size ∧ w.checkpoint.1 = checkpoint ∧
      w.attempts.1 = attempts := by
  obtain ⟨_, -, ok⟩ := bind_eq_ok.mp ok
  obtain ⟨_, checkpointAttr, ok⟩ := bind_eq_ok.mp ok
  obtain ⟨_, idAttr, ok⟩ := bind_eq_ok.mp ok
  obtain ⟨_, sizeAttr, ok⟩ := bind_eq_ok.mp ok
  obtain ⟨_, attemptsAttr, ok⟩ := bind_eq_ok.mp ok
  obtain ⟨_, permanentAttr, ok⟩ := bind_eq_ok.mp ok
  cases checkpointAttr
  cases idAttr
  cases sizeAttr
  cases attemptsAttr
  cases permanentAttr
  split at ok
  · rename_i id size' cp at_ perm idOk sizeOk cpOk attemptsOk permOk
    obtain ⟨_, -, ok⟩ := bind_eq_ok.mp ok
    obtain ⟨_, -, ok⟩ := bind_eq_ok.mp ok
    obtain ⟨_, -, ok⟩ := bind_eq_ok.mp ok
    cases ok
    refine ⟨?_, counter_natObj_eq_some sizeOk, width_bytes_eq_some cpOk, counter_natObj_eq_some attemptsOk⟩
    unfold identifier at idOk
    dsimp only at idOk
    split at idOk
    · cases idOk
      rfl
    · cases idOk
  · cases ok

/-- Validated rows are the seen ones and those given, each of them kept. -/
lemma validateRows_eq_ok {seen r : Rows} {rows : List Obj} (ok : validateRows .invalid seen rows = .ok r) :
    (∀ w ∈ r.1, w ∈ seen.1 ∨ ∃ row ∈ rows, validateWitness .invalid row = .ok w) ∧ (∀ w ∈ seen.1, w ∈ r.1) ∧
      ∀ row ∈ rows, ∃ w ∈ r.1, validateWitness .invalid row = .ok w := by
  induction rows generalizing seen with
  | nil =>
    cases ok
    exact ⟨fun w hw => Or.inl hw, fun w hw => hw, List.forall_mem_nil _⟩
  | cons row rows ih =>
    obtain ⟨w, valid, ok⟩ := bind_eq_ok.mp ok
    split at ok
    · exact (raise_ne_ok ok).elim
    · obtain ⟨of, keeps, each⟩ := ih ok
      refine ⟨fun x hx => ?_, fun x hx => keeps x (List.mem_append_left _ hx), ?_⟩
      · rcases of x hx with old | ⟨row', hrow', valid'⟩
        · rcases List.mem_append.mp old with old | new
          · exact Or.inl old
          · rw [List.mem_singleton.mp new]
            exact Or.inr ⟨row, List.mem_cons_self, valid⟩
        · exact Or.inr ⟨row', List.mem_cons_of_mem _ hrow', valid'⟩
      · intro row' hrow'
        rcases List.mem_cons.mp hrow' with e | rest
        · rw [e]
          exact ⟨w, keeps w (List.mem_append_right _ (List.mem_singleton.mpr rfl)), valid⟩
        · exact each row' rest

/-- Digests that are read from bytes are those bytes. -/
lemma digests_bytes {bs : List Bytes} {ds : {nodes : List Digest // nodes.length = (bs.map Obj.bytes).length}}
    (ok : digests (bs.map .bytes) = some ds) : ds.1.map (fun d => d.1) = bs := by
  induction bs with
  | nil =>
    cases ok
    rfl
  | cons b bs ih =>
    obtain ⟨d, hd, ok⟩ := Option.bind_eq_some_iff.mp ok
    obtain ⟨ds', hds, rfl⟩ := Option.map_eq_some_iff.mp ok
    obtain ⟨data, buf, hd⟩ := Option.bind_eq_some_iff.mp hd
    cases buf
    split at hd
    · cases hd
      exact congrArg (b :: ·) (ih hds)
    · cases hd

/-- A stored checkpoint is read as the one that was loaded. -/
lemma checkpointOrNone_stored {size indexedSeq : ℕ} {c : Option StoredCheckpoint}
    {d : Option (CheckpointWithin size indexedSeq)}
    (ok : checkpointOrNone .invalid size indexedSeq (optional StoredCheckpoint.toObj c) = .ok d) :
    (d.map Subtype.val).map loadedCheckpoint = c := by
  cases c with
  | none =>
    cases ok
    rfl
  | some c =>
    obtain ⟨d', valid, e⟩ := map_eq_ok.mp ok
    cases e
    obtain ⟨_, -, valid⟩ := bind_eq_ok.mp valid
    obtain ⟨_, bytesAttr, valid⟩ := bind_eq_ok.mp valid
    obtain ⟨_, sizeAttr, valid⟩ := bind_eq_ok.mp valid
    obtain ⟨_, seqAttr, valid⟩ := bind_eq_ok.mp valid
    obtain ⟨_, peaksAttr, valid⟩ := bind_eq_ok.mp valid
    cases bytesAttr
    cases sizeAttr
    cases seqAttr
    cases peaksAttr
    split at valid
    · rename_i bytes size' seq peaks bytesOk sizeOk seqOk peaksOk
      obtain ⟨digested, hpeaks, valid⟩ := bind_eq_ok.mp valid
      cases valid
      cases peaksOk
      have parts : loadedCheckpoint ⟨bytes, size'.1, seq.1, digested.1⟩ = c := by
        rw [loadedCheckpoint, width_bytes_eq_some bytesOk, counter_natObj_eq_some sizeOk,
          counter_natObj_eq_some seqOk, digests_bytes (orRaise_eq_ok.mp hpeaks)]
      exact congrArg some parts
    · exact (raise_ne_ok valid).elim

/-- The state that a snapshot is validated to. -/
structure Validated (next : Snapshot) (n : CllState) : Prop where
  size : n.size = next.size
  length : n.size = next.nodes.length
  nodes : n.nodes.map (fun d => d.1) = next.nodes
  indexedSeq : n.indexedSeq = next.indexedSeq
  pending : n.firstPendingAt = next.firstPendingAt
  checkpoint : n.checkpoint.map loadedCheckpoint = next.checkpoint
  of : ∀ w ∈ n.witnesses, ∃ row ∈ next.witnesses, validateWitness .invalid row = .ok w
  each : ∀ row ∈ next.witnesses, ∃ w ∈ n.witnesses, validateWitness .invalid row = .ok w

/-- A snapshot that the store accepts is stored as it is. -/
lemma validateState_snapshot {next : Snapshot} {n : CllState} (ok : validateState .invalid next.toObj = .ok n) :
    Validated next n := by
  obtain ⟨_, -, ok⟩ := bind_eq_ok.mp ok
  obtain ⟨items, hitems, ok⟩ := bind_eq_ok.mp ok
  obtain ⟨count, -, ok⟩ := bind_eq_ok.mp ok
  obtain ⟨header, hheader, ok⟩ := bind_eq_ok.mp ok
  obtain ⟨nodes, hnodes, ok⟩ := bind_eq_ok.mp ok
  cases ok
  cases hitems
  have length : count.1 = next.nodes.length := count.2.1.trans (List.length_map _)
  obtain ⟨_, sizeAttr, hheader⟩ := bind_eq_ok.mp hheader
  obtain ⟨_, sizeOk, hheader⟩ := bind_eq_ok.mp hheader
  obtain ⟨_, seqAttr, hheader⟩ := bind_eq_ok.mp hheader
  cases sizeAttr
  cases seqAttr
  have size := Int.ofNat.inj (Option.some.inj (require_eq_ok.mp sizeOk))
  split at hheader
  · obtain ⟨_, seqOk, hheader⟩ := bind_eq_ok.mp hheader
    obtain ⟨pending, hpending, hheader⟩ := bind_eq_ok.mp hheader
    obtain ⟨checkpoint, hcheckpoint, hheader⟩ := bind_eq_ok.mp hheader
    obtain ⟨witnesses, hwitnesses, hheader⟩ := bind_eq_ok.mp hheader
    obtain ⟨rows, hrows, hheader⟩ := bind_eq_ok.mp hheader
    cases hheader
    cases hwitnesses
    obtain ⟨_, pendingAttr, hpending⟩ := bind_eq_ok.mp hpending
    cases pendingAttr
    rw [timeOrNone_optional] at hpending
    obtain ⟨_, checkpointAttr, hcheckpoint⟩ := bind_eq_ok.mp hcheckpoint
    cases checkpointAttr
    obtain ⟨of, -, each⟩ := validateRows_eq_ok hrows
    exact ⟨size.symm, length, digests_bytes (orRaise_eq_ok.mp hnodes),
      (Int.ofNat.inj (Option.some.inj (require_eq_ok.mp seqOk))).symm, (Except.ok.inj hpending).symm,
      checkpointOrNone_stored hcheckpoint, fun w hw => (of w hw).resolve_left (List.not_mem_nil), each⟩
  · exact (raise_ne_ok hheader).elim

/-- The rows of `s` are in `t`, each for the same checkpoint, with its receipt if it had one. A row that has been
written since has had more attempts. -/
def RowsKept (s t : CllState) : Prop :=
  ∀ row ∈ s.witnesses, ∃ row' ∈ t.witnesses, row'.key = row.key ∧ row'.checkpoint = row.checkpoint ∧
    row.attempts.1 ≤ row'.attempts.1 ∧ (row'.attempts.1 = row.attempts.1 → row' = row) ∧
    (row.receipt.isSome = true → row'.receipt = row.receipt)

/-- Rows are kept in the same state. -/
lemma RowsKept.rfl {s : CllState} : RowsKept s s := fun row hrow =>
  ⟨row, hrow, .refl _, .refl _, le_refl _, fun _ => .refl _, fun _ => .refl _⟩

/-- Rows that are kept twice are kept. -/
lemma RowsKept.trans {r s t : CllState} (hrs : RowsKept r s) (hst : RowsKept s t) : RowsKept r t := by
  intro x hx
  obtain ⟨y, hy, key, checkpoint, le, same, receipt⟩ := hrs x hx
  obtain ⟨z, hz, key', checkpoint', le', same', receipt'⟩ := hst y hy
  refine ⟨z, hz, key'.trans key, checkpoint'.trans checkpoint, le.trans le', fun e => ?_, fun some => ?_⟩
  · have mid := same (by omega)
    rw [same' (by omega), mid]
  · have kept := receipt some
    rw [← kept] at some
    exact (receipt' some).trans kept

/-- What one step does to the rows: they are kept, and a row that is new is for no smaller checkpoint than the
latest one. -/
structure Later (s t : CllState) : Prop where
  kept : RowsKept s t
  fresh : ∀ row ∈ t.witnesses, row.key ∈ s.witnesses.map WitnessState.key ∨
    ∀ c ∈ s.checkpoint, c.size ≤ row.checkpointSize.1

/-- A state is later than itself. -/
lemma Later.rfl {s : CllState} : Later s s := ⟨.rfl, fun _ hrow => Or.inl (List.mem_map_of_mem hrow)⟩

/-- The keys of kept rows are kept. -/
lemma RowsKept.key {s t : CllState} (kept : RowsKept s t) {key : Identifier × ℕ}
    (mem : key ∈ s.witnesses.map WitnessState.key) : key ∈ t.witnesses.map WitnessState.key := by
  obtain ⟨row, hrow, e⟩ := List.mem_map.mp mem
  obtain ⟨row', hrow', same, -⟩ := kept row hrow
  rw [← e, ← same]
  exact List.mem_map_of_mem hrow'

/-- No row is for a larger checkpoint than the latest one, or names a larger size than its own. -/
structure RowsOk (P : Packages) (H : HashFunction) (s : CllState) : Prop where
  covered : ∀ row ∈ s.witnesses, ∃ c ∈ s.checkpoint, row.checkpointSize.1 ≤ c.size
  back : ∀ row ∈ s.witnesses, ∀ decoded, verifyCheckpointCoseOffline P H row.checkpoint.1 = .ok decoded →
    decoded.prevSize ≤ row.checkpointSize.1

/-- The keys of the rows that a runner holds are stored. -/
def Known (s : CllState) (state : Snapshot) : Prop :=
  ∀ row ∈ state.witnesses, ∀ w, validateWitness .invalid row = .ok w → w.key ∈ s.witnesses.map WitnessState.key

/-- What a runner built from what it holds. -/
def Built (P : Packages) (H : HashFunction) (loaded next : Snapshot) : Prop :=
  next.Within ∧ ∀ row ∈ next.witnesses, row ∈ loaded.witnesses ∨ NewRow P H next row

/-- A row that a delivery holds is the stored one, unless that has had more attempts. -/
structure Tracked (P : Packages) (H : HashFunction) (s : CllState) (item : WitnessState) : Prop where
  pending : item.receipt = none
  back : ∀ decoded, verifyCheckpointCoseOffline P H item.checkpoint.1 = .ok decoded →
    decoded.prevSize ≤ item.checkpointSize.1
  stored : ∃ row ∈ s.witnesses, row.key = item.key ∧ row.checkpoint = item.checkpoint ∧
    item.attempts.1 ≤ row.attempts.1 ∧ (row.attempts.1 = item.attempts.1 → row = item)

/-- The row of the same witness at the size that the statement of `item` names is absent or has its receipt. -/
def Cleared (P : Packages) (H : HashFunction) (s : CllState) (item : WitnessState) : Prop :=
  ∃ decoded, verifyCheckpointCoseOffline P H item.checkpoint.1 = .ok decoded ∧
    ∀ row ∈ s.witnesses, row.witnessId = item.witnessId → (row.checkpointSize.1 : ℤ) = decoded.prevSize →
      row.receipt.isSome = true

variable {P H}

/-- What is known of a snapshot stays known. -/
lemma Known.later {s t : CllState} (kept : RowsKept s t) {state : Snapshot} (known : Known s state) : Known t state :=
  fun row hrow w valid => kept.key (known row hrow w valid)

/-- The loaded state is known. -/
lemma known_loadedState (s : CllState) : Known s (loadedState s) := by
  intro row hrow w valid
  obtain ⟨stored, hstored, rfl⟩ := List.mem_map.mp hrow
  rw [validateWitness_toObj] at valid
  cases valid
  exact List.mem_map_of_mem hstored

/-- A tracked item stays tracked. -/
lemma Tracked.later {s t : CllState} (kept : RowsKept s t) {item : WitnessState} (tracked : Tracked P H s item) :
    Tracked P H t item := by
  obtain ⟨row, hrow, key, checkpoint, le, same⟩ := tracked.stored
  obtain ⟨row', hrow', key', checkpoint', le', same', -⟩ := kept row hrow
  refine ⟨tracked.pending, tracked.back, row', hrow', key'.trans key, checkpoint'.trans checkpoint,
    le.trans le', fun e => ?_⟩
  have mid := same (by omega)
  rw [same' (by omega), mid]

/-- A step does not put an item behind another one: a new row is for a later checkpoint. -/
lemma Cleared.later {s t : CllState} (later : Later s t) (rows : RowsOk P H s) {item : WitnessState}
    (tracked : Tracked P H s item) (cleared : Cleared P H s item) : Cleared P H t item := by
  obtain ⟨decoded, accepted, before⟩ := cleared
  refine ⟨decoded, accepted, fun row hrow id size => ?_⟩
  have known : row.key ∈ s.witnesses.map WitnessState.key := by
    rcases later.fresh row hrow with known | large
    · exact known
    · -- Such a row is for the same checkpoint as the item, whose row is stored.
      obtain ⟨own, hown, key, -⟩ := tracked.stored
      obtain ⟨c, hc, le⟩ := rows.covered own hown
      have le' := large c hc
      have back := tracked.back decoded accepted
      have ownSize : own.checkpointSize.1 = item.checkpointSize.1 := congrArg Prod.snd key
      have sameKey : own.key = row.key :=
        Prod.ext ((congrArg Prod.fst key).trans id.symm) (show own.checkpointSize.1 = row.checkpointSize.1 by omega)
      rw [← sameKey]
      exact List.mem_map_of_mem hown
  obtain ⟨older, holder, key⟩ := List.mem_map.mp known
  obtain ⟨newer, hnewer, key', -, -, -, receipt⟩ := later.kept older holder
  obtain rfl : newer = row := eq_of_key t.nodup_keys hnewer hrow (key'.trans key)
  have has := before older holder ((congrArg Prod.fst key).trans id)
    ((congrArg (fun k : Identifier × ℕ => (k.2 : ℤ)) key).trans size)
  rw [receipt has]
  exact has

/-- A delivery replaces the row that it holds, which has no receipt. -/
lemma commitWitness_later {e e' : Engine} {item : WitnessState} {row : Obj} (tracked : Tracked P H e.state item)
    (rows : RowsOk P H e.state)
    (attempt : ∀ w, validateWitness .invalid row = .ok w → w.key = item.key ∧ w.attempts.1 = item.attempts.1 + 1)
    (ok : e.commitWitness (natObj item.attempts.1) row = .ok e') : Later e.state e'.state ∧ RowsOk P H e'.state := by
  obtain ⟨r, applied, ok⟩ := bind_eq_ok.mp ok
  obtain ⟨stored, attempts, valid, check, at_, key, same, checkpoint⟩ := applyWitness_eq_ok applied
  cases ok
  rw [checkExpectedAttempts, orRaise_eq_ok, counter_natObj item.attempts] at check
  cases check
  obtain ⟨rkey, rattempts⟩ := attempt r.1.2 valid
  obtain ⟨lt, -⟩ := List.getElem?_eq_some_iff.mp at_
  have mem : stored ∈ e.state.witnesses := List.mem_of_getElem? at_
  -- The stored row has had no more attempts, so it is the item.
  have own : stored = item := by
    obtain ⟨row', hrow', key', -, -, unchanged⟩ := tracked.stored
    have e := eq_of_key e.state.nodup_keys mem hrow' ((key.trans rkey).trans key'.symm)
    rw [e]
    rw [e] at same
    exact unchanged same
  have of {w : WitnessState} (hw : w ∈ e.state.witnesses.set r.1.1 r.1.2) : w ∈ e.state.witnesses ∨ w = r.1.2 :=
    List.mem_or_eq_of_mem_set hw
  refine ⟨⟨fun x hx => ?_, fun w hw => ?_⟩, ⟨fun w hw => ?_, fun w hw => ?_⟩⟩
  · obtain ⟨i, hi⟩ := List.getElem?_of_mem hx
    by_cases place : r.1.1 = i
    · subst place
      obtain rfl : stored = x := Option.some.inj (at_.symm.trans hi)
      refine ⟨r.1.2, List.mem_set lt _, key.symm, checkpoint.symm, ?_, fun e => ?_, fun some => ?_⟩
      · rw [own]
        omega
      · rw [own] at e
        omega
      · rw [own, tracked.pending] at some
        cases some
    · refine ⟨x, ?_, rfl, rfl, le_refl _, fun _ => rfl, fun _ => rfl⟩
      apply List.mem_of_getElem? (i := i)
      show (e.state.witnesses.set r.1.1 r.1.2)[i]? = some x
      rw [List.getElem?_set_ne place]
      exact hi
  · left
    rcases of hw with old | e
    · exact List.mem_map_of_mem old
    · rw [e, ← key]
      exact List.mem_map_of_mem mem
  · rcases of hw with old | e
    · exact rows.covered w old
    · obtain ⟨c, hc, le⟩ := rows.covered stored mem
      have size : stored.checkpointSize.1 = w.checkpointSize.1 := by
        rw [e]
        exact congrArg Prod.snd key
      exact ⟨c, hc, size ▸ le⟩
  · rcases of hw with old | e
    · exact rows.back w old
    · have size : stored.checkpointSize.1 = w.checkpointSize.1 := by
        rw [e]
        exact congrArg Prod.snd key
      rw [← size, e, ← checkpoint]
      exact rows.back stored mem

/-- What the commit of a snapshot does to a store. -/
structure Committed (e e' : Engine) (loaded next : Snapshot) : Prop where
  entries : e'.entries = e.entries
  expected : loaded.checkpoint.map StoredCheckpoint.bytes =
    (e.state.checkpoint.map loadedCheckpoint).map StoredCheckpoint.bytes
  stored : loadedState e'.state = { next with witnesses := e'.state.witnesses.map WitnessState.toObj }
  grow : ∀ c ∈ e.state.checkpoint, ∃ d ∈ e'.state.checkpoint, c.size ≤ d.size
  kept : ∀ row ∈ e.state.witnesses, row ∈ e'.state.witnesses
  added : ∀ w ∈ e'.state.witnesses, w ∈ e.state.witnesses ∨
    w.key ∉ e.state.witnesses.map WitnessState.key ∧ ∃ row ∈ next.witnesses, validateWitness .invalid row = .ok w
  each : ∀ row ∈ next.witnesses, ∃ w, validateWitness .invalid row = .ok w ∧
    (w ∈ e'.state.witnesses ∨ w.key ∈ e.state.witnesses.map WitnessState.key)

/-- What a commit changes. -/
lemma commitNext_eq_ok {e e' : Engine} {loaded next : Snapshot} (ok : commitNext e loaded next = .ok e') :
    Committed e e' loaded next := by
  obtain ⟨s', applied, ok⟩ := bind_eq_ok.mp ok
  cases ok
  obtain ⟨n, added, expected, valid, -, merged, rfl⟩ := applyCll_eq_ok applied
  obtain ⟨_, -, merged⟩ := bind_eq_ok.mp merged
  obtain ⟨_, forward, -⟩ := bind_eq_ok.mp merged
  have validated := validateState_snapshot valid
  have mem_added {w : WitnessState} :
      w ∈ added.1 ↔ w ∈ n.witnesses ∧ w.key ∉ e.state.witnesses.map WitnessState.key := by
    rw [added.2, freshRows, List.mem_filter, decide_eq_true_eq]
  refine ⟨rfl, ?_, ?_, fun c hc => ?_, fun row hrow => List.mem_append_left _ hrow, fun w hw => ?_,
    fun row hrow => ?_⟩
  · have bytes := (checkExpected_eq_ok expected).2
    rw [Option.map_map]
    cases was : loaded.checkpoint with
    | none =>
      rw [was] at bytes
      exact Except.ok.inj bytes
    | some c =>
      rw [was] at bytes
      exact Except.ok.inj bytes
  · show Snapshot.mk n.size (n.nodes.map fun d => d.1) n.indexedSeq n.firstPendingAt
      (n.checkpoint.map loadedCheckpoint) _ = _
    rw [validated.size, validated.nodes, validated.indexedSeq, validated.pending, validated.checkpoint]
  · obtain ⟨d, hd, le, -⟩ := checkCheckpoint_eq_ok forward c hc
    exact ⟨d, hd, le⟩
  · rcases List.mem_append.mp hw with old | new
    · exact Or.inl old
    · obtain ⟨mem, unknown⟩ := mem_added.mp new
      exact Or.inr ⟨unknown, validated.of w mem⟩
  · obtain ⟨w, hw, validRow⟩ := validated.each row hrow
    refine ⟨w, validRow, ?_⟩
    by_cases known : w.key ∈ e.state.witnesses.map WitnessState.key
    · exact Or.inr known
    · exact Or.inl (List.mem_append_right _ (mem_added.mpr ⟨hw, known⟩))

/-- The committed checkpoint is the latest. -/
lemma Committed.latest {e e' : Engine} {loaded next : Snapshot} (committed : Committed e e' loaded next) :
    e'.state.checkpoint.map loadedCheckpoint = next.checkpoint := congrArg Snapshot.checkpoint committed.stored

/-- A row that a commit adds is one that the runner built, since those that it loaded are stored. -/
lemma Committed.built {e e' : Engine} {loaded next : Snapshot} (committed : Committed e e' loaded next)
    (known : Known e.state loaded) {w : WitnessState} (hw : w ∈ e'.state.witnesses) : w ∈ e.state.witnesses ∨
      ∃ row ∈ next.witnesses, row ∉ loaded.witnesses ∧ validateWitness .invalid row = .ok w := by
  rcases committed.added w hw with old | ⟨unknown, row, hrow, validRow⟩
  · exact Or.inl old
  · exact Or.inr ⟨row, hrow, fun held => unknown (known row held w validRow), validRow⟩

/-- A checkpoint runner adds rows for the checkpoint that it commits and no others, however old the rows are that
it holds. -/
lemma commitNext_later {e e' : Engine} {loaded next : Snapshot} (rows : RowsOk P H e.state)
    (known : Known e.state loaded) (built : Built P H loaded next) (ok : commitNext e loaded next = .ok e') :
    Later e.state e'.state ∧ RowsOk P H e'.state ∧ Known e'.state next := by
  have committed := commitNext_eq_ok ok
  have fresh : ∀ w ∈ e'.state.witnesses, w ∈ e.state.witnesses ∨
      (∃ d ∈ e'.state.checkpoint, d.size = w.checkpointSize.1) ∧
        ∀ decoded, verifyCheckpointCoseOffline P H w.checkpoint.1 = .ok decoded →
          decoded.prevSize ≤ w.checkpointSize.1 := by
    intro w hw
    rcases committed.built known hw with old | ⟨row, hrow, unheld, validRow⟩
    · exact Or.inl old
    · obtain ⟨statement, now, witnessId, rfl, ⟨c, hc, csize⟩, back⟩ := (built.2 row hrow).resolve_left unheld
      obtain ⟨-, size, bytes, -⟩ := validateWitness_witnessObj validRow
      obtain ⟨d, hd, rfl⟩ := Option.map_eq_some_iff.mp (committed.latest.trans hc)
      refine Or.inr ⟨⟨d, hd, csize.trans size.symm⟩, fun decoded accepted => ?_⟩
      rw [bytes] at accepted
      rw [size]
      exact back decoded accepted
  have kept : RowsKept e.state e'.state := fun row hrow =>
    ⟨row, committed.kept row hrow, rfl, rfl, le_refl _, fun _ => rfl, fun _ => rfl⟩
  refine ⟨⟨kept, fun w hw => ?_⟩, ⟨fun w hw => ?_, fun w hw => ?_⟩, fun row hrow w validRow => ?_⟩
  · rcases fresh w hw with old | ⟨⟨d, hd, size⟩, -⟩
    · exact Or.inl (List.mem_map_of_mem old)
    · right
      intro c hc
      obtain ⟨d', hd', le⟩ := committed.grow c hc
      cases Option.mem_unique hd hd'
      exact size ▸ le
  · rcases fresh w hw with old | ⟨⟨d, hd, size⟩, -⟩
    · obtain ⟨c, hc, le⟩ := rows.covered w old
      obtain ⟨d, hd, le'⟩ := committed.grow c hc
      exact ⟨d, hd, le.trans le'⟩
    · exact ⟨d, hd, size.ge⟩
  · rcases fresh w hw with old | ⟨-, back⟩
    · exact rows.back w old
    · exact back
  · obtain ⟨w', validRow', mem⟩ := committed.each row hrow
    cases validRow.symm.trans validRow'
    rcases mem with new | old
    · exact List.mem_map_of_mem new
    · exact kept.key old

/-- An optional value is what the call returned. -/
lemma mem_toOption {α : Type} {x : Py α} {a : α} (mem : a ∈ x.toOption) : x = .ok a := by
  cases x with
  | error e => cases mem
  | ok b =>
    cases mem
    rfl

/-- The rows that a delivery reads are stored and have no receipt. -/
lemma tracked_pending {e : Engine} (rows : RowsOk P H e.state) {witnessId now limit : Obj} {items : List WitnessState}
    (ok : e.pendingWitnessesFor witnessId now limit = .ok items) : ∀ item ∈ items, Tracked P H e.state item := by
  obtain ⟨⟨id, now', limit'⟩, -, ok⟩ := bind_eq_ok.mp ok
  cases ok
  intro item hitem
  have sorted := List.mem_of_mem_take hitem
  obtain ⟨mem, due⟩ := List.mem_filter.mp (List.mem_mergeSort.mp sorted)
  simp only [Bool.and_eq_true, Option.isNone_iff_eq_none] at due
  exact ⟨due.1.1.1, rows.back item mem, item, mem, rfl, rfl, le_refl _, fun _ => rfl⟩

/-- An item that a delivery does not hold back is not behind another one. -/
lemma cleared_of_lookAt {e : Engine} {item : WitnessState} (ok : lookAt P H e item = .ok (some .ready)) :
    Cleared P H e.state item := by
  unfold lookAt verifiedCheckpoint at ok
  cases accepted : verifyCheckpointCoseOffline P H item.checkpoint.1 with
  | error _ =>
    rw [accepted] at ok
    cases ok
  | ok decoded =>
    rw [accepted] at ok
    dsimp only at ok
    refine ⟨decoded, accepted, fun row hrow id size => ?_⟩
    split at ok
    · obtain ⟨predecessor, got, ok⟩ := bind_eq_ok.mp ok
      obtain ⟨key, checked, got⟩ := bind_eq_ok.mp got
      cases got
      -- The row that was looked up is this one.
      have own : checkWitnessKey (.str item.witnessId.1) (.int decoded.prevSize) = .ok row.key := by
        rw [← size, ← id, checkWitnessKey, identifier_str,
          show Obj.int (row.checkpointSize.1 : ℤ) = natObj row.checkpointSize.1 from rfl, counter_natObj]
        rfl
      cases checked.symm.trans own
      rw [find?_key e.state.nodup_keys hrow] at ok
      cases has : row.receipt with
      | none => simp [isHeld, has] at ok
      | some receipt => rfl
    · rename_i first
      have positive := row.checkpointSize.2.1
      omega

/-- What is stored for an item is its row after one more attempt. -/
lemma attempted_key {item w : WitnessState} {nextAttemptAt : Time} {receipt lastError : Obj} {permanent : Bool}
    (ok : validateWitness .invalid (attempted item nextAttemptAt receipt permanent lastError) = .ok w) :
    w.key = item.key ∧ w.attempts.1 = item.attempts.1 + 1 := by
  obtain ⟨id, size, -, attempts⟩ := validateWitness_witnessObj ok
  exact ⟨Prod.ext (Subtype.ext id) size, attempts⟩

/-- The row of a failed delivery is for the same item, with one more attempt. -/
lemma failedRow_key {b : Backoff} {now : Time} {item w : WitnessState} {permanent : Bool} {reason : Str} {drawn : ℕ}
    {row : Obj} (ok : failedRow b now item permanent reason drawn = .ok row)
    (valid : validateWitness .invalid row = .ok w) : w.key = item.key ∧ w.attempts.1 = item.attempts.1 + 1 := by
  obtain ⟨delay, -, ok⟩ := bind_eq_ok.mp ok
  obtain ⟨nextAttemptAt, -, ok⟩ := bind_eq_ok.mp ok
  cases ok
  exact attempted_key valid

/-- A delivery commits the row of its item after one more attempt, or nothing. -/
lemma settleItem_eq_ok {e e' : Engine} {d : Delivery} {item : WitnessState} {refused : Option Str} {drawn : ℕ}
    {goesOn : Bool} (ok : settleItem e d item refused drawn = .ok (e', goesOn)) :
    e' = e ∨ ∃ row, e.commitWitness (natObj item.attempts.1) row = .ok e' ∧
      ∀ w, validateWitness .invalid row = .ok w → w.key = item.key ∧ w.attempts.1 = item.attempts.1 + 1 := by
  have stored {row : Obj} {goesOn' : Bool} (ok : store e item row goesOn' = .ok (e', goesOn)) :
      e.commitWitness (natObj item.attempts.1) row = .ok e' := by
    obtain ⟨e₁, committed, ok⟩ := bind_eq_ok.mp ok
    cases ok
    exact committed
  unfold settleItem at ok
  split at ok
  · exact Or.inr ⟨_, stored ok, fun w => attempted_key⟩
  · obtain ⟨row, failed, ok⟩ := bind_eq_ok.mp ok
    exact Or.inr ⟨row, stored ok, fun w => failedRow_key failed⟩
  · obtain ⟨row, failed, ok⟩ := bind_eq_ok.mp ok
    exact Or.inr ⟨row, stored ok, fun w => failedRow_key failed⟩
  · cases ok
    exact Or.inl rfl

/-- Settling an item keeps the rows and leads to a later state. -/
lemma settleItem_later {e e' : Engine} {d : Delivery} {item : WitnessState} {refused : Option Str} {drawn : ℕ}
    {goesOn : Bool} (rows : RowsOk P H e.state) (tracked : Tracked P H e.state item)
    (ok : settleItem e d item refused drawn = .ok (e', goesOn)) : Later e.state e'.state ∧ RowsOk P H e'.state := by
  rcases settleItem_eq_ok ok with rfl | ⟨row, committed, attempt⟩
  · exact ⟨.rfl, rows⟩
  · exact commitWitness_later tracked rows attempt committed

/-- What a pass of a checkpoint runner relies on. -/
structure PassOk (P : Packages) (H : HashFunction) (s : CllState) (p : Pass verify) : Prop where
  known : Known s p.loaded
  within : p.loaded.Within
  built : ∀ next ∈ p.built, Built P H p.loaded next

/-- What a delivery relies on. -/
structure DeliveryOk (P : Packages) (H : HashFunction) (s : CllState) (d : Delivery) : Prop where
  tracked : ∀ item ∈ d.items, Tracked P H s item
  cleared : d.phase = .ready → ∀ item ∈ d.items.head?, Cleared P H s item

/-- The invariant of a system. -/
structure Safe (P : Packages) (H : HashFunction) (s : System verify) : Prop where
  rows : RowsOk P H s.engine.state
  passes : ∀ i, ∀ p ∈ s.passes i, PassOk P H s.engine.state p
  deliveries : ∀ j, ∀ d ∈ s.deliveries j, DeliveryOk P H s.engine.state d
  submitted : ∀ x ∈ s.submitted, Cleared P H x.1 x.2

/-- The initial system is safe. -/
lemma safe_init : Safe P H (System.init : System verify) where
  rows := ⟨List.forall_mem_nil _, List.forall_mem_nil _⟩
  passes i p hp := by cases hp
  deliveries j d hd := by cases hd
  submitted := List.forall_mem_nil _

/-- What everyone relies on stays when the rows change as a step changes them. -/
lemma Safe.later {s : System verify} (safe : Safe P H s) {e : Engine} (later : Later s.engine.state e.state)
    (rows : RowsOk P H e.state) : Safe P H { s with engine := e } where
  rows := rows
  passes i p hp := by
    have ok := safe.passes i p hp
    exact ⟨ok.known.later later.kept, ok.within, ok.built⟩
  deliveries j d hd := by
    have ok := safe.deliveries j d hd
    refine ⟨fun item hitem => (ok.tracked item hitem).later later.kept, fun ready item hitem => ?_⟩
    exact (ok.cleared ready item hitem).later later safe.rows (ok.tracked item (List.mem_of_mem_head? hitem))
  submitted := safe.submitted

/-- What holds of all values of a map and of a new one holds after the update. -/
lemma forall_update {α : Type} {f : ℕ → Option α} {holds : α → Prop} (all : ∀ k, ∀ x ∈ f k, holds x) (i : ℕ)
    {new : Option α} (ok : ∀ x ∈ new, holds x) : ∀ k, ∀ x ∈ Function.update f i new k, holds x := by
  intro k x hx
  by_cases same : k = i
  · subst same
    rw [Function.update_self] at hx
    exact ok x hx
  · rw [Function.update_of_ne same] at hx
    exact all k x hx

/-- A pass that is as it should be can be set. -/
lemma Safe.setPass {s : System verify} (safe : Safe P H s) (i : ℕ) {p : Option (Pass verify)}
    (ok : ∀ q ∈ p, PassOk P H s.engine.state q) : Safe P H (s.setPass i p) where
  rows := safe.rows
  passes := forall_update safe.passes i ok
  deliveries := safe.deliveries
  submitted := safe.submitted

/-- A delivery that is as it should be can be set. -/
lemma Safe.setDelivery {s : System verify} (safe : Safe P H s) (j : ℕ) {d : Option Delivery}
    (ok : ∀ x ∈ d, DeliveryOk P H s.engine.state x) : Safe P H (s.setDelivery j d) where
  rows := safe.rows
  passes := safe.passes
  deliveries := forall_update safe.deliveries j ok
  submitted := safe.submitted

/-- An append does not change the state. -/
lemma append_state {e e' : Engine} {input : Obj} {result : AppendResult}
    (ok : e.append input = .ok (e', result)) : e'.state = e.state := by
  cases Engine.append_eq_ok ok with
  | inl same =>
    obtain ⟨-, rfl, -⟩ := same
    rfl
  | inr pushed =>
    obtain ⟨-, seq, width, fresh, le, rfl⟩ := pushed
    rfl

/-- A pass begins with the loaded state and nothing built. -/
lemma beginPass_eq_ok {e : Engine} {key : KeyPair verify} {cfg : RunnerConfig} {now : Obj} {p : Pass verify}
    (ok : beginPass P H e key cfg now = .ok p) : ∃ now', p = ⟨key, cfg, now', loadedState e.state, none⟩ := by
  obtain ⟨now', -, ok⟩ := bind_eq_ok.mp ok
  obtain ⟨loaded, read, ok⟩ := bind_eq_ok.mp ok
  cases ok
  exact ⟨now', by rw [load_eq_ok read]⟩

/-- What advancing a pass builds. -/
lemma Pass.advance_eq_ok {p q : Pass verify} {e : Engine} (ok : p.advance P H e = .ok (some q)) :
    ∃ entries next, scanNext p.cfg e p.loaded = .ok entries ∧
      Checkpoint.advance P H p.key p.cfg p.now p.loaded entries = .ok (some next) ∧
      q = { p with built := some next } := by
  obtain ⟨entries, scanned, ok⟩ := bind_eq_ok.mp ok
  obtain ⟨next, built, ok⟩ := bind_eq_ok.mp ok
  cases next with
  | none => cases ok
  | some next =>
    cases ok
    exact ⟨entries, next, scanned, built, rfl⟩

/-- What a step does to the store, and that it keeps the invariant. -/
def Steps (P : Packages) (H : HashFunction) (s t : System verify) : Prop :=
  Safe P H t ∧ RowsKept s.engine.state t.engine.state

/-- An append is a step. -/
lemma steps_append {s : System verify} (safe : Safe P H s) (input : Obj) :
    Steps P H s (s.step P H (.append input)) := by
  unfold System.step System.append
  dsimp only
  split
  · rename_i e result ok
    have same := append_state ok
    refine ⟨safe.later ?_ ?_, ?_⟩
    · rw [same]
      exact .rfl
    · rw [same]
      exact safe.rows
    · show RowsKept s.engine.state e.state
      rw [same]
      exact .rfl
  · exact ⟨safe, .rfl⟩

/-- A load is a step. -/
lemma steps_load {s : System verify} (safe : Safe P H s) (i : ℕ) (key : KeyPair verify) (cfg : RunnerConfig)
    (now : Obj) : Steps P H s (s.step P H (.load i key cfg now)) := by
  refine ⟨safe.setPass i fun p hp => ?_, .rfl⟩
  obtain ⟨now', rfl⟩ := beginPass_eq_ok (mem_toOption hp)
  exact ⟨known_loadedState _, within_loadedState _, fun next hnext => by cases hnext⟩

/-- An advance is a step. -/
lemma steps_advance (lawful : P.Lawful verify) {s : System verify} (safe : Safe P H s) (i : ℕ) :
    Steps P H s (s.step P H (.advance i)) := by
  unfold System.step System.advance
  dsimp only
  split
  · exact ⟨safe, .rfl⟩
  · rename_i p hp
    have ok := safe.passes i p hp
    refine ⟨safe.setPass i fun q hq => ?_, .rfl⟩
    obtain ⟨entries, next, -, built, rfl⟩ := Pass.advance_eq_ok (mem_toOption (Option.join_eq_some_iff.mp hq))
    refine ⟨ok.known, ok.within, fun n hn => ?_⟩
    cases hn
    exact advance_rows lawful ok.within built

/-- A commit is a step. -/
lemma steps_commit {s : System verify} (safe : Safe P H s) (i : ℕ) :
    Steps P H s (s.step P H (.commit i)) := by
  unfold System.step System.commit
  dsimp only
  split
  · exact ⟨safe, .rfl⟩
  · rename_i p hp
    have ok := safe.passes i p hp
    split
    · exact ⟨safe, .rfl⟩
    · rename_i next hnext
      split
      · rename_i e q committed
        obtain ⟨e', stored, same⟩ := bind_eq_ok.mp committed
        cases same
        obtain ⟨later, rows, known⟩ := commitNext_later safe.rows ok.known (ok.built next hnext) stored
        refine ⟨(safe.later later rows).setPass i fun q hq => ?_, later.kept⟩
        cases hq
        exact ⟨known, (ok.built next hnext).1, fun n hn => by cases hn⟩
      · exact ⟨safe.setPass i (fun q hq => by cases hq), .rfl⟩

/-- A listing of pending rows is a step. -/
lemma steps_pending {s : System verify} (safe : Safe P H s) (j : ℕ) (backoff : Backoff) (witnessId now limit : Obj) :
    Steps P H s (s.step P H (.pending j backoff witnessId now limit)) := by
  refine ⟨safe.setDelivery j fun d hd => ?_, .rfl⟩
  obtain ⟨now', -, begun⟩ := bind_eq_ok.mp (mem_toOption hd)
  obtain ⟨items, read, begun⟩ := bind_eq_ok.mp begun
  cases begun
  exact ⟨tracked_pending safe.rows read, fun ready => by cases ready⟩

/-- A look at the next item is a step. -/
lemma steps_look {s : System verify} (safe : Safe P H s) (j : ℕ) : Steps P H s (s.step P H (.look j)) := by
  unfold System.step System.look
  dsimp only
  split
  · rename_i backoff now item items hd
    have ok := safe.deliveries j _ hd
    refine ⟨safe.setDelivery j fun d hx => ?_, .rfl⟩
    obtain ⟨phase, hphase, rfl⟩ := Option.map_eq_some_iff.mp hx
    have looked := mem_toOption (Option.join_eq_some_iff.mp hphase)
    refine ⟨ok.tracked, fun ready x hx => ?_⟩
    cases hx
    cases ready
    exact cleared_of_lookAt looked
  · exact ⟨safe, .rfl⟩

/-- A submission is a step. -/
lemma steps_submit {s : System verify} (safe : Safe P H s) (j : ℕ) (answer : Answer) :
    Steps P H s (s.step P H (.submit j answer)) := by
  unfold System.step System.submit
  dsimp only
  split
  · rename_i backoff now item items hd
    have ok := safe.deliveries j _ hd
    have logged : Safe P H { s with submitted := s.submitted ++ [(s.engine.state, item)] } :=
      { safe with
        submitted := fun x hx => by
          rcases List.mem_append.mp hx with old | new
          · exact safe.submitted x old
          · rw [List.mem_singleton.mp new]
            exact ok.cleared rfl item rfl }
    refine ⟨logged.setDelivery j fun d hx => ?_, .rfl⟩
    cases hx
    refine ⟨ok.tracked, fun ready => ?_⟩
    cases answer <;> cases ready
  · exact ⟨safe, .rfl⟩

/-- A settlement is a step. -/
lemma steps_settle {s : System verify} (safe : Safe P H s) (j : ℕ) (refused : Option Str) (drawn : ℕ) :
    Steps P H s (s.step P H (.settle j refused drawn)) := by
  unfold System.step System.settle
  dsimp only
  split
  · exact ⟨safe, .rfl⟩
  · exact ⟨safe, .rfl⟩
  · rename_i backoff now item items phase _ _ hd
    have ok := safe.deliveries j _ hd
    split
    · rename_i e goesOn settled
      obtain ⟨later, rows⟩ := settleItem_later safe.rows (ok.tracked item List.mem_cons_self) settled
      refine ⟨(safe.later later rows).setDelivery j fun d hx => ?_, later.kept⟩
      split at hx
      · cases hx
        exact ⟨fun x hx => (ok.tracked x (List.mem_cons_of_mem _ hx)).later later.kept, fun ready => by cases ready⟩
      · cases hx
    · exact ⟨safe.setDelivery j (fun d hx => by cases hx), .rfl⟩
  · exact ⟨safe, .rfl⟩

/-- Every step keeps the invariant, the rows and their receipts. -/
theorem steps_step (lawful : P.Lawful verify) {s : System verify} (safe : Safe P H s) (event : Event verify) :
    Steps P H s (s.step P H event) := by
  cases event with
  | append input => exact steps_append safe input
  | load i key cfg now => exact steps_load safe i key cfg now
  | advance i => exact steps_advance lawful safe i
  | commit i => exact steps_commit safe i
  | pending j backoff witnessId now limit => exact steps_pending safe j backoff witnessId now limit
  | look j => exact steps_look safe j
  | submit j answer => exact steps_submit safe j answer
  | settle j refused drawn => exact steps_settle safe j refused drawn

/-- The rows of a later state of a store are those of an earlier one, and more. -/
def System.Keeps (s t : System verify) : Prop := RowsKept s.engine.state t.engine.state

instance : IsPreorder (System verify) System.Keeps where
  refl _ := RowsKept.rfl
  trans _ _ _ := RowsKept.trans

/-- In every run of writers, checkpoint runners and deliveries on one store, a row is submitted only when the row
of the same witness at the size that its statement names is absent or has its receipt, and every row stays, for the
same checkpoint and with its receipt once it has one. -/
theorem deliveries_ordered (lawful : P.Lawful verify) (events more : List (Event verify)) :
    let s := run (System.step P H) .init events
    let t := run (System.step P H) s more
    (∀ x ∈ s.submitted, ∃ decoded, verifyCheckpointCoseOffline P H x.2.checkpoint.1 = .ok decoded ∧
      ∀ row ∈ x.1.witnesses, row.witnessId = x.2.witnessId → (row.checkpointSize.1 : ℤ) = decoded.prevSize →
        row.receipt.isSome = true) ∧
    ∀ row ∈ s.engine.state.witnesses, ∃ row' ∈ t.engine.state.witnesses,
      row'.key = row.key ∧ row'.checkpoint = row.checkpoint ∧
      (row.receipt.isSome = true → row'.receipt = row.receipt) := by
  have keeps : ∀ (s : System verify) event, Safe P H s → Safe P H (s.step P H event) :=
    fun s event safe => (steps_step lawful safe event).1
  have safe := Run.invariant (System.step P H) keeps safe_init events
  refine ⟨safe.submitted, fun row hrow => ?_⟩
  have kept : System.Keeps _ _ := Run.monotone (System.step P H) keeps
    (fun s event safe => (steps_step lawful safe event).2) safe more
  obtain ⟨row', hrow', key, checkpoint, -, -, receipt⟩ := kept row hrow
  exact ⟨row', hrow', key, checkpoint, receipt⟩

/-- A runner of the log `log` with one witness, which signs a checkpoint for every entry. -/
def sampleConfig : RunnerConfig where
  logId := ⟨Str.lit "log", by decide⟩
  witnessIds := [⟨Str.lit "witness", by decide⟩]
  cadenceEntries := 1
  cadenceAge := 1
  scanLimit := 1
  cadenceEntries_pos := le_refl 1
  cadenceAge_pos := Nat.one_pos
  scanLimit_pos := le_refl 1
  scanLimit_le := by decide
  witnesses_le := by decide
  distinct := List.nodup_singleton _

def sampleBackoff : Backoff := ⟨1000000, 3600000000, false, by decide, by decide⟩

/-- Midnight of the first day. -/
def sampleNow : Obj := timeObj ⟨0, Nat.zero_lt_succ _⟩

/-- The receipt of the witness. -/
def sampleReceipt : Obj := receiptObj (.bytes [1]) .none .none .none .none

/-- The signature of the sample key over the checkpoint of the run, at size 1. -/
def runSignature : Bytes :=
  hexBytes ("1e10cc8c4191ad0e9b2dce1a8558b57104d3354975e8339d81ac7fb95d5e52af" ++
    "a75af76d66bd5932f5369dd77988a6da46eb0755d7c6bb6bbd56675b58385e02")

/-- It is accepted with the sample key. -/
lemma runSignature_ok : Ed25519.acceptableSignature samplePublicKey (some runSignature) = true := by
  rw [samplePublicKey_eq, runSignature, hexBytes, Str.lit_append, Str.lit_ofList, Str.lit_ofList]
  decide +kernel

/-- An entry is appended and checkpointed, and the checkpoint is delivered. -/
def sampleEvents : List (Event (sampleVerify runSignature)) :=
  [.append (appendInputObj (.bytes (List.replicate 32 0)) sampleNow),
    .load 0 (sampleKey runSignature runSignature_ok) sampleConfig sampleNow, .advance 0, .commit 0,
    .pending 0 sampleBackoff (.str (Str.lit "witness")) sampleNow (natObj 1), .look 0,
    .submit 0 (.returned sampleReceipt), .settle 0 none 0]

/-- A run with one pass and one delivery. -/
theorem deliveries_ordered_sample :
    let s := run (System.step (referencePackages (sampleVerify runSignature)) sha256Hash) .init sampleEvents
    ∀ x ∈ s.submitted, ∃ decoded, verifyCheckpointCoseOffline (referencePackages (sampleVerify runSignature))
        sha256Hash x.2.checkpoint.1 = .ok decoded ∧
      ∀ row ∈ x.1.witnesses, row.witnessId = x.2.witnessId → (row.checkpointSize.1 : ℤ) = decoded.prevSize →
        row.receipt.isSome = true :=
  (deliveries_ordered (referencePackages_lawful (sampleVerify runSignature)) sampleEvents []).1

end CLL.Checkpoint
