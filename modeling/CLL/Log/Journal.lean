import CLL.Log.Jsonl

/-!
# The journal and the engine agree

Every accepted mutation writes one line that takes the engine to its next state when it is replayed
(`step_cases`), so the lines of a journal replay to the engine of its store. `run_journal` follows a store
through any calls with any write failures, and `recover` says what opening a part of a journal gives.
-/

namespace CLL.Log

/-- `line` is a complete event whose replay takes `e` to `e'`. -/
structure IsLine (e : Engine) (line : Bytes) (e' : Engine) : Prop where
  notMem : newline ∉ line
  length_le : line.length ≤ maxJournalEventBytes
  apply : ∃ item, (∀ start, parseLine start line = .ok item) ∧ applyEvent e item = .ok e'

/-- The lines of `data` replay to `e`. -/
def Replays (data : Bytes) (e : Engine) : Prop :=
  ∃ lines, lines ≠ [] ∧ data = Lines.join newline lines ∧ (∀ line ∈ lines, newline ∉ line) ∧
    replayLines .empty false 0 lines = .ok e

/-- The line of an event is parsed back. -/
lemma parseLine_dumps {type : String} {fields : Fields} {text : Bytes}
    (plain : Json.plain (.obj (eventFields type fields)) = true)
    (ok : dumps (.obj (eventFields type fields)) = .ok text) (start : ℕ) :
    parseLine start text = .ok (eventFields type fields) := by
  have version : Fields.get (eventFields type fields) "version" = .int schemaVersion := by
    simp [Fields.get, eventFields]
  rw [parseLine, (loads_dumps plain ok).1]
  dsimp only
  rw [version]
  exact if_pos rfl

/-- The text of an event is a line. -/
lemma isLine_dumps {e e' : Engine} {type : String} {fields : Fields} {text : Bytes}
    (plain : Json.plain (.obj (eventFields type fields)) = true)
    (ok : dumps (.obj (eventFields type fields)) = .ok text)
    (short : (text ++ [newline]).length ≤ maxJournalEventBytes)
    (apply : applyEvent e (eventFields type fields) = .ok e') : IsLine e text e' where
  notMem := (loads_dumps plain ok).2
  length_le := by
    rw [List.length_append] at short
    omega
  apply := ⟨_, parseLine_dumps plain ok, apply⟩

/-- Lines are replayed one list after the other. -/
lemma replayLines_append (lines more : List Bytes) (e : Engine) (initialized : Bool) (start : ℕ)
    (ne : lines ≠ []) :
    replayLines e initialized start (lines ++ more) = replayLines e initialized start lines >>=
      fun e => replayLines e true (start + (Lines.join newline lines).length) more := by
  induction lines generalizing e initialized start with
  | nil => exact absurd rfl ne
  | cons line lines ih =>
    have offset : start + (Lines.join newline (line :: lines)).length =
        start + line.length + 1 + (Lines.join newline lines).length := by
      simp [Lines.join]
      omega
    rw [List.cons_append, replayLines, replayLines, offset]
    simp only [bind_assoc]
    congr 1; funext _
    congr 1; funext item
    congr 1; funext _
    congr 1; funext e
    cases lines with
    | nil => simp [replayLines, Lines.join]
    | cons line' lines => exact ih e true _ (by simp)

/-- One more line. -/
lemma Replays.snoc {data line : Bytes} {e e' : Engine} (replays : Replays data e)
    (next : IsLine e line e') : Replays (data ++ (line ++ [newline])) e' := by
  obtain ⟨lines, ne, rfl, notMem, ok⟩ := replays
  obtain ⟨item, parse, apply⟩ := next.apply
  refine ⟨lines ++ [line], by simp, ?_, ?_, ?_⟩
  · rw [Lines.join_append]
    simp [Lines.join]
  · intro l hl
    cases List.mem_append.mp hl with
    | inl hl => exact notMem l hl
    | inr hl => rw [List.mem_singleton.mp hl]; exact next.notMem
  · rw [replayLines_append lines [line] _ _ _ ne, ok, ok_bind, replayLines, require_of next.length_le,
      ok_bind, parse, ok_bind, require_of (Or.inl rfl), ok_bind, apply]
    rfl

/-- Replaying lines followed by a part of a line. -/
lemma Replays.replay_append {data : Bytes} {e : Engine} (replays : Replays data e) {tail : Bytes}
    (notMem : newline ∉ tail) (repair : Bool) :
    replay repair (data ++ tail) =
      if tail = [] ∨ repair = true then .ok (e, data)
      else raise .corrupt "incomplete JSONL tail; call init to recover" := by
  obtain ⟨lines, ne, rfl, notMem', ok⟩ := replays
  rw [replay, Lines.splitLines_join notMem' notMem]
  dsimp only
  rw [ok, ok_bind]
  split
  · rename_i accepted
    rw [require_of accepted, ok_bind, List.length_append, Nat.add_sub_cancel, List.take_left]
  · rename_i rejected
    rw [require, if_neg rejected]
    rfl

/-- A file that replays is replayed whole. -/
lemma Replays.replay_eq {data : Bytes} {e : Engine} (replays : Replays data e) (repair : Bool) :
    replay repair data = .ok (e, data) := by
  have whole := replays.replay_append (List.not_mem_nil (a := newline)) repair
  rwa [List.append_nil, if_pos (Or.inl rfl)] at whole

/-- A file that replays is not empty. -/
lemma Replays.ne_nil {data : Bytes} {e : Engine} (replays : Replays data e) : data ≠ [] := by
  obtain ⟨lines, ne, rfl, -⟩ := replays
  exact Lines.join_ne_nil ne

/-- An event with plain fields is plain. -/
lemma plain_eventFields {type : String} {fields : Fields} (names : List String)
    (keys : (fields.map Prod.fst).Sublist (names.map Str.lit))
    (nodup : ("version" :: "type" :: names).Nodup) (plain : Json.plainFields fields = true) :
    Json.plain (.obj (eventFields type fields)) = true := by
  have sub : ((eventFields type fields).map Prod.fst).Sublist
      (("version" :: "type" :: names).map Str.lit) := by
    rw [eventFields, List.map_cons, List.map_cons, List.map_cons, List.map_cons]
    exact .cons_cons _ (.cons_cons _ keys)
  rw [Json.plain, Bool.and_eq_true, decide_eq_true_eq]
  refine ⟨nodup_of_sublist sub nodup, ?_⟩
  simp only [eventFields, Json.plainFields, plain, Json.plain, Bool.and_true]
  decide

/-- The type of an event is read back. -/
lemma type_eventFields (type : String) (fields : Fields) :
    Fields.get (eventFields type fields) "type" = .str (Str.lit type) := by
  simp [Fields.get, eventFields]

/-- The event of an entry is plain. -/
lemma plain_entryEvent (entry : Entry) : Json.plain (.obj (entryEvent entry)) = true := by
  apply plain_eventFields ["entry"] (List.Sublist.refl _) (by decide)
  simp [Json.plainFields, plain_entryToWire]

/-- The event of an entry replays it. -/
lemma applyEvent_entryEvent (e : Engine) {entry : Entry} (lt : entry.seq < 2 ^ 64) :
    applyEvent e (entryEvent entry) = e.replayEntry entry := by
  have found : Json.get? (entryEvent entry) (Str.lit "entry") = some (entryToWire entry) := by
    simp [entryEvent, eventFields]
  rw [applyEvent, entryEvent, type_eventFields]
  simp only [isText]
  rw [← entryEvent, eventField, found, orRaise_some, ok_bind, entryFromWire_entryToWire _ lt]
  rfl

/-- The event of a commit is plain. -/
lemma plain_commitEvent (size : Str) (expected : Option Bytes) (delta : Delta) :
    Json.plain (.obj (commitEvent size expected delta)) = true := by
  apply plain_eventFields ["expected_size", "expected_checkpoint", "state"] ?_ (by decide)
  · simp only [Json.plainFields, plainFields_append, plain_stateToWire, Bool.and_eq_true]
    exact ⟨rfl, plainFields_field? (fun _ => rfl) _, trivial, trivial⟩
  · simp only [List.map_cons, List.map_append]
    exact .cons_cons _ ((keys_field? _ _ _).append (List.Sublist.refl _))

/-- A commit event is replayed as the delta commit it describes. -/
lemma applyEvent_commitEvent (e : Engine) {n : ℕ} (lt : n < 2 ^ 64) (expected : Option Bytes)
    (delta : Delta) :
    applyEvent e (commitEvent (formatDecimal n) expected delta) =
      e.commitCllDelta (natObj n) (optional .bytes expected) delta.toObj := by
  have state : Json.get? (commitEvent (formatDecimal n) expected delta) (Str.lit "state") =
      some (stateToWire delta) := by
    simp [commitEvent, eventFields]
  have size : Fields.get (commitEvent (formatDecimal n) expected delta) "expected_size" =
      .str (formatDecimal n) := by
    simp [commitEvent, eventFields, Fields.get]
  have checkpoint : Fields.get (commitEvent (formatDecimal n) expected delta) "expected_checkpoint" =
      (expected.map fun b => Json.str (encodeBytes b)).getD .null := by
    simp [commitEvent, eventFields, Fields.get]
  rw [applyEvent, commitEvent, type_eventFields]
  simp only [isText]
  rw [← commitEvent]
  show applyCommit e _ = _
  rw [applyCommit, eventField, state, orRaise_some, ok_bind, size,
    parseDecimal_formatDecimal _ lt, ok_bind, checkpoint,
    nullable_map .bytes (fun b => .str (encodeBytes b)) id (fun _ absent => by cases absent)
      (fun b => decodeBytes_encodeBytes _ b),
    ok_bind, stateFromWire_stateToWire, ok_bind]
  rfl

/-- The event of a witness is plain. -/
lemma plain_witnessEvent (attempts : Counter 0 maxAttempts) (w : WitnessState) :
    Json.plain (.obj (witnessEvent (attempts.1 : ℕ) w)) = true := by
  have small : attempts.1 < 2 ^ 64 := by
    have := attempts.2.2
    unfold maxAttempts at this
    omega
  apply plain_eventFields ["expected_attempts", "witness"] (List.Sublist.refl _) (by decide)
  simp [Json.plainFields, plain_nat small, plain_witnessToWire]

/-- A witness event is replayed as the commit it describes. -/
lemma applyEvent_witnessEvent (e : Engine) (attempts : Counter 0 maxAttempts) (w : WitnessState) :
    applyEvent e (witnessEvent (attempts.1 : ℕ) w) = e.commitWitness (natObj attempts.1) w.toObj := by
  have witness : Json.get? (witnessEvent (attempts.1 : ℕ) w) (Str.lit "witness") =
      some (witnessToWire w) := by
    simp [witnessEvent, eventFields]
  have expected : Fields.get (witnessEvent (attempts.1 : ℕ) w) "expected_attempts" =
      .int (attempts.1 : ℕ) := by
    simp [witnessEvent, eventFields, Fields.get]
  have range := counter_natObj attempts
  rw [applyEvent, witnessEvent, type_eventFields]
  simp only [isText]
  rw [← witnessEvent]
  show applyWitnessCommit e _ = _
  rw [applyWitnessCommit, eventField, witness, orRaise_some, ok_bind, expected, int?, orRaise_some,
    ok_bind]
  rw [natObj] at range
  rw [range, orRaise_some, ok_bind, witnessFromWire_witnessToWire, ok_bind]
  rfl

/-- The first event is plain. -/
lemma plain_initEvent : Json.plain (.obj initEvent) = true :=
  plain_eventFields [] (List.Sublist.refl _) (by decide) rfl

/-- The first event changes nothing. -/
lemma applyEvent_initEvent : applyEvent .empty initEvent = .ok .empty := by
  rw [applyEvent, initEvent, type_eventFields]
  simp only [isText]
  rw [← initEvent]
  show applyInit .empty _ = _
  rw [applyInit, require_of ⟨rfl, rfl⟩, ok_bind, require_of, ok_bind]
  simp [Fields.has, initEvent, eventFields]

namespace JsonlStore

/-- What a call on an open store does, whether or not its write fails. -/
inductive Effect (s : JsonlStore) (call : Option Fault → JsonlStore × Py Unit) : Prop where
  /-- It raises and changes nothing. -/
  | rejected (exc : Error) (same : ∀ fault, call fault = (s, .error exc))
  /-- It has nothing to write. -/
  | silent (same : ∀ fault, call fault = (s, .ok ()))
  /-- It writes a line, or fails and rolls back. -/
  | written (line : Bytes) (e : Engine) (isLine : IsLine s.engine line e)
      (ok : call none = (⟨s.file ++ (line ++ [newline]), e, s.closed⟩, .ok ()))
      (failed : ∀ fault, call (some fault) = s.rollback (line ++ [newline]) fault)

/-- An event is written, refused or torn. -/
lemma appendEvent_cases {s : JsonlStore} {e : Engine} {type : String} {fields : Fields}
    (plain : Json.plain (.obj (eventFields type fields)) = true)
    (apply : applyEvent s.engine (eventFields type fields) = .ok e) :
    (∃ exc, ∀ t : JsonlStore, ∀ fault, t.appendEvent (eventFields type fields) fault = (t, .error exc)) ∨
    ∃ line, IsLine s.engine line e ∧ ∀ t : JsonlStore,
      t.appendEvent (eventFields type fields) none =
        ({ t with file := t.file ++ (line ++ [newline]) }, .ok ()) ∧
      ∀ fault, t.appendEvent (eventFields type fields) (some fault) =
        t.rollback (line ++ [newline]) fault := by
  cases eq : dumps (.obj (eventFields type fields)) with
  | error exc => exact Or.inl ⟨exc, fun t fault => by rw [appendEvent, eq]⟩
  | ok text =>
    by_cases long : maxJournalEventBytes < (text ++ [newline]).length
    · refine Or.inl ⟨⟨.invalid, "JSONL event exceeds size limit"⟩, fun t fault => ?_⟩
      rw [appendEvent, eq]
      exact if_pos long
    · refine Or.inr ⟨text, isLine_dumps plain eq (not_lt.mp long) apply, fun t => ⟨?_, fun fault => ?_⟩⟩
      · rw [appendEvent, eq]
        exact if_neg long
      · rw [appendEvent, eq]
        exact if_neg long

/-- A failed write undoes the transition of the engine. -/
lemma restore_rollback {s : JsonlStore} {e : Engine} (older : s.engine.entries <+: e.entries)
    (encoded : Bytes) (fault : Fault) :
    ∃ t exc, ({ s with engine := e } : JsonlStore).rollback encoded fault = (t, .error exc) ∧
      s.rollback encoded fault = ({ t with engine := t.engine.restore s.engine.snapshot }, .error exc) := by
  have same : e.restore s.engine.snapshot = s.engine := Engine.restore_snapshot older
  unfold rollback
  cases fault.rollback with
  | done => exact ⟨_, _, rfl, by simp [same, raise]⟩
  | truncateFailed => exact ⟨_, _, rfl, by simp [same, raise]⟩
  | syncFailed => exact ⟨_, _, rfl, by simp [same, raise]⟩

/-- The calls of `_mutate` with an operation whose event is replayed as the operation. -/
lemma mutate_cases {α : Type} {s : JsonlStore} (opened : s.closed = false)
    {operation : Engine → Py (Engine × α)} {event : Engine → α → Py (Option Fields)}
    (spec : ∀ e result, operation s.engine = .ok (e, result) →
      (event e result = .ok none ∧ e = s.engine) ∨
      ∃ type fields, event e result = .ok (some (eventFields type fields)) ∧
        Json.plain (.obj (eventFields type fields)) = true ∧
        applyEvent s.engine (eventFields type fields) = .ok e ∧ s.engine.entries <+: e.entries) :
    Effect s fun fault => discard (s.mutate fault operation event) := by
  have open_ : ¬ s.closed = true := by rw [opened]; decide
  cases op : operation s.engine with
  | error exc =>
    refine .rejected exc fun fault => ?_
    rw [mutate, if_neg open_]
    simp only [op]
    rfl
  | ok p =>
    obtain ⟨e, result⟩ := p
    obtain ⟨silent, rfl⟩ | ⟨type, fields, writes, plain, apply, older⟩ := spec e result op
    · refine .silent fun fault => ?_
      rw [mutate, if_neg open_]
      simp only [op, silent]
      rfl
    · obtain ⟨exc, failed⟩ | ⟨line, isLine, append⟩ := appendEvent_cases plain apply
      · refine .rejected exc fun fault => ?_
        rw [mutate, if_neg open_]
        simp only [op, writes, failed]
        rw [Engine.restore_snapshot older]
        rfl
      · refine .written line e isLine ?_ fun fault => ?_
        · rw [mutate, if_neg open_]
          simp only [op, writes, (append _).1]
          rfl
        · obtain ⟨t, exc, torn, restored⟩ := restore_rollback older (line ++ [newline]) fault
          rw [mutate, if_neg open_, restored]
          simp only [op, writes, (append _).2, torn]
          rfl

/-- An append has the effect of its event, or none. -/
lemma append_cases {s : JsonlStore} (opened : s.closed = false) (input : Obj) :
    Effect s (s.step (.append input)) := by
  apply mutate_cases opened
  intro e result ok
  obtain ⟨idempotent, rfl, -⟩ | ⟨inserted, seq, width, fresh, le, rfl⟩ := Engine.append_eq_ok ok
  · exact Or.inl ⟨by simp [idempotent], rfl⟩
  · have small : result.entry.seq < 2 ^ 64 := by
      unfold maxPortableInteger at le
      omega
    refine Or.inr ⟨_, _, by rw [if_pos inserted]; rfl, plain_entryEvent result.entry, ?_, ?_⟩
    · exact (applyEvent_entryEvent _ small).trans (Engine.replayEntry_push seq width fresh le)
    · exact List.prefix_append _ _

/-- A commit has the effect of its event, or none. -/
lemma commitCll_cases {s : JsonlStore} (opened : s.closed = false)
    (expectedSize expectedCheckpoint next : Obj) :
    Effect s (s.step (.commitCll expectedSize expectedCheckpoint next)) := by
  apply mutate_cases opened
  intro e result ok
  obtain ⟨e', committed, eq⟩ := map_eq_ok.mp ok
  cases eq
  obtain ⟨state, applied, commit⟩ := bind_eq_ok.mp committed
  obtain ⟨n, added, expected, -⟩ := applyCll_eq_ok applied
  obtain ⟨size, bytes⟩ := checkExpected_eq_ok expected
  cases commit
  have lt := s.engine.state.size_lt
  have text : sizeText expectedSize = .ok (formatDecimal s.engine.state.size) := by
    have len : (Decimal.text s.engine.state.size).length ≤ 20 :=
      Decimal.length_text_le (by norm_num) (by omega)
    have short : (Decimal.text (s.engine.state.size : ℤ).natAbs).length ≤ Json.maxDigits := by
      rw [Int.natAbs_natCast]
      exact len.trans (by decide)
    rw [size, natObj, sizeText, if_pos short, Json.dumpInt, if_neg (by omega), Int.natAbs_natCast]
    rfl
  refine Or.inr ⟨_, _, ?_, plain_commitEvent (formatDecimal s.engine.state.size)
    s.engine.state.checkpointBytes (deltaSince s.engine.state state), ?_, ?_⟩
  · rw [text, ok_bind, bytes, ok_bind]
    rfl
  · have replayed := applyCllDelta_deltaSince applied (checkExpected_self s.engine.state)
    refine (applyEvent_commitEvent _ lt _ _).trans ?_
    rw [Engine.commitCllDelta, replayed, ok_bind]
  · exact List.prefix_rfl

/-- A witness commit has the effect of its event, or none. -/
lemma commitWitness_cases {s : JsonlStore} (opened : s.closed = false)
    (expectedAttempts next : Obj) :
    Effect s (s.step (.commitWitness expectedAttempts next)) := by
  apply mutate_cases opened
  intro e result ok
  obtain ⟨e', committed, eq⟩ := map_eq_ok.mp ok
  cases eq
  obtain ⟨w, attempts, valid, same, mem, entries, again⟩ :=
    Engine.commitWitness_eq_ok committed
  obtain ⟨witnessId, checkpointSize, idAttr, sizeAttr, key⟩ := checkWitnessKey_of_validateWitness valid
  have stored : e.getWitness witnessId checkpointSize = .ok (some w) := by
    rw [Engine.getWitness, key, ok_bind, find?_key e.state.nodup_keys mem]
  refine Or.inr ⟨_, _, ?_, plain_witnessEvent attempts w, ?_, ?_⟩
  · rw [storedWitnessEvent, idAttr, ok_bind, sizeAttr, ok_bind, stored, ok_bind, same]
    rfl
  · exact (applyEvent_witnessEvent _ attempts w).trans again
  · rw [entries]

/-- What a call on an open store does. -/
theorem step_cases {s : JsonlStore} (opened : s.closed = false) (m : Mutation) :
    Effect s (s.step m) := by
  cases m with
  | append input => exact append_cases opened input
  | commitCll expectedSize expectedCheckpoint next =>
    exact commitCll_cases opened expectedSize expectedCheckpoint next
  | commitWitness expectedAttempts next => exact commitWitness_cases opened expectedAttempts next

/-- A closed store takes no call. -/
lemma step_closed {s : JsonlStore} (closed : s.closed = true) (m : Mutation) (fault : Option Fault) :
    s.step m fault = (s, raise .closed "backend is closed") := by
  cases m with
  | append input => simp [step, append, mutate, closed, discard, raise, Except.map]
  | commitCll expectedSize expectedCheckpoint next =>
    simp [step, commitCll, mutate, closed, discard, raise, Except.map]
  | commitWitness expectedAttempts next =>
    simp [step, commitWitness, mutate, closed, discard, raise, Except.map]

/-- Opening a journal of complete lines followed by a part of a line. -/
lemma openJournal_of_replays {data : Bytes} {e : Engine} (replays : Replays data e) {tail : Bytes}
    (notMem : newline ∉ tail) (initializing : Bool) (fault : Option Fault) :
    openJournal initializing (data ++ tail) fault =
      if tail = [] ∨ initializing = true then (data, .ok ⟨data, e, false⟩)
      else (data ++ tail, raise .corrupt "incomplete JSONL tail; call init to recover") := by
  rw [openJournal, replays.replay_append notMem]
  by_cases accepted : tail = [] ∨ initializing = true
  · rw [if_pos accepted, if_pos accepted]
    exact if_pos replays.ne_nil
  · rw [if_neg accepted, if_neg accepted]
    rfl

/-- The line that initializes a journal. -/
lemma replays_init {text : Bytes} (ok : dumps (.obj initEvent) = .ok text)
    (short : ¬ maxJournalEventBytes < (text ++ [newline]).length) :
    Replays (text ++ [newline]) .empty := by
  have line := isLine_dumps plain_initEvent ok (not_lt.mp short) applyEvent_initEvent
  refine ⟨[text], by simp, by simp [Lines.join], ?_, ?_⟩
  · intro l hl
    rw [List.mem_singleton.mp hl]
    exact line.notMem
  · have kind : isText "cll.init" (Fields.get initEvent "type") = true := by
      rw [initEvent, type_eventFields]
      exact beq_self_eq_true _
    rw [replayLines, require_of line.length_le, ok_bind, parseLine_dumps plain_initEvent ok, ok_bind,
      ← initEvent, require_of (Or.inr kind), ok_bind, applyEvent_initEvent]
    rfl

/-- A new journal. -/
lemma replays_appendEvent_init {fault : Option Fault} {t : JsonlStore} {u : Unit}
    (wrote : appendEvent ⟨[], .empty, false⟩ initEvent fault = (t, .ok u)) :
    Replays t.file t.engine ∧ t.closed = false := by
  unfold appendEvent at wrote
  split at wrote
  · cases wrote
  · rename_i text ok
    dsimp only at wrote
    split at wrote
    · cases wrote
    · rename_i short
      split at wrote
      · cases wrote
        exact ⟨replays_init ok short, rfl⟩
      · rename_i f
        obtain ⟨t, exc, -, torn⟩ := restore_rollback (s := ⟨[], .empty, false⟩) (e := .empty)
          List.prefix_rfl (text ++ [newline]) f
        rw [torn] at wrote
        cases wrote

/-- A store that was opened has a journal that replays to its engine. -/
lemma replays_of_openJournal {initializing : Bool} {data file : Bytes} {fault : Option Fault}
    {s : JsonlStore} (opened : openJournal initializing data fault = (file, .ok s)) :
    Replays s.file s.engine ∧ s.closed = false := by
  unfold openJournal at opened
  cases replayed : replay initializing data with
  | error exc => rw [replayed] at opened; cases opened
  | ok p =>
    obtain ⟨e, rest⟩ := p
    rw [replayed] at opened
    obtain ⟨e', lines, replayed⟩ := bind_eq_ok.mp replayed
    obtain ⟨_, -, replayed⟩ := bind_eq_ok.mp replayed
    cases replayed
    have cut := Lines.join_splitLines newline data
    have notMem := (Lines.notMem_splitLines newline data).1
    generalize (Lines.splitLines newline data).1 = complete at cut notMem lines
    generalize (Lines.splitLines newline data).2 = tail at cut opened
    have rest : data.take (data.length - tail.length) = Lines.join newline complete := by
      rw [← cut, List.length_append, Nat.add_sub_cancel, List.take_left]
    rw [rest] at opened
    dsimp only at opened
    split at opened
    · rename_i ne
      cases opened
      refine ⟨⟨complete, ?_, rfl, notMem, lines⟩, rfl⟩
      rintro rfl
      exact ne rfl
    · rename_i empty
      obtain rfl : complete = [] := by
        by_contra ne
        exact empty (Lines.join_ne_nil ne)
      cases lines
      split at opened
      · cases opened
      · have none : Lines.join newline [] = ([] : Bytes) := rfl
        rw [none] at opened
        cases wrote : appendEvent ⟨[], .empty, false⟩ initEvent fault with
        | mk t result =>
          cases result with
          | error exc => rw [wrote] at opened; cases opened
          | ok u =>
            rw [wrote] at opened
            cases opened
            exact replays_appendEvent_init wrote

/-- `torn` is what one of the calls left behind `durable` when neither its write nor the truncation after it
succeeded: the first bytes of the event line that the same call appends when its write does not fail. -/
def TornBy (s : JsonlStore) (calls : List (Mutation × Option Fault)) (durable torn : Bytes) : Prop :=
  ∃ before m fault after, calls = before ++ (m, some fault) :: after ∧ fault.rollback = .truncateFailed ∧
    ∃ line e, IsLine (s.run before).engine line e ∧
      ((s.run before).step m none).1 = ⟨durable ++ (line ++ [newline]), e, false⟩ ∧
      torn = (line ++ [newline]).take fault.written

/-- The journal of a store after some calls: lines that replay to its engine, and what a failed truncation
left of the next line. -/
def Journaled (s : JsonlStore) (calls : List (Mutation × Option Fault)) : Prop :=
  ∃ durable torn, (s.run calls).file = durable ++ torn ∧ Replays durable (s.run calls).engine ∧
    (torn ≠ [] → (s.run calls).closed = true ∧ TornBy s calls durable torn)

/-- A call keeps the journal of an open store complete, unless the truncation of a failed write fails. -/
lemma replays_step {s : JsonlStore} (replays : Replays s.file s.engine) (opened : s.closed = false)
    (m : Mutation) {fault : Option Fault} (rolls : ∀ f ∈ fault, f.rollback ≠ .truncateFailed) :
    Replays (s.step m fault).1.file (s.step m fault).1.engine := by
  cases step_cases opened m with
  | rejected exc same => rw [same]; exact replays
  | silent same => rw [same]; exact replays
  | written line e isLine ok failed =>
    cases fault with
    | none => rw [ok]; exact replays.snoc isLine
    | some f =>
      rw [failed, rollback]
      cases how : f.rollback with
      | done => simpa using replays
      | syncFailed => simpa using replays
      | truncateFailed => exact absurd how (rolls f rfl)

/-- No call changes a closed store. -/
lemma run_closed {s : JsonlStore} (closed : s.closed = true) (calls : List (Mutation × Option Fault)) :
    s.run calls = s := by
  induction calls with
  | nil => rfl
  | cons call calls ih =>
    show (s.step call.1 call.2).1.run calls = s
    rw [step_closed closed]
    exact ih

/-- A journal of which no call has torn a line yet. -/
lemma journaled_of_replays {s : JsonlStore} {calls : List (Mutation × Option Fault)}
    (replays : Replays (s.run calls).file (s.run calls).engine) : Journaled s calls :=
  ⟨_, [], (List.append_nil _).symm, replays, fun ne => absurd rfl ne⟩

/-- A line that was torn by a later call was torn by one of all the calls. -/
lemma Journaled.cons {s : JsonlStore} {call : Mutation × Option Fault}
    {calls : List (Mutation × Option Fault)} (rest : Journaled (s.step call.1 call.2).1 calls) :
    Journaled s (call :: calls) := by
  obtain ⟨durable, torn, file, replays, left⟩ := rest
  refine ⟨durable, torn, file, replays, fun ne => ?_⟩
  obtain ⟨closed, before, m, fault, after, split, fails, line, e, isLine, appends, part⟩ := left ne
  exact ⟨closed, call :: before, m, fault, after, congrArg _ split, fails, line, e, isLine, appends, part⟩

/-- The journal of a store after any calls with any failing writes. -/
theorem journaled_run {s : JsonlStore} (replays : Replays s.file s.engine)
    (calls : List (Mutation × Option Fault)) : Journaled s calls := by
  induction calls generalizing s with
  | nil => exact journaled_of_replays replays
  | cons call calls ih =>
    obtain ⟨m, fault⟩ := call
    cases closed : s.closed with
    | true =>
      have same : s.run ((m, fault) :: calls) = s := run_closed closed _
      exact journaled_of_replays (by rw [same]; exact replays)
    | false =>
      by_cases rolls : ∀ f ∈ fault, f.rollback ≠ .truncateFailed
      · exact (ih (replays_step replays closed m rolls)).cons
      · simp only [not_forall, not_not] at rolls
        obtain ⟨f, hf, fails⟩ := rolls
        cases hf
        cases step_cases closed m with
        | rejected exc same => exact Journaled.cons (ih (by rw [same]; exact replays))
        | silent same => exact Journaled.cons (ih (by rw [same]; exact replays))
        | written line e isLine ok failed =>
          -- The truncation fails, the store is closed, and no later call changes it.
          have after : (s.step m (some f)).1 =
              ⟨s.file ++ (line ++ [newline]).take f.written, s.engine, true⟩ := by
            rw [failed, rollback, fails]
          have run : s.run ((m, some f) :: calls) =
              ⟨s.file ++ (line ++ [newline]).take f.written, s.engine, true⟩ := by
            show (s.step m (some f)).1.run calls = _
            rw [after]
            exact run_closed rfl calls
          have appends : (s.step m none).1 = ⟨s.file ++ (line ++ [newline]), e, false⟩ := by
            rw [ok, closed]
          refine ⟨s.file, (line ++ [newline]).take f.written, ?_, ?_, fun _ => ⟨?_, ?_⟩⟩
          · rw [run]
          · rw [run]
            exact replays
          · rw [run]
          · exact ⟨[], m, f, calls, rfl, fails, line, e, isLine, appends, rfl⟩

/-- The journal of a store after any calls of which no truncation failed. -/
theorem replays_run {s : JsonlStore} (replays : Replays s.file s.engine)
    (calls : List (Mutation × Option Fault))
    (rolls : ∀ call ∈ calls, ∀ f ∈ call.2, f.rollback ≠ .truncateFailed) :
    Replays (s.run calls).file (s.run calls).engine := by
  induction calls generalizing s with
  | nil => exact replays
  | cons call calls ih =>
    refine ih ?_ fun c hc => rolls c (List.mem_cons_of_mem _ hc)
    show Replays (s.step call.1 call.2).1.file (s.step call.1 call.2).1.engine
    cases closed : s.closed with
    | true => rw [step_closed closed]; exact replays
    | false => exact replays_step replays closed call.1 (rolls call List.mem_cons_self)

/-- The first bytes of a line hold no line feed. -/
lemma notMem_of_prefix_of_ne {line : Bytes} (notMem : newline ∉ line) {tail : Bytes}
    (part : tail <+: line ++ [newline]) (ne : tail ≠ line ++ [newline]) : newline ∉ tail := by
  cases List.prefix_concat_iff.mp part with
  | inl whole => exact absurd whole ne
  | inr part => exact fun mem => notMem (part.subset mem)

/-- A call whose write does not fail: it changes nothing or appends a line. -/
lemma step_none (s : JsonlStore) (m : Mutation) :
    (s.step m none).1 = s ∨ ∃ line e, IsLine s.engine line e ∧ s.closed = false ∧
      (s.step m none).1 = ⟨s.file ++ (line ++ [newline]), e, false⟩ := by
  cases closed : s.closed with
  | true => exact Or.inl (by rw [step_closed closed])
  | false =>
    cases step_cases closed m with
    | rejected exc same => exact Or.inl (by rw [same])
    | silent same => exact Or.inl (by rw [same])
    | written line e isLine ok failed => exact Or.inr ⟨line, e, isLine, rfl, by rw [ok, closed]⟩

/-- The file only grows. -/
lemma file_prefix_runAll (s : JsonlStore) (ms : List Mutation) : s.file <+: (s.runAll ms).file := by
  induction ms generalizing s with
  | nil => exact List.prefix_rfl
  | cons m ms ih =>
    have later := ih (s.step m none).1
    have here : s.file <+: (s.step m none).1.file := by
      obtain same | ⟨line, e, -, -, eq⟩ := step_none s m
      · rw [same]
      · rw [eq]
        exact List.prefix_append _ _
    exact here.trans later

/-- Any part of a journal that holds the bytes of an earlier store is the journal after some of the calls,
followed by a part of the next line. -/
theorem cut_runAll {s : JsonlStore} (replays : Replays s.file s.engine) (opened : s.closed = false)
    (ms : List Mutation) {p : Bytes} (lower : s.file <+: p) (upper : p <+: (s.runAll ms).file) :
    ∃ k ≤ ms.length, ∃ tail, newline ∉ tail ∧ p = (s.runAll (ms.take k)).file ++ tail ∧
      Replays (s.runAll (ms.take k)).file (s.runAll (ms.take k)).engine ∧
      (s.runAll (ms.take k)).closed = false ∧
      ∀ j ≤ ms.length, (s.runAll (ms.take j)).file <+: p → j ≤ k := by
  induction ms generalizing s with
  | nil =>
    have same : p = s.file := (upper.eq_of_length_le lower.length_le)
    exact ⟨0, le_rfl, [], by simp, by rw [same]; exact (List.append_nil _).symm, replays, opened,
      fun j hj _ => hj⟩
  | cons m ms ih =>
    have grows := file_prefix_runAll (s.step m none).1
    -- The cut is after the first mutation, or inside the line that it wrote.
    by_cases whole : (s.step m none).1.file <+: p
    · have next : Replays (s.step m none).1.file (s.step m none).1.engine ∧
          (s.step m none).1.closed = false := by
        obtain same | ⟨line, e, isLine, -, eq⟩ := step_none s m
        · rw [same]
          exact ⟨replays, opened⟩
        · rw [eq]
          exact ⟨replays.snoc isLine, rfl⟩
      obtain ⟨k, le, tail, notMem, cut, replays', opened', last⟩ := ih next.1 next.2 whole upper
      refine ⟨k + 1, Nat.succ_le_succ le, tail, notMem, cut, replays', opened', ?_⟩
      intro j hj inside
      cases j with
      | zero => exact Nat.zero_le _
      | succ j => exact Nat.succ_le_succ (last j (Nat.le_of_succ_le_succ hj) inside)
    · obtain same | ⟨line, e, isLine, -, eq⟩ := step_none s m
      · rw [same] at whole
        exact absurd lower whole
      · have file : (s.step m none).1.file = s.file ++ (line ++ [newline]) := by rw [eq]
        obtain ⟨tail, rfl⟩ := lower
        have part : s.file ++ tail <+: (s.step m none).1.file := by
          cases List.prefix_or_prefix_of_prefix upper (grows ms) with
          | inl part => exact part
          | inr beyond => exact absurd beyond whole
        have part' := part
        rw [file, List.prefix_append_right_inj] at part'
        refine ⟨0, Nat.zero_le _, tail, ?_, rfl, replays, opened, ?_⟩
        · apply notMem_of_prefix_of_ne isLine.notMem part'
          rintro rfl
          rw [← file] at whole
          exact whole List.prefix_rfl
        · intro j hj inside
          cases j with
          | zero => exact le_rfl
          | succ j => exact absurd ((grows (ms.take j)).trans inside) whole

/-- After any calls with any failing writes, the journal is lines that replay to the engine, followed by
nothing unless a truncation failed, and then by the first bytes of the line of the call that failed; and the
delta of every commit reads back from its wire form and replays the commit. -/
theorem replay_run {initializing : Bool} {data file : Bytes} {fault : Option Fault} {s : JsonlStore}
    (opened : openJournal initializing data fault = (file, .ok s))
    (calls : List (Mutation × Option Fault)) :
    ((∀ call ∈ calls, ∀ f ∈ call.2, f.rollback ≠ .truncateFailed) →
      replay false (s.run calls).file = .ok ((s.run calls).engine, (s.run calls).file)) ∧
    (∃ durable torn, (s.run calls).file = durable ++ torn ∧
      replay false durable = .ok ((s.run calls).engine, durable) ∧
      (torn ≠ [] → (s.run calls).closed = true ∧ TornBy s calls durable torn)) ∧
    ∀ (current s' : CllState) (expectedSize expectedCheckpoint next : Obj),
      applyCll current expectedSize expectedCheckpoint next = .ok s' →
      ∃ delta, stateFromWire .corrupt (stateToWire (deltaSince current s')) = .ok delta ∧
        applyCllDelta current expectedSize expectedCheckpoint delta = .ok s' := by
  obtain ⟨replays, -⟩ := replays_of_openJournal opened
  refine ⟨fun rolls => ?_, ?_, ?_⟩
  · exact (replays_run replays calls rolls).replay_eq false
  · obtain ⟨durable, torn, eq, lines, left⟩ := journaled_run replays calls
    exact ⟨durable, torn, eq, lines.replay_eq false, left⟩
  · intro current s' expectedSize expectedCheckpoint next ok
    obtain ⟨n, added, expected, -⟩ := applyCll_eq_ok ok
    exact ⟨_, stateFromWire_stateToWire .corrupt _, applyCllDelta_deltaSince ok expected⟩

/-- The line of `init`. -/
def initLine : Bytes :=
  [123, 34, 118, 101, 114, 115, 105, 111, 110, 34, 58, 52, 44, 34, 116, 121, 112, 101, 34, 58, 34, 99,
    108, 108, 46, 105, 110, 105, 116, 34, 125, 10]

/-- The store of a new journal. -/
def newStore : JsonlStore := ⟨initLine, .empty, false⟩

/-- A new journal is its first line. -/
lemma openJournal_new : openJournal true [] none = (initLine, .ok newStore) := by
  have text : dumps (.obj initEvent) = .ok initLine.dropLast := by decide +kernel
  have empty : replay true [] = .ok (.empty, []) := rfl
  rw [openJournal, empty]
  dsimp only
  rw [if_neg (by simp), if_neg (by decide), appendEvent, text]
  rfl

/-- An append of a new value. -/
def sampleAppend : Mutation :=
  .append (appendInputObj (.bytes (List.replicate 32 7)) (timeObj ⟨0, by decide⟩))

/-- A write that stops after one byte, which the rollback does not remove. -/
def tornCall : Mutation × Option Fault := (sampleAppend, some ⟨1, .truncateFailed⟩)

/-- Two appends of one value are replayed. -/
theorem replay_run_sample :
    replay false (newStore.run [(sampleAppend, some ⟨1, .done⟩), (sampleAppend, none)]).file =
      .ok ((newStore.run [(sampleAppend, some ⟨1, .done⟩), (sampleAppend, none)]).engine,
        (newStore.run [(sampleAppend, some ⟨1, .done⟩), (sampleAppend, none)]).file) := by
  apply (replay_run openJournal_new _).1
  intro call hcall f hf
  simp only [List.mem_cons, List.not_mem_nil, or_false] at hcall
  rcases hcall with rfl | rfl
  · cases hf
    decide
  · cases hf

/-- A truncation that fails leaves a journal that does not replay. -/
theorem replay_torn : openJournal true [] none = (initLine, .ok newStore) ∧
    replay false (newStore.run [tornCall]).file =
      raise .corrupt "incomplete JSONL tail; call init to recover" := by
  have file : (newStore.run [tornCall]).file = initLine ++ [123] := by decide +kernel
  obtain ⟨replays, -⟩ := replays_of_openJournal openJournal_new
  refine ⟨openJournal_new, ?_⟩
  rw [file]
  exact replays.replay_append (by decide) false

/-- Opening any part of a journal, and what a failed write leaves. -/
theorem crash_atomic {initializing : Bool} {data file : Bytes} {fault : Option Fault} {s : JsonlStore}
    (opened : openJournal initializing data fault = (file, .ok s)) (ms : List Mutation) :
    (∀ p, s.file <+: p → p <+: (s.runAll ms).file → ∃ k ≤ ms.length,
      (s.runAll (ms.take k)).file <+: p ∧
      (∀ j ≤ ms.length, (s.runAll (ms.take j)).file <+: p → j ≤ k) ∧
      openJournal true p none =
        ((s.runAll (ms.take k)).file, .ok (s.runAll (ms.take k))) ∧
      (p ≠ (s.runAll (ms.take k)).file → openJournal false p none =
        (p, raise .corrupt "incomplete JSONL tail; call init to recover"))) ∧
    ∀ (t : JsonlStore) (m : Mutation) (f : Fault), (t.step m none).1.file ≠ t.file →
      (∃ exc, (t.step m (some f)).2 = .error exc) ∧
      (t.step m (some f)).1.engine = t.engine ∧
      (f.rollback ≠ .truncateFailed → (t.step m (some f)).1.file = t.file) ∧
      (f.rollback ≠ .done → ∀ m' fault', (t.step m (some f)).1.step m' fault' =
        ((t.step m (some f)).1, raise .closed "backend is closed")) := by
  constructor
  · intro p lower upper
    obtain ⟨replays, open_⟩ := replays_of_openJournal opened
    obtain ⟨k, le, tail, notMem, rfl, replays', open', last⟩ := cut_runAll replays open_ ms lower upper
    refine ⟨k, le, List.prefix_append _ _, last, ?_, ?_⟩
    · rw [openJournal_of_replays replays' notMem, if_pos (Or.inr rfl), ← open']
    · intro ne
      rw [openJournal_of_replays replays' notMem, if_neg]
      rintro (rfl | h)
      · exact ne (List.append_nil _)
      · cases h
  · intro t m f writes
    have open_ : t.closed = false := by
      by_contra closed
      rw [Bool.not_eq_false] at closed
      rw [step_closed closed] at writes
      exact writes rfl
    cases step_cases open_ m with
    | rejected exc same => rw [same] at writes; exact absurd rfl writes
    | silent same => rw [same] at writes; exact absurd rfl writes
    | written line e isLine ok failed =>
      rw [failed, rollback]
      cases how : f.rollback with
      | done => exact ⟨⟨_, rfl⟩, rfl, fun _ => by simp, fun ne => absurd rfl ne⟩
      | truncateFailed =>
        exact ⟨⟨_, rfl⟩, rfl, fun ne => absurd rfl ne, fun _ m' fault' => step_closed rfl m' fault'⟩
      | syncFailed =>
        exact ⟨⟨_, rfl⟩, rfl, fun _ => by simp, fun _ m' fault' => step_closed rfl m' fault'⟩

/-- A crash in the middle of the line of an append. -/
theorem crash_atomic_sample :
    openJournal true (initLine ++ [123]) none = (initLine, .ok newStore) := by
  have upper : initLine ++ [123] <+: (newStore.runAll [sampleAppend]).file := by decide +kernel
  have beyond : ¬ (newStore.runAll [sampleAppend]).file <+: initLine ++ [123] := by decide +kernel
  obtain ⟨k, le, inside, -, repaired, -⟩ :=
    (crash_atomic openJournal_new [sampleAppend]).1 (initLine ++ [123]) (List.prefix_append _ _) upper
  cases k with
  | zero => exact repaired
  | succ k =>
    obtain rfl : k = 0 := by simpa using le
    exact absurd inside beyond

end JsonlStore

end CLL.Log
