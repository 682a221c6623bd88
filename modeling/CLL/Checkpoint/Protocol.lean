import CLL.Checkpoint.Delivery
import CLL.Checkpoint.Indexing

/-!
# Checkpoint runners that share a log

The checkpoint runners of a `System` with one key and one configuration. `Timeline` keeps the checkpoints that the
store has held. A runner computes its transition from what it loaded; the commit compares the bytes of the latest
checkpoint, which tell that checkpoint (`Certified.unique`), so what it computed follows the latest one.
`checkpoints_certified` says what holds of every state that is reached.
-/

namespace CLL.Checkpoint
open CLL.Core CLL.Log CLL.Run

variable {verify : Bytes → Bytes → Bytes → Bool} (P : Packages) (H : HashFunction) (key : KeyPair verify)
  (cfg : RunnerConfig)

/-- The latest checkpoint of the store. -/
def System.latest (s : System verify) : Option StoredCheckpoint := s.engine.state.checkpoint.map loadedCheckpoint

/-- A system and the checkpoints that its store has held, the latest one first. -/
structure Timeline (verify : Bytes → Bytes → Bytes → Bool) where
  system : System verify
  checkpoints : List StoredCheckpoint

/-- The timeline of a store on which nobody has been at work. -/
def Timeline.init : Timeline verify := ⟨.init, []⟩

/-- The timeline after a step to `t`. -/
def Timeline.next (h : Timeline verify) (t : System verify) : Timeline verify :=
  ⟨t, if t.latest = h.system.latest then h.checkpoints else t.latest.toList ++ h.checkpoints⟩

def Timeline.step (h : Timeline verify) (event : Event verify) : Timeline verify := h.next (h.system.step P H event)

/-- A checkpoint runner has this key and this configuration. -/
def Event.Shares : Event verify → Prop
  | .load _ key' cfg' _ => key' = key ∧ cfg' = cfg
  | _ => True

/-- Every checkpoint is certified after the one that follows it in the list. -/
def Chain (entries : List Entry) : List StoredCheckpoint → Prop
  | [] => True
  | c :: older => Certified P H key cfg entries older.head? c ∧ Chain entries older

/-- What a pass of a runner relies on of the log. -/
structure Honest (entries : List Entry) (p : Pass verify) : Prop where
  sameKey : p.key = key
  sameCfg : p.cfg = cfg
  indexes : Indexes H entries p.loaded
  certified : ∀ c ∈ p.loaded.checkpoint, ∃ first, Certified P H key cfg entries first c
  built : ∀ next ∈ p.built, Builds P H key cfg entries p.now p.loaded next

/-- The invariant of a timeline. -/
structure Consistent (h : Timeline verify) : Prop where
  indexes : Indexes H h.system.engine.entries (loadedState h.system.engine.state)
  latest : h.checkpoints.head? = h.system.latest
  chain : Chain P H key cfg h.system.engine.entries h.checkpoints
  rows : ∀ c ∈ h.checkpoints, ∀ id ∈ cfg.witnessIds, ∃ row ∈ h.system.engine.state.witnesses,
    row.key = (id, c.size) ∧ row.checkpoint.1 = c.bytes
  only : ∀ row ∈ h.system.engine.state.witnesses, row.witnessId ∈ cfg.witnessIds ∧
    ∃ c ∈ h.checkpoints, row.checkpointSize.1 = c.size ∧ row.checkpoint.1 = c.bytes
  passes : ∀ i, ∀ p ∈ h.system.passes i, Honest P H key cfg h.system.engine.entries p

variable {P H key cfg}

/-- The bytes of a certified checkpoint tell it. -/
lemma Certified.unique {entries : List Entry} {prev prev' : Option StoredCheckpoint} {c d : StoredCheckpoint}
    (hc : Certified P H key cfg entries prev c) (hd : Certified P H key cfg entries prev' d)
    (bytes : c.bytes = d.bytes) : c = d := by
  obtain ⟨decoded, -, -, accepted, -, -, size, peaks, -⟩ := hc.signed
  obtain ⟨decoded', -, -, accepted', -, -, size', peaks', -⟩ := hd.signed
  rw [bytes] at accepted
  cases accepted.symm.trans accepted'
  have sameSize : c.size = d.size := Int.ofNat.inj (size.symm.trans size')
  have sameSeq : c.indexedSeq = d.indexedSeq :=
    PostOrder.forestSize_strictMono.injective (hc.size.symm.trans (sameSize.trans hd.size))
  have samePeaks := peaks.symm.trans peaks'
  cases c
  cases d
  cases bytes
  cases sameSize
  cases sameSeq
  cases samePeaks
  rfl

/-- A chain of checkpoints stays one. -/
lemma Chain.mono {entries later : List Entry} {cs : List StoredCheckpoint} (chain : Chain P H key cfg entries cs)
    (older : entries <+: later) : Chain P H key cfg later cs := by
  induction cs with
  | nil => trivial
  | cons c cs ih => exact ⟨chain.1.mono older, ih chain.2⟩

/-- The latest checkpoint of a chain is certified. -/
lemma Chain.head {entries : List Entry} {cs : List StoredCheckpoint} (chain : Chain P H key cfg entries cs) :
    ∀ c ∈ cs.head?, ∃ first, Certified P H key cfg entries first c := by
  cases cs with
  | nil =>
    intro c hc
    cases hc
  | cons c cs =>
    intro d hd
    cases hd
    exact ⟨_, chain.1⟩

/-- A checkpoint of a chain is larger than all before it. -/
lemma Chain.sizes {entries : List Entry} {cs : List StoredCheckpoint} (chain : Chain P H key cfg entries cs) :
    cs.Pairwise fun newer older => older.size < newer.size := by
  induction cs with
  | nil => exact List.Pairwise.nil
  | cons c cs ih =>
    have below := ih chain.2
    refine List.pairwise_cons.mpr ⟨fun d hd => ?_, below⟩
    cases cs with
    | nil => cases hd
    | cons first cs =>
      have after : first.indexedSeq < c.indexedSeq := chain.1.after
      have lt : first.size < c.size := by
        rw [chain.1.size, chain.2.1.size]
        exact PostOrder.forestSize_strictMono after
      rcases List.mem_cons.mp hd with e | rest
      · rw [e]
        exact lt
      · exact ((List.pairwise_cons.mp below).1 d rest).trans lt

/-- What a pass builds stays what it builds. -/
lemma Builds.mono {entries later : List Entry} {now : Time} {state next : Snapshot}
    (builds : Builds P H key cfg entries now state next) (older : entries <+: later) :
    Builds P H key cfg later now state next := by
  refine ⟨builds.indexes.mono older, ?_⟩
  rcases builds.checkpoint with same | ⟨c, hc, certified, rows⟩
  · exact Or.inl same
  · exact Or.inr ⟨c, hc, certified.mono older, rows⟩

/-- An honest pass stays honest. -/
lemma Honest.mono {entries later : List Entry} {p : Pass verify} (honest : Honest P H key cfg entries p)
    (older : entries <+: later) : Honest P H key cfg later p := by
  refine ⟨honest.sameKey, honest.sameCfg, honest.indexes.mono older, fun c hc => ?_,
    fun next hnext => (honest.built next hnext).mono older⟩
  obtain ⟨first, certified⟩ := honest.certified c hc
  exact ⟨first, certified.mono older⟩

/-- The invariant after a step that changes neither the tree nor the latest checkpoint, and of the rows neither the
keys nor the checkpoints. -/
lemma Consistent.same {h : Timeline verify} (consistent : Consistent P H key cfg h) {t : System verify}
    (older : h.system.engine.entries <+: t.engine.entries)
    (indexes : Indexes H t.engine.entries (loadedState t.engine.state)) (latest : t.latest = h.system.latest)
    (kept : ∀ row ∈ h.system.engine.state.witnesses, ∃ row' ∈ t.engine.state.witnesses,
      row'.key = row.key ∧ row'.checkpoint = row.checkpoint)
    (of : ∀ row' ∈ t.engine.state.witnesses, ∃ row ∈ h.system.engine.state.witnesses,
      row'.key = row.key ∧ row'.checkpoint = row.checkpoint)
    (passes : ∀ i, ∀ p ∈ t.passes i, Honest P H key cfg t.engine.entries p) :
    Consistent P H key cfg (h.next t) := by
  have checkpoints : (h.next t).checkpoints = h.checkpoints := if_pos latest
  refine ⟨indexes, ?_, ?_, fun c hc id hid => ?_, fun row hrow => ?_, passes⟩
  · rw [checkpoints, consistent.latest]
    exact latest.symm
  · rw [checkpoints]
    exact consistent.chain.mono older
  · rw [checkpoints] at hc
    obtain ⟨row, hrow, rowKey, bytes⟩ := consistent.rows c hc id hid
    obtain ⟨row', hrow', key', checkpoint⟩ := kept row hrow
    exact ⟨row', hrow', key'.trans rowKey, by rw [checkpoint, bytes]⟩
  · obtain ⟨row', hrow', rowKey, checkpoint⟩ := of row hrow
    obtain ⟨configured, c, hc, size, bytes⟩ := consistent.only row' hrow'
    rw [checkpoints]
    refine ⟨?_, c, hc, (congrArg Prod.snd rowKey).trans size, by rw [checkpoint, bytes]⟩
    rw [show row.witnessId = row'.witnessId from congrArg Prod.fst rowKey]
    exact configured

/-- The invariant after a step that leaves the store alone. -/
lemma Consistent.quiet {h : Timeline verify} (consistent : Consistent P H key cfg h) {t : System verify}
    (same : t.engine = h.system.engine) (passes : ∀ i, ∀ p ∈ t.passes i, Honest P H key cfg t.engine.entries p) :
    Consistent P H key cfg (h.next t) := by
  obtain ⟨e, passes', deliveries, submitted⟩ := t
  cases same
  exact consistent.same (List.prefix_refl _) consistent.indexes rfl (fun row hrow => ⟨row, hrow, rfl, rfl⟩)
    (fun row hrow => ⟨row, hrow, rfl, rfl⟩) passes

/-- An append keeps the timeline consistent. -/
lemma consistent_append {h : Timeline verify} (consistent : Consistent P H key cfg h) (input : Obj) :
    Consistent P H key cfg (h.step P H (.append input)) := by
  unfold Timeline.step System.step System.append
  dsimp only
  split
  · rename_i e result ok
    have older : h.system.engine.entries <+: e.entries := (Object.extends_append ok).entries
    have same := append_state ok
    refine consistent.same older ?_ ?_ ?_ ?_ fun i p hp => (consistent.passes i p hp).mono older
    · show Indexes H e.entries (loadedState e.state)
      rw [same]
      exact consistent.indexes.mono older
    · show e.state.checkpoint.map loadedCheckpoint = _
      rw [same]
      rfl
    · show ∀ row ∈ h.system.engine.state.witnesses, ∃ row' ∈ e.state.witnesses, _
      rw [same]
      exact fun row hrow => ⟨row, hrow, rfl, rfl⟩
    · show ∀ row ∈ e.state.witnesses, ∃ row' ∈ h.system.engine.state.witnesses, _
      rw [same]
      exact fun row hrow => ⟨row, hrow, rfl, rfl⟩
  · exact consistent.quiet rfl consistent.passes

/-- A load keeps the timeline consistent. -/
lemma consistent_load {h : Timeline verify} (consistent : Consistent P H key cfg h) {i : ℕ} {key' : KeyPair verify}
    {cfg' : RunnerConfig} {now : Obj} (shares : (Event.load i key' cfg' now).Shares key cfg) :
    Consistent P H key cfg (h.step P H (.load i key' cfg' now)) := by
  refine consistent.quiet rfl (forall_update consistent.passes _ fun p hp => ?_)
  obtain ⟨rfl, rfl⟩ := shares
  obtain ⟨now', rfl⟩ := beginPass_eq_ok (mem_toOption hp)
  refine ⟨rfl, rfl, consistent.indexes, fun c hc => consistent.chain.head c ?_, fun next hnext => by cases hnext⟩
  rw [consistent.latest]
  exact hc

/-- The entries that a pass scans follow those that it has indexed. -/
lemma scanNext_extends {e : Engine} {state : Snapshot} {scanned : List Entry}
    (ok : scanNext cfg e state = .ok scanned) : scanned <+: e.entries.drop state.indexedSeq := by
  obtain ⟨⟨afterSeq, limit⟩, checked, ok⟩ := bind_eq_ok.mp ok
  obtain ⟨afterSeq', hafter, checked⟩ := bind_eq_ok.mp checked
  obtain ⟨limit', -, checked⟩ := bind_eq_ok.mp checked
  cases checked
  cases ok
  rw [counter_natObj_eq_some (orRaise_eq_ok.mp hafter)]
  exact List.take_prefix _ _

/-- An advance keeps the timeline consistent. -/
lemma consistent_advance (lawful : P.Lawful verify) {h : Timeline verify} (consistent : Consistent P H key cfg h)
    (i : ℕ) : Consistent P H key cfg (h.step P H (.advance i)) := by
  unfold Timeline.step System.step System.advance
  dsimp only
  split
  · exact consistent.quiet rfl consistent.passes
  · rename_i p hp
    have honest := consistent.passes i p hp
    refine consistent.quiet rfl (forall_update consistent.passes _ fun q hq => ?_)
    obtain ⟨entries, next, scanned, built, rfl⟩ := Pass.advance_eq_ok (mem_toOption (Option.join_eq_some_iff.mp hq))
    refine ⟨honest.sameKey, honest.sameCfg, honest.indexes, honest.certified, fun n hn => ?_⟩
    cases hn
    obtain ⟨passKey, passCfg, now, loaded, before⟩ := p
    obtain rfl : passKey = key := honest.sameKey
    obtain rfl : passCfg = cfg := honest.sameCfg
    exact advance_builds lawful honest.indexes honest.certified (scanNext_extends scanned) built

/-- A commit is accepted only by the checkpoint that the runner had loaded: its bytes are compared. -/
lemma Consistent.loaded_eq {h : Timeline verify} (consistent : Consistent P H key cfg h) {loaded : Snapshot}
    (certified : ∀ c ∈ loaded.checkpoint, ∃ first, Certified P H key cfg h.system.engine.entries first c)
    (expected : loaded.checkpoint.map StoredCheckpoint.bytes = h.system.latest.map StoredCheckpoint.bytes) :
    loaded.checkpoint = h.system.latest := by
  have head := consistent.chain.head
  rw [consistent.latest] at head
  cases was : loaded.checkpoint with
  | none =>
    rw [was] at expected
    exact (Option.map_eq_none_iff.mp expected.symm).symm
  | some c =>
    rw [was] at expected
    obtain ⟨d, is, same⟩ := Option.map_eq_some_iff.mp expected.symm
    obtain ⟨first, hc⟩ := certified c was
    obtain ⟨first', hd⟩ := head d is
    rw [is, hc.unique hd same.symm]

/-- A store indexes what was committed to it. -/
lemma Committed.indexes {e e' : Engine} {loaded next : Snapshot} (committed : Committed e e' loaded next)
    (indexes : Indexes H e.entries next) : Indexes H e'.entries (loadedState e'.state) := by
  rw [committed.entries, committed.stored]
  exact ⟨indexes.tree, indexes.size, indexes.covered, indexes.pending⟩

/-- The commit of a batch without a checkpoint. -/
lemma Consistent.indexed {h : Timeline verify} (consistent : Consistent P H key cfg h) {t : System verify}
    {loaded next : Snapshot} (committed : Committed h.system.engine t.engine loaded next)
    (known : Known h.system.engine.state loaded) (indexes : Indexes H h.system.engine.entries next)
    (latest : next.checkpoint = h.system.latest) (rows : next.witnesses = loaded.witnesses)
    (passes : ∀ i, ∀ p ∈ t.passes i, Honest P H key cfg t.engine.entries p) : Consistent P H key cfg (h.next t) := by
  have older : h.system.engine.entries <+: t.engine.entries := by rw [committed.entries]
  refine consistent.same older (committed.indexes indexes) (committed.latest.trans latest) (fun row hrow => ?_)
    (fun row hrow => ?_) passes
  · exact ⟨row, committed.kept row hrow, rfl, rfl⟩
  · rcases committed.built known hrow with old | ⟨built, hbuilt, unheld, -⟩
    · exact ⟨row, old, rfl, rfl⟩
    · rw [rows] at hbuilt
      exact absurd hbuilt unheld

/-- The commit of a checkpoint. -/
lemma Consistent.signed {h : Timeline verify} (consistent : Consistent P H key cfg h) {t : System verify}
    {loaded next : Snapshot} (committed : Committed h.system.engine t.engine loaded next)
    (known : Known h.system.engine.state loaded) (indexes : Indexes H h.system.engine.entries next)
    {c : StoredCheckpoint} (hc : next.checkpoint = some c)
    (certified : Certified P H key cfg h.system.engine.entries h.system.latest c) {now : Time}
    (rows : next.witnesses = loaded.witnesses ++ cfg.witnessIds.map (newRow c.size c.bytes now))
    (passes : ∀ i, ∀ p ∈ t.passes i, Honest P H key cfg t.engine.entries p) : Consistent P H key cfg (h.next t) := by
  have chain : Chain P H key cfg h.system.engine.entries (c :: h.checkpoints) := by
    refine ⟨?_, consistent.chain⟩
    rw [consistent.latest]
    exact certified
  have larger := (List.pairwise_cons.mp chain.sizes).1
  have latest : t.latest = some c := committed.latest.trans hc
  have differs : t.latest ≠ h.system.latest := by
    intro same
    have after := certified.after
    rw [← same, latest] at after
    exact lt_irrefl _ after
  have checkpoints : (h.next t).checkpoints = c :: h.checkpoints := by
    refine (if_neg differs).trans ?_
    rw [latest]
    rfl
  refine ⟨committed.indexes indexes, ?_, ?_, fun d hd id hid => ?_, fun row hrow => ?_, passes⟩
  · rw [checkpoints]
    exact latest.symm
  · rw [checkpoints]
    exact chain.mono (by rw [← committed.entries]; exact List.prefix_refl _)
  · rw [checkpoints] at hd
    rcases List.mem_cons.mp hd with rfl | old
    · have new : newRow d.size d.bytes now id ∈ next.witnesses := by
        rw [rows]
        exact List.mem_append_right _ (List.mem_map_of_mem hid)
      obtain ⟨w, validRow, mem⟩ := committed.each _ new
      obtain ⟨sameId, size, bytes, -⟩ := validateWitness_witnessObj validRow
      have rowKey : w.key = (id, d.size) := Prod.ext (Subtype.ext sameId) size
      refine ⟨w, mem.resolve_right fun stored => ?_, rowKey, bytes⟩
      -- No stored row is for a checkpoint as large as this one.
      obtain ⟨row, hrow, e⟩ := List.mem_map.mp stored
      obtain ⟨-, older, holder, olderSize, -⟩ := consistent.only row hrow
      have lt := larger older holder
      have sameSize : row.checkpointSize.1 = d.size := congrArg Prod.snd (e.trans rowKey)
      omega
    · obtain ⟨row, hrow, rowKey, bytes⟩ := consistent.rows d old id hid
      exact ⟨row, committed.kept row hrow, rowKey, bytes⟩
  · rw [checkpoints]
    rcases committed.built known hrow with old | ⟨built, hbuilt, unheld, validRow⟩
    · obtain ⟨configured, d, hd, size, bytes⟩ := consistent.only row old
      exact ⟨configured, d, List.mem_cons_of_mem _ hd, size, bytes⟩
    · rw [rows] at hbuilt
      obtain ⟨id, hid, rfl⟩ := List.mem_map.mp ((List.mem_append.mp hbuilt).resolve_left unheld)
      obtain ⟨sameId, size, bytes, -⟩ := validateWitness_witnessObj validRow
      obtain rfl : row.witnessId = id := Subtype.ext sameId
      exact ⟨hid, c, List.mem_cons_self, size, bytes⟩

/-- The commit of what a runner built, however many steps of others lie between its loading and its commit. -/
lemma consistent_commitNext {h : Timeline verify} (consistent : Consistent P H key cfg h) {i : ℕ} {p : Pass verify}
    {next : Snapshot} {e : Engine} (hp : p ∈ h.system.passes i) (known : Known h.system.engine.state p.loaded)
    (hnext : next ∈ p.built) (ok : commitNext h.system.engine p.loaded next = .ok e) :
    Consistent P H key cfg
      (h.next ({ h.system with engine := e }.setPass i (some { p with loaded := next, built := none }))) := by
  have honest := consistent.passes i p hp
  have builds := honest.built next hnext
  have committed := commitNext_eq_ok ok
  have loaded := consistent.loaded_eq honest.certified committed.expected
  have passes (certified : ∀ c ∈ next.checkpoint, ∃ first, Certified P H key cfg h.system.engine.entries first c) :
      ∀ k, ∀ q ∈ Function.update h.system.passes i (some { p with loaded := next, built := none }) k,
        Honest P H key cfg e.entries q := by
    rw [committed.entries]
    refine forall_update consistent.passes i fun q hq => ?_
    cases hq
    exact ⟨honest.sameKey, honest.sameCfg, builds.indexes, certified, fun x hx => by cases hx⟩
  rcases builds.checkpoint with ⟨same, rows⟩ | ⟨c, hc, certified, rows⟩
  · exact consistent.indexed committed known builds.indexes (same.trans loaded) rows
      (passes (by rw [same]; exact honest.certified))
  · have names : ∀ d ∈ next.checkpoint, ∃ first, Certified P H key cfg h.system.engine.entries first d := by
      intro d hd
      cases hc.symm.trans hd
      exact ⟨_, certified⟩
    rw [loaded] at certified
    exact consistent.signed committed known builds.indexes hc certified rows (passes names)

/-- A commit keeps the timeline consistent. -/
lemma consistent_commit {h : Timeline verify} (consistent : Consistent P H key cfg h) (safe : Safe P H h.system)
    (i : ℕ) : Consistent P H key cfg (h.step P H (.commit i)) := by
  unfold Timeline.step System.step System.commit
  dsimp only
  split
  · exact consistent.quiet rfl consistent.passes
  · rename_i p hp
    split
    · exact consistent.quiet rfl consistent.passes
    · rename_i next hnext
      split
      · rename_i e q committed
        obtain ⟨e', stored, same⟩ := bind_eq_ok.mp committed
        cases same
        exact consistent_commitNext consistent hp (safe.passes i p hp).known hnext stored
      · exact consistent.quiet rfl (forall_update consistent.passes _ (fun q hq => by cases hq))

/-- A look keeps the timeline consistent. -/
lemma consistent_look {h : Timeline verify} (consistent : Consistent P H key cfg h) (j : ℕ) :
    Consistent P H key cfg (h.step P H (.look j)) := by
  unfold Timeline.step System.step System.look
  dsimp only
  split <;> exact consistent.quiet rfl consistent.passes

/-- A submission keeps the timeline consistent. -/
lemma consistent_submit {h : Timeline verify} (consistent : Consistent P H key cfg h) (j : ℕ) (answer : Answer) :
    Consistent P H key cfg (h.step P H (.submit j answer)) := by
  unfold Timeline.step System.step System.submit
  dsimp only
  split <;> exact consistent.quiet rfl consistent.passes

/-- The row that a delivery commits is for the checkpoint of the row that it replaces. -/
lemma consistent_commitWitness {h : Timeline verify} (consistent : Consistent P H key cfg h) {t : System verify}
    {expectedAttempts row : Obj} (ok : h.system.engine.commitWitness expectedAttempts row = .ok t.engine)
    (passes : t.passes = h.system.passes) : Consistent P H key cfg (h.next t) := by
  have forward := (Object.extends_commitWitness ok).rows
  obtain ⟨e, passes', deliveries, submitted⟩ := t
  cases passes
  obtain ⟨r, applied, ok⟩ := bind_eq_ok.mp ok
  cases ok
  obtain ⟨stored, attempts, -, -, at_, rowKey, -, checkpoint⟩ := applyWitness_eq_ok applied
  have indexes := consistent.indexes
  refine consistent.same (List.prefix_refl _)
    ⟨indexes.tree, indexes.size, indexes.covered, indexes.pending⟩ rfl forward (fun w hw => ?_) consistent.passes
  have either : w ∈ h.system.engine.state.witnesses ∨ w = r.1.2 := List.mem_or_eq_of_mem_set hw
  rcases either with old | rfl
  · exact ⟨w, old, rfl, rfl⟩
  · exact ⟨stored, List.mem_of_getElem? at_, rowKey.symm, checkpoint.symm⟩

/-- A settlement keeps the timeline consistent. -/
lemma consistent_settle {h : Timeline verify} (consistent : Consistent P H key cfg h) (j : ℕ) (refused : Option Str)
    (drawn : ℕ) : Consistent P H key cfg (h.step P H (.settle j refused drawn)) := by
  unfold Timeline.step System.step System.settle
  dsimp only
  split
  · exact consistent.quiet rfl consistent.passes
  · exact consistent.quiet rfl consistent.passes
  · split
    · rename_i e goesOn settled
      rcases settleItem_eq_ok settled with rfl | ⟨row, committed, -⟩
      · exact consistent.quiet rfl consistent.passes
      · exact consistent_commitWitness consistent committed rfl
    · exact consistent.quiet rfl consistent.passes
  · exact consistent.quiet rfl consistent.passes

/-- The initial timeline is consistent. -/
lemma consistent_init : Consistent P H key cfg (Timeline.init : Timeline verify) where
  indexes := ⟨treeOf_nil H [], rfl, le_refl 0, rfl⟩
  latest := rfl
  chain := trivial
  rows := List.forall_mem_nil _
  only := List.forall_mem_nil _
  passes i p hp := by cases hp

/-- Every event keeps the timeline consistent. -/
theorem consistent_step (lawful : P.Lawful verify) {h : Timeline verify} (consistent : Consistent P H key cfg h)
    (safe : Safe P H h.system) {event : Event verify} (shares : event.Shares key cfg) :
    Consistent P H key cfg (h.step P H event) := by
  cases event with
  | append input => exact consistent_append consistent input
  | load i key' cfg' now => exact consistent_load consistent shares
  | advance i => exact consistent_advance lawful consistent i
  | commit i => exact consistent_commit consistent safe i
  | pending j backoff witnessId now limit => exact consistent.quiet rfl consistent.passes
  | look j => exact consistent_look consistent j
  | submit j answer => exact consistent_submit consistent j answer
  | settle j refused drawn => exact consistent_settle consistent j refused drawn

/-- A run of runners with this key and this configuration keeps the invariant. -/
lemma consistent_run (lawful : P.Lawful verify) {h : Timeline verify} (consistent : Consistent P H key cfg h)
    (safe : Safe P H h.system) {events : List (Event verify)} (shares : ∀ event ∈ events, event.Shares key cfg) :
    Consistent P H key cfg (run (Timeline.step P H) h events) := by
  induction events generalizing h with
  | nil => exact consistent
  | cons event events ih =>
    obtain ⟨first, rest⟩ := List.forall_mem_cons.mp shares
    exact ih (consistent_step lawful consistent safe first) (steps_step lawful safe event).1 rest

/-- In every run of checkpoint runners that share a key and a configuration, with writers and deliveries, the
stored nodes are the MMR of the indexed entries, the checkpoints that were stored follow each other, each certified
after the one before and larger, the pending time is that of the first indexed entry that the latest one does not
cover, and there is one row for each of them and each witness, and no other. -/
theorem checkpoints_certified (lawful : P.Lawful verify) (events : List (Event verify))
    (shares : ∀ event ∈ events, event.Shares key cfg) :
    let h := run (Timeline.step P H) .init events
    let log := h.system.engine.entries
    let state := h.system.engine.state
    let covered := (h.system.latest.map StoredCheckpoint.indexedSeq).getD 0
    TreeOf H log state.indexedSeq (state.nodes.map fun d => d.1) ∧
    h.checkpoints.head? = h.system.latest ∧ Chain P H key cfg log h.checkpoints ∧
    (h.checkpoints.Pairwise fun newer older => older.size < newer.size) ∧
    covered ≤ state.indexedSeq ∧ state.firstPendingAt = pendingOf log covered state.indexedSeq ∧
    (∀ c ∈ h.checkpoints, ∀ id ∈ cfg.witnessIds, ∃! row, row ∈ state.witnesses ∧ row.key = (id, c.size)) ∧
    ∀ row ∈ state.witnesses, row.witnessId ∈ cfg.witnessIds ∧
      ∃ c ∈ h.checkpoints, row.checkpointSize.1 = c.size ∧ row.checkpoint.1 = c.bytes := by
  intro h log state covered
  have consistent : Consistent P H key cfg h := consistent_run lawful consistent_init safe_init shares
  refine ⟨consistent.indexes.tree, consistent.latest, consistent.chain, consistent.chain.sizes,
    consistent.indexes.covered, consistent.indexes.pending, fun c hc id hid => ?_, consistent.only⟩
  obtain ⟨row, hrow, rowKey, -⟩ := consistent.rows c hc id hid
  refine ⟨row, ⟨hrow, rowKey⟩, fun other hother => ?_⟩
  exact eq_of_key state.nodup_keys hother.1 hrow (hother.2.trans rowKey.symm)

/-- The sample events share one key and one configuration. -/
lemma sampleEvents_shares :
    ∀ event ∈ sampleEvents, event.Shares (sampleKey runSignature runSignature_ok) sampleConfig := by
  refine List.forall_mem_cons.mpr ⟨trivial, List.forall_mem_cons.mpr ⟨⟨rfl, rfl⟩, ?_⟩⟩
  intro event mem
  simp only [List.mem_cons, List.not_mem_nil, or_false] at mem
  rcases mem with rfl | rfl | rfl | rfl | rfl | rfl <;> trivial

/-- The checkpoints of that run are certified. -/
theorem checkpoints_certified_sample :
    let h := run (Timeline.step (referencePackages (sampleVerify runSignature)) sha256Hash) .init sampleEvents
    Chain (referencePackages (sampleVerify runSignature)) sha256Hash
        (sampleKey runSignature runSignature_ok) sampleConfig h.system.engine.entries h.checkpoints ∧
      ∀ c ∈ h.checkpoints, ∀ id ∈ sampleConfig.witnessIds,
        ∃! row, row ∈ h.system.engine.state.witnesses ∧ row.key = (id, c.size) := by
  intro h
  obtain ⟨-, -, chain, -, -, -, rows, -⟩ := checkpoints_certified (H := sha256Hash)
    (referencePackages_lawful (sampleVerify runSignature)) sampleEvents sampleEvents_shares
  exact ⟨chain, rows⟩

end CLL.Checkpoint
