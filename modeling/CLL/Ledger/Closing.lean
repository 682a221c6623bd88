import CLL.Ledger.Reading

/-!
# Closed segments

What `_rotate_segment` of a store with an `MmrCheckpointer` writes into the manifest of a segment:
`verifySegment_closed` says that it verifies the bytes of the segment. `closed_run` collects what holds of
the manifests after any history, and `closed_verify` adds what an accepted manifest says.
-/

namespace CLL.Ledger
open CLL.Core PostOrder

variable {H : HashFunction} {aac : Aac}

/-- The line of an entry, without its end. -/
def Entry.text (e : Entry) : Str := Json.dumpsAscii (.obj e.capsule)

/-- The bytes of stored entries are the text of their lines. -/
lemma decode_bytesOf {entries : List Entry} (stored : ∀ e ∈ entries, e.Stored aac) :
    Utf8.decode (bytesOf entries) = some (Lines.join 10 (entries.map Entry.text)) := by
  have bytes : bytesOf entries = Text.ascii (Lines.join 10 (entries.map Entry.text)) := by
    rw [bytesOf, Lines.join, List.flatMap_map, Text.ascii, List.map_flatMap]
    apply List.flatMap_congr
    intro e _
    simp [lineOf, Entry.text, Text.ascii]
  rw [bytes]
  refine Text.decode_ascii fun c hc => ?_
  rw [Lines.join, List.flatMap_map] at hc
  obtain ⟨e, he, hc⟩ := List.mem_flatMap.mp hc
  rcases List.mem_append.mp hc with hc | hc
  · exact small_dumpsAscii (stored e he).portable c hc
  · rw [List.mem_singleton.mp hc]
    decide

/-- The lines that are verified are those that were written. -/
lemma segmentLines_entries {entries : List Entry} (stored : ∀ e ∈ entries, e.Stored aac) :
    segmentLines (Lines.join 10 (entries.map Entry.text)) = entries.map Entry.text := by
  have whole : ∀ line ∈ entries.map Entry.text, ∀ c ∈ line, Text.isBreak c = false := by
    intro line hline c hc
    obtain ⟨e, he, rfl⟩ := List.mem_map.mp hline
    exact Text.not_isBreak_of_printable (Json.printable_dumpsAscii _ (stored e he).portable c hc)
  rw [segmentLines, Text.splitlines_join whole, List.filter_eq_self]
  intro line hline
  obtain ⟨e, -, rfl⟩ := List.mem_map.mp hline
  simp [Entry.text, Json.dumpsAscii, Text.isBlank, Text.isSpace]

/-- The digests that are verified are the ids of the entries. -/
lemma lineDigests_entries {entries : List Entry} (stored : ∀ e ∈ entries, e.Stored aac) {bodies : List Bytes}
    (ids : (entries.map fun e => fromHex e.capsuleId) = bodies.map some) :
    lineDigests aac (entries.map Entry.text) = .ok bodies := by
  have records : (entries.map Entry.text).mapM loads = .ok (entries.map fun e => .obj e.capsule) := by
    clear ids
    induction entries with
    | nil => rfl
    | cons e entries ih =>
      have whole := loads_line (stored e List.mem_cons_self).portable (show Json.skipSpace [] = [] from rfl)
      rw [List.append_nil] at whole
      rw [List.map_cons, List.mapM_cons, Entry.text, whole, ok_bind,
        ih fun e' he' => stored e' (List.mem_cons_of_mem _ he'), ok_bind]
      rfl
  rw [lineDigests, records, ok_bind]
  clear records
  induction entries generalizing bodies with
  | nil =>
    cases bodies with
    | nil => rfl
    | cons b bodies => cases ids
  | cons e entries ih =>
    cases bodies with
    | nil => cases ids
    | cons b bodies =>
      obtain ⟨id, ids⟩ := List.cons.inj ids
      have own : recordDigest aac (.obj e.capsule) = .ok b := by
        rw [recordDigest, (stored e List.mem_cons_self).id, ok_bind]
        exact fromHexStr_eq_ok.mpr id
      rw [List.map_cons, List.mapM_cons, own, ok_bind,
        ih (fun e' he' => stored e' (List.mem_cons_of_mem _ he')) ids, ok_bind]
      rfl

/-- A range proof of the records up to the last one verifies them. -/
lemma verifyRange_suffix {digests : List Digest} {m : MmrLedger} (based : m.Over H digests) {lo : ℕ}
    (lt : lo < digests.length) {root : Bytes} (committed : rootAt H m.nodes m.nodes.length = .ok root)
    {proof : RangeProof} (ok : m.rangeProof (lo + 1) digests.length = .ok proof) :
    proof.size = m.nodes.length ∧
      verifyRange H root (lo + 1) digests.length (rangeOf digests lo (digests.length - 1)) proof = true := by
  have mmr := IsMmr.of_addDigests based.nodes
  have len := length_of_mem_leaves H digests
  have size : m.nodes.length = nodeCount digests.length := by
    rw [mmr.length_eq, length_leaves, nodeCount_eq]
  have small : nodeCount digests.length < maxMmrSize := by
    obtain ⟨hashes, hh, -⟩ := bind_eq_ok.mp committed
    obtain ⟨pks, hp, -⟩ := bind_eq_ok.mp hh
    exact size ▸ (peaks_eq_ok hp).1
  have le : digests.length ≤ (leaves H digests).length := (length_leaves H digests).ge
  have inside : digests.length - 1 < digests.length := by omega
  have order : lo ≤ digests.length - 1 := by omega
  have proven := rangeProof_eq mmr le small order inside
  obtain ⟨_, -, ok⟩ := bind_eq_ok.mp ok
  have first : ((lo : ℤ) + 1 - 1) = lo := by omega
  have last : ((digests.length : ℤ) - 1) = (digests.length - 1 : ℕ) := by omega
  dsimp only at ok
  rw [Int.toNat_natCast, first, last, proven, ok_bind] at ok
  cases ok
  refine ⟨by rw [size], ?_⟩
  rw [size, mmr.rootAt len le small] at committed
  cases committed
  have count : leafCountObj (.int (nodeCount digests.length)) = .ok digests.length :=
    leafCount_nodeCount small
  rw [verifyRange, verdict_eq_true, ensure_of ⟨rfl, rfl⟩, ok_bind, ensure_of (by omega), ok_bind]
  dsimp only
  rw [count, ok_bind, ensure_of rfl, ok_bind, first, last]
  refine congrArg Except.ok (verifyRange_honest le_rfl small order inside rfl ?_ rfl ?_)
  · rw [List.map_map]
    rfl
  · exact parseDigests_toHex (length_of_mem_honestWitness len le)

/-- The manifest of the newest records verifies the segment that holds them. -/
lemma verifySegment_closed {digests : List Digest} {mmr : MmrLedger} (based : mmr.Over H digests)
    {entries : List Entry} (stored : ∀ e ∈ entries, e.Stored aac) {lo : ℕ}
    (count : digests.length = lo + entries.length) (lt : lo < digests.length)
    (ids : (entries.map fun e => fromHex e.capsuleId) = (digests.drop lo).map fun d => some d.1)
    {root : Bytes} (committed : rootAt H mmr.nodes mmr.nodes.length = .ok root) {m : SegmentManifest}
    (proven : mmr.rangeProof (lo + 1) digests.length = .ok m.rangeProof) (firstSeq : m.firstSeq = lo + 1)
    (lastSeq : m.lastSeq = digests.length) (recordCount : m.recordCount = entries.length)
    (checkpointRoot : m.checkpointRoot = toHex root)
    (sha : m.sha256OfSegment = toHex (H.digest (bytesOf entries))) :
    verifySegment H aac (bytesOf entries) m = (true, []) := by
  have range : rangeOf digests lo (digests.length - 1) = (digests.drop lo).map (·.1) := by
    rw [rangeOf, List.take_of_length_le]
    rw [List.length_drop]
    omega
  have bodies : (entries.map fun e => fromHex e.capsuleId) =
      (rangeOf digests lo (digests.length - 1)).map some := by
    rw [ids, range, List.map_map]
    rfl
  refine verifySegment_eq_true.mpr ⟨sha.symm, _, rangeOf digests lo (digests.length - 1), root,
    decode_bytesOf stored, ?_, ?_, ?_, ?_, ?_⟩
  · rw [segmentLines_entries stored, List.length_map, recordCount]
  · rw [firstSeq, lastSeq, recordCount, count]
    push_cast
    omega
  · rw [segmentLines_entries stored]
    exact lineDigests_entries stored bodies
  · rw [checkpointRoot, fromHex_toHex]
  · rw [firstSeq, lastSeq]
    exact (verifyRange_suffix based lt committed proven).2

/-- A checkpoint names the root of the whole index. -/
lemma emitCheckpoint_eq_ok {mmr : MmrLedger} {prev : Option CheckpointRecord} {cp : CheckpointRecord}
    (ok : emitCheckpoint H mmr prev = .ok cp) :
    ∃ b, rootAt H mmr.nodes mmr.nodes.length = .ok b ∧ cp.mmrSize = mmr.nodes.length ∧
      cp.root = toHex b := by
  obtain ⟨_, -, ok⟩ := bind_eq_ok.mp ok
  have rest {prevSize : ℕ} {prevRoot : Str} (ok : (do
      let rootHex ← mmr.rootHex H mmr.nodes.length
      .ok (⟨mmr.nodes.length, rootHex, prevSize, prevRoot⟩ : CheckpointRecord)) = .ok cp) :
      ∃ b, rootAt H mmr.nodes mmr.nodes.length = .ok b ∧ cp.mmrSize = mmr.nodes.length ∧
        cp.root = toHex b := by
    obtain ⟨root, hroot, ok⟩ := bind_eq_ok.mp ok
    cases ok
    unfold MmrLedger.rootHex at hroot
    cases committed : rootAt H mmr.nodes mmr.nodes.length with
    | error e =>
      rw [committed] at hroot
      cases hroot
    | ok b =>
      rw [committed] at hroot
      cases hroot
      exact ⟨b, rfl, rfl, rfl⟩
  cases prev with
  | none => exact rest ok
  | some prev =>
    obtain ⟨_, -, ok⟩ := bind_eq_ok.mp ok
    obtain ⟨_, -, ok⟩ := bind_eq_ok.mp ok
    obtain ⟨_, -, ok⟩ := bind_eq_ok.mp ok
    exact rest ok

/-- What a checkpoint does to the index, and what it returns. -/
lemma MmrCheckpointer.checkpoint_spec (c : MmrCheckpointer) (scan : Py (List LedgerRecord)) :
    (c.checkpoint H scan).2.mmr = (c.mmr.sync H scan).2 ∧
      ∀ root size, (c.checkpoint H scan).1 = .ok (root, size) →
        (∃ n, (c.mmr.sync H scan).1 = .ok n) ∧ size = (c.mmr.sync H scan).2.nodes.length ∧
          ∃ b, rootAt H (c.mmr.sync H scan).2.nodes (c.mmr.sync H scan).2.nodes.length = .ok b ∧
            root = toHex b := by
  unfold MmrCheckpointer.checkpoint
  rcases c.mmr.sync H scan with ⟨result, mmr⟩
  cases result with
  | error e => exact ⟨rfl, fun _ _ h => by cases h⟩
  | ok n =>
    dsimp only
    cases emitted : emitCheckpoint H mmr c.prev with
    | error e => exact ⟨rfl, fun _ _ h => by cases h⟩
    | ok cp =>
      refine ⟨rfl, fun root size h => ?_⟩
      cases h
      obtain ⟨b, committed, e, he⟩ := emitCheckpoint_eq_ok emitted
      exact ⟨⟨n, rfl⟩, congrArg Int.ofNat e, b, committed, he⟩

/-- The places of a segment among others. -/
lemma filter_place {before : List Segment} {segment : Segment}
    (fresh : segment.name ∉ before.map Segment.name) (seq : ℕ) :
    (place seq (before ++ [segment])).filter (fun p => p.segment = segment.name) =
      placeEntries segment.name (seq + (place seq before).length) 0 segment.entries := by
  rw [place_append, List.filter_append, place_singleton, List.filter_eq_nil_iff.mpr, List.nil_append,
    List.filter_eq_self]
  · intro p hp
    obtain ⟨_, _, -, own, -⟩ := mem_placeEntries hp
    simp [own]
  · intro p hp own
    obtain ⟨other, hother, name, -⟩ := mem_place hp
    exact fresh (of_decide_eq_true own ▸ name ▸ List.mem_map_of_mem hother)

/-- The bounds of consecutive numbers. -/
lemma range'_bounds {start count first last : ℕ} (min : (List.range' start count).min? = some first)
    (max : (List.range' start count).max? = some last) :
    first = start ∧ last + 1 = start + count := by
  obtain ⟨first_mem, first_le⟩ := List.min?_eq_some_iff.mp min
  obtain ⟨last_mem, le_last⟩ := List.max?_eq_some_iff.mp max
  rw [List.mem_range'_1] at first_mem last_mem
  have low := first_le start (List.mem_range'_1.mpr ⟨le_rfl, by omega⟩)
  have high := le_last (start + count - 1) (List.mem_range'_1.mpr ⟨by omega, by omega⟩)
  omega

/-- The digests are the ids of the places. -/
def Named (places : List Placed) (digests : List Digest) : Prop :=
  (places.map fun p => fromHex p.entry.capsuleId) = digests.map fun d => some d.1

/-- A manifest commits the log of the places: their root, at the size of their MMR. -/
def Commits (H : HashFunction) (places : List Placed) (m : SegmentManifest) : Prop :=
  ∃ digests nodes root, Named places digests ∧ addDigests H [] digests = .ok nodes ∧
    m.mmrSize = nodes.length ∧ rootAt H nodes nodes.length = .ok root ∧ m.checkpointRoot = toHex root

/-- A manifest closes a segment behind others. -/
structure Seals (H : HashFunction) (aac : Aac) (before : List Segment) (segment : Segment)
    (m : SegmentManifest) : Prop where
  nonempty : 0 < segment.entries.length
  firstSeq : m.firstSeq = (place 1 before).length + 1
  lastSeq : m.lastSeq = (place 1 (before ++ [segment])).length
  commits : Commits H (place 1 (before ++ [segment])) m
  accepted : verifySegment H aac (bytesOf segment.entries) m = (true, [])

/-- Every segment behind others is closed by its manifest. -/
def Sealed (H : HashFunction) (aac : Aac) : List Segment → List Segment → List SegmentManifest → Prop
  | _, [], [] => True
  | before, segment :: segments, m :: ms =>
    Seals H aac before segment m ∧ Sealed H aac (before ++ [segment]) segments ms
  | _, _, _ => False

/-- There is one manifest for each sealed segment. -/
lemma Sealed.length_eq {before segments : List Segment} {ms : List SegmentManifest}
    (sealed_ : Sealed H aac before segments ms) : segments.length = ms.length := by
  induction segments generalizing before ms with
  | nil =>
    cases ms with
    | nil => rfl
    | cons m ms => exact sealed_.elim
  | cons segment segments ih =>
    cases ms with
    | nil => exact sealed_.elim
    | cons m ms => rw [List.length_cons, List.length_cons, ih sealed_.2]

/-- One more segment is closed. -/
lemma Sealed.snoc {before segments : List Segment} {ms : List SegmentManifest} {last : Segment}
    {m : SegmentManifest} (sealed_ : Sealed H aac before segments ms)
    (seals : Seals H aac (before ++ segments) last m) :
    Sealed H aac before (segments ++ [last]) (ms ++ [m]) := by
  induction segments generalizing before ms with
  | nil =>
    cases ms with
    | nil =>
      rw [List.append_nil] at seals
      exact ⟨seals, trivial⟩
    | cons m' ms => exact sealed_.elim
  | cons segment segments ih =>
    cases ms with
    | nil => exact sealed_.elim
    | cons m' ms =>
      refine ⟨sealed_.1, ih sealed_.2 ?_⟩
      rw [List.append_assoc]
      exact seals

/-- A manifest closes one of the segments. -/
lemma Sealed.exists_segment {before segments : List Segment} {ms : List SegmentManifest}
    (sealed_ : Sealed H aac before segments ms) {i : ℕ} {m : SegmentManifest} (hm : ms[i]? = some m) :
    ∃ left segment right, segments = left ++ segment :: right ∧ left.length = i ∧
      Seals H aac (before ++ left) segment m := by
  induction segments generalizing before ms i with
  | nil =>
    cases ms with
    | nil => cases hm
    | cons m' ms => exact sealed_.elim
  | cons segment segments ih =>
    cases ms with
    | nil => exact sealed_.elim
    | cons m' ms =>
      cases i with
      | zero =>
        cases hm
        refine ⟨[], segment, segments, rfl, rfl, ?_⟩
        rw [List.append_nil]
        exact sealed_.1
      | succ i =>
        obtain ⟨left, segment', right, split, length, seals⟩ := ih sealed_.2 hm
        refine ⟨segment :: left, segment', right, by rw [split, List.cons_append], by rw [List.length_cons, length],
          ?_⟩
        rw [List.append_assoc] at seals
        exact seals

/-- The size that a manifest names is that of the records up to its last one. -/
lemma Seals.mmrSize {before : List Segment} {segment : Segment} {m : SegmentManifest}
    (seals : Seals H aac before segment m) : m.mmrSize = nodeCount m.lastSeq.toNat := by
  obtain ⟨digests, nodes, root, named, build, size, -, -⟩ := seals.commits
  have count := congrArg List.length named
  rw [List.length_map, List.length_map] at count
  rw [size, (IsMmr.of_addDigests build).length_eq, length_leaves, seals.lastSeq, Int.toNat_natCast, count,
    nodeCount_eq]

/-- The path of a segment manifest in the store manifest. -/
def manifestPath (logId : Str) (m : SegmentManifest) : Str :=
  Str.lit "segments/" ++ manifestFilename logId m.mmrSize

/-- Manifests of different sizes have different paths. -/
lemma manifestPath_ne {logId : Str} {m m' : SegmentManifest} {a b : ℕ} (ha : m.mmrSize = a)
    (hb : m'.mmrSize = b) (ne : a ≠ b) : manifestPath logId m ≠ manifestPath logId m' := by
  intro same
  have tail := List.append_cancel_left (List.append_cancel_left same)
  have digits := List.append_cancel_right (List.cons.inj tail).2
  rw [ha, hb] at digits
  unfold Json.dumpInt at digits
  rw [if_neg (by omega), if_neg (by omega), Int.natAbs_natCast, Int.natAbs_natCast] at digits
  have value := congrArg Decimal.value digits
  rw [Decimal.value_text, Decimal.value_text] at value
  exact ne value

namespace Store

/-- The index of the checkpointer is over the first records, and the closed segments are those before the
last one, each with its manifest. -/
structure Archive (E : Env MmrCheckpointer) (cfg : Config) (s : Store MmrCheckpointer)
    (init : List Segment) (last : Segment) (ms : List SegmentManifest) : Prop where
  holds : s.Holds E cfg init last
  looked : s.Looked E cfg (init ++ [last])
  indexed : ∃ c digests, s.checkpointer = some c ∧ c.mmr.Over E.hash digests ∧
    Named ((place 1 (init ++ [last])).take digests.length) digests
  paths : s.manifest.segments.map SegmentEntry.manifest =
    (ms.map fun m => some (manifestPath cfg.logId m)) ++ [none]
  kept : ∀ m ∈ ms, s.manifests.lookup (manifestPath cfg.logId m) = some m
  sealed_ : Sealed E.hash E.aac [] init ms

variable {E : Env MmrCheckpointer} {cfg : Config} {s : Store MmrCheckpointer} {init : List Segment}
  {last : Segment} {ms : List SegmentManifest}

/-- Moving files leaves the manifests of segments as they are. -/
lemma Archive.congr (archive : s.Archive E cfg init last ms) {s' : Store MmrCheckpointer}
    (holds : s'.Holds E cfg init last) (lookup : s'.lookup = s.lookup)
    (checkpointer : s'.checkpointer = s.checkpointer) (manifests : s'.manifests = s.manifests)
    (paths : s'.manifest.segments.map SegmentEntry.manifest =
      s.manifest.segments.map SegmentEntry.manifest) : s'.Archive E cfg init last ms := by
  refine ⟨holds, ?_, ?_, ?_, ?_, archive.sealed_⟩
  · rw [Looked, lookup]
    exact archive.looked
  · rw [checkpointer]
    exact archive.indexed
  · rw [paths]
    exact archive.paths
  · rw [manifests]
    exact archive.kept

/-- Mounting changes no manifest. -/
lemma manifest_setMounted (m : StoreManifest) (name : Str) (mounted : Bool) :
    (setMounted m name mounted).segments.map SegmentEntry.manifest =
      m.segments.map SegmentEntry.manifest := by
  rw [setMounted, List.map_map]
  apply List.map_congr_left
  intro entry _
  dsimp only [Function.comp]
  split <;> rfl

/-- Unmounting a segment keeps the archive. -/
lemma Archive.unmountSegment (archive : s.Archive E cfg init last ms) (name : Str) :
    (s.unmountSegment cfg name).2.Archive E cfg init last ms := by
  have holds := archive.holds.unmountSegment name
  rcases unmountSegment_cases cfg s name with same | ⟨-, -, -, -, bytes, -, moved⟩
  · rw [same]
    exact archive
  · rw [moved] at holds ⊢
    exact archive.congr holds rfl rfl rfl (manifest_setMounted _ _ _)

/-- Mounting a segment keeps the archive. -/
lemma Archive.mountSegment (archive : s.Archive E cfg init last ms) (name : Str) :
    (s.mountSegment cfg name).2.Archive E cfg init last ms := by
  have holds := archive.holds.mountSegment name
  rcases mountSegment_cases cfg s name with same | ⟨-, -, -, bytes, -, moved⟩
  · rw [same]
    exact archive
  · rw [moved] at holds ⊢
    exact archive.congr holds rfl rfl rfl (manifest_setMounted _ _ _)

/-- One more record leaves the closed segments as they are. -/
lemma Archive.recorded (archive : s.Archive E cfg init last ms) {e : Entry} (stored : e.Stored E.aac)
    (fresh : e.capsuleId ∉ (place 1 (init ++ [last])).map fun p => p.entry.capsuleId)
    (offset : isInt64 (bytesOf last.entries).length = true) :
    (s.recorded E cfg init last e).Archive E cfg init (last.add e) ms := by
  refine ⟨archive.holds.recorded stored fresh offset, rfl, ?_, archive.paths, archive.kept, archive.sealed_⟩
  obtain ⟨c, digests, attached, based, named⟩ := archive.indexed
  refine ⟨c, digests, attached, based, ?_⟩
  have count := congrArg List.length named
  rw [List.length_map, List.length_map, List.length_take] at count
  rw [place_write, List.take_append_of_le_length (by omega)]
  exact named

/-- Records with consecutive numbers are numbered. -/
lemma numbered_records {start : ℕ} {places : List Placed}
    (seqs : places.map Placed.seq = List.range' (start + 1) places.length) :
    Numbered start (places.map Placed.record) := by
  induction places generalizing start with
  | nil => trivial
  | cons p places ih =>
    rw [List.map_cons, List.length_cons, List.range'_succ] at seqs
    obtain ⟨here, seqs⟩ := List.cons.inj seqs
    exact ⟨here, ih seqs⟩

/-- A sync folds in further records, all of them if it succeeds. -/
lemma Holds.sync (holds : s.Holds E cfg init last) {mmr : MmrLedger} {digests : List Digest}
    (based : mmr.Over E.hash digests)
    (named : Named ((place 1 (init ++ [last])).take digests.length) digests) :
    ∃ digests', (mmr.sync E.hash (s.scan cfg)).2.Over E.hash digests' ∧
      Named ((place 1 (init ++ [last])).take digests'.length) digests' ∧
      ∀ n, (mmr.sync E.hash (s.scan cfg)).1 = .ok n →
        digests'.length = (place 1 (init ++ [last])).length := by
  have count := congrArg List.length named
  rw [List.length_map, List.length_map, List.length_take] at count
  cases scanned : s.scan cfg with
  | error e => exact ⟨digests, based, named, fun n hn => by cases hn⟩
  | ok records =>
    obtain rfl := holds.scan_eq_ok scanned
    have numbered : Numbered 0 ((place 1 (init ++ [last])).map Placed.record) :=
      numbered_records (map_seq_place 1 (init ++ [last]))
    have ahead : ∀ records, s.scan cfg = .ok records →
        Numbered 0 records ∧ digests.length ≤ records.length := by
      intro records h
      obtain rfl := holds.scan_eq_ok h
      refine ⟨numbered, ?_⟩
      rw [List.length_map]
      omega
    obtain ⟨more, based', folded, all⟩ := MmrLedger.sync_spec based ahead
    rw [scanned] at based' folded all
    obtain ⟨folded, le⟩ := folded _ rfl
    refine ⟨digests ++ more, based', ?_, fun n hn => ?_⟩
    · unfold Named Digested at *
      rw [List.length_append, List.take_add, List.map_append, named, List.map_append, ← folded,
        ← List.map_drop, ← List.map_take, List.map_map]
      rfl
    · obtain ⟨records, h, length⟩ := all n hn
      cases h
      rw [length, List.length_map]

/-- The rows of the last segment are those of its places. -/
lemma Holds.rows_last {κ : Type} {E : Env κ} {s : Store κ} (holds : s.Holds E cfg init last) :
    s.rows.filter (fun r => r.segment = last.name) =
      (placeEntries last.name (1 + (place 1 init).length) 0 last.entries).map (Placed.row E.realText) := by
  have fresh : last.name ∉ init.map Segment.name := by
    intro mem
    obtain ⟨segment, hsegment, e⟩ := List.mem_map.mp mem
    exact holds.notMem_init hsegment e
  rw [holds.rows, List.filter_map, ← filter_place fresh 1]
  rfl

/-- The manifest of a successful rotation closes the last segment. -/
lemma Holds.seals (holds : s.Holds E cfg init last)
    (protocol : E.protocol = MmrCheckpointer.protocol E.hash) {before after : MmrCheckpointer}
    {digests : List Digest} (based : before.mmr.Over E.hash digests)
    (named : Named ((place 1 (init ++ [last])).take digests.length) digests) {first final : ℕ}
    (hfirst : ((s.rows.filter fun r => r.segment = last.name).map Row.seq).min? = some first)
    (hlast : ((s.rows.filter fun r => r.segment = last.name).map Row.seq).max? = some final)
    {root : Str} {mmrSize : ℤ}
    (checked : E.protocol.checkpoint before (s.scan cfg) = (.ok (root, mmrSize), after))
    {proof : RangeProof} (proven : E.protocol.rangeProof after first final = .ok proof) :
    Seals E.hash E.aac init last (s.segmentManifest E cfg last.name first final root mmrSize proof) := by
  obtain ⟨digests', based', named', all⟩ := holds.sync based named
  rw [protocol] at checked proven
  -- The checkpoint is over all records, so the closed segment ends at its last leaf.
  obtain ⟨same, returns⟩ := before.checkpoint_spec (H := E.hash) (s.scan cfg)
  have returned : (before.checkpoint E.hash (s.scan cfg)).1 = .ok (root, mmrSize) :=
    congrArg Prod.fst checked
  have e : (before.checkpoint E.hash (s.scan cfg)).2 = after := congrArg Prod.snd checked
  obtain ⟨⟨n, hn⟩, size, b, committed, hb⟩ := returns root mmrSize returned
  have total := all n hn
  rw [total, List.take_length] at named'
  rw [← same, e] at based' size committed
  have own := holds.rows_last
  -- The rows of the last segment are numbered after the others.
  have seqs : (s.rows.filter fun r => r.segment = last.name).map Row.seq =
      List.range' (1 + (place 1 init).length) last.entries.length := by
    rw [own, List.map_map]
    exact map_seq_placeEntries _ _ _ _
  rw [seqs] at hfirst hlast
  obtain ⟨rfl, final_eq⟩ := range'_bounds hfirst hlast
  have places : (place 1 (init ++ [last])).length = (place 1 init).length + last.entries.length := by
    rw [place_append, List.length_append, place_singleton, length_placeEntries]
  have final_eq : final = digests'.length := by omega
  subst final_eq
  have proven : after.mmr.rangeProof ((place 1 init).length + 1) digests'.length = .ok proof := by
    rw [show (((1 + (place 1 init).length : ℕ) : ℤ)) = (place 1 init).length + 1 by push_cast; omega] at proven
    exact proven
  have nonempty : 0 < last.entries.length := by
    by_contra empty
    rw [Nat.eq_zero_of_not_pos empty] at hfirst
    cases hfirst
  refine ⟨nonempty, ?_, ?_, ?_, ?_⟩
  · show ((1 + (place 1 init).length : ℕ) : ℤ) = _
    push_cast
    omega
  · rw [← total]
    rfl
  · exact ⟨digests', after.mmr.nodes, b, named', based'.nodes, size, committed, hb⟩
  · refine verifySegment_closed based' (fun en he => holds.stored last (by simp) en he)
      (total.trans places) (by omega) ?_ committed proven ?_ rfl ?_ hb ?_
    · have tail := congrArg (List.drop (place 1 init).length) named'
      rw [place_append, List.map_append, place_singleton, List.drop_left' (by rw [List.length_map]),
        ← List.map_drop] at tail
      rw [← tail, ← map_entry_placeEntries last.name (1 + (place 1 init).length) 0 last.entries, List.map_map,
        map_entry_placeEntries]
      rfl
    · show ((1 + (place 1 init).length : ℕ) : ℤ) = _
      push_cast
      omega
    · show ((s.rows.filter fun r => r.segment = last.name).length : ℤ) = _
      rw [own, List.length_map, length_placeEntries]
    · show toHex (E.hash.digest ((s.files.lookup last.name).getD [])) = _
      rw [holds.lookup_last, Option.getD_some]

/-- Closing a segment gives its entry the path of the manifest, and adds the entry of the next one. -/
lemma Holds.paths_closeSegment (holds : s.Holds E cfg init last) (managed : cfg.rotateAtCheckpoint = true)
    {paths : List (Option Str)}
    (before : s.manifest.segments.map SegmentEntry.manifest = paths ++ [none]) (m : SegmentManifest) :
    (s.closeSegment cfg last.name m).manifest.segments.map SegmentEntry.manifest =
      paths ++ [some (manifestPath cfg.logId m)] ++ [none] := by
  have names := (holds.managed managed).2
  obtain ⟨front, entry, split⟩ : ∃ front entry, s.manifest.segments = front ++ [entry] := by
    rcases List.eq_nil_or_concat s.manifest.segments with empty | ⟨front, entry, split⟩
    · rw [empty] at before
      simp at before
    · exact ⟨front, entry, by rw [split, List.concat_eq_append]⟩
  rw [split, List.map_append, List.map_append] at names
  rw [split, List.map_append] at before
  obtain ⟨frontNames, own⟩ := List.append_inj' names rfl
  obtain ⟨frontPaths, -⟩ := List.append_inj' before rfl
  have own : entry.name = last.name := (List.cons.inj own).1
  have others : ∀ other ∈ front, other.name ≠ last.name := by
    intro other mem same
    have name := List.mem_map_of_mem (f := SegmentEntry.name) mem
    rw [frontNames] at name
    obtain ⟨segment, hsegment, e⟩ := List.mem_map.mp name
    exact holds.notMem_init hsegment (e.trans same)
  unfold Store.closeSegment Store.openSegment
  dsimp only
  rw [split, List.map_append, List.map_append, List.map_append, List.map_map, ← frontPaths]
  congr 2
  · apply List.map_congr_left
    intro other mem
    rw [Function.comp_apply, if_neg (others other mem)]
  · rw [List.map_singleton, List.map_singleton, if_pos own]
    rfl

/-- Rotating fails, or closes the last segment. -/
lemma Archive.rotateSegment (archive : s.Archive E cfg init last ms)
    (protocol : E.protocol = MmrCheckpointer.protocol E.hash) (managed : cfg.rotateAtCheckpoint = true) :
    ∃ init' last' ms', (s.rotateSegment E cfg last.name).2.Archive E cfg init' last' ms' := by
  obtain ⟨c, digests, attached, based, named⟩ := archive.indexed
  rcases rotateSegment_cases E cfg s last.name with
    ⟨e, k, failed, kept⟩ | ⟨before, after, first, final, root, mmrSize, proof, own, hfirst, hlast, checked, proven,
      -, closed⟩
  -- A failed rotation leaves the segments, and at most the index is ahead.
  · refine ⟨init, last, ms, ?_⟩
    rw [failed]
    refine ⟨archive.holds.congr rfl rfl rfl rfl rfl rfl fun _ => rfl, archive.looked, ?_, archive.paths,
      archive.kept, archive.sealed_⟩
    rcases kept with rfl | ⟨before, own, rfl⟩
    · exact ⟨c, digests, attached, based, named⟩
    · rw [attached] at own
      cases own
      obtain ⟨digests', based', named', -⟩ := archive.holds.sync based named
      have same := (c.checkpoint_spec (H := E.hash) (s.scan cfg)).1
      rw [protocol]
      exact ⟨_, digests', rfl, same ▸ based', named'⟩
  · rw [attached] at own
    cases own
    have seals := archive.holds.seals protocol based named hfirst hlast checked proven
    rw [closed]
    generalize s.segmentManifest E cfg last.name first final root mmrSize proof = m at seals ⊢
    have holds : ({ s with checkpointer := some after } : Store MmrCheckpointer).Holds E cfg init last :=
      archive.holds.congr rfl rfl rfl rfl rfl rfl fun _ => rfl
    refine ⟨init ++ [last], ⟨segmentName (init.length + 2), []⟩, ms ++ [m],
      holds.closeSegment managed last.name m, ?_, ?_, ?_, ?_, archive.sealed_.snoc seals⟩
    · rw [Looked, place_open]
      exact archive.looked
    · obtain ⟨digests', based', named', -⟩ := archive.holds.sync based named
      have same := (c.checkpoint_spec (H := E.hash) (s.scan cfg)).1
      rw [protocol] at checked
      have e : (c.checkpoint E.hash (s.scan cfg)).2 = after := congrArg Prod.snd checked
      rw [place_open]
      exact ⟨after, digests', rfl, e ▸ same ▸ based', named'⟩
    · rw [List.map_append]
      exact holds.paths_closeSegment managed archive.paths m
    · intro m' mem
      show (Table.put s.manifests (manifestPath cfg.logId m) m).lookup _ = _
      rcases List.mem_append.mp mem with mem | mem
      · obtain ⟨i, hi⟩ := List.mem_iff_getElem?.mp mem
        obtain ⟨left, segment, right, split, -, seals'⟩ := archive.sealed_.exists_segment hi
        -- The path of a manifest names its last record, so no earlier one is overwritten.
        have lt : m'.lastSeq.toNat < m.lastSeq.toNat := by
          have nonempty := seals.nonempty
          have more : init ++ [last] = (left ++ [segment]) ++ (right ++ [last]) := by
            rw [split]
            simp
          rw [seals'.lastSeq, seals.lastSeq, List.nil_append, Int.toNat_natCast, Int.toNat_natCast, more,
            place_append 1 (left ++ [segment]), List.length_append, place_append _ right, List.length_append,
            place_singleton, length_placeEntries]
          omega
        rw [Table.lookup_put_ne _ (manifestPath_ne seals'.mmrSize seals.mmrSize
          (forestSize_strictMono.injective.ne lt.ne)), archive.kept m' mem]
      · rw [List.mem_singleton.mp mem, Table.lookup_put_self]

/-- A store whose closed segments are those before the last one. -/
def Archived (E : Env MmrCheckpointer) (cfg : Config) (s : Store MmrCheckpointer) : Prop :=
  ∃ init last ms, s.Archive E cfg init last ms

/-- A fresh store is archived. -/
lemma archived_fresh (E : Env MmrCheckpointer) (managed : cfg.rotateAtCheckpoint = true) :
    (fresh cfg (some MmrCheckpointer.empty)).Archived E cfg := by
  obtain ⟨init, last, holds, looked⟩ := sound_fresh E cfg (some MmrCheckpointer.empty)
  have made : (fresh cfg (some MmrCheckpointer.empty)).manifest.segments =
      [⟨segmentName 1, true, none, none, none⟩] ∧
      (fresh cfg (some MmrCheckpointer.empty)).checkpointer = some MmrCheckpointer.empty := by
    unfold fresh Store.syncWriteSegment
    rw [managed]
    exact ⟨rfl, rfl⟩
  obtain ⟨segments, attached⟩ := made
  have count := congrArg List.length (holds.managed managed).2
  rw [segments, List.map_singleton, List.length_singleton, List.length_map, List.length_append,
    List.length_singleton] at count
  obtain rfl : init = [] := List.length_eq_zero_iff.mp (by omega)
  refine ⟨[], last, [], holds, looked, ?_, ?_, fun m mem => (by cases mem), trivial⟩
  · exact ⟨_, [], attached, MmrLedger.over_empty, rfl⟩
  · rw [segments]
    rfl

/-- One call keeps the store archived. -/
lemma Archived.step (lawful : E.aac.Lawful) (protocol : E.protocol = MmrCheckpointer.protocol E.hash)
    (managed : cfg.rotateAtCheckpoint = true) (archived : s.Archived E cfg) (call : Call) :
    (s.step E cfg call).Archived E cfg := by
  obtain ⟨init, last, ms, archive⟩ := archived
  cases call with
  | append capsule consequential admission =>
    rw [Store.step]
    rcases archive.holds.append_cases lawful archive.looked capsule consequential admission with
      same | ⟨init₁, last₁, s₁, -, -, -, unchanged, rest⟩
    · rw [same]
      exact ⟨init, last, ms, archive⟩
    · obtain ⟨rfl, rfl, rfl⟩ := unchanged managed
      rcases rest with same | ⟨e, stored, fresh, offset, same | ⟨-, rotated⟩⟩
      · rw [same]
        exact ⟨_, _, ms, archive⟩
      · rw [same]
        exact ⟨_, _, ms, archive.recorded stored fresh offset⟩
      · rw [rotated]
        exact (archive.recorded stored fresh offset).rotateSegment protocol managed
  | unmountSegment name => exact ⟨init, last, ms, archive.unmountSegment name⟩
  | mountSegment name => exact ⟨init, last, ms, archive.mountSegment name⟩

/-- The closed segments in the order of the store manifest, each with the manifest at its path. -/
def closedSegments {κ : Type} (s : Store κ) : List (Str × Option SegmentManifest) :=
  s.manifest.segments.filterMap fun entry =>
    entry.manifest.map fun path => (entry.name, s.manifests.lookup path)

/-- Manifests that follow one another without gap or overlap. -/
def Tiles : ℤ → List SegmentManifest → Prop
  | _, [] => True
  | next, m :: ms => m.firstSeq = next ∧ m.firstSeq ≤ m.lastSeq ∧ Tiles (m.lastSeq + 1) ms

/-- A manifest of a store counts the records of its segment, and commits the log up to the last of them. -/
structure Closed (H : HashFunction) {κ : Type} (s : Store κ) (name : Str) (m : SegmentManifest) :
    Prop where
  lastSeq_le : m.lastSeq ≤ s.rows.length
  rows : ∀ row ∈ s.rows, row.segment = name ↔ m.firstSeq ≤ row.seq ∧ row.seq ≤ m.lastSeq
  commits : ∃ digests nodes root,
    ((s.rows.take m.lastSeq.toNat).map fun row => fromHex row.capsuleId) =
        digests.map (fun d : Digest => some d.1) ∧
      addDigests H [] digests = .ok nodes ∧ m.mmrSize = nodes.length ∧
      rootAt H nodes nodes.length = .ok root ∧ m.checkpointRoot = toHex root

/-- Sealed segments tile the sequence. -/
lemma tiles_of_sealed {before segments : List Segment} {ms : List SegmentManifest} {H : HashFunction}
    {aac : Aac} (sealed_ : Sealed H aac before segments ms) :
    Tiles ((place 1 before).length + 1) ms := by
  induction segments generalizing before ms with
  | nil =>
    cases ms with
    | nil => trivial
    | cons m ms => exact sealed_.elim
  | cons segment segments ih =>
    cases ms with
    | nil => exact sealed_.elim
    | cons m ms =>
      obtain ⟨seals, rest⟩ := sealed_
      have nonempty := seals.nonempty
      refine ⟨seals.firstSeq, ?_, seals.lastSeq ▸ ih rest⟩
      rw [seals.firstSeq, seals.lastSeq, place_append, List.length_append, place_singleton,
        length_placeEntries]
      push_cast
      omega

/-- The number of a place lies within its segments. -/
lemma seq_bounds {seq : ℕ} {segments : List Segment} {p : Placed} (mem : p ∈ place seq segments) :
    seq ≤ p.seq ∧ p.seq < seq + (place seq segments).length := by
  have own := List.mem_map_of_mem (f := Placed.seq) mem
  rw [map_seq_place, List.mem_range'_1] at own
  exact own

/-- The places of a segment are those between its bounds. -/
lemma mem_segment_iff {left right : List Segment} {segment : Segment}
    (nodup : ((left ++ segment :: right).map Segment.name).Nodup) {p : Placed}
    (mem : p ∈ place 1 (left ++ segment :: right)) :
    p.segment = segment.name ↔
      (place 1 left).length + 1 ≤ p.seq ∧ p.seq ≤ (place 1 (left ++ [segment])).length := by
  rw [List.map_append, List.map_cons, List.nodup_append', List.nodup_cons] at nodup
  obtain ⟨-, ⟨notRight, -⟩, disjoint⟩ := nodup
  have more : (place 1 (left ++ [segment])).length = (place 1 left).length + segment.entries.length := by
    rw [place_append, List.length_append, place_singleton, length_placeEntries]
  rw [place_append, place, List.mem_append, List.mem_append] at mem
  rw [more]
  rcases mem with mem | mem | mem
  · obtain ⟨other, hother, name, -⟩ := mem_place mem
    have bounds := seq_bounds mem
    refine iff_of_false (fun own => ?_) (by omega)
    exact disjoint (List.mem_map_of_mem hother) (by simp [name, own])
  · have own := List.mem_map_of_mem (f := Placed.seq) mem
    rw [map_seq_placeEntries, List.mem_range'_1] at own
    obtain ⟨_, _, -, name, -⟩ := mem_placeEntries mem
    exact iff_of_true name (by omega)
  · obtain ⟨other, hother, name, -⟩ := mem_place mem
    have bounds := seq_bounds mem
    refine iff_of_false (fun own => ?_) (by omega)
    exact notRight (own ▸ name ▸ List.mem_map_of_mem hother)

/-- An entry is found by its name. -/
lemma entry_eq {m : StoreManifest} (nodup : (m.segments.map SegmentEntry.name).Nodup) {entry : SegmentEntry}
    (mem : entry ∈ m.segments) : m.entry entry.name = some entry := by
  cases found : m.entry entry.name with
  | none =>
    unfold StoreManifest.entry at found
    have := List.find?_eq_none.mp found entry mem
    simp at this
  | some other =>
    have name := name_of_entry found
    unfold StoreManifest.entry at found
    rw [List.inj_on_of_nodup_map nodup (List.mem_of_find?_eq_some found) mem name]

/-- The entries of the closed segments, by their order. -/
lemma Archive.entry (archive : s.Archive E cfg init last ms) (managed : cfg.rotateAtCheckpoint = true)
    {i : ℕ} {segment : Segment} {m : SegmentManifest} (hsegment : init[i]? = some segment)
    (hm : ms[i]? = some m) :
    ∃ entry, s.manifest.entry segment.name = some entry ∧
      entry.manifest = some (manifestPath cfg.logId m) := by
  have names := (archive.holds.managed managed).2
  have inside := (List.getElem?_eq_some_iff.mp hsegment).1
  have inside' := (List.getElem?_eq_some_iff.mp hm).1
  have name : (s.manifest.segments.map SegmentEntry.name)[i]? = some segment.name := by
    rw [names, List.map_append, List.getElem?_append_left (by rwa [List.length_map]), List.getElem?_map,
      hsegment]
    rfl
  have path : (s.manifest.segments.map SegmentEntry.manifest)[i]? =
      some (some (manifestPath cfg.logId m)) := by
    rw [archive.paths, List.getElem?_append_left (by rwa [List.length_map]), List.getElem?_map, hm]
    rfl
  rw [List.getElem?_map, Option.map_eq_some_iff] at name path
  obtain ⟨entry, hentry, name⟩ := name
  obtain ⟨entry', hentry', path⟩ := path
  rw [hentry] at hentry'
  cases hentry'
  refine ⟨entry, ?_, path⟩
  rw [← name]
  exact entry_eq (names ▸ archive.holds.nodup) (List.mem_of_getElem? hentry)

/-- The closed segments are those before the last one. -/
lemma Archive.closedSegments (archive : s.Archive E cfg init last ms)
    (managed : cfg.rotateAtCheckpoint = true) :
    s.closedSegments = ((init.map Segment.name).zip ms).map fun c => (c.1, some c.2) := by
  have front {entries : List SegmentEntry} {names : List Str} {ms : List SegmentManifest}
      (hnames : entries.map SegmentEntry.name = names)
      (hpaths : entries.map SegmentEntry.manifest = ms.map fun m => some (manifestPath cfg.logId m))
      (kept : ∀ m ∈ ms, s.manifests.lookup (manifestPath cfg.logId m) = some m) :
      (entries.filterMap fun entry =>
        entry.manifest.map fun path => (entry.name, s.manifests.lookup path)) =
        (names.zip ms).map fun c => (c.1, some c.2) := by
    induction entries generalizing names ms with
    | nil =>
      subst hnames
      rfl
    | cons entry entries ih =>
      cases ms with
      | nil => cases hpaths
      | cons m ms =>
        subst hnames
        obtain ⟨path, hpaths⟩ := List.cons.inj hpaths
        rw [List.filterMap_cons, path, Option.map_some, kept m List.mem_cons_self,
          ih rfl hpaths fun m' hm' => kept m' (List.mem_cons_of_mem _ hm')]
        rfl
  have names := (archive.holds.managed managed).2
  obtain ⟨entries, entry, split⟩ : ∃ entries entry, s.manifest.segments = entries ++ [entry] := by
    rcases List.eq_nil_or_concat s.manifest.segments with empty | ⟨entries, entry, split⟩
    · rw [empty] at names
      simp at names
    · exact ⟨entries, entry, by rw [split, List.concat_eq_append]⟩
  have paths := archive.paths
  rw [split, List.map_append, List.map_append] at names
  rw [split, List.map_append] at paths
  obtain ⟨hnames, -⟩ := List.append_inj' names rfl
  obtain ⟨hpaths, own⟩ := List.append_inj' paths rfl
  have own : entry.manifest = none := (List.cons.inj own).1
  rw [Store.closedSegments, split, List.filterMap_append, front hnames hpaths archive.kept,
    List.filterMap_cons, own]
  simp

/-- What a closed segment's manifest says holds, and the segment verifies. -/
lemma Archive.closed (archive : s.Archive E cfg init last ms) (managed : cfg.rotateAtCheckpoint = true)
    {c : Str × SegmentManifest} (mem : c ∈ (init.map Segment.name).zip ms) :
    Closed E.hash s c.1 c.2 ∧ s.verifySegmentStandalone E cfg c.1 = .ok (true, []) := by
  obtain ⟨name, m⟩ := c
  obtain ⟨i, hi⟩ := List.mem_iff_getElem?.mp mem
  obtain ⟨hname, hm⟩ := List.getElem?_zip_eq_some.mp hi
  dsimp only at hname hm ⊢
  obtain ⟨left, segment, right, split, rfl, seals⟩ := archive.sealed_.exists_segment hm
  have own : init[left.length]? = some segment := by rw [split, List.getElem?_append_right le_rfl]; simp
  obtain rfl : segment.name = name := by
    rw [List.getElem?_map, own] at hname
    exact Option.some.inj hname
  rw [List.nil_append] at seals
  have member : segment ∈ init ++ [last] := by simp [split]
  have all : init ++ [last] = left ++ segment :: (right ++ [last]) := by rw [split]; simp
  -- The segments up to the closed one, and those after it.
  have parts : init ++ [last] = (left ++ [segment]) ++ (right ++ [last]) := by rw [split]; simp
  refine ⟨⟨?_, ?_, ?_⟩, ?_⟩
  · rw [seals.lastSeq, archive.holds.length_rows, parts, place_append _ (left ++ [segment]),
      List.length_append]
    omega
  · intro row hrow
    rw [archive.holds.rows] at hrow
    obtain ⟨p, hp, rfl⟩ := List.mem_map.mp hrow
    have nodup := archive.holds.nodup
    rw [all] at hp nodup
    have bounds := mem_segment_iff nodup hp
    rw [seals.firstSeq, seals.lastSeq]
    show p.segment = segment.name ↔ _ ∧ ((p.seq : ℕ) : ℤ) ≤ _
    rw [bounds]
    show _ ↔ _ ≤ ((p.seq : ℕ) : ℤ) ∧ _
    omega
  · obtain ⟨digests, nodes, root, named, build, size, committed, hroot⟩ := seals.commits
    refine ⟨digests, nodes, root, ?_, build, size, committed, hroot⟩
    rw [archive.holds.rows, seals.lastSeq, Int.toNat_natCast, parts,
      place_append 1 (left ++ [segment]), ← List.map_take,
      List.take_left, List.map_map]
    exact named
  · obtain ⟨entry, found, path⟩ := archive.entry managed own hm
    unfold verifySegmentStandalone requireManaged
    rw [require_of managed, ok_bind, found]
    dsimp only
    rw [path]
    dsimp only
    rw [archive.kept m (List.mem_of_getElem? hm)]
    dsimp only
    rw [archive.holds.files segment member]
    dsimp only
    rw [seals.accepted]

/-- The closed segments after any history of a store with an `MmrCheckpointer`: their manifests divide the
first records among them, name the roots of the log, and verify whether mounted or not. -/
lemma closed_run (lawful : E.aac.Lawful) (protocol : E.protocol = MmrCheckpointer.protocol E.hash)
    (managed : cfg.rotateAtCheckpoint = true) (calls : List Call) :
    let s := Run.run (step E cfg) (fresh cfg (some MmrCheckpointer.empty)) calls
    s.rows.map Row.seq = List.range' 1 s.rows.length ∧
      ∃ closed : List (Str × SegmentManifest), s.closedSegments = closed.map (fun c => (c.1, some c.2)) ∧
        Tiles 1 (closed.map Prod.snd) ∧
        ∀ c ∈ closed, Closed E.hash s c.1 c.2 ∧ s.verifySegmentStandalone E cfg c.1 = .ok (true, []) := by
  intro s
  obtain ⟨init, last, ms, archive⟩ : s.Archived E cfg :=
    Run.invariant (step E cfg) (fun _ call archived => archived.step lawful protocol managed call)
      (archived_fresh E managed) calls
  have length : (init.map Segment.name).length = ms.length := by
    rw [List.length_map, archive.sealed_.length_eq]
  refine ⟨?_, _, archive.closedSegments managed, ?_, fun c mem => archive.closed managed mem⟩
  · rw [archive.holds.rows, List.map_map, List.length_map]
    exact map_seq_place 1 _
  · rw [List.map_snd_zip length.ge]
    exact tiles_of_sealed archive.sealed_

/-- An environment whose checkpointer is `MmrCheckpointer`. -/
def mmrEnv (hash : HashFunction) (aac : Aac) (realText : Str → Cell) : Env MmrCheckpointer :=
  ⟨hash, aac, realText, MmrCheckpointer.protocol hash⟩

/-- The closed segments of every history tile its first records and verify. What is accepted against a root
of a log are the records that the manifest names, at the size it declares, exactly if that is the size of
its range proof and the last record named is the last one committed. -/
theorem segments_verify {hash : HashFunction} {aac : Aac} (lawful : aac.Lawful) (realText : Str → Cell)
    {cfg : Config} (managed : cfg.rotateAtCheckpoint = true) (calls : List Call) :
    (let E := mmrEnv hash aac realText
      let s := Run.run (step E cfg) (fresh cfg (some MmrCheckpointer.empty)) calls
      s.rows.map Row.seq = List.range' 1 s.rows.length ∧
        ∃ closed : List (Str × SegmentManifest),
          s.closedSegments = closed.map (fun c => (c.1, some c.2)) ∧ Tiles 1 (closed.map Prod.snd) ∧
          ∀ c ∈ closed, Closed hash s c.1 c.2 ∧ s.verifySegmentStandalone E cfg c.1 = .ok (true, [])) ∧
      ∀ {digests : List Digest} {nodes : List Bytes} {n : ℕ} {root : Bytes} {b : Bytes} {m : SegmentManifest},
        addDigests hash [] digests = .ok nodes → n < digests.length →
        rootAt hash nodes (nodeCount (n + 1)) = .ok root → fromHex m.checkpointRoot = some root →
        Set.InjOn hash.digest {s | s ∈ storeHashed digests nodes ∨
          s ∈ rootAtHashed hash nodes (nodeCount (n + 1)) ∨ s ∈ verifySegmentHashed hash aac b m} →
        (verifySegment hash aac b m).1 = true →
        (segmentDigests aac b = .ok (rangeOf digests (m.firstSeq - 1).toNat (m.lastSeq - 1).toNat) ∧
            m.mmrSize = m.rangeProof.size ↔
          m.mmrSize = m.rangeProof.size ∧ digests[(m.lastSeq - 1).toNat]? = digests[n]?) := by
  refine ⟨@closed_run (mmrEnv hash aac realText) cfg lawful rfl managed calls, ?_⟩
  intro digests nodes n root b m build lt committed hroot inj accepted
  rw [segmentDigests_eq_iff build lt committed hroot inj accepted]
  exact and_comm

/-- A line with the id of the third sample record. -/
def forgedBytes : Bytes :=
  lineOf (sealedFields (toHex (List.replicate 32 3)) [] (stampedAt "2026-03-08T22:00:00-12:00"))

/-- A manifest that places it fifth in a log of five records, with the root of three. -/
def forgedManifest : SegmentManifest where
  logId := []
  firstSeq := 5
  lastSeq := 5
  firstTs := none
  lastTs := none
  checkpointRoot := toHex sampleRoot
  mmrSize := 4
  bytes := forgedBytes.length
  recordCount := 1
  sha256OfSegment := toHex (sha256Hash.digest forgedBytes)
  rangeProof := ⟨5, 5, 8, 4, 4, [.str (toHex (sampleNodes.getD 2 []))]⟩

/-- The strings hashed when it is verified. -/
def forgedHashed : List Bytes :=
  storeHashed sampleDigests sampleNodes ++
    (rootAtHashed sha256Hash sampleNodes (nodeCount 3) ++
      verifySegmentHashed sha256Hash sampleAac forgedBytes forgedManifest)

/-- The forged manifest is accepted without a collision. -/
lemma forged_checks : ((verifySegment sha256Hash sampleAac forgedBytes forgedManifest).1 &&
    decide (∀ a ∈ forgedHashed, ∀ b ∈ forgedHashed,
      sha256Hash.digest a = sha256Hash.digest b → a = b)) = true := by
  simp only [forgedHashed, forgedManifest, sampleNodes_bytes, sampleRoot_bytes, sha256Hash_eq]
  decide +kernel

/-- The forged manifest is accepted. -/
lemma forged_accepted : (verifySegment sha256Hash sampleAac forgedBytes forgedManifest).1 = true :=
  (Bool.and_eq_true_iff.mp forged_checks).1

/-- The digest has no collision on what the forged manifest hashes. -/
lemma forged_injOn : Set.InjOn sha256Hash.digest {s | s ∈ storeHashed sampleDigests sampleNodes ∨
    s ∈ rootAtHashed sha256Hash sampleNodes (nodeCount 3) ∨
      s ∈ verifySegmentHashed sha256Hash sampleAac forgedBytes forgedManifest} :=
  injOn_lists (of_decide_eq_true (Bool.and_eq_true_iff.mp forged_checks).2)

/-- Segments of three hundred bytes that rotate at checkpoints. -/
def managedConfig : Config := { sampleConfig with rotateAtCheckpoint := true, maxSegmentBytes := 300 }

/-- Two appends that fill a segment. -/
def closingCalls : List Call := [.append stampedCapsule true .unsigned, .append laterCapsule true .unsigned]

/-- The store after them. -/
def closingStore : Store MmrCheckpointer :=
  Run.run (step sampleEnv managedConfig) (fresh managedConfig (some MmrCheckpointer.empty)) closingCalls

/-- The second of them closes it. -/
lemma closingStore_segments : closingStore.closedSegments.length = 1 := by decide +kernel

/-- A closed segment holds the records of a store and verifies. -/
theorem segments_verify_sample :
    (closingStore.closedSegments.length = 1 ∧
      closingStore.rows.map Row.seq = List.range' 1 closingStore.rows.length ∧
        ∃ closed : List (Str × SegmentManifest),
          closingStore.closedSegments = closed.map (fun c => (c.1, some c.2)) ∧
          Tiles 1 (closed.map Prod.snd) ∧ ∀ c ∈ closed, Closed sha256Hash closingStore c.1 c.2 ∧
            closingStore.verifySegmentStandalone sampleEnv managedConfig c.1 = .ok (true, [])) ∧
      (segmentDigests sampleAac forgedBytes = .ok (rangeOf sampleDigests 4 4) ∧
          forgedManifest.mmrSize = forgedManifest.rangeProof.size ↔
        forgedManifest.mmrSize = forgedManifest.rangeProof.size ∧
          sampleDigests[4]? = sampleDigests[2]?) := by
  obtain ⟨tiled, exact_⟩ := @segments_verify sha256Hash sampleAac sampleAac_lawful (fun _ => none) managedConfig rfl
    closingCalls
  refine ⟨⟨closingStore_segments, tiled⟩, ?_⟩
  exact exact_ (n := 2) (b := forgedBytes) (m := forgedManifest) sampleNodes_eq (by decide) sampleRoot_eq
    (fromHex_toHex sampleRoot) forged_injOn forged_accepted

/-- A manifest is accepted against the root of three records whose fifth record it names. -/
theorem segment_forged :
    (verifySegment sha256Hash sampleAac forgedBytes forgedManifest).1 = true ∧
      fromHex forgedManifest.checkpointRoot = some sampleRoot ∧
      rootAt sha256Hash sampleNodes (nodeCount 3) = .ok sampleRoot ∧
      Set.InjOn sha256Hash.digest {s | s ∈ storeHashed sampleDigests sampleNodes ∨
        s ∈ rootAtHashed sha256Hash sampleNodes (nodeCount 3) ∨
          s ∈ verifySegmentHashed sha256Hash sampleAac forgedBytes forgedManifest} ∧
      forgedManifest.mmrSize ≠ forgedManifest.rangeProof.size ∧
      (forgedManifest.lastSeq : ℤ) > sampleDigests.length :=
  ⟨forged_accepted, fromHex_toHex sampleRoot, sampleRoot_eq, forged_injOn, by decide, by decide⟩

end Store

end CLL.Ledger
