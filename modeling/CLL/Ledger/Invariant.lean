import CLL.Ledger.Content

/-!
# The invariant of a store

`Store.Holds` relates a store to its content: the closed segments and the last one, which is written to.
The lemmas after it say how each method changes the content, and `sound_run` that every history of calls
leaves a store with some content.
-/

namespace CLL.Ledger
open CLL.Core

/-- Segments of different numbers have different names. -/
lemma segmentName_injective : Function.Injective segmentName := by
  intro m n e
  have digits : Decimal.pad 6 m = Decimal.pad 6 n := by
    unfold segmentName at e
    exact List.append_cancel_left (List.append_cancel_right e)
  rw [← Decimal.value_pad 6 m, digits, Decimal.value_pad]

/-- An ASCII text is encodable. -/
lemma encodable_of_small {s : Str} (small : ∀ c ∈ s, c < 128) : encodable s = true := by
  rw [encodable, Json.encode_of_ascii small]
  rfl

/-- The name of a segment is encodable. -/
lemma encodable_segmentName (n : ℕ) : encodable (segmentName n) = true := by
  apply encodable_of_small
  intro c hc
  simp only [segmentName, List.mem_append] at hc
  rcases hc with (hc | hc) | hc
  · revert c
    decide
  · have := Decimal.isDigit_pad hc
    simp only [Decimal.isDigit, Bool.and_eq_true, decide_eq_true_eq] at this
    omega
  · revert c
    decide

/-- The names of the first segments. -/
def segmentNames (n : ℕ) : List Str := (List.range n).map fun i => segmentName (i + 1)

/-- The next segment name follows the earlier ones. -/
lemma segmentNames_succ (n : ℕ) : segmentNames (n + 1) = segmentNames n ++ [segmentName (n + 1)] := by
  simp [segmentNames, List.range_succ]

/-- Segment names are distinct. -/
lemma nodup_segmentNames (n : ℕ) : (segmentNames n).Nodup := by
  refine List.Nodup.map (fun i j e => ?_) List.nodup_range
  exact Nat.succ_injective (segmentName_injective e)

/-- The next segment name is new. -/
lemma notMem_segmentNames (n : ℕ) : segmentName (n + 1) ∉ segmentNames n := by
  intro mem
  obtain ⟨i, hi, e⟩ := List.mem_map.mp mem
  have := segmentName_injective e
  rw [List.mem_range] at hi
  omega

/-- An entry is found under its name. -/
lemma name_of_entry {m : StoreManifest} {name : Str} {entry : SegmentEntry}
    (found : m.entry name = some entry) : entry.name = name := by
  unfold StoreManifest.entry at found
  have named := List.find?_some found
  exact of_decide_eq_true named

/-- A change that keeps the names is found under them. -/
lemma entry_map (m : StoreManifest) (f : SegmentEntry → SegmentEntry) (keeps : ∀ e, (f e).name = e.name)
    (name : Str) :
    (m.segments.map f).find? (fun e => e.name = name) = (m.entry name).map f := by
  rw [List.find?_map, StoreManifest.entry]
  congr 2
  funext e
  simp [keeps]

/-- Entries that keep their name and their mount keep a segment where it is. -/
lemma any_entry_map (m : StoreManifest) (f : SegmentEntry → SegmentEntry)
    (keeps : ∀ e, (f e).name = e.name ∧ (f e).mounted = e.mounted) (name : Str) :
    ((m.segments.map f).find? (fun e => e.name = name)).any (fun e => !e.mounted) =
      (m.entry name).any fun e => !e.mounted := by
  rw [entry_map m f fun e => (keeps e).1]
  cases m.entry name with
  | none => rfl
  | some e => simp [(keeps e).2]

/-- A mounted segment at the end changes no other one, and is itself mounted if its name is new. -/
lemma any_entry_append (segments : List SegmentEntry) (last : SegmentEntry) (mounted : last.mounted = true)
    (name : Str) :
    ((segments ++ [last]).find? (fun e => e.name = name)).any (fun e => !e.mounted) =
      (segments.find? (fun e => e.name = name)).any fun e => !e.mounted := by
  rw [List.find?_append]
  cases segments.find? (fun e => e.name = name) with
  | some e => rfl
  | none =>
    rw [Option.none_or, List.find?_singleton]
    split <;> simp [mounted]

/-- The last name in order is the greatest one. -/
lemma greatest_of_getLast? {names : List Str} {name : Str}
    (last : (names.insertionSort (· ≤ ·)).getLast? = some name) :
    name ∈ names ∧ ∀ other ∈ names, other ≤ name := by
  obtain ⟨before, split⟩ := List.getLast?_eq_some_iff.mp last
  have sorted := List.pairwise_insertionSort (· ≤ ·) names
  rw [split, List.pairwise_append] at sorted
  have mem (other : Str) : other ∈ names ↔ other ∈ before ++ [name] := by
    rw [← split, List.mem_insertionSort]
  refine ⟨(mem name).mpr (by simp), fun other hother => ?_⟩
  rcases List.mem_append.mp ((mem other).mp hother) with h | h
  · exact sorted.2.2 other h name (by simp)
  · exact (List.mem_singleton.mp h).le

/-- The row ids are the numbers from one on. -/
lemma nextSeq_of_range {rows : List Row} (numbered : rows.map Row.seq = List.range' 1 rows.length) :
    nextSeq rows = rows.length + 1 := by
  have greatest (start count : ℕ) (pos : 0 < count) :
      (List.range' start count).foldr max 0 = start + count - 1 := by
    induction count generalizing start with
    | zero => cases pos
    | succ count ih =>
      rw [List.range'_succ, List.foldr_cons]
      cases count with
      | zero => simp
      | succ count =>
        rw [ih (start + 1) (Nat.succ_pos count)]
        omega
  rw [nextSeq, numbered]
  cases rows with
  | nil => rfl
  | cons row rows =>
    rw [List.length_cons, greatest 1 _ (Nat.succ_pos _)]
    omega

namespace Store

variable {κ : Type}

/-- The store holds `init` and, last, the segment that is written to. -/
structure Holds (E : Env κ) (cfg : Config) (s : Store κ) (init : List Segment) (last : Segment) :
    Prop where
  named : (init ++ [last]).map Segment.name = CLL.Ledger.segmentNames (init.length + 1)
  rows : s.rows = (place 1 (init ++ [last])).map (Placed.row E.realText)
  files : ∀ segment ∈ init ++ [last], s.readSegment cfg segment.name = .ok (bytesOf segment.entries)
  active : s.isArchived cfg last.name = false
  known : ∀ file ∈ s.files ++ s.archived, file.1 ∈ (init ++ [last]).map Segment.name
  stored : ∀ segment ∈ init ++ [last], ∀ e ∈ segment.entries, e.Stored E.aac
  offsets : ∀ p ∈ place 1 (init ++ [last]), isInt64 p.offset = true
  ids : ((place 1 (init ++ [last])).map fun p => p.entry.capsuleId).Nodup
  recovered : s.needsRecover = false
  managed : cfg.rotateAtCheckpoint = true → s.manifest.activeSegment = some last.name ∧
    s.manifest.segments.map SegmentEntry.name = (init ++ [last]).map Segment.name
  unmanaged : cfg.rotateAtCheckpoint = false →
    s.files.map Prod.fst = (init ++ [last]).map Segment.name ∧
      ∀ name ∈ s.files.map Prod.fst, (∀ other ∈ s.files.map Prod.fst, other ≤ name) →
        name = last.name ∨ cfg.segmentMaxRecords ≤ s.segmentRecordCount name

/-- The lookup index is that of the places. -/
def Looked (E : Env κ) (cfg : Config) (s : Store κ) (segments : List Segment) : Prop :=
  s.lookup = some (LookupIndex.ofInputs E.realText cfg.correlationFields
    ((place 1 segments).map Placed.input))

variable {E : Env κ} {cfg : Config} {s : Store κ} {init : List Segment} {last : Segment}

/-- A segment is read from the archive or from the files. -/
lemma readSegment_eq_ok {name : Str} {bytes : Bytes} : s.readSegment cfg name = .ok bytes ↔
    (if s.isArchived cfg name then s.archived else s.files).lookup name = some bytes := by
  unfold readSegment
  split
  · rename_i e
    simp [e]
  · rename_i e
    simp [e]

/-- The segments have distinct names. -/
lemma Holds.nodup (holds : s.Holds E cfg init last) :
    ((init ++ [last]).map Segment.name).Nodup := by
  rw [holds.named]
  exact nodup_segmentNames _

/-- The last segment is in the files. -/
lemma Holds.lookup_last (holds : s.Holds E cfg init last) :
    s.files.lookup last.name = some (bytesOf last.entries) := by
  have read := readSegment_eq_ok.mp (holds.files last (by simp))
  rw [holds.active] at read
  simpa using read

/-- No earlier segment has the name of the last one. -/
lemma Holds.notMem_init (holds : s.Holds E cfg init last) {segment : Segment} (mem : segment ∈ init) :
    segment.name ≠ last.name := by
  have nodup := holds.nodup
  rw [List.map_append, List.nodup_append'] at nodup
  intro e
  exact nodup.2.2 (List.mem_map_of_mem mem) (by simp [e])

/-- The name of the next segment is new. -/
lemma Holds.next_notMem (holds : s.Holds E cfg init last) :
    segmentName (init.length + 2) ∉ (init ++ [last]).map Segment.name := by
  rw [holds.named]
  exact notMem_segmentNames _

/-- The next segment is not in the files. -/
lemma Holds.lookup_next (holds : s.Holds E cfg init last) :
    s.files.lookup (segmentName (init.length + 2)) = none := by
  rw [Table.lookup_eq_none]
  intro mem
  obtain ⟨file, hfile, e⟩ := List.mem_map.mp mem
  exact holds.next_notMem (e ▸ holds.known file (List.mem_append_left _ hfile))

/-- There is one row for each place. -/
lemma Holds.length_rows (holds : s.Holds E cfg init last) :
    s.rows.length = (place 1 (init ++ [last])).length := by rw [holds.rows, List.length_map]

/-- A new segment becomes the last one. -/
lemma Holds.named_open (holds : s.Holds E cfg init last) :
    ((init ++ [last]) ++ [(⟨segmentName (init.length + 2), []⟩ : Segment)]).map Segment.name =
      CLL.Ledger.segmentNames ((init ++ [last]).length + 1) := by
  rw [List.map_append, holds.named, List.length_append, List.length_singleton,
    segmentNames_succ (init.length + 1)]
  rfl

/-- A segment is read alike where its file and its archive are. -/
lemma readSegment_congr {s s' : Store κ} {name : Str}
    (archived : s'.isArchived cfg name = s.isArchived cfg name)
    (files : s'.files.lookup name = s.files.lookup name)
    (archive : s'.archived.lookup name = s.archived.lookup name) :
    s'.readSegment cfg name = s.readSegment cfg name := by
  unfold readSegment
  rw [archived]
  cases s.isArchived cfg name with
  | true =>
    rw [if_pos rfl, if_pos rfl, archive]
  | false =>
    rw [if_neg Bool.false_ne_true, if_neg Bool.false_ne_true, files]

/-- Nothing is archived without managed segments. -/
lemma isArchived_unmanaged (unmanaged : cfg.rotateAtCheckpoint = false) (name : Str) :
    s.isArchived cfg name = false := by rw [isArchived, unmanaged, Bool.false_and]

/-- The counts of the rows do not change with the other tables. -/
lemma segmentRecordCount_congr {s s' : Store κ} (rows : s'.rows = s.rows) (name : Str) :
    s'.segmentRecordCount name = s.segmentRecordCount name := by
  rw [segmentRecordCount, segmentRecordCount, rows]

/-- An empty segment is added at the end. -/
lemma Holds.open_ (holds : s.Holds E cfg init last) {s' : Store κ} (rows : s'.rows = s.rows)
    (recovered : s'.needsRecover = s.needsRecover)
    (files : s'.files = Table.put s.files (segmentName (init.length + 2)) [])
    (archive : s'.archived = s.archived)
    (archived : ∀ name, name = segmentName (init.length + 2) ∨ name ∈ (init ++ [last]).map Segment.name →
      s'.isArchived cfg name = if name = segmentName (init.length + 2) then false
        else s.isArchived cfg name)
    (managed : cfg.rotateAtCheckpoint = true →
      s'.manifest.activeSegment = some (segmentName (init.length + 2)) ∧
        s'.manifest.segments.map SegmentEntry.name =
          s.manifest.segments.map SegmentEntry.name ++ [segmentName (init.length + 2)])
    (full : cfg.rotateAtCheckpoint = false → ∀ name ∈ s.files.map Prod.fst,
      (∀ other ∈ s.files.map Prod.fst, other ≤ name) →
        cfg.segmentMaxRecords ≤ s.segmentRecordCount name) :
    s'.Holds E cfg (init ++ [last]) ⟨segmentName (init.length + 2), []⟩ := by
  have fresh := holds.next_notMem
  have keys : s'.files.map Prod.fst =
      s.files.map Prod.fst ++ [segmentName (init.length + 2)] := by
    rw [files, Table.keys_put, if_neg]
    rw [← Table.lookup_eq_none]
    exact holds.lookup_next
  -- The new segment is empty, so every clause about records is the one before.
  refine ⟨holds.named_open, ?_, ?_, ?_, ?_, ?_, ?_, ?_, ?_, ?_, ?_⟩
  · rw [rows, holds.rows, place_open]
  · intro segment mem
    rcases List.mem_append.mp mem with mem | mem
    · have name := List.mem_map_of_mem (f := Segment.name) mem
      have ne : segment.name ≠ segmentName (init.length + 2) := fun e => fresh (e ▸ name)
      rw [← holds.files segment mem]
      apply readSegment_congr
      · rw [archived _ (.inr name), if_neg ne]
      · rw [files, Table.lookup_put_ne _ ne]
      · rw [archive]
    · rw [List.mem_singleton.mp mem, readSegment_eq_ok, archived _ (.inl rfl), if_pos rfl, files]
      exact Table.lookup_put_self _ _ _
  · rw [archived _ (.inl rfl), if_pos rfl]
  · intro file mem
    rw [List.map_append, List.mem_append, List.map_singleton, List.mem_singleton]
    rcases List.mem_append.mp mem with mem | mem
    · have key := List.mem_map_of_mem (f := Prod.fst) mem
      rw [keys, List.mem_append, List.mem_singleton] at key
      refine key.imp_left fun key => ?_
      obtain ⟨old, hold, e⟩ := List.mem_map.mp key
      exact e ▸ holds.known old (List.mem_append_left _ hold)
    · rw [archive] at mem
      exact .inl (holds.known file (List.mem_append_right _ mem))
  · intro segment mem e he
    rcases List.mem_append.mp mem with mem | mem
    · exact holds.stored segment mem e he
    · rw [List.mem_singleton.mp mem] at he
      cases he
  · rw [place_open]
    exact holds.offsets
  · rw [place_open]
    exact holds.ids
  · rw [recovered, holds.recovered]
  · intro true_
    refine ⟨(managed true_).1, ?_⟩
    rw [(managed true_).2, (holds.managed true_).2]
    exact (map_name_open _ _).symm
  · intro false_
    obtain ⟨names, -⟩ := holds.unmanaged false_
    refine ⟨by rw [keys, names]; exact (map_name_open _ _).symm, ?_⟩
    intro name mem greatest
    rw [keys, List.mem_append, List.mem_singleton] at mem
    rw [or_comm]
    refine mem.imp_left fun mem => ?_
    rw [segmentRecordCount_congr rows]
    refine full false_ name mem fun other hother => greatest other ?_
    rw [keys]
    exact List.mem_append_left _ hother

/-- `touch` of the next segment of a store that is not managed. -/
lemma Holds.touch (holds : s.Holds E cfg init last) (unmanaged : cfg.rotateAtCheckpoint = false)
    (full : ∀ name ∈ s.files.map Prod.fst, (∀ other ∈ s.files.map Prod.fst, other ≤ name) →
      cfg.segmentMaxRecords ≤ s.segmentRecordCount name) :
    (s.touch (segmentName (init.length + 2))).Holds E cfg (init ++ [last])
      ⟨segmentName (init.length + 2), []⟩ := by
  refine holds.open_ rfl rfl ?_ rfl ?_ ?_ fun _ => full
  · rw [Store.touch, holds.lookup_next]
    rfl
  · intro name _
    rw [isArchived_unmanaged unmanaged, isArchived_unmanaged unmanaged, ite_self]
  · intro managed
    rw [unmanaged] at managed
    cases managed

/-- A managed store names its next segment after those of its manifest. -/
lemma Holds.newSegmentName (holds : s.Holds E cfg init last) (managed : cfg.rotateAtCheckpoint = true) :
    s.newSegmentName = segmentName (init.length + 2) := by
  have length := congrArg List.length (holds.managed managed).2
  rw [List.length_map, List.length_map, List.length_append, List.length_singleton] at length
  rw [Store.newSegmentName, length]

/-- A managed store opens its next segment. -/
lemma Holds.openSegment (holds : s.Holds E cfg init last) (managed : cfg.rotateAtCheckpoint = true) :
    s.openSegment.2.Holds E cfg (init ++ [last]) ⟨segmentName (init.length + 2), []⟩ := by
  have next := holds.newSegmentName managed
  refine holds.open_ rfl rfl ?_ rfl ?_ ?_ ?_
  · rw [Store.openSegment, next]
    dsimp only [Store.touch]
    rw [holds.lookup_next]
    rfl
  · intro name known
    have listed := (holds.managed managed).2
    have same : s.openSegment.2.isArchived cfg name = s.isArchived cfg name := by
      unfold isArchived
      congr 1
      exact any_entry_append s.manifest.segments ⟨s.newSegmentName, true, none, none, none⟩ rfl name
    rw [same]
    split
    · rename_i own
      have absent : s.manifest.entry name = none := by
        rw [StoreManifest.entry, List.find?_eq_none]
        intro entry mem e
        apply holds.next_notMem
        rw [← listed, ← own, ← of_decide_eq_true e]
        exact List.mem_map_of_mem mem
      rw [isArchived, absent, Option.any_none, Bool.and_false]
    · rfl
  · intro _
    refine ⟨?_, ?_⟩
    · rw [← next]
      rfl
    · rw [← next]
      exact List.map_append
  · intro unmanaged
    rw [managed] at unmanaged
    cases unmanaged

/-- The segment that is written to is the last one, an old or a new one. -/
lemma Holds.syncWriteSegment (holds : s.Holds E cfg init last) :
    s.syncWriteSegment cfg = (last.name, s) ∨
      cfg.rotateAtCheckpoint = false ∧
        s.syncWriteSegment cfg =
          (segmentName (init.length + 2), s.touch (segmentName (init.length + 2))) ∧
        (s.touch (segmentName (init.length + 2))).Holds E cfg (init ++ [last])
          ⟨segmentName (init.length + 2), []⟩ := by
  unfold Store.syncWriteSegment
  cases managed : cfg.rotateAtCheckpoint with
  | true =>
    rw [if_pos rfl, (holds.managed managed).1]
    exact .inl rfl
  | false =>
    obtain ⟨names, written⟩ := holds.unmanaged managed
    have length : s.existingSegments.length = init.length + 1 := by
      rw [existingSegments, List.length_insertionSort, names, List.length_map, List.length_append,
        List.length_singleton]
    rw [if_neg Bool.false_ne_true]
    dsimp only
    rw [length]
    cases greatest : s.existingSegments.getLast? with
    | none =>
      rw [List.getLast?_eq_none_iff.mp greatest] at length
      cases length
    | some name =>
      obtain ⟨mem, above⟩ := greatest_of_getLast? greatest
      dsimp only
      split
      · rename_i full
        refine .inr ⟨rfl, rfl, holds.touch managed fun other hother otherAbove => ?_⟩
        rw [le_antisymm (above other hother) (otherAbove name mem)]
        exact full
      · rename_i room
        cases written name mem above with
        | inl own => exact .inl (by rw [own])
        | inr full => exact absurd full room

/-- The rows are numbered from one on. -/
lemma Holds.nextSeq (holds : s.Holds E cfg init last) :
    nextSeq s.rows = (place 1 (init ++ [last])).length + 1 := by
  rw [nextSeq_of_range, holds.length_rows]
  rw [holds.length_rows, holds.rows, List.map_map]
  exact map_seq_place 1 _

/-- The store with one more line and its row. -/
def written (E : Env κ) (s : Store κ) (init : List Segment) (last : Segment) (e : Entry) : Store κ :=
  { s with
    files := Table.put s.files last.name (bytesOf last.entries ++ lineOf e.capsule)
    rows := s.rows ++ [(⟨(place 1 (init ++ [last])).length + 1, last.name,
      (bytesOf last.entries).length, e⟩ : Placed).row E.realText] }

/-- A line and its row are written. -/
lemma Holds.writeRecord (holds : s.Holds E cfg init last) {e : Entry} {params : Params}
    (fresh : e.capsuleId ∉ (place 1 (init ++ [last])).map fun p => p.entry.capsuleId)
    (ok : recordParams E.realText e.capsule e.capsuleId last.name (bytesOf last.entries).length
      e.consequential e.authenticity = .ok params) :
    s.writeRecord last.name e.capsule params =
      (.ok ((place 1 (init ++ [last])).length + 1), s.written E init last e) := by
  obtain ⟨-, -, -, -, rfl⟩ := recordParams_eq_ok.mp ok
  have unique : s.rows.all (fun r => r.capsuleId ≠ e.capsuleId) = true := by
    rw [List.all_eq_true, holds.rows]
    intro r hr
    obtain ⟨p, hp, rfl⟩ := List.mem_map.mp hr
    rw [decide_eq_true_eq]
    intro same
    exact fresh (same ▸ List.mem_map_of_mem hp)
  unfold Store.writeRecord insertRow
  dsimp only
  rw [require_of unique, ok_bind, holds.lookup_last, holds.nextSeq]
  rfl

/-- What was written is the content with one more entry. -/
lemma Holds.written (holds : s.Holds E cfg init last) {e : Entry} (stored : e.Stored E.aac)
    (fresh : e.capsuleId ∉ (place 1 (init ++ [last])).map fun p => p.entry.capsuleId)
    (offset : isInt64 (bytesOf last.entries).length = true) :
    (s.written E init last e).Holds E cfg init (last.add e) := by
  have places := place_write init last e
  have names : (init ++ [last.add e]).map Segment.name = (init ++ [last]).map Segment.name := by
    rw [List.map_append, List.map_append]
    rfl
  have keys : (s.written E init last e).files.map Prod.fst = s.files.map Prod.fst := by
    rw [Store.written, Table.keys_put, if_pos]
    by_contra absent
    rw [← Table.lookup_eq_none, holds.lookup_last] at absent
    cases absent
  -- Only the last segment grows, by one line and one place.
  refine ⟨?_, ?_, ?_, holds.active, ?_, ?_, ?_, ?_, holds.recovered, ?_, ?_⟩
  · rw [names, holds.named]
  · rw [places, List.map_append, ← holds.rows]
    rfl
  · intro segment mem
    rcases List.mem_append.mp mem with mem | mem
    · rw [← holds.files segment (List.mem_append_left _ mem)]
      exact readSegment_congr rfl (Table.lookup_put_ne _ (holds.notMem_init mem) _) rfl
    · rw [List.mem_singleton.mp mem, readSegment_eq_ok]
      have active : (s.written E init last e).isArchived cfg (last.add e).name = false := holds.active
      rw [active, Segment.add, bytesOf_append, bytesOf_cons]
      simp only [bytesOf, List.flatMap_nil, List.append_nil, Bool.false_eq_true, if_false]
      exact Table.lookup_put_self _ _ _
  · intro file mem
    rw [names]
    rcases List.mem_append.mp mem with mem | mem
    · have key := List.mem_map_of_mem (f := Prod.fst) mem
      rw [keys] at key
      obtain ⟨old, hold, same⟩ := List.mem_map.mp key
      exact same ▸ holds.known old (List.mem_append_left _ hold)
    · exact holds.known file (List.mem_append_right _ mem)
  · intro segment mem e' he'
    rcases List.mem_append.mp mem with mem | mem
    · exact holds.stored segment (List.mem_append_left _ mem) e' he'
    · rw [List.mem_singleton.mp mem] at he'
      rcases List.mem_append.mp he' with he' | he'
      · exact holds.stored last (by simp) e' he'
      · rw [List.mem_singleton.mp he']
        exact stored
  · rw [places]
    intro p mem
    rcases List.mem_append.mp mem with mem | mem
    · exact holds.offsets p mem
    · rw [List.mem_singleton.mp mem]
      exact offset
  · rw [places, List.map_append, List.nodup_append']
    refine ⟨holds.ids, List.nodup_singleton _, ?_⟩
    rw [List.map_singleton, List.disjoint_singleton]
    exact fresh
  · intro managed
    rw [names]
    exact holds.managed managed
  · intro unmanaged
    obtain ⟨listed, full⟩ := holds.unmanaged unmanaged
    rw [keys, names]
    refine ⟨listed, fun name mem greatest => (full name mem greatest).imp_right fun le => le.trans ?_⟩
    rw [segmentRecordCount, segmentRecordCount, Store.written, List.countP_append]
    omega

/-- An id that is carried by the line it names, or computed from it, is the one read back. -/
lemma carried_of_checks {stored : Fields} {capsuleId : Str} (noProblem : lineIdProblem stored = none)
    (carries : carries stored capsuleId = true)
    (source : E.aac.computeCapsuleId stored = .ok capsuleId ∨
      carriedOrComputed E.aac stored = .ok (.str capsuleId)) :
    carriedOrComputed E.aac stored = .ok (.str capsuleId) := by
  rcases source with computed | carried
  · unfold lineIdProblem at noProblem
    unfold Ledger.carries Fields.get at carries
    unfold carriedOrComputed Fields.get
    split at noProblem
    · rename_i absent
      simp [absent, truthy, computed, Except.map]
    · rename_i c id present
      rw [present, Option.getD_some] at carries ⊢
      rw [of_decide_eq_true carries]
      rw [of_decide_eq_true carries] at present
      simp [← of_decide_eq_true carries, truthy]
    · cases noProblem
  · exact carried

/-- What `append` knows once it is prepared. -/
structure Prepared (E : Env κ) (s : Store κ) (resolution : Resolution) (stored : Fields)
    (capsuleId : Str) : Prop where
  portable : Json.portable (.obj stored) = true
  id : carriedOrComputed E.aac stored = .ok (.str capsuleId)
  idProblem : lineIdProblem stored = none
  encodable : encodable capsuleId = true
  signed : resolution.authenticity = .signed → CarriesProof E.aac stored
  fresh : ∀ row ∈ s.rows, row.capsuleId ≠ capsuleId

/-- A prepared capsule is fit to be stored. -/
lemma prepare_spec (lawful : E.aac.Lawful) {capsule : Capsule} {admission : AdmissionRequest}
    {resolution : Resolution} {stored : Fields} {capsuleId : Str}
    (ok : s.prepare E cfg capsule.fields admission = .ok (resolution, stored, capsuleId)) :
    Prepared E s resolution stored capsuleId := by
  obtain ⟨resolution', hresolution, ok⟩ := bind_eq_ok.mp ok
  obtain ⟨⟨stored', id⟩, hstore, ok⟩ := bind_eq_ok.mp ok
  obtain ⟨_, -, ok⟩ := bind_eq_ok.mp ok
  obtain ⟨_, problem, ok⟩ := bind_eq_ok.mp ok
  obtain ⟨capsuleId', hid, ok⟩ := bind_eq_ok.mp ok
  obtain ⟨_, carries, ok⟩ := bind_eq_ok.mp ok
  obtain ⟨existing, row, ok⟩ := bind_eq_ok.mp ok
  have noProblem := require_eq_ok.mp problem
  have carries := require_eq_ok.mp carries
  obtain rfl : id = .str capsuleId' := by
    unfold idString at hid
    split at hid
    · rw [Except.ok.inj hid]
    · cases hid
  obtain ⟨_, bound, row⟩ := bind_eq_ok.mp row
  have found := Except.ok.inj row
  cases existing with
  | some row =>
    obtain ⟨_, -, ok⟩ := bind_eq_ok.mp ok
    cases ok
  | none =>
    cases ok
    have fresh : ∀ row ∈ s.rows, row.capsuleId ≠ capsuleId := fun row mem same => by
      have := List.find?_eq_none.mp found row mem
      simp [same] at this
    have encodable : encodable capsuleId = true := require_eq_ok.mp bound
    rcases resolveAdmission_eq_ok hresolution with rfl | ⟨computed, proof, more, hcomputed, hverifies, rfl⟩
    · obtain ⟨id, hid, e⟩ := bind_eq_ok.mp hstore
      cases e
      exact ⟨capsule.portable, carried_of_checks noProblem carries (.inr hid), noProblem, encodable,
        fun signed => (by cases signed), fresh⟩
    · obtain ⟨hstore', same, proven⟩ := @toStore_signed E.aac lawful capsule.fields computed
        proof more hcomputed hverifies
      rw [hstore'] at hstore
      cases hstore
      exact ⟨portable_bundle capsule.portable hverifies, carried_of_checks noProblem carries (.inl same),
        noProblem, encodable, fun _ => proven, fresh⟩

/-- What is indexable is bound. -/
lemma bind_of_indexable {value : Json} (ok : indexable value = true) : bind_ value = .ok () := by
  cases value with
  | null => rfl
  | bool b => rfl
  | float l => rfl
  | int n => exact require_of ok
  | str s => exact require_of ok
  | arr xs => cases ok
  | obj fields => cases ok

/-- What the lookup index is told of a stored entry can be bound. -/
lemma bindRow_input {p : Placed} (stored : p.entry.Stored E.aac)
    (segment : encodable p.segment = true) (offset : isInt64 p.offset = true) :
    LookupIndex.bindRow p.input = .ok () := by
  have timestamp : indexable (p.entry.capsule.get "timestamp") = true :=
    stored.recordable.values _ (by simp [indexedValues])
  unfold LookupIndex.bindRow Placed.input
  dsimp only
  have digest : bind_ (.str p.entry.capsuleId) = .ok () := require_of stored.encodable
  have name : bind_ (.str p.segment) = .ok () := require_of segment
  have place : bind_ (.int p.offset) = .ok () := require_of offset
  rw [bind_of_indexable timestamp, ok_bind, digest, ok_bind, name, ok_bind, place]

/-- The lookup index gets the next row, also when one of its ids cannot be stored. -/
lemma Looked.lookupRecord {segments : List Segment} (looked : s.Looked E cfg segments) {p : Placed}
    (next : ∀ q ∈ place 1 segments, q.seq < p.seq) (bound : LookupIndex.bindRow p.input = .ok ()) :
    (s.lookupRecord E cfg p.input).2 =
        { s with lookup := some (LookupIndex.ofInputs E.realText cfg.correlationFields
          ((place 1 segments ++ [p]).map Placed.input)) } ∧
      ((∃ b, (s.lookupRecord E cfg p.input).1 = .ok b) ↔
        ∀ cid ∈ extractCorrelationIds p.entry.capsule cfg.correlationFields,
          encodable cid = true) := by
  have lt : ∀ i ∈ (place 1 segments).map Placed.input, i.seq < p.input.seq := by
    intro i hi
    obtain ⟨q, hq, rfl⟩ := List.mem_map.mp hi
    exact next q hq
  obtain ⟨state, result⟩ :=
    @LookupIndex.record_next E.realText cfg.correlationFields _ _ lt bound
  rw [List.map_append, List.map_singleton, ← state]
  unfold Store.lookupRecord
  rw [looked]
  dsimp only
  rcases recorded : LookupIndex.record E.realText cfg.correlationFields _ p.input with ⟨r, ix⟩
  rw [recorded] at result
  cases r with
  | ok u =>
    have all := result.mp rfl
    exact ⟨rfl, iff_of_true ⟨true, rfl⟩ all⟩
  | error e =>
    have raised := LookupIndex.record_raises (e := e) bound (by rw [recorded])
    dsimp only
    rw [if_neg (by rw [raised]; decide)]
    refine ⟨rfl, iff_of_false (fun ⟨b, h⟩ => by cases h) fun all => ?_⟩
    cases result.mpr all

/-- A store with the same files and rows has the same content. -/
lemma Holds.congr (holds : s.Holds E cfg init last) {s' : Store κ} (files : s'.files = s.files)
    (archive : s'.archived = s.archived) (rows : s'.rows = s.rows)
    (recovered : s'.needsRecover = s.needsRecover)
    (active : s'.manifest.activeSegment = s.manifest.activeSegment)
    (listed : s'.manifest.segments.map SegmentEntry.name = s.manifest.segments.map SegmentEntry.name)
    (archived : ∀ name, s'.isArchived cfg name = s.isArchived cfg name) :
    s'.Holds E cfg init last := by
  refine ⟨holds.named, by rw [rows, holds.rows], ?_, by rw [archived, holds.active], ?_, holds.stored,
    holds.offsets, holds.ids, by rw [recovered, holds.recovered], ?_, ?_⟩
  · intro segment mem
    rw [← holds.files segment mem]
    exact readSegment_congr (archived _) (by rw [files]) (by rw [archive])
  · rw [files, archive]
    exact holds.known
  · rw [active, listed]
    exact holds.managed
  · rw [files]
    intro unmanaged
    obtain ⟨names, full⟩ := holds.unmanaged unmanaged
    refine ⟨names, fun name mem above => ?_⟩
    rw [segmentRecordCount_congr rows]
    exact full name mem above

/-- What `_rotate_segment` can do. -/
lemma rotateSegment_cases (E : Env κ) (cfg : Config) (s : Store κ) (name : Str) :
    (∃ e k, s.rotateSegment E cfg name = (.error e, { s with checkpointer := k }) ∧
      (k = s.checkpointer ∨
        ∃ before, s.checkpointer = some before ∧ k = some (E.protocol.checkpoint before (s.scan cfg)).2)) ∨
      ∃ before after first last root mmrSize proof, s.checkpointer = some before ∧
        ((s.rows.filter fun r => r.segment = name).map Row.seq).min? = some first ∧
        ((s.rows.filter fun r => r.segment = name).map Row.seq).max? = some last ∧
        E.protocol.checkpoint before (s.scan cfg) = (.ok (root, mmrSize), after) ∧
        E.protocol.rangeProof after first last = .ok proof ∧ proof.size = mmrSize ∧
        s.rotateSegment E cfg name =
          (.ok (s.segmentManifest E cfg name first last root mmrSize proof),
            { s with checkpointer := some after }.closeSegment cfg name
              (s.segmentManifest E cfg name first last root mmrSize proof)) := by
  unfold rotateSegment
  cases attached : s.checkpointer with
  | none => exact .inl ⟨_, s.checkpointer, rfl, .inl attached⟩
  | some before =>
    dsimp only
    cases hfirst : ((s.rows.filter fun r => r.segment = name).map Row.seq).min? with
    | none => exact .inl ⟨_, s.checkpointer, rfl, .inl attached⟩
    | some first =>
      cases hlast : ((s.rows.filter fun r => r.segment = name).map Row.seq).max? with
      | none => exact .inl ⟨_, s.checkpointer, rfl, .inl attached⟩
      | some last =>
        dsimp only
        split
        · exact .inl ⟨_, some (E.protocol.checkpoint before (s.scan cfg)).2, rfl, .inr ⟨before, rfl, rfl⟩⟩
        · rename_i m hm
          obtain ⟨⟨root, mmrSize⟩, hresult, hm⟩ := bind_eq_ok.mp hm
          obtain ⟨proof, hproof, hm⟩ := bind_eq_ok.mp hm
          obtain ⟨_, same, hm⟩ := bind_eq_ok.mp hm
          cases hm
          exact .inr ⟨before, (E.protocol.checkpoint before (s.scan cfg)).2, first, last, root, mmrSize,
            proof, rfl, rfl, rfl, Prod.ext hresult rfl, hproof, require_eq_ok.mp same, rfl⟩

/-- Closing a segment opens the next one. -/
lemma Holds.closeSegment (holds : s.Holds E cfg init last) (managed : cfg.rotateAtCheckpoint = true)
    (name : Str) (m : SegmentManifest) :
    (s.closeSegment cfg name m).Holds E cfg (init ++ [last]) ⟨segmentName (init.length + 2), []⟩ := by
  refine Holds.openSegment (holds.congr rfl rfl rfl rfl rfl ?_ fun other => ?_) managed
  · dsimp only
    rw [List.map_map]
    apply List.map_congr_left
    intro entry _
    dsimp only [Function.comp]
    split <;> rfl
  · unfold isArchived
    congr 1
    apply any_entry_map
    intro entry
    split <;> exact ⟨rfl, rfl⟩

/-- Rotating fails, or makes the next segment the last one. -/
lemma Holds.rotateSegment (holds : s.Holds E cfg init last) (managed : cfg.rotateAtCheckpoint = true)
    (name : Str) :
    (s.rotateSegment E cfg name).2.Holds E cfg init last ∨
      (s.rotateSegment E cfg name).2.Holds E cfg (init ++ [last])
        ⟨segmentName (init.length + 2), []⟩ := by
  have same (k : Option κ) : ({ s with checkpointer := k } : Store κ).Holds E cfg init last :=
    holds.congr rfl rfl rfl rfl rfl rfl fun _ => rfl
  rcases rotateSegment_cases E cfg s name with
    ⟨e, k, he, -⟩ | ⟨before, after, first, last, root, mmrSize, proof, -, -, -, -, -, -, hm⟩
  · rw [he]
    exact .inl (same k)
  · rw [hm]
    exact .inr ((same (some after)).closeSegment managed _ _)

/-- Mounting a segment changes no other one. -/
lemma isArchived_setMounted (s : Store κ) (name other : Str) (mounted : Bool) {s' : Store κ}
    (manifest : s'.manifest = setMounted s.manifest name mounted) :
    s'.isArchived cfg other =
      if other = name then cfg.rotateAtCheckpoint && ((s.manifest.entry name).isSome && !mounted)
      else s.isArchived cfg other := by
  unfold isArchived
  rw [manifest, StoreManifest.entry, setMounted, entry_map _ _ fun entry => by split <;> rfl]
  split
  · rename_i own
    rw [own]
    congr 1
    cases found : s.manifest.entry name with
    | none => rfl
    | some entry =>
      have named := name_of_entry found
      simp [named]
  · rename_i ne
    congr 1
    cases found : s.manifest.entry other with
    | none => rfl
    | some entry =>
      have named := name_of_entry found
      simp [named, ne]

/-- A file that moves into the archive or out of it stays readable. -/
lemma Holds.move (holds : s.Holds E cfg init last) (managed : cfg.rotateAtCheckpoint = true)
    {name : Str} (inactive : name ≠ last.name) (mounted : Bool)
    (known : name ∈ (init ++ [last]).map Segment.name) {bytes : Bytes}
    (read : s.readSegment cfg name = .ok bytes) {s' : Store κ}
    (manifest : s'.manifest = setMounted s.manifest name mounted)
    (rows : s'.rows = s.rows) (recovered : s'.needsRecover = s.needsRecover)
    (files : s'.files = if mounted then Table.put s.files name bytes else Table.remove s.files name)
    (archive : s'.archived =
      if mounted then Table.remove s.archived name else Table.put s.archived name bytes) :
    s'.Holds E cfg init last := by
  obtain ⟨active, listed⟩ := holds.managed managed
  have entry : (s.manifest.entry name).isSome = true := by
    rw [StoreManifest.entry, List.find?_isSome]
    rw [← listed] at known
    obtain ⟨e, he, hname⟩ := List.mem_map.mp known
    exact ⟨e, he, decide_eq_true hname⟩
  -- Only the flag of the moved segment changes.
  have moved (other : Str) : s'.isArchived cfg other =
      if other = name then !mounted else s.isArchived cfg other := by
    rw [isArchived_setMounted s name other mounted manifest, managed, entry]
    simp
  have keys : ∀ file ∈ s'.files ++ s'.archived, file.1 ∈ (init ++ [last]).map Segment.name := by
    intro file mem
    have old {table : List (Str × Bytes)} (sub : ∀ f ∈ table, f.1 ∈ (init ++ [last]).map Segment.name)
        (hfile : file ∈ Table.put table name bytes) : file.1 ∈ (init ++ [last]).map Segment.name := by
      have key := List.mem_map_of_mem (f := Prod.fst) hfile
      rw [Table.keys_put] at key
      have key : file.1 ∈ table.map Prod.fst ∨ file.1 = name := by
        split at key
        · exact .inl key
        · rwa [List.mem_append, List.mem_singleton] at key
      rcases key with key | key
      · obtain ⟨f, hf, e⟩ := List.mem_map.mp key
        exact e ▸ sub f hf
      · exact key ▸ known
    have left : ∀ f ∈ s.files, f.1 ∈ (init ++ [last]).map Segment.name := fun f hf =>
      holds.known f (List.mem_append_left _ hf)
    have right : ∀ f ∈ s.archived, f.1 ∈ (init ++ [last]).map Segment.name := fun f hf =>
      holds.known f (List.mem_append_right _ hf)
    rw [files, archive] at mem
    cases mounted with
    | true =>
      rcases List.mem_append.mp mem with mem | mem
      · exact old left mem
      · exact right file (List.mem_filter.mp mem).1
    | false =>
      rcases List.mem_append.mp mem with mem | mem
      · exact left file (List.mem_filter.mp mem).1
      · exact old right mem
  refine ⟨holds.named, by rw [rows, holds.rows], ?_, ?_, keys, holds.stored, holds.offsets, holds.ids,
    by rw [recovered, holds.recovered], ?_, ?_⟩
  · intro segment mem
    -- The moved segment is read on its new side, every other one where it was.
    by_cases own : segment.name = name
    · have same : bytesOf segment.entries = bytes := by
        have hread := holds.files segment mem
        rw [own, read] at hread
        exact (Except.ok.inj hread).symm
      rw [own, readSegment_eq_ok, moved, if_pos rfl, files, archive, same]
      cases mounted with
      | true => exact Table.lookup_put_self _ _ _
      | false => exact Table.lookup_put_self _ _ _
    · rw [← holds.files segment mem]
      apply readSegment_congr
      · rw [moved, if_neg own]
      · rw [files]
        cases mounted with
        | true => exact Table.lookup_put_ne _ own _
        | false => exact (Table.lookup_remove _ _ _).trans (if_neg own)
      · rw [archive]
        cases mounted with
        | true => exact (Table.lookup_remove _ _ _).trans (if_neg own)
        | false => exact Table.lookup_put_ne _ own _
  · rw [moved, if_neg (Ne.symm inactive), holds.active]
  · intro _
    rw [manifest]
    refine ⟨active, ?_⟩
    rw [← listed, setMounted]
    dsimp only
    rw [List.map_map]
    apply List.map_congr_left
    intro e _
    dsimp only [Function.comp]
    split <;> rfl
  · intro unmanaged
    rw [managed] at unmanaged
    cases unmanaged

/-- What `unmount_segment` can do. -/
lemma unmountSegment_cases (cfg : Config) (s : Store κ) (name : Str) : (s.unmountSegment cfg name).2 = s ∨
    cfg.rotateAtCheckpoint = true ∧ s.manifest.activeSegment ≠ some name ∧
      s.manifest.entry name ≠ none ∧ s.isArchived cfg name = false ∧ ∃ bytes,
        s.files.lookup name = some bytes ∧ (s.unmountSegment cfg name).2 = { s with
          files := Table.remove s.files name
          archived := Table.put s.archived name bytes
          manifest := setMounted s.manifest name false } := by
  unfold unmountSegment
  dsimp only
  split
  · exact .inl rfl
  · rename_i checked
    obtain ⟨_, managed, checked⟩ := bind_eq_ok.mp checked
    obtain ⟨_, inactive, checked⟩ := bind_eq_ok.mp checked
    cases archived : s.isArchived cfg name with
    | true => exact .inl rfl
    | false =>
      rw [if_neg Bool.false_ne_true]
      cases found : s.files.lookup name with
      | none => exact .inl rfl
      | some bytes =>
        exact .inr ⟨require_eq_ok.mp managed, require_eq_ok.mp inactive, require_eq_ok.mp checked, rfl,
          bytes, rfl, rfl⟩

/-- What `mount_segment` can do. -/
lemma mountSegment_cases (cfg : Config) (s : Store κ) (name : Str) : (s.mountSegment cfg name).2 = s ∨
    cfg.rotateAtCheckpoint = true ∧ s.manifest.entry name ≠ none ∧ s.isArchived cfg name = true ∧
      ∃ bytes, s.archived.lookup name = some bytes ∧ (s.mountSegment cfg name).2 = { s with
        archived := Table.remove s.archived name
        files := Table.put s.files name bytes
        manifest := setMounted s.manifest name true } := by
  unfold mountSegment
  dsimp only
  split
  · exact .inl rfl
  · rename_i checked
    obtain ⟨_, managed, checked⟩ := bind_eq_ok.mp checked
    cases archived : s.isArchived cfg name with
    | false => exact .inl rfl
    | true =>
      rw [if_pos rfl]
      cases found : s.archived.lookup name with
      | none => exact .inl rfl
      | some bytes =>
        exact .inr ⟨require_eq_ok.mp managed, require_eq_ok.mp checked, rfl, bytes, rfl, rfl⟩

/-- The manifest lists only segments of the store. -/
lemma Holds.listed (holds : s.Holds E cfg init last) (managed : cfg.rotateAtCheckpoint = true)
    {name : Str} (entry : s.manifest.entry name ≠ none) :
    name ∈ (init ++ [last]).map Segment.name := by
  rw [← (holds.managed managed).2]
  obtain ⟨e, he⟩ := Option.ne_none_iff_exists'.mp entry
  have named := name_of_entry he
  unfold StoreManifest.entry at he
  rw [← named]
  exact List.mem_map_of_mem (List.mem_of_find?_eq_some he)

/-- Unmounting changes no content. -/
lemma Holds.unmountSegment (holds : s.Holds E cfg init last) (name : Str) :
    (s.unmountSegment cfg name).2.Holds E cfg init last := by
  rcases unmountSegment_cases cfg s name with
    same | ⟨managed, inactive, entry, mounted, bytes, found, moved⟩
  · rw [same]
    exact holds
  · rw [moved]
    have ne : name ≠ last.name := fun e => inactive (e ▸ (holds.managed managed).1)
    have read : s.readSegment cfg name = .ok bytes := by
      rw [readSegment_eq_ok, mounted]
      exact found
    exact holds.move managed ne false (holds.listed managed entry) read rfl rfl rfl rfl rfl

/-- Mounting changes no content. -/
lemma Holds.mountSegment (holds : s.Holds E cfg init last) (name : Str) :
    (s.mountSegment cfg name).2.Holds E cfg init last := by
  rcases mountSegment_cases cfg s name with
    same | ⟨managed, entry, unmounted, bytes, found, moved⟩
  · rw [same]
    exact holds
  · rw [moved]
    have ne : name ≠ last.name := by
      rintro rfl
      rw [holds.active] at unmounted
      cases unmounted
    have read : s.readSegment cfg name = .ok bytes := by
      rw [readSegment_eq_ok, unmounted]
      exact found
    exact holds.move managed ne true (holds.listed managed entry) read rfl rfl rfl rfl rfl

/-- The store with one more record. -/
def recorded (E : Env κ) (cfg : Config) (s : Store κ) (init : List Segment) (last : Segment)
    (e : Entry) : Store κ :=
  { s.written E init last e with
    lookup := some (LookupIndex.ofInputs E.realText cfg.correlationFields
      ((place 1 (init ++ [last.add e])).map Placed.input)) }

/-- A record with its row keeps the invariant. -/
lemma Holds.recorded (holds : s.Holds E cfg init last) {e : Entry} (stored : e.Stored E.aac)
    (fresh : e.capsuleId ∉ (place 1 (init ++ [last])).map fun p => p.entry.capsuleId)
    (offset : isInt64 (bytesOf last.entries).length = true) :
    (s.recorded E cfg init last e).Holds E cfg init (last.add e) :=
  (holds.written stored fresh offset).congr rfl rfl rfl rfl rfl rfl fun _ => rfl

/-- Every place lies before the next one. -/
lemma seq_lt_next {segments : List Segment} {q : Placed} (mem : q ∈ place 1 segments) :
    q.seq < (place 1 segments).length + 1 := by
  have seq := List.mem_map_of_mem (f := Placed.seq) mem
  rw [map_seq_place, List.mem_range'_1] at seq
  omega

/-- The row of the next record is added to the lookup index. -/
lemma Looked.lookupRecord_written (looked : s.Looked E cfg (init ++ [last])) {e : Entry} (stored : e.Stored E.aac)
    (segment : encodable last.name = true) (offset : isInt64 (bytesOf last.entries).length = true) :
    ((s.written E init last e).lookupRecord E cfg
        ⟨(place 1 (init ++ [last])).length + 1, e.capsule.get "timestamp", e.capsuleId, last.name,
          (bytesOf last.entries).length, e.capsule⟩).2 = s.recorded E cfg init last e ∧
      ((∃ b, ((s.written E init last e).lookupRecord E cfg
          ⟨(place 1 (init ++ [last])).length + 1, e.capsule.get "timestamp", e.capsuleId, last.name,
            (bytesOf last.entries).length, e.capsule⟩).1 = .ok b) ↔
        ∀ cid ∈ extractCorrelationIds e.capsule cfg.correlationFields, encodable cid = true) := by
  have looked : (s.written E init last e).Looked E cfg (init ++ [last]) := looked
  have bound := bindRow_input (p := ⟨(place 1 (init ++ [last])).length + 1, last.name,
    (bytesOf last.entries).length, e⟩) stored segment offset
  obtain ⟨state, result⟩ := looked.lookupRecord (fun q hq => seq_lt_next hq) bound
  rw [← place_write] at state
  exact ⟨state, result⟩

/-- What `append` can do. -/
lemma Holds.append_cases (lawful : E.aac.Lawful) (holds : s.Holds E cfg init last)
    (looked : s.Looked E cfg (init ++ [last])) (capsule : Capsule) (consequential : Bool)
    (admission : AdmissionRequest) :
    (s.append E cfg capsule.fields consequential admission).2 = s ∨
      ∃ init₁ last₁ s₁, s.syncWriteSegment cfg = (last₁.name, s₁) ∧ s₁.Holds E cfg init₁ last₁ ∧
        s₁.Looked E cfg (init₁ ++ [last₁]) ∧
        (cfg.rotateAtCheckpoint = true → s₁ = s ∧ init₁ = init ∧ last₁ = last) ∧
        ((s.append E cfg capsule.fields consequential admission).2 = s₁ ∨
          ∃ e : Entry, e.Stored E.aac ∧
            (e.capsuleId ∉ (place 1 (init₁ ++ [last₁])).map fun p => p.entry.capsuleId) ∧
            isInt64 (bytesOf last₁.entries).length = true ∧
            ((s.append E cfg capsule.fields consequential admission).2 =
                s₁.recorded E cfg init₁ last₁ e ∨
              cfg.rotateAtCheckpoint = true ∧
                (s.append E cfg capsule.fields consequential admission).2 =
                  ((s₁.recorded E cfg init₁ last₁ e).rotateSegment E cfg last₁.name).2)) := by
  unfold Store.append
  cases prepared : s.prepare E cfg capsule.fields admission with
  | error e => exact .inl rfl
  | ok r =>
    obtain ⟨resolution, stored, capsuleId⟩ := r
    have known := prepare_spec lawful prepared
    obtain ⟨init₁, last₁, s₁, synced, holds₁, looked₁, managed, rows⟩ :
        ∃ init₁ last₁ s₁, s.syncWriteSegment cfg = (last₁.name, s₁) ∧ s₁.Holds E cfg init₁ last₁ ∧
          s₁.Looked E cfg (init₁ ++ [last₁]) ∧
          (cfg.rotateAtCheckpoint = true → s₁ = s ∧ init₁ = init ∧ last₁ = last) ∧
          s₁.rows = s.rows := by
      -- Without managed segments a full one is followed by a new one before the record is written.
      rcases holds.syncWriteSegment with same | ⟨unmanaged, opened, holds'⟩
      · exact ⟨init, last, s, same, holds, looked, fun _ => ⟨rfl, rfl, rfl⟩, rfl⟩
      · refine ⟨_, _, _, opened, holds', ?_, fun managed => ?_, rfl⟩
        · rw [Looked, place_open]
          exact looked
        · rw [unmanaged] at managed
          cases managed
    refine .inr ⟨init₁, last₁, s₁, synced, holds₁, looked₁, managed, ?_⟩
    rw [synced]
    dsimp only
    rw [holds₁.lookup_last, Option.getD_some]
    cases params : recordParams E.realText stored capsuleId last₁.name (bytesOf last₁.entries).length
        consequential resolution.authenticity with
    | error e => exact .inl rfl
    | ok p =>
      obtain ⟨recordable, -, segment, offset, -⟩ := recordParams_eq_ok.mp params
      have hstored : (⟨stored, capsuleId, consequential, resolution.authenticity⟩ : Entry).Stored E.aac :=
        ⟨known.portable, known.id, known.idProblem, known.encodable, recordable, known.signed⟩
      have fresh : capsuleId ∉ (place 1 (init₁ ++ [last₁])).map fun p => p.entry.capsuleId := by
        intro mem
        obtain ⟨q, hq, same⟩ := List.mem_map.mp mem
        refine known.fresh (q.row E.realText) ?_ same
        rw [← rows, holds₁.rows]
        exact List.mem_map_of_mem hq
      refine .inr ⟨⟨stored, capsuleId, consequential, resolution.authenticity⟩, hstored, fresh, offset, ?_⟩
      have wrote := holds₁.writeRecord (e := ⟨stored, capsuleId, consequential, resolution.authenticity⟩)
        fresh params
      dsimp only at wrote ⊢
      rw [wrote]
      dsimp only
      have state := (looked₁.lookupRecord_written hstored segment offset).1
      dsimp only at state
      rcases looked₂ : (s₁.written E init₁ last₁
          ⟨stored, capsuleId, consequential, resolution.authenticity⟩).lookupRecord E cfg
            ⟨(place 1 (init₁ ++ [last₁])).length + 1, stored.get "timestamp", capsuleId, last₁.name,
              (bytesOf last₁.entries).length, stored⟩ with ⟨result, s₂⟩
      rw [looked₂] at state
      cases result with
      | error e => exact .inl state
      | ok b =>
        dsimp only at state ⊢
        rw [state]
        split
        · rename_i full
          -- Only managed segments are rotated after the record.
          have managed : cfg.rotateAtCheckpoint = true := by
            rw [isFull, Bool.and_eq_true] at full
            exact full.1
          refine .inr ⟨managed, ?_⟩
          split
          · rename_i rotated
            rw [rotated]
          · rename_i rotated
            rw [rotated]
        · exact .inl rfl

/-- A store with some content. -/
def Sound (E : Env κ) (cfg : Config) (s : Store κ) : Prop :=
  ∃ init last, s.Holds E cfg init last ∧ s.Looked E cfg (init ++ [last])

/-- Rotating keeps the lookup index. -/
lemma lookup_rotateSegment (E : Env κ) (cfg : Config) (s : Store κ) (name : Str) :
    (s.rotateSegment E cfg name).2.lookup = s.lookup := by
  rcases rotateSegment_cases E cfg s name with
    ⟨e, k, he, -⟩ | ⟨before, after, first, last, root, mmrSize, proof, -, -, -, -, -, -, hm⟩
  · rw [he]
  · rw [hm]
    rfl

/-- An empty store holds one empty segment. -/
lemma sound_fresh (E : Env κ) (cfg : Config) (checkpointer : Option κ) :
    (fresh cfg checkpointer).Sound E cfg := by
  have empty : (fresh cfg checkpointer).files = [(segmentName 1, [])] ∧
      (fresh cfg checkpointer).archived = [] ∧ (fresh cfg checkpointer).rows = [] ∧
      (fresh cfg checkpointer).needsRecover = false ∧ (fresh cfg checkpointer).lookup = some .empty ∧
      (cfg.rotateAtCheckpoint = true → (fresh cfg checkpointer).manifest =
        ⟨cfg.logId, some (segmentName 1), [⟨segmentName 1, true, none, none, none⟩]⟩) := by
    unfold fresh Store.syncWriteSegment
    cases cfg.rotateAtCheckpoint <;> simp [existingSegments, Store.touch, Store.openSegment,
      Store.newSegmentName, Table.put]
  obtain ⟨files, archived, rows, recovered, lookup, managed⟩ := empty
  have mounted : (fresh cfg checkpointer).isArchived cfg (segmentName 1) = false := by
    cases rotate : cfg.rotateAtCheckpoint with
    | false => exact isArchived_unmanaged rotate _
    | true => simp [isArchived, StoreManifest.entry, managed rotate]
  refine ⟨[], ⟨segmentName 1, []⟩, ?_, ?_⟩
  · refine ⟨rfl, rows, ?_, mounted, ?_, ?_, ?_, List.nodup_nil, recovered, ?_, ?_⟩
    · intro segment mem
      rw [List.mem_singleton.mp mem, readSegment_eq_ok, mounted, files]
      simp [bytesOf]
    · rw [files, archived]
      simp
    · intro segment mem e he
      rw [List.mem_singleton.mp mem] at he
      cases he
    · intro p hp
      cases hp
    · intro rotate
      rw [managed rotate]
      exact ⟨rfl, rfl⟩
    · intro _
      rw [files]
      exact ⟨rfl, fun name mem _ => .inl (List.mem_singleton.mp mem)⟩
  · exact lookup

/-- Every call leaves a store with some content. -/
lemma Sound.step (lawful : E.aac.Lawful) (sound : s.Sound E cfg) (call : Call) :
    (s.step E cfg call).Sound E cfg := by
  obtain ⟨init, last, holds, looked⟩ := sound
  cases call with
  | append capsule consequential admission =>
    rcases holds.append_cases lawful looked capsule consequential admission with
      same | ⟨init₁, last₁, s₁, -, holds₁, looked₁, -, same | ⟨e, stored, fresh, offset, rest⟩⟩
    · exact ⟨init, last, by rw [Store.step, same]; exact holds, by rw [Store.step, same]; exact looked⟩
    · exact ⟨init₁, last₁, by rw [Store.step, same]; exact holds₁,
        by rw [Store.step, same]; exact looked₁⟩
    · have holds₂ := holds₁.recorded stored fresh offset
      have looked₂ : (s₁.recorded E cfg init₁ last₁ e).Looked E cfg (init₁ ++ [last₁.add e]) := rfl
      rcases rest with same | ⟨managed, rotated⟩
      · exact ⟨init₁, last₁.add e, by rw [Store.step, same]; exact holds₂,
          by rw [Store.step, same]; exact looked₂⟩
      · have lookup := lookup_rotateSegment E cfg (s₁.recorded E cfg init₁ last₁ e)
          last₁.name
        rcases holds₂.rotateSegment managed last₁.name with failed | opened
        · refine ⟨init₁, last₁.add e, by rw [Store.step, rotated]; exact failed, ?_⟩
          rw [Store.step, rotated, Looked, lookup]
          exact looked₂
        · refine ⟨_, _, by rw [Store.step, rotated]; exact opened, ?_⟩
          rw [Store.step, rotated, Looked, lookup, place_open]
          exact looked₂
  | unmountSegment name =>
    refine ⟨init, last, holds.unmountSegment name, ?_⟩
    rcases unmountSegment_cases cfg s name with same | ⟨-, -, -, -, bytes, -, moved⟩
    · rw [Store.step, same]
      exact looked
    · rw [Store.step, moved]
      exact looked
  | mountSegment name =>
    refine ⟨init, last, holds.mountSegment name, ?_⟩
    rcases mountSegment_cases cfg s name with same | ⟨-, -, -, bytes, -, moved⟩
    · rw [Store.step, same]
      exact looked
    · rw [Store.step, moved]
      exact looked

/-- Every history of calls leaves a store with some content. -/
theorem sound_run (lawful : E.aac.Lawful) (cfg : Config) (checkpointer : Option κ)
    (calls : List Call) :
    (Run.run (step E cfg) (fresh cfg checkpointer) calls).Sound E cfg :=
  Run.invariant _ (fun _ call sound => sound.step lawful call) (sound_fresh E cfg checkpointer) calls

end Store

end CLL.Ledger
