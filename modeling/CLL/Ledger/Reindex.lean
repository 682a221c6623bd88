import CLL.Ledger.Reading

/-!
# Rebuilding the index

`reindex` numbers the entries in the order of the segments it reads and derives their authenticity again.
`reindex_eq_iff` says when that gives back the rows that the appends had written: no entry that was admitted
as unsigned may carry a proof, and the names of the segments must not fall along the rows, which those of
the first 999999 segments never do.
-/

namespace CLL.Ledger
open CLL.Core

/-- The authenticity that `_reindex_authenticity` derives. -/
def rederived (aac : Aac) (capsule : Fields) : Authenticity :=
  match reindexAuthenticity aac capsule with
  | .ok authenticity => authenticity
  | .error _ => .unsigned

/-- Reindexing derives the authenticity from the capsule. -/
lemma reindexAuthenticity_eq {aac : Aac} (lawful : aac.Lawful) (capsule : Fields) :
    reindexAuthenticity aac capsule = .ok (rederived aac capsule) := by
  obtain ⟨signed, unsigned⟩ := reindexAuthenticity_eq_signed lawful capsule
  unfold rederived
  by_cases carries : CarriesProof aac capsule
  · rw [signed carries]
  · rw [unsigned carries]

/-- It is signed exactly where the capsule carries a proof. -/
lemma rederived_eq_signed {aac : Aac} (lawful : aac.Lawful) (capsule : Fields) :
    rederived aac capsule = .signed ↔ CarriesProof aac capsule := by
  obtain ⟨signed, unsigned⟩ := reindexAuthenticity_eq_signed lawful capsule
  unfold rederived
  by_cases carries : CarriesProof aac capsule
  · simp [signed carries, carries]
  · simp [unsigned carries, carries]

/-- The row with the class that a rebuilt row has. -/
def Row.classified (row : Row) : Row := { row with consequential := true }

/-- The row that `reindex` inserts for a placed entry. -/
def Placed.reindexed {κ : Type} (E : Env κ) (p : Placed) : Row :=
  ⟨⟨p.entry.capsuleId, p.segment, p.offset, columnsOf E.realText p.entry.capsule, true,
    rederived E.aac p.entry.capsule⟩, p.seq⟩

/-- A rebuilt row is the old one exactly if the same authenticity is derived. -/
lemma Placed.reindexed_eq {κ : Type} {E : Env κ} {p : Placed} :
    p.reindexed E = (p.row E.realText).classified ↔
      rederived E.aac p.entry.capsule = p.entry.authenticity := by
  simp [Placed.reindexed, Placed.row, Row.classified]

namespace Store

variable {κ : Type} {E : Env κ} {cfg : Config} {s : Store κ} {init : List Segment} {last : Segment}

/-- Inserting what `_leaves` yields gives a row for every place. -/
lemma insertLeaves_eq (lawful : E.aac.Lawful) {places : List Placed} (rows : List Row)
    (numbered : rows.map Row.seq = List.range' 1 rows.length)
    (next : places.map Placed.seq = List.range' (rows.length + 1) places.length)
    (stored : ∀ p ∈ places, p.entry.Stored E.aac ∧ encodable p.segment = true ∧
      isInt64 p.offset = true)
    (ids : (rows.map (fun r => r.capsuleId) ++ places.map fun p => p.entry.capsuleId).Nodup) :
    insertLeaves E rows (places.map Placed.leaf) = .ok (rows ++ places.map (Placed.reindexed E)) := by
  induction places generalizing rows with
  | nil => simp [insertLeaves]
  | cons p places ih =>
    obtain ⟨hstored, segment, offset⟩ := stored p List.mem_cons_self
    have params : recordParams E.realText p.entry.capsule p.entry.capsuleId p.segment p.offset true
        (rederived E.aac p.entry.capsule) = .ok (p.reindexed E).toParams :=
      recordParams_eq_ok.mpr ⟨hstored.recordable, hstored.encodable, segment, offset, rfl⟩
    rw [List.map_cons, List.length_cons, List.range'_succ, List.cons.injEq] at next
    have unique : rows.all (fun r => r.capsuleId ≠ (p.reindexed E).capsuleId) = true := by
      rw [List.all_eq_true]
      intro r hr
      rw [decide_eq_true_eq]
      intro same
      rw [List.nodup_append'] at ids
      exact ids.2.2 (List.mem_map_of_mem hr) (by rw [same]; exact List.mem_cons_self)
    have insert : insertRow rows (p.reindexed E).toParams =
        .ok (rows.length + 1, rows ++ [p.reindexed E]) := by
      rw [insertRow, require_of unique, ok_bind, nextSeq_of_range numbered, ← next.1]
      rfl
    have step := ih (rows ++ [p.reindexed E]) (by
        rw [List.map_append, numbered, List.map_singleton, List.length_append, List.length_singleton,
          List.range'_1_concat]
        congr 2
        rw [Nat.add_comm]
        exact next.1) (by
        rw [next.2, List.length_append, List.length_singleton])
      (fun q hq => stored q (List.mem_cons_of_mem _ hq)) (by
        rw [List.map_append, List.append_assoc]
        exact ids)
    rw [List.map_cons, insertLeaves]
    simp only [Placed.leaf]
    rw [reindexAuthenticity_eq lawful, ok_bind, params, ok_bind, insert, ok_bind]
    dsimp only
    rw [step, List.append_assoc]
    rfl

/-- `reindex` reads the segments in this order. -/
def readOrder (cfg : Config) (segments : List Segment) : List Segment :=
  if cfg.rotateAtCheckpoint then segments
  else segments.insertionSort fun a b => a.name ≤ b.name

/-- The read order has the same segments. -/
lemma perm_readOrder (cfg : Config) (segments : List Segment) :
    (readOrder cfg segments).Perm segments := by
  unfold readOrder
  split
  · exact List.Perm.refl _
  · exact List.perm_insertionSort _ _

/-- The segments are read in their order. -/
lemma Holds.segmentNames (holds : s.Holds E cfg init last) :
    s.segmentNames cfg = (readOrder cfg (init ++ [last])).map Segment.name := by
  unfold Store.segmentNames readOrder
  cases managed : cfg.rotateAtCheckpoint with
  | true =>
    rw [if_pos rfl, if_pos rfl, (holds.managed managed).2]
  | false =>
    rw [if_neg Bool.false_ne_true, if_neg Bool.false_ne_true, existingSegments,
      (holds.unmanaged managed).1]
    exact (List.map_insertionSort (fun a b : Segment => a.name ≤ b.name) (fun a b : Str => a ≤ b)
      Segment.name _ fun _ _ _ _ => Iff.rfl).symm

/-- A place is of an entry of one of the segments. -/
lemma mem_places {segments : List Segment} {seq : ℕ} {p : Placed} (mem : p ∈ place seq segments) :
    ∃ segment ∈ segments, segment.name = p.segment ∧ p.entry ∈ segment.entries := by
  obtain ⟨segment, hsegment, name, before, after, split, -⟩ := mem_place mem
  exact ⟨segment, hsegment, name, by rw [split]; simp⟩

/-- Empty segments place nothing. -/
lemma place_filter (seq : ℕ) (segments : List Segment) :
    place seq (segments.filter fun g => !g.entries.isEmpty) = place seq segments := by
  induction segments generalizing seq with
  | nil => rfl
  | cons segment segments ih =>
    rw [List.filter_cons]
    cases e : segment.entries with
    | nil => simp [place, e, placeEntries, ih]
    | cons entry entries => simp [place, e, ih]

/-- Every entry of a segment has a place. -/
lemma exists_place {segments : List Segment} {segment : Segment} (mem : segment ∈ segments)
    {e : Entry} (he : e ∈ segment.entries) (seq : ℕ) :
    ∃ p ∈ place seq segments, p.segment = segment.name := by
  induction segments generalizing seq with
  | nil => cases mem
  | cons g segments ih =>
    cases mem with
    | head =>
      have hp : e ∈ (placeEntries segment.name seq 0 segment.entries).map Placed.entry := by
        rw [map_entry_placeEntries]
        exact he
      obtain ⟨p, hp, -⟩ := List.mem_map.mp hp
      obtain ⟨-, -, -, name, -⟩ := mem_placeEntries hp
      exact ⟨p, List.mem_append_left _ hp, name⟩
    | tail _ mem =>
      obtain ⟨p, hp, name⟩ := ih mem (seq + g.entries.length)
      exact ⟨p, List.mem_append_right _ hp, name⟩

/-- Where the names do not fall along the places, they do not fall along the segments with entries. -/
lemma pairwise_filter {seq : ℕ} {segments : List Segment}
    (sorted : ((place seq segments).map Placed.segment).Pairwise (· ≤ ·)) :
    (segments.filter fun g => !g.entries.isEmpty).Pairwise fun a b => a.name ≤ b.name := by
  induction segments generalizing seq with
  | nil => exact List.Pairwise.nil
  | cons segment segments ih =>
    rw [place, List.map_append, List.pairwise_append] at sorted
    obtain ⟨-, later, across⟩ := sorted
    rw [List.filter_cons]
    split
    · rename_i some_
      refine List.Pairwise.cons (fun other hother => ?_) (ih later)
      obtain ⟨hother, more⟩ := List.mem_filter.mp hother
      obtain ⟨e, he⟩ := List.exists_mem_of_ne_nil segment.entries (by simpa using some_)
      obtain ⟨e', he'⟩ := List.exists_mem_of_ne_nil other.entries (by simpa using more)
      obtain ⟨p, hp, hname⟩ := exists_place (List.mem_singleton_self segment) he seq
      obtain ⟨q, hq, hname'⟩ := exists_place hother he' (seq + segment.entries.length)
      rw [place_singleton] at hp
      rw [← hname, ← hname']
      exact across _ (List.mem_map_of_mem hp) _ (List.mem_map_of_mem hq)
    · exact ih later

/-- The places of sorted segments. -/
lemma pairwise_place {segments : List Segment} (sorted : segments.Pairwise fun a b => a.name ≤ b.name)
    (seq : ℕ) : ((place seq segments).map Placed.segment).Pairwise (· ≤ ·) := by
  induction segments generalizing seq with
  | nil => exact List.Pairwise.nil
  | cons segment segments ih =>
    obtain ⟨first, rest⟩ := List.pairwise_cons.mp sorted
    rw [place, List.map_append, List.pairwise_append]
    have own {p : Placed} (hp : p ∈ placeEntries segment.name seq 0 segment.entries) :
        p.segment = segment.name := by
      obtain ⟨-, -, -, name, -⟩ := mem_placeEntries hp
      exact name
    refine ⟨?_, ih rest _, ?_⟩
    · rw [List.pairwise_map]
      refine List.pairwise_of_forall_mem_list fun p hp q hq => ?_
      exact ((own hp).trans (own hq).symm).le
    · intro a ha b hb
      obtain ⟨p, hp, rfl⟩ := List.mem_map.mp ha
      obtain ⟨q, hq, rfl⟩ := List.mem_map.mp hb
      obtain ⟨other, hother, name, -⟩ := mem_places hq
      rw [own hp, ← name]
      exact first other hother

/-- The order of reading does not matter exactly where the names do not fall along the places. -/
lemma place_readOrder (cfg : Config) {segments : List Segment} (nodup : (segments.map Segment.name).Nodup) :
    place 1 (readOrder cfg segments) = place 1 segments ↔
      cfg.rotateAtCheckpoint = true ∨ ((place 1 segments).map Placed.segment).Pairwise (· ≤ ·) := by
  unfold readOrder
  cases cfg.rotateAtCheckpoint with
  | true => simp
  | false =>
    have sorted := List.pairwise_insertionSort (fun a b : Segment => a.name ≤ b.name) segments
    have perm := List.perm_insertionSort (fun a b : Segment => a.name ≤ b.name) segments
    rw [if_neg Bool.false_ne_true]
    simp only [Bool.false_eq_true, false_or]
    constructor
    · intro same
      rw [← same]
      exact pairwise_place sorted 1
    · intro along
      rw [← place_filter, ← place_filter 1 segments]
      congr 1
      refine List.Perm.eq_of_pairwise (fun a b ha hb ab ba => ?_)
        (sorted.sublist List.filter_sublist) (pairwise_filter along) (perm.filter _)
      have hb := (List.mem_filter.mp hb).1
      have ha := perm.mem_iff.mp (List.mem_filter.mp ha).1
      exact List.inj_on_of_nodup_map nodup ha hb (le_antisymm ab ba)

/-- Places whose segments are in the order that they are read in are read in their own order. -/
lemma place_readOrder_of_segments (cfg : Config) {segments : List Segment}
    (nodup : (segments.map Segment.name).Nodup)
    (same : (place 1 (readOrder cfg segments)).map Placed.segment = (place 1 segments).map Placed.segment) :
    place 1 (readOrder cfg segments) = place 1 segments := by
  rw [place_readOrder cfg nodup]
  unfold readOrder at same
  cases managed : cfg.rotateAtCheckpoint with
  | true => exact .inl rfl
  | false =>
    rw [managed, if_neg Bool.false_ne_true] at same
    have sorted := pairwise_place
      (List.pairwise_insertionSort (fun a b : Segment => a.name ≤ b.name) segments) 1
    exact .inr (same ▸ sorted)

/-- The read order has every segment. -/
lemma mem_readOrder {segments : List Segment} {segment : Segment} :
    segment ∈ readOrder cfg segments ↔ segment ∈ segments := (perm_readOrder cfg segments).mem_iff

/-- The name of a segment can be bound. -/
lemma Holds.encodable_name (holds : s.Holds E cfg init last) {segment : Segment}
    (mem : segment ∈ init ++ [last]) : encodable segment.name = true := by
  have name := List.mem_map_of_mem (f := Segment.name) mem
  rw [holds.named] at name
  obtain ⟨i, -, e⟩ := List.mem_map.mp name
  rw [← e]
  exact encodable_segmentName _

/-- Each entry stands at the same offset in any order of the segments. -/
lemma offset_perm {segments other : List Segment} (perm : segments.Perm other) {p : Placed}
    (mem : p ∈ place 1 segments) :
    ∃ q ∈ place 1 other, q.segment = p.segment ∧ q.offset = p.offset := by
  obtain ⟨segment, hsegment, name, before, after, split, offset⟩ := mem_place mem
  obtain ⟨left, right, found⟩ := List.append_of_mem (perm.mem_iff.mp hsegment)
  have placed : (⟨1 + (place 1 left).length + before.length, segment.name,
      0 + (bytesOf before).length, p.entry⟩ : Placed) ∈ place 1 other := by
    rw [found, place_append, place]
    refine List.mem_append_right _ (List.mem_append_left _ ?_)
    rw [split, placeEntries_append]
    exact List.mem_append_right _ List.mem_cons_self
  exact ⟨_, placed, name, by rw [offset, Nat.zero_add]⟩

/-- The ids of the segments that are read are distinct. -/
lemma Holds.nodup_ids (holds : s.Holds E cfg init last) :
    (((readOrder cfg (init ++ [last])).flatMap Segment.entries).map Entry.capsuleId).Nodup := by
  have unique := holds.ids
  have same : ((place 1 (init ++ [last])).map fun p => p.entry.capsuleId) =
      ((init ++ [last]).flatMap Segment.entries).map Entry.capsuleId := by
    rw [← map_entry_place 1, List.map_map]
    rfl
  rw [same] at unique
  exact (((perm_readOrder cfg _).flatMap_right _).map _).nodup_iff.mpr unique

/-- What `_leaves` yields of a store. -/
lemma Holds.leaves (holds : s.Holds E cfg init last) :
    s.leaves E cfg [] (s.segmentNames cfg) =
      ((place 1 (readOrder cfg (init ++ [last]))).map Placed.leaf, .ok ()) := by
  rw [holds.segmentNames]
  refine leaves_eq (fun segment mem => holds.files segment (mem_readOrder.mp mem))
    (fun segment mem => holds.stored segment (mem_readOrder.mp mem)) 1 ?_
  rw [List.append_nil]
  exact holds.nodup_ids

/-- The values of a place can be bound, in whatever order the segments are read. -/
lemma Holds.bindable (holds : s.Holds E cfg init last) {p : Placed}
    (mem : p ∈ place 1 (readOrder cfg (init ++ [last]))) :
    p.entry.Stored E.aac ∧ encodable p.segment = true ∧ isInt64 p.offset = true := by
  obtain ⟨segment, hsegment, name, he⟩ := mem_places mem
  have hsegment := mem_readOrder.mp hsegment
  refine ⟨holds.stored segment hsegment p.entry he, name ▸ holds.encodable_name hsegment, ?_⟩
  obtain ⟨q, hq, -, offset⟩ := offset_perm (perm_readOrder cfg _) mem
  rw [← offset]
  exact holds.offsets q hq

/-- What `reindex` makes of the content of a store. -/
lemma Holds.reindex (lawful : E.aac.Lawful) (holds : s.Holds E cfg init last) :
    s.reindex E cfg = (.ok (), { s with
      rows := (place 1 (readOrder cfg (init ++ [last]))).map (Placed.reindexed E)
      needsRecover := false }) := by
  have inserted : insertLeaves E [] ((place 1 (readOrder cfg (init ++ [last]))).map Placed.leaf) =
      .ok ([] ++ (place 1 (readOrder cfg (init ++ [last]))).map (Placed.reindexed E)) :=
    insertLeaves_eq lawful [] rfl (map_seq_place 1 _) (fun p mem => holds.bindable mem) (by
      have same : ((place 1 (readOrder cfg (init ++ [last]))).map fun p => p.entry.capsuleId) =
          ((readOrder cfg (init ++ [last])).flatMap Segment.entries).map Entry.capsuleId := by
        rw [← map_entry_place 1, List.map_map]
        rfl
      rw [List.map_nil, List.nil_append, same]
      exact holds.nodup_ids)
  rw [Store.reindex, holds.leaves]
  dsimp only
  rw [inserted, ok_bind, ok_bind, List.nil_append]

/-- When the rebuilt rows are those that the appends had written. -/
lemma Holds.reindex_rows (lawful : E.aac.Lawful) (holds : s.Holds E cfg init last) :
    (s.reindex E cfg).2.rows = s.rows.map Row.classified ↔
      (∀ row ∈ s.rows, row.authenticity = .unsigned → ∀ capsule,
        s.readCapsule cfg row.segment row.byteOffset = .ok (.obj capsule) →
          ¬CarriesProof E.aac capsule) ∧
      (cfg.rotateAtCheckpoint = true ∨ (s.rows.map fun row => row.segment).Pairwise (· ≤ ·)) := by
  have along : (s.rows.map fun row => row.segment) =
      (place 1 (init ++ [last])).map Placed.segment := by
    rw [holds.rows, List.map_map]
    rfl
  have classes : s.rows.map Row.classified =
      (place 1 (init ++ [last])).map fun p => (p.row E.realText).classified := by
    rw [holds.rows, List.map_map]
    rfl
  have ordered := place_readOrder cfg holds.nodup
  rw [holds.reindex lawful, along, ← ordered, classes]
  have authentic (p : Placed) (mem : p ∈ place 1 (init ++ [last])) :
      p.reindexed E = (p.row E.realText).classified ↔
        (p.entry.authenticity = .unsigned → ¬CarriesProof E.aac p.entry.capsule) := by
    obtain ⟨segment, hsegment, -, he⟩ := mem_places mem
    have signed := (holds.stored segment hsegment p.entry he).signed
    have derived := rederived_eq_signed lawful p.entry.capsule
    rw [Placed.reindexed_eq]
    cases authenticity : p.entry.authenticity with
    | signed => simp [derived.mpr (signed authenticity)]
    | unsigned =>
      rw [← derived]
      cases rederived E.aac p.entry.capsule <;> simp
  constructor
  · intro same
    -- The segments alone already fix the order in which the rows were read.
    have segments := congrArg (List.map fun row : Row => row.segment) same
    rw [List.map_map, List.map_map] at segments
    have place_eq := place_readOrder_of_segments cfg holds.nodup segments
    refine ⟨fun row mem unsigned capsule read => ?_, place_eq⟩
    rw [holds.rows] at mem
    obtain ⟨p, hp, rfl⟩ := List.mem_map.mp mem
    have own : s.readCapsule cfg p.segment p.offset = .ok (.obj p.entry.capsule) := holds.readCapsule hp
    have reads : s.readCapsule cfg p.segment p.offset = .ok (.obj capsule) := read
    rw [own] at reads
    cases reads
    rw [place_eq, List.map_inj_left] at same
    exact (authentic p hp).mp (same p hp) unsigned
  · rintro ⟨unsigned, place_eq⟩
    rw [place_eq, List.map_inj_left]
    intro p hp
    rw [authentic p hp]
    intro own
    refine unsigned (p.row E.realText) ?_ own _ (holds.readCapsule hp)
    rw [holds.rows]
    exact List.mem_map_of_mem hp

/-- Names with numbers of at most six digits are in the order of their numbers. -/
lemma segmentName_lt {m n : ℕ} (lt : m < n) (le : n ≤ 999999) : segmentName m < segmentName n := by
  have lengthm : (Decimal.pad 6 m).length = 6 := Decimal.length_pad (by norm_num) (by omega)
  have lengthn : (Decimal.pad 6 n).length = 6 := Decimal.length_pad (by norm_num) (by omega)
  have digits : Decimal.pad 6 m ++ Str.lit ".jsonl" < Decimal.pad 6 n ++ Str.lit ".jsonl" := by
    refine Decimal.append_lt_append (lengthm.trans lengthn.symm) (fun c hc => Decimal.isDigit_pad hc)
      (fun c hc => Decimal.isDigit_pad hc) ?_ _ _
    rw [Decimal.value_pad, Decimal.value_pad]
    exact lt
  have split : Str.lit "seg-" = [115, 101, 103, 45] := rfl
  unfold segmentName
  rw [split, List.append_assoc, List.append_assoc]
  simp only [List.cons_append, List.nil_append, List.cons_lt_cons_iff, lt_irrefl, false_or, true_and]
  exact digits

/-- The names do not fall along the rows of a store with at most 999999 segments. -/
lemma Holds.pairwise_of_few (holds : s.Holds E cfg init last)
    (few : (s.segmentNames cfg).length ≤ 999999) :
    (s.rows.map fun row => row.segment).Pairwise (· ≤ ·) := by
  have count : init.length + 1 ≤ 999999 := by
    rw [holds.segmentNames, List.length_map, (perm_readOrder cfg _).length_eq, List.length_append] at few
    exact few
  have sorted : (init ++ [last]).Pairwise fun a b => a.name ≤ b.name := by
    rw [← List.pairwise_map (R := (· ≤ ·)), holds.named, Ledger.segmentNames,
      List.pairwise_map]
    refine List.pairwise_lt_range.imp_of_mem fun _ hn lt => (segmentName_lt ?_ ?_).le
    · omega
    · have := List.mem_range.mp hn
      omega
  have along : (s.rows.map fun row => row.segment) =
      (place 1 (init ++ [last])).map Placed.segment := by
    rw [holds.rows, List.map_map]
    rfl
  rw [along]
  exact pairwise_place sorted 1

/-- Reindexing succeeds after every history. It gives back the rows that the appends had written exactly
if no entry admitted as unsigned carries a proof and the names of the segments do not fall along the rows
of a store that is not managed; those of at most 999999 segments never do. -/
theorem reindex_eq_iff (lawful : E.aac.Lawful) (cfg : Config) (checkpointer : Option κ)
    (calls : List Call) :
    let s := Run.run (step E cfg) (fresh cfg checkpointer) calls
    (s.reindex E cfg).1 = .ok () ∧
      ((s.reindex E cfg).2.rows = s.rows.map Row.classified ↔
        (∀ row ∈ s.rows, row.authenticity = .unsigned → ∀ capsule,
          s.readCapsule cfg row.segment row.byteOffset = .ok (.obj capsule) →
            ¬CarriesProof E.aac capsule) ∧
        (cfg.rotateAtCheckpoint = true ∨ (s.rows.map fun row => row.segment).Pairwise (· ≤ ·))) ∧
      ((s.segmentNames cfg).length ≤ 999999 →
        (s.rows.map fun row => row.segment).Pairwise (· ≤ ·)) := by
  obtain ⟨init, last, holds, -⟩ := sound_run lawful cfg checkpointer calls
  intro s
  refine ⟨?_, holds.reindex_rows lawful, fun few => holds.pairwise_of_few few⟩
  rw [holds.reindex lawful]

/-- The later capsule with its proof. -/
def sampleProven : Capsule where
  fields := bundle laterCapsule.fields laterProof
  portable := by decide +kernel

/-- One record to a segment. -/
def smallConfig : Config := { sampleConfig with segmentMaxRecords := 1 }

/-- An unsigned append, and a signed one in the next segment. -/
def signedCalls : List Call :=
  [.append stampedCapsule true .unsigned, .append laterCapsule true ⟨.signed, [laterProof], by decide⟩]

/-- The history has an unsigned and a signed record in two segments, and is rebuilt as it was. -/
theorem reindex_eq_iff_sample :
    let s := Run.run (step sampleEnv smallConfig) (fresh smallConfig none) signedCalls
    (s.rows.map (fun row => row.authenticity) = [.unsigned, .signed] ∧
      (s.segmentNames smallConfig).length = 2) ∧
    (s.reindex sampleEnv smallConfig).1 = .ok () ∧
      ((s.reindex sampleEnv smallConfig).2.rows = s.rows.map Row.classified ↔
        (∀ row ∈ s.rows, row.authenticity = .unsigned → ∀ capsule,
          s.readCapsule smallConfig row.segment row.byteOffset = .ok (.obj capsule) →
            ¬CarriesProof sampleEnv.aac capsule) ∧
        (smallConfig.rotateAtCheckpoint = true ∨
          (s.rows.map fun row => row.segment).Pairwise (· ≤ ·))) ∧
      ((s.segmentNames smallConfig).length ≤ 999999 →
        (s.rows.map fun row => row.segment).Pairwise (· ≤ ·)) :=
  ⟨by decide +kernel, reindex_eq_iff sampleAac_lawful smallConfig none signedCalls⟩

/-- A capsule that carries its proof and was admitted as unsigned is signed after reindexing. -/
theorem reindex_signs :
    let s := Run.run (step sampleEnv sampleConfig) (fresh sampleConfig none)
      [.append sampleProven true .unsigned]
    s.rows.map (fun row => row.authenticity) = [.unsigned] ∧
      (s.reindex sampleEnv sampleConfig).2.rows.map (fun row => row.authenticity) = [.signed] := by
  decide +kernel

end Store

end CLL.Ledger
