import CLL.Ledger.Invariant

/-!
# Reading a store back

What the content of a store says about its reads: a line is read where it was placed, `scan` gives the
records of mounted segments in order, `_leaves` yields every entry once, and inserting what it yields gives
the rows in the order of the segments read.
-/

namespace CLL.Ledger
open CLL.Core

/-- The line of a stored entry is parsed to its capsule and id. -/
lemma parseLeaf_line {aac : Aac} {e : Entry} (stored : e.Stored aac) :
    parseLeaf aac (lineOf e.capsule) = .ok (e.capsule, e.capsuleId) := by
  have line : lineOf e.capsule = Text.ascii (Json.dumpsAscii (.obj e.capsule) ++ [10]) := by
    rw [Text.ascii_append]
    rfl
  have decoded : decodeUtf8 (lineOf e.capsule) = .ok (Json.dumpsAscii (.obj e.capsule) ++ [10]) := by
    rw [line, decodeUtf8_eq_ok]
    refine Text.decode_ascii fun c hc => ?_
    rcases List.mem_append.mp hc with hc | hc
    · exact small_dumpsAscii stored.portable c hc
    · rw [List.mem_singleton.mp hc]
      decide
  rw [parseLeaf, decoded, ok_bind, loads_line stored.portable (by decide), ok_bind]
  dsimp only
  rw [stored.id, ok_bind]

/-- `_leaves` yields the entries of a segment whose ids were not seen. -/
lemma leafLoop_entries {aac : Aac} {entries : List Entry} (stored : ∀ e ∈ entries, e.Stored aac)
    (name : Str) (seq offset : ℕ) (seen : List Str)
    (fresh : (entries.map Entry.capsuleId ++ seen).Nodup) :
    leafLoop aac name offset seen (entries.map fun e => lineOf e.capsule) =
      ((placeEntries name seq offset entries).map Placed.leaf,
        .ok ((entries.map Entry.capsuleId).reverse ++ seen)) := by
  induction entries generalizing seq offset seen with
  | nil => rfl
  | cons e entries ih =>
    rw [List.map_cons, List.cons_append, List.nodup_cons] at fresh
    have rest := ih (fun e' he' => stored e' (List.mem_cons_of_mem _ he')) (seq + 1)
      (offset + (lineOf e.capsule).length) (e.capsuleId :: seen) (by
        rw [List.nodup_middle, List.nodup_cons]
        exact fresh)
    have unseen : e.capsuleId ∉ seen := fun mem => fresh.1 (List.mem_append_right _ mem)
    rw [List.map_cons, leafLoop, parseLeaf_line (stored e List.mem_cons_self)]
    dsimp only
    rw [if_neg unseen, rest]
    simp [placeEntries, Placed.leaf]

namespace Store

variable {κ : Type} {E : Env κ} {cfg : Config} {s : Store κ} {init : List Segment} {last : Segment}

/-- A line is read where it was placed. -/
lemma Holds.readCapsule (holds : s.Holds E cfg init last) {p : Placed}
    (mem : p ∈ place 1 (init ++ [last])) :
    s.readCapsule cfg p.segment p.offset = .ok (.obj p.entry.capsule) := by
  obtain ⟨segment, hsegment, name, before, after, split, offset⟩ := mem_place mem
  have portable := (holds.stored segment hsegment p.entry (by rw [split]; simp)).portable
  have whole : loads (Json.dumpsAscii (.obj p.entry.capsule) ++ []) = .ok (.obj p.entry.capsule) :=
    loads_line portable rfl
  rw [List.append_nil] at whole
  rw [Store.readCapsule, ← name, holds.files segment hsegment, ok_bind, split, offset, bytesOf_append,
    bytesOf_cons, readLine_line portable, ok_bind, whole]

/-- The record at a place of a mounted segment. -/
lemma Holds.rowToRecord (holds : s.Holds E cfg init last) {p : Placed}
    (mem : p ∈ place 1 (init ++ [last])) (mounted : s.isArchived cfg p.segment = false) :
    s.rowToRecord cfg (p.row E.realText) = .ok p.record := by
  have require : s.requireMounted cfg (p.row E.realText).segment = .ok () := by
    rw [requireMounted]
    exact require_of (by rw [Placed.row, mounted]; rfl)
  have read := holds.readCapsule mem
  rw [Store.rowToRecord, require, ok_bind]
  simp only [Placed.row, read, ok_bind]
  cases authenticity : p.entry.authenticity <;>
    simp [rehydrated, Placed.record, authenticity, bundledEnvelopes]

/-- A row of a segment that is not mounted is refused. -/
lemma rowToRecord_unmounted {row : Row} (unmounted : s.isArchived cfg row.segment = true) :
    ∃ e, s.rowToRecord cfg row = .error e := by
  have refused : s.requireMounted cfg row.segment =
      raise .segmentUnmounted "segment is not mounted" := by
    rw [requireMounted, unmounted]
    rfl
  rw [Store.rowToRecord, refused]
  exact ⟨_, rfl⟩

/-- A mounted store is scanned in order. -/
lemma Holds.scan (holds : s.Holds E cfg init last)
    (mounted : ∀ row ∈ s.rows, s.isArchived cfg row.segment = false) :
    s.scan cfg = .ok ((place 1 (init ++ [last])).map Placed.record) := by
  have all (places : List Placed) (sub : ∀ p ∈ places, p ∈ place 1 (init ++ [last])) :
      (places.map (Placed.row E.realText)).mapM (s.rowToRecord cfg) =
        .ok (places.map Placed.record) := by
    induction places with
    | nil => rfl
    | cons p places ih =>
      have own : p.row E.realText ∈ s.rows := by
        rw [holds.rows]
        exact List.mem_map_of_mem (sub p List.mem_cons_self)
      rw [List.map_cons, List.mapM_cons,
        holds.rowToRecord (sub p List.mem_cons_self) (mounted _ own), ok_bind,
        ih fun q hq => sub q (List.mem_cons_of_mem _ hq), ok_bind]
      rfl
  rw [Store.scan, holds.rows]
  exact all _ fun _ hp => hp

/-- With a record in a segment that is not mounted, scanning fails. -/
lemma scan_unmounted {row : Row} (mem : row ∈ s.rows) (unmounted : s.isArchived cfg row.segment = true) :
    ∃ e, s.scan cfg = .error e := by
  have fails (rows : List Row) (mem : row ∈ rows) : ∃ e, rows.mapM (s.rowToRecord cfg) = .error e := by
    induction rows with
    | nil => cases mem
    | cons r rows ih =>
      rw [List.mapM_cons]
      cases own : s.rowToRecord cfg r with
      | error e => exact ⟨e, rfl⟩
      | ok record =>
        cases mem with
        | head =>
          obtain ⟨e, he⟩ := rowToRecord_unmounted unmounted
          rw [own] at he
          cases he
        | tail _ mem =>
          obtain ⟨e, he⟩ := ih mem
          rw [ok_bind, he]
          exact ⟨e, rfl⟩
  exact fails _ mem

/-- A scan that succeeds gives the records of all places. -/
lemma Holds.scan_eq_ok (holds : s.Holds E cfg init last)
    {records : List LedgerRecord} (ok : s.scan cfg = .ok records) :
    records = (place 1 (init ++ [last])).map Placed.record := by
  by_cases mounted : ∀ row ∈ s.rows, s.isArchived cfg row.segment = false
  · rw [holds.scan mounted] at ok
    exact (Except.ok.inj ok).symm
  · simp only [not_forall] at mounted
    obtain ⟨row, mem, unmounted⟩ := mounted
    obtain ⟨e, he⟩ := scan_unmounted mem (Bool.eq_true_of_not_eq_false unmounted)
    rw [he] at ok
    cases ok

/-- `_leaves` yields every entry, in the order of the segments it reads. -/
lemma leaves_eq {segments : List Segment}
    (files : ∀ segment ∈ segments, s.readSegment cfg segment.name = .ok (bytesOf segment.entries))
    (stored : ∀ segment ∈ segments, ∀ e ∈ segment.entries, e.Stored E.aac) (seq : ℕ) {seen : List Str}
    (fresh : ((segments.flatMap Segment.entries).map Entry.capsuleId ++ seen).Nodup) :
    s.leaves E cfg seen (segments.map Segment.name) =
      ((place seq segments).map Placed.leaf, .ok ()) := by
  induction segments generalizing seq seen with
  | nil => rfl
  | cons segment segments ih =>
    rw [List.flatMap_cons, List.map_append, List.append_assoc] at fresh
    have perm : (segment.entries.map Entry.capsuleId ++
        ((segments.flatMap Segment.entries).map Entry.capsuleId ++ seen)).Perm
          ((segments.flatMap Segment.entries).map Entry.capsuleId ++
            ((segment.entries.map Entry.capsuleId).reverse ++ seen)) := by
      refine List.perm_append_comm_assoc _ _ _ |>.trans ?_
      exact ((List.reverse_perm _).symm.append_right seen).append_left _
    have own : (segment.entries.map Entry.capsuleId ++ seen).Nodup :=
      fresh.sublist ((List.sublist_append_right _ _).append_left _)
    have hstored := stored segment List.mem_cons_self
    rw [List.map_cons, Store.leaves, files segment List.mem_cons_self]
    dsimp only
    rw [rawLines_bytesOf fun e he => (hstored e he).portable, leafLoop_entries hstored _ seq 0 seen own]
    dsimp only
    rw [ih (fun g hg => files g (List.mem_cons_of_mem _ hg))
      (fun g hg => stored g (List.mem_cons_of_mem _ hg)) (seq + segment.entries.length)
      (perm.nodup_iff.mp fresh), place, List.map_append]

end Store

end CLL.Ledger
