import CLL.Ledger.Scan
import CLL.Lib.Like

/-!
# Fetching a record

`fetch` of `ledger/store.py`: a record by its id, or by a prefix of it. The prefix goes through `LIKE`, and of
the rows that match the first is taken. `fetch_exact_iff` says when that is the record an unambiguous prefix
names: `first_iff` puts it in terms of the stored ids.
-/

namespace CLL.Ledger
open CLL.Core

namespace Store

variable {κ : Type}

/-- `SQLITE_MAX_LIKE_PATTERN_LENGTH`. -/
def maxLikePattern : ℕ := 50000

/-- The length of a text in UTF-8. -/
def utf8Length (s : Str) : ℕ := ((Utf8.encode s).getD []).length

/-- The row that `fetch` selects: that of the id, and otherwise the first that `LIKE` finds. -/
def fetchRow (s : Store κ) (capsuleId : Str) : Py (Option Row) := do
  match ← s.recordRow capsuleId with
  | some row => .ok (some row)
  | none =>
    let pattern := capsuleId ++ [37]
    -- The length is looked at on the first row that is compared.
    require (s.rows = [] ∨ utf8Length pattern ≤ maxLikePattern) .database "LIKE or GLOB pattern too complex"
    .ok (s.rows.find? fun r => Like.like pattern r.capsuleId)

/-- `fetch`. -/
def fetch (cfg : Config) (s : Store κ) (capsuleId : Str) : Py (Option LedgerRecord) := do
  match ← s.fetchRow capsuleId with
  | none => .ok none
  | some row => (s.rowToRecord cfg row).map some

/-- The row that an id or an unambiguous prefix of one names. -/
def named (s : Store κ) (capsuleId : Str) : Option Row :=
  match s.rows.find? fun r => r.capsuleId = capsuleId with
  | some row => some row
  | none =>
    match s.rows.filter fun r => capsuleId.isPrefixOf r.capsuleId with
    | [row] => some row
    | _ => none

/-- An id begins with something that is spelled as the text: but for the case of ASCII letters, with `_` for any
code point and `%` for any text, U+FFFE and U+FFFF for U+FFFD, and both cut off at U+0000. -/
def Resembles (capsuleId id : Str) : Prop := Like.Alike (Like.seen (capsuleId ++ [37])) (Like.seen id)

/-- When `fetch` returns the record that the text names. -/
structure Fetches (cfg : Config) (s : Store κ) (capsuleId : Str) : Prop where
  text : encodable capsuleId = true
  short : (∀ row ∈ s.rows, row.capsuleId ≠ capsuleId) → s.rows = [] ∨
    utf8Length (capsuleId ++ [37]) ≤ maxLikePattern
  /-- No two stored ids start with a text that is no id. -/
  unambiguous : (∀ row ∈ s.rows, row.capsuleId ≠ capsuleId) → ∀ row ∈ s.rows, ∀ other ∈ s.rows,
    capsuleId <+: row.capsuleId → capsuleId <+: other.capsuleId → row = other
  /-- An id that only resembles it is stored after one that starts with it. -/
  after : (∀ row ∈ s.rows, row.capsuleId ≠ capsuleId) → ∀ row ∈ s.rows, Resembles capsuleId row.capsuleId →
    capsuleId <+: row.capsuleId ∨ ∃ other ∈ s.rows, capsuleId <+: other.capsuleId ∧ other.seq < row.seq
  mounted : ∀ row ∈ s.named capsuleId, s.isArchived cfg row.segment = false

variable {E : Env κ} {cfg : Config} {s : Store κ} {init : List Segment} {last : Segment}

/-- The row of a record is looked up by its id, where the id is encodable. -/
lemma recordRow_eq_ok {capsuleId : Str} {found : Option Row} : s.recordRow capsuleId = .ok found ↔
    encodable capsuleId = true ∧ s.rows.find? (fun r => r.capsuleId = capsuleId) = found := by
  rw [recordRow, bind_eq_ok]
  constructor
  · rintro ⟨_, bound, eq⟩
    exact ⟨require_eq_ok.mp bound, Except.ok.inj eq⟩
  · rintro ⟨bound, rfl⟩
    exact ⟨(), require_eq_ok.mpr bound, rfl⟩

/-- No row is found exactly where no row has the id. -/
lemma find?_id_eq_none {capsuleId : Str} : s.rows.find? (fun r => r.capsuleId = capsuleId) = none ↔
    ∀ row ∈ s.rows, row.capsuleId ≠ capsuleId := by
  simp [List.find?_eq_none]

/-- `LIKE` finds the ids that resemble the text. -/
lemma like_iff_resembles {capsuleId id : Str} :
    Like.like (capsuleId ++ [37]) id = true ↔ Resembles capsuleId id := Like.like_iff

/-- No row starts with a text that `LIKE` does not find. -/
lemma filter_of_find?_none {capsuleId : Str}
    (nothing : s.rows.find? (fun r => Like.like (capsuleId ++ [37]) r.capsuleId) = none) :
    s.rows.filter (fun r => capsuleId.isPrefixOf r.capsuleId) = [] := by
  rw [List.filter_eq_nil_iff]
  intro row mem starts
  have missed := List.find?_eq_none.mp nothing row mem
  exact missed (Like.like_prefix (List.isPrefixOf_iff_prefix.mp starts))

/-- A text names no row that `LIKE` does not find. -/
lemma named_of_find?_none {capsuleId : Str} (fresh : ∀ row ∈ s.rows, row.capsuleId ≠ capsuleId)
    (nothing : s.rows.find? (fun r => Like.like (capsuleId ++ [37]) r.capsuleId) = none) :
    s.named capsuleId = none := by
  rw [named, find?_id_eq_none.mpr fresh]
  dsimp only
  rw [filter_of_find?_none nothing]

/-- Rows in the order of their numbers are distinct. -/
lemma nodup_rows (ordered : (s.rows.map Row.seq).Pairwise (· < ·)) : s.rows.Nodup :=
  List.Nodup.of_map _ (ordered.imp ne_of_lt)

/-- A row that resembles the text is the first such row or comes after it. -/
lemma first_or_later (ordered : (s.rows.map Row.seq).Pairwise (· < ·)) {capsuleId : Str} {first row : Row}
    (found : s.rows.find? (fun r => Like.like (capsuleId ++ [37]) r.capsuleId) = some first)
    (mem : row ∈ s.rows) (alike : Resembles capsuleId row.capsuleId) :
    row = first ∨ first.seq < row.seq := by
  obtain ⟨-, older, newer, split, missed⟩ := List.find?_eq_some_iff_append.mp found
  rw [split, List.map_append, List.map_cons, List.pairwise_append, List.pairwise_cons] at ordered
  rw [split] at mem
  rcases List.mem_append.mp mem with old | new
  · have missed := missed row old
    rw [like_iff_resembles.mpr alike] at missed
    cases missed
  · rcases List.mem_cons.mp new with same | new
    · exact .inl same
    · exact .inr (ordered.2.1.1 row.seq (List.mem_map_of_mem new))

/-- The first row that `LIKE` finds is the only one that starts with the text exactly if at most one does and
every id that only resembles it is stored later. -/
lemma first_iff (ordered : (s.rows.map Row.seq).Pairwise (· < ·)) (capsuleId : Str) :
    (∀ first, s.rows.find? (fun r => Like.like (capsuleId ++ [37]) r.capsuleId) = some first →
      s.rows.filter (fun r => capsuleId.isPrefixOf r.capsuleId) = [first]) ↔
    (∀ row ∈ s.rows, ∀ other ∈ s.rows,
      capsuleId <+: row.capsuleId → capsuleId <+: other.capsuleId → row = other) ∧
    ∀ row ∈ s.rows, Resembles capsuleId row.capsuleId →
      capsuleId <+: row.capsuleId ∨ ∃ other ∈ s.rows, capsuleId <+: other.capsuleId ∧ other.seq < row.seq := by
  have mem_filter {row : Row} : row ∈ s.rows.filter (fun r => capsuleId.isPrefixOf r.capsuleId) ↔
      row ∈ s.rows ∧ capsuleId <+: row.capsuleId := by
    rw [List.mem_filter, List.isPrefixOf_iff_prefix]
  cases found : s.rows.find? fun r => Like.like (capsuleId ++ [37]) r.capsuleId with
  | none =>
    have empty := filter_of_find?_none found
    refine ⟨fun _ => ⟨fun row hrow other _ starts _ => ?_, fun row hrow alike => ?_⟩, fun _ first is => by cases is⟩
    · have mem := mem_filter.mpr ⟨hrow, starts⟩
      rw [empty] at mem
      cases mem
    · exact absurd (like_iff_resembles.mpr alike) (List.find?_eq_none.mp found row hrow)
  | some first =>
    have inside : first ∈ s.rows := List.mem_of_find?_eq_some found
    have ⟨matched, _⟩ := List.find?_eq_some_iff_append.mp found
    constructor
    · intro single
      have only := single first rfl
      have starts := (mem_filter.mp (only ▸ List.mem_singleton_self first)).2
      have eq {row : Row} (hrow : row ∈ s.rows) (prefix_ : capsuleId <+: row.capsuleId) : row = first := by
        have mem := mem_filter.mpr ⟨hrow, prefix_⟩
        rw [only] at mem
        exact List.mem_singleton.mp mem
      refine ⟨fun row hrow other hother here there => (eq hrow here).trans (eq hother there).symm,
        fun row hrow alike => ?_⟩
      rcases first_or_later ordered found hrow alike with rfl | later
      · exact .inl starts
      · exact .inr ⟨first, inside, starts, later⟩
    · rintro ⟨unique, after⟩ row is
      cases is
      -- An earlier row that starts with the text would have been found before.
      have starts : capsuleId <+: first.capsuleId := by
        rcases after first inside (like_iff_resembles.mp matched) with starts | ⟨other, hother, starts, earlier⟩
        · exact starts
        · have alike := like_iff_resembles.mp (Like.like_prefix starts)
          rcases first_or_later ordered found hother alike with rfl | later
          · exact starts
          · omega
      have nodup := (nodup_rows ordered).filter fun r => capsuleId.isPrefixOf r.capsuleId
      refine List.perm_singleton.mp ((List.perm_ext_iff_of_nodup nodup (List.nodup_singleton _)).mpr fun row => ?_)
      rw [mem_filter, List.mem_singleton]
      constructor
      · rintro ⟨hrow, prefix_⟩
        exact unique row hrow first inside prefix_ starts
      · rintro rfl
        exact ⟨inside, starts⟩

/-- The row that `fetch` selects is the one that the text names, if no other matches before it. -/
lemma fetchRow_eq_ok {capsuleId : Str} : s.fetchRow capsuleId = .ok (s.named capsuleId) ↔
    encodable capsuleId = true ∧
      ((∀ row ∈ s.rows, row.capsuleId ≠ capsuleId) →
        (s.rows = [] ∨ utf8Length (capsuleId ++ [37]) ≤ maxLikePattern) ∧
          ∀ first, s.rows.find? (fun r => Like.like (capsuleId ++ [37]) r.capsuleId) = some first →
            s.rows.filter (fun r => capsuleId.isPrefixOf r.capsuleId) = [first]) := by
  rw [fetchRow, bind_eq_ok]
  constructor
  · rintro ⟨found, read, eq⟩
    obtain ⟨bound, rfl⟩ := recordRow_eq_ok.mp read
    refine ⟨bound, fun fresh => ?_⟩
    rw [find?_id_eq_none.mpr fresh] at eq
    obtain ⟨_, short, eq⟩ := bind_eq_ok.mp eq
    refine ⟨require_eq_ok.mp short, fun first found => ?_⟩
    have same : s.named capsuleId = some first := (Except.ok.inj eq).symm.trans found
    rw [named, find?_id_eq_none.mpr fresh] at same
    dsimp only at same
    split at same
    · rename_i row single
      cases same
      exact single
    · cases same
  · rintro ⟨bound, rest⟩
    refine ⟨_, recordRow_eq_ok.mpr ⟨bound, rfl⟩, ?_⟩
    cases found : s.rows.find? fun r => r.capsuleId = capsuleId with
    | some row => rw [named, found]
    | none =>
      have fresh := find?_id_eq_none.mp found
      obtain ⟨short, single⟩ := rest fresh
      dsimp only
      rw [require_of short, ok_bind]
      cases first : s.rows.find? fun r => Like.like (capsuleId ++ [37]) r.capsuleId with
      | none => rw [named_of_find?_none fresh first]
      | some row => rw [named, found, single row first]

/-- A named row is in the store. -/
lemma mem_of_named {capsuleId : Str} {row : Row} (named : s.named capsuleId = some row) : row ∈ s.rows := by
  rw [Store.named] at named
  split at named
  · rename_i found
    cases named
    exact List.mem_of_find?_eq_some found
  · split at named
    · rename_i single
      cases named
      exact (List.mem_filter.mp (single ▸ List.mem_singleton_self _)).1
    · cases named

/-- A fetched row is in the store. -/
lemma mem_of_fetchRow {capsuleId : Str} {row : Row} (ok : s.fetchRow capsuleId = .ok (some row)) :
    row ∈ s.rows := by
  obtain ⟨found, read, eq⟩ := bind_eq_ok.mp ok
  obtain ⟨-, rfl⟩ := recordRow_eq_ok.mp read
  split at eq
  · rename_i found
    cases eq
    exact List.mem_of_find?_eq_some found
  · obtain ⟨_, -, eq⟩ := bind_eq_ok.mp eq
    exact List.mem_of_find?_eq_some (Except.ok.inj eq)

/-- Fetching reads the named record exactly where the argument fetches it. -/
lemma Holds.fetch_iff (holds : s.Holds E cfg init last) (capsuleId : Str) :
    s.fetch cfg capsuleId = .ok ((s.named capsuleId).map (s.recordAt cfg)) ↔ Fetches cfg s capsuleId := by
  constructor
  · intro ok
    obtain ⟨found, selected, eq⟩ := bind_eq_ok.mp ok
    have same : found = s.named capsuleId ∧ ∀ row ∈ found, s.isArchived cfg row.segment = false := by
      cases found with
      | none =>
        have none_ := Option.map_eq_none_iff.mp (Except.ok.inj eq).symm
        exact ⟨none_.symm, fun row mem => (by cases mem)⟩
      | some row =>
        have mem := mem_of_fetchRow selected
        cases archived : s.isArchived cfg row.segment with
        | true =>
          obtain ⟨e, err⟩ := (holds.rowToRecord_iff mem).2 archived
          dsimp only at eq
          rw [err] at eq
          cases eq
        | false =>
          dsimp only at eq
          rw [(holds.rowToRecord_iff mem).1 archived] at eq
          obtain ⟨row', named', same⟩ := Option.map_eq_some_iff.mp (Except.ok.inj eq).symm
          have own : [row'] = [row] := holds.rows_eq_of_records
            (fun r hr => List.mem_singleton.mp hr ▸ mem_of_named named')
            (fun r hr => List.mem_singleton.mp hr ▸ mem) (congrArg (fun x => [x]) same)
          obtain rfl : row' = row := List.singleton_inj.mp own
          exact ⟨named'.symm, fun r hr => Option.some.inj hr ▸ archived⟩
    obtain ⟨rfl, mounted⟩ := same
    obtain ⟨text, rest⟩ := fetchRow_eq_ok.mp selected
    have conditions fresh := (first_iff holds.pairwise_seq capsuleId).mp (rest fresh).2
    exact ⟨text, fun fresh => (rest fresh).1, fun fresh => (conditions fresh).1,
      fun fresh => (conditions fresh).2, mounted⟩
  · rintro ⟨text, short, unambiguous, after, mounted⟩
    have selected := fetchRow_eq_ok.mpr ⟨text, fun fresh => ⟨short fresh,
      (first_iff holds.pairwise_seq capsuleId).mpr ⟨unambiguous fresh, after fresh⟩⟩⟩
    rw [fetch, selected, ok_bind]
    cases named' : s.named capsuleId with
    | none => rfl
    | some row =>
      dsimp only
      rw [(holds.rowToRecord_iff (mem_of_named named')).1 (mounted row named')]
      rfl

/-- After every history, `fetch` returns the record whose id is the text, or else the only one whose id
starts with it, exactly if the text can be bound, that record is in a mounted segment and, where the text is
no id, the pattern is not too long, at most one id starts with the text, and every id that only resembles it is
stored after one that does. -/
theorem fetch_exact_iff (lawful : E.aac.Lawful) (cfg : Config) (checkpointer : Option κ) (calls : List Call)
    (capsuleId : Str) :
    let s := Run.run (step E cfg) (fresh cfg checkpointer) calls
    s.fetch cfg capsuleId = .ok ((s.named capsuleId).map (s.recordAt cfg)) ↔ Fetches cfg s capsuleId := by
  obtain ⟨init, last, holds, -⟩ := sound_run lawful cfg checkpointer calls
  exact holds.fetch_iff capsuleId

/-- The store after an append of each sample capsule. -/
def twoRecords : Store MmrCheckpointer :=
  Run.run (step sampleEnv sampleConfig) (fresh sampleConfig none)
    [.append stampedCapsule true .unsigned, .append laterCapsule true .unsigned]

/-- A prefix of one stored id fetches its record. -/
theorem fetch_exact_iff_sample :
    twoRecords.fetch sampleConfig (Str.lit "af48") =
        .ok ((twoRecords.named (Str.lit "af48")).map (twoRecords.recordAt sampleConfig)) ↔
      Fetches sampleConfig twoRecords (Str.lit "af48") :=
  fetch_exact_iff sampleAac_lawful sampleConfig none
    [.append stampedCapsule true .unsigned, .append laterCapsule true .unsigned] (Str.lit "af48")

/-- The empty text starts both ids, and the first record is returned. -/
theorem fetch_ambiguous :
    (twoRecords.fetch sampleConfig []).toOption.map (Option.map LedgerRecord.seq) = some (some 1) ∧
      twoRecords.named [] = none := by
  decide +kernel

end Store

end CLL.Ledger
