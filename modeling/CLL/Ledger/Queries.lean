import CLL.Ledger.Reindex

/-!
# The queries of a store

`by_time`, `by_digest`, `by_correlation` and `by_seq_range` of `ledger/store.py`, each answered through the
lookup index or, without one, by a scan. `queries_agree` says when the two give the same answer.
-/

namespace CLL.Ledger
open CLL.Core

namespace Store

variable {κ : Type} (E : Env κ) (cfg : Config)

/-- `_resolve_lookup_hit`. -/
def resolveLookupHit (s : Store κ) (hit : LookupIndex.Hit) : Py LedgerRecord := do
  let (seq, segment, byteOffset) := hit
  s.requireMounted cfg segment
  match ← s.readCapsule cfg segment byteOffset with
  | .obj capsule => do
    let carried ← carriedOrComputed E.aac capsule
    let capsuleId ← idString carried
    let authenticity ← reindexAuthenticity E.aac capsule
    .ok ⟨seq, capsuleId, .obj capsule, segment, true, authenticity, bundledEnvelopes capsule authenticity⟩
  | _ => raise .attributeError "object has no attribute 'get'"

/-- `r.capsule.get(key)`. -/
def getField (r : LedgerRecord) (key : String) : Py Json :=
  match r.capsule with
  | .obj capsule => .ok (Fields.get capsule key)
  | _ => raise .attributeError "object has no attribute 'get'"

/-- A comparison of `value or ""` with a bound. -/
def compareText (value : Json) (holds : Str → Bool) : Py Bool :=
  if truthy value then
    match value with
    | .str t => .ok (holds t)
    | _ => raise .typeError "'<=' not supported between instances"
  else .ok (holds [])

/-- `(start is None or ts >= start) and (end is None or ts <= end)`. -/
def timeMatches (start end_ : Option Str) (ts : Json) : Py Bool := do
  let late ←
    match start with
    | none => .ok true
    | some start => compareText ts fun t => start ≤ t
  if late then
    match end_ with
    | none => .ok true
    | some end_ => compareText ts fun t => t ≤ end_
  else .ok false

/-- The records of a list that a condition holds of, unless it raises on one. -/
def keep (matches_ : LedgerRecord → Py Bool) : List LedgerRecord → Py (List LedgerRecord)
  | [] => .ok []
  | r :: records => do
    let holds ← matches_ r
    let kept ← keep matches_ records
    .ok (if holds then r :: kept else kept)

/-- A query through the lookup index, with a scan if there is none or it fails as a database. -/
def query {α : Type} (s : Store κ) (hits : LookupIndex → Py α) (resolve : α → Py (List LedgerRecord))
    (scanned : List LedgerRecord → Py (List LedgerRecord)) : Py (List LedgerRecord) :=
  match s.lookup with
  | none => s.scan cfg >>= scanned
  | some ix =>
    match hits ix with
    | .ok found => resolve found
    | .error e => if e.kind = .database then s.scan cfg >>= scanned else .error e

/-- `by_time`. -/
def byTime (s : Store κ) (start end_ : Option Str) : Py (List LedgerRecord) :=
  s.query cfg (fun ix => ix.byTime start end_) (fun hits => hits.mapM (s.resolveLookupHit E cfg))
    (keep fun r => do timeMatches start end_ (← getField r "timestamp"))

/-- `by_digest`, `None` as no record. -/
def byDigest (s : Store κ) (recordDigest : Str) : Py (List LedgerRecord) :=
  s.query cfg (fun ix => ix.byDigest recordDigest)
    (fun hit => hit.toList.mapM (s.resolveLookupHit E cfg))
    fun records => .ok (records.find? fun r => r.capsuleId = recordDigest).toList

/-- `by_correlation`. -/
def byCorrelation (s : Store κ) (correlationId : Str) : Py (List LedgerRecord) :=
  s.query cfg (fun ix => ix.byCorrelation correlationId)
    (fun hits => hits.mapM (s.resolveLookupHit E cfg))
    (keep fun r =>
      match r.capsule with
      | .obj capsule => .ok (decide (correlationId ∈ extractCorrelationIds capsule cfg.correlationFields))
      | _ => .ok false)

/-- `by_seq_range`. -/
def bySeqRange (s : Store κ) (first last : ℤ) : Py (List LedgerRecord) :=
  s.query cfg (fun ix => ix.bySeqRange first last) (fun hits => hits.mapM (s.resolveLookupHit E cfg))
    (keep fun r => .ok (decide (first ≤ r.seq ∧ (r.seq : ℤ) ≤ last)))

/-- Both fail, or both give the same records in the same order. -/
def SameAnswer (a b : Py (List LedgerRecord)) : Prop := a.toOption = b.toOption

/-- The record on the line of a row. -/
def capsuleAt (s : Store κ) (row : Row) : Fields :=
  match s.readCapsule cfg row.segment row.byteOffset with
  | .ok (.obj capsule) => capsule
  | _ => []

/-- When the two answers to a query are the same: whether its arguments can be bound, how often the index
finds a record, which records the scan compares alike and on which it raises. -/
def Agrees (s : Store κ) (bound : Bool) (found : Row → Fields → ℕ) (alike raises : Row → Fields → Bool) :
    Prop :=
  if ∀ row ∈ s.rows, s.isArchived cfg row.segment = false then
    if bound then
      ∀ row ∈ s.rows, let capsule := s.capsuleAt cfg row
        alike row capsule = true ∧ found row capsule ≤ 1 ∧
          (0 < found row capsule →
            row.consequential = true ∧ rederived E.aac capsule = row.authenticity)
    else ∃ row ∈ s.rows, raises row (s.capsuleAt cfg row) = true
  else bound = true →
    ∃ row ∈ s.rows, 0 < found row (s.capsuleAt cfg row) ∧ s.isArchived cfg row.segment = true

variable {E cfg} {s : Store κ} {init : List Segment} {last : Segment}

/-- The hit of a place. -/
def hitAt (p : Placed) : LookupIndex.Hit := (p.seq, p.segment, p.offset)

/-- The record that a hit is resolved into. -/
def resolved (E : Env κ) (p : Placed) : LedgerRecord :=
  ⟨p.seq, p.entry.capsuleId, .obj p.entry.capsule, p.segment, true, rederived E.aac p.entry.capsule,
    bundledEnvelopes p.entry.capsule (rederived E.aac p.entry.capsule)⟩

/-- A hit in a mounted segment is resolved. -/
lemma Holds.resolveLookupHit (lawful : E.aac.Lawful) (holds : s.Holds E cfg init last) {p : Placed}
    (mem : p ∈ place 1 (init ++ [last])) (mounted : s.isArchived cfg p.segment = false) :
    s.resolveLookupHit E cfg (hitAt p) = .ok (resolved E p) := by
  obtain ⟨segment, hsegment, name, before, after, split, -⟩ := mem_place mem
  have stored := holds.stored segment hsegment p.entry (by rw [split]; simp)
  have require : s.requireMounted cfg p.segment = .ok () := by
    rw [requireMounted]
    exact require_of (by rw [mounted]; rfl)
  unfold Store.resolveLookupHit hitAt
  dsimp only
  rw [require, ok_bind, holds.readCapsule mem, ok_bind]
  dsimp only
  rw [stored.id, ok_bind, idString, ok_bind, reindexAuthenticity_eq lawful, ok_bind]
  rfl

/-- A hit in an unmounted segment raises. -/
lemma resolveLookupHit_unmounted {p : Placed} (unmounted : s.isArchived cfg p.segment = true) :
    ∃ e, s.resolveLookupHit E cfg (hitAt p) = .error e := by
  have refused : s.requireMounted cfg p.segment = raise .segmentUnmounted "segment is not mounted" := by
    rw [requireMounted, unmounted]
    rfl
  unfold Store.resolveLookupHit hitAt
  dsimp only
  rw [refused]
  exact ⟨_, rfl⟩

/-- Every item is computed where each is. -/
lemma mapM_ok {α β : Type} {f : α → Py β} {g : α → β} {xs : List α} (all : ∀ x ∈ xs, f x = .ok (g x)) :
    xs.mapM f = .ok (xs.map g) := by
  induction xs with
  | nil => rfl
  | cons x xs ih =>
    rw [List.mapM_cons, all x List.mem_cons_self, ok_bind, ih fun y hy => all y (List.mem_cons_of_mem _ hy),
      ok_bind]
    rfl

/-- One item that raises makes the list raise. -/
lemma mapM_error {α β : Type} {f : α → Py β} {xs : List α} {x : α} (mem : x ∈ xs)
    (fails : ∃ e, f x = .error e) : ∃ e, xs.mapM f = .error e := by
  induction xs with
  | nil => cases mem
  | cons y xs ih =>
    rw [List.mapM_cons]
    cases own : f y with
    | error e => exact ⟨e, rfl⟩
    | ok b =>
      cases mem with
      | head =>
        obtain ⟨e, he⟩ := fails
        rw [own] at he
        cases he
      | tail _ mem =>
        obtain ⟨e, he⟩ := ih mem
        rw [ok_bind, he]
        exact ⟨e, rfl⟩

/-- Matching records are kept where each match returns. -/
lemma keep_ok {matches_ : LedgerRecord → Py Bool} {holds : LedgerRecord → Bool} {records : List LedgerRecord}
    (all : ∀ r ∈ records, matches_ r = .ok (holds r)) :
    keep matches_ records = .ok (records.filter holds) := by
  induction records with
  | nil => rfl
  | cons r records ih =>
    rw [keep, all r List.mem_cons_self, ok_bind, ih fun r hr => all r (List.mem_cons_of_mem _ hr), ok_bind,
      List.filter_cons]

/-- A match that raises makes the scan raise. -/
lemma keep_error {matches_ : LedgerRecord → Py Bool} {records : List LedgerRecord} {r : LedgerRecord}
    (mem : r ∈ records) (fails : ∃ e, matches_ r = .error e) : ∃ e, keep matches_ records = .error e := by
  induction records with
  | nil => cases mem
  | cons r' records ih =>
    rw [keep]
    cases own : matches_ r' with
    | error e => exact ⟨e, rfl⟩
    | ok b =>
      cases mem with
      | head =>
        obtain ⟨e, he⟩ := fails
        rw [own] at he
        cases he
      | tail _ mem =>
        obtain ⟨e, he⟩ := ih mem
        rw [ok_bind, he]
        exact ⟨e, rfl⟩

/-- Two lists that begin with all their elements of one kind agree part by part. -/
lemma append_parts {α : Type} (q : α → Bool) {a a' b b' : List α} (own : ∀ x ∈ a, q x = true)
    (own' : ∀ x ∈ a', q x = true) (other : ∀ x ∈ b, q x = false) (other' : ∀ x ∈ b', q x = false)
    (same : a ++ b = a' ++ b') : a = a' ∧ b = b' := by
  have firsts := congrArg (List.filter q) same
  rw [List.filter_append, List.filter_append, List.filter_eq_self.mpr own, List.filter_eq_self.mpr own',
    List.filter_eq_nil_iff.mpr (by simpa using other), List.filter_eq_nil_iff.mpr (by simpa using other'),
    List.append_nil, List.append_nil] at firsts
  subst firsts
  exact ⟨rfl, List.append_cancel_left same⟩

/-- A hit resolves to its record exactly for a consequential, rightly marked one. -/
lemma resolved_eq_iff (p : Placed) : resolved E p = p.record ↔
    p.entry.consequential = true ∧ rederived E.aac p.entry.capsule = p.entry.authenticity := by
  unfold resolved Placed.record
  constructor
  · intro same
    obtain ⟨-, -, -, -, consequential, authenticity, -⟩ := LedgerRecord.mk.inj same
    exact ⟨consequential.symm, authenticity⟩
  · rintro ⟨consequential, authenticity⟩
    rw [consequential, authenticity]

/-- A record is found once or not at all. -/
lemma replicate_eq_iff {α : Type} {n : ℕ} {b : Bool} {x y : α} :
    List.replicate n x = (if b then [y] else []) ↔ b = decide (0 < n) ∧ n ≤ 1 ∧ (0 < n → x = y) := by
  cases b with
  | true =>
    rw [if_pos rfl, ← List.replicate_one, List.replicate_inj]
    constructor
    · rintro ⟨rfl, same⟩
      exact ⟨rfl, le_rfl, fun _ => by simpa using same⟩
    · rintro ⟨pos, le, same⟩
      have pos : 0 < n := of_decide_eq_true pos.symm
      exact ⟨by omega, .inr (same pos)⟩
  | false =>
    rw [if_neg Bool.false_ne_true, List.replicate_eq_nil_iff]
    constructor
    · rintro rfl
      exact ⟨rfl, Nat.zero_le _, fun pos => absurd pos (lt_irrefl 0)⟩
    · rintro ⟨zero, -⟩
      have := of_decide_eq_false zero.symm
      omega

/-- What is found and what is kept are the same records, place by place. -/
lemma found_eq_kept_iff {places : List Placed} (nodup : (places.map Placed.seq).Nodup) (n : Placed → ℕ)
    (b : Placed → Bool) :
    ((places.flatMap fun p => List.replicate (n p) p).map fun p => resolved E p) =
        (places.filter b).map Placed.record ↔
      ∀ p ∈ places, b p = decide (0 < n p) ∧ n p ≤ 1 ∧ (0 < n p →
        p.entry.consequential = true ∧ rederived E.aac p.entry.capsule = p.entry.authenticity) := by
  induction places with
  | nil => simp
  | cons p places ih =>
    rw [List.map_cons, List.nodup_cons] at nodup
    have split : ((p :: places).filter b).map Placed.record =
        (if b p then [p.record] else []) ++ (places.filter b).map Placed.record := by
      rw [List.filter_cons]
      cases b p <;> rfl
    rw [List.flatMap_cons, List.map_append, List.map_replicate, split, List.forall_mem_cons, ← ih nodup.2,
      ← resolved_eq_iff, ← replicate_eq_iff]
    constructor
    · refine append_parts (fun r => decide (r.seq = p.seq)) ?_ ?_ ?_ ?_
      · intro r hr
        rw [List.eq_of_mem_replicate hr]
        exact decide_eq_true rfl
      · intro r hr
        cases hb : b p with
        | true =>
          rw [hb, if_pos rfl, List.mem_singleton] at hr
          rw [hr]
          exact decide_eq_true rfl
        | false =>
          rw [hb, if_neg Bool.false_ne_true] at hr
          cases hr
      · intro r hr
        obtain ⟨q, hq, rfl⟩ := List.mem_map.mp hr
        obtain ⟨q', hq', hq⟩ := List.mem_flatMap.mp hq
        rw [List.eq_of_mem_replicate hq]
        exact decide_eq_false fun same => nodup.1 (same ▸ List.mem_map_of_mem hq')
      · intro r hr
        obtain ⟨q, hq, rfl⟩ := List.mem_map.mp hr
        exact decide_eq_false fun same =>
          nodup.1 (same ▸ List.mem_map_of_mem (List.mem_filter.mp hq).1)
    · rintro ⟨own, others⟩
      rw [own, others]

/-- The capsule at a row is the stored one. -/
lemma Holds.capsuleAt (holds : s.Holds E cfg init last) {p : Placed} (mem : p ∈ place 1 (init ++ [last])) :
    s.capsuleAt cfg (p.row E.realText) = p.entry.capsule := by
  have read := holds.readCapsule mem
  unfold Store.capsuleAt
  show (match s.readCapsule cfg p.segment p.offset with
    | .ok (.obj capsule) => capsule
    | _ => []) = _
  rw [read]

/-- The two answers to a query whose hits and whose condition are known. -/
lemma Holds.sameAnswer_iff (lawful : E.aac.Lawful) (holds : s.Holds E cfg init last) {bound : Bool}
    {found : Row → Fields → ℕ} {alike raises : Row → Fields → Bool} {indexed : Py (List LedgerRecord)}
    (refused : bound = false → ∃ e, indexed = .error e)
    (hits : bound = true → indexed = ((place 1 (init ++ [last])).flatMap fun p =>
      List.replicate (found (p.row E.realText) p.entry.capsule) p).mapM
        fun p => s.resolveLookupHit E cfg (hitAt p))
    {condition : LedgerRecord → Py Bool} (conditions : ∀ p ∈ place 1 (init ++ [last]),
      (condition p.record = .ok (decide (0 < found (p.row E.realText) p.entry.capsule)) ↔
          alike (p.row E.realText) p.entry.capsule = true) ∧
        ((∃ e, condition p.record = .error e) ↔ raises (p.row E.realText) p.entry.capsule = true)) :
    SameAnswer indexed (s.scan cfg >>= keep condition) ↔ s.Agrees E cfg bound found alike raises := by
  have capsule : ∀ p ∈ place 1 (init ++ [last]), s.capsuleAt cfg (p.row E.realText) = p.entry.capsule :=
    fun _ hp => holds.capsuleAt hp
  have mounted_iff : (∀ row ∈ s.rows, s.isArchived cfg row.segment = false) ↔
      ∀ p ∈ place 1 (init ++ [last]), s.isArchived cfg p.segment = false := by
    rw [holds.rows, List.forall_mem_map]
    rfl
  unfold Agrees
  split
  · rename_i mounted
    have scanned := holds.scan mounted
    rw [scanned, ok_bind]
    cases bound with
    | true =>
      rw [if_pos rfl, hits rfl, mapM_ok (g := fun p => resolved E p)]
      -- Everything is mounted and the arguments bind: the scan raises exactly where a condition does.
      · by_cases all : ∀ p ∈ place 1 (init ++ [last]), ∃ b, condition p.record = .ok b
        · have kept : ∀ r ∈ (place 1 (init ++ [last])).map Placed.record,
              condition r = .ok ((condition r).toOption.getD false) := by
            intro r hr
            obtain ⟨p, hp, rfl⟩ := List.mem_map.mp hr
            obtain ⟨b, hb⟩ := all p hp
            rw [hb]
            rfl
          have nodup : ((place 1 (init ++ [last])).map Placed.seq).Nodup := by
            rw [map_seq_place]
            exact List.nodup_range'
          have same := found_eq_kept_iff (E := E) nodup (fun p => found (p.row E.realText) p.entry.capsule)
            fun p => (condition p.record).toOption.getD false
          rw [keep_ok kept, SameAnswer, Except.toOption, Except.toOption, Option.some.injEq, List.filter_map,
            holds.rows, List.forall_mem_map]
          refine same.trans (forall₂_congr fun p hp => ?_)
          obtain ⟨b, hb⟩ := all p hp
          dsimp only
          rw [capsule p hp, ← (conditions p hp).1, hb, Except.ok.injEq]
          rfl
        · simp only [not_forall] at all
          obtain ⟨p, hp, fails⟩ := all
          have fails : ∃ e, condition p.record = .error e := by
            cases own : condition p.record with
            | error e => exact ⟨e, rfl⟩
            | ok b => exact absurd ⟨b, own⟩ fails
          obtain ⟨e, he⟩ := keep_error (List.mem_map_of_mem (f := Placed.record) hp) fails
          rw [he, holds.rows, List.forall_mem_map]
          refine iff_of_false (fun same => by cases same) fun rows => ?_
          obtain ⟨own, -⟩ := rows p hp
          rw [capsule p hp, ← (conditions p hp).1] at own
          obtain ⟨e', he'⟩ := fails
          rw [he'] at own
          cases own
      · intro p hp
        obtain ⟨q, hq, hp⟩ := List.mem_flatMap.mp hp
        rw [List.eq_of_mem_replicate hp]
        exact holds.resolveLookupHit lawful hq (mounted_iff.mp mounted q hq)
    | false =>
      -- The index refuses its arguments, so the scan has to raise as well.
      obtain ⟨e, he⟩ := refused rfl
      rw [if_neg Bool.false_ne_true, he, holds.rows]
      by_cases all : ∀ p ∈ place 1 (init ++ [last]), ∃ b, condition p.record = .ok b
      · have kept : ∀ r ∈ (place 1 (init ++ [last])).map Placed.record,
            condition r = .ok ((condition r).toOption.getD false) := by
          intro r hr
          obtain ⟨p, hp, rfl⟩ := List.mem_map.mp hr
          obtain ⟨b, hb⟩ := all p hp
          rw [hb]
          rfl
        rw [keep_ok kept]
        refine iff_of_false (fun same => by cases same) ?_
        rintro ⟨row, hrow, raised⟩
        obtain ⟨p, hp, rfl⟩ := List.mem_map.mp hrow
        obtain ⟨b, hb⟩ := all p hp
        rw [capsule p hp, ← (conditions p hp).2, hb] at raised
        obtain ⟨e', he'⟩ := raised
        cases he'
      · simp only [not_forall] at all
        obtain ⟨p, hp, fails⟩ := all
        have fails : ∃ e, condition p.record = .error e := by
          cases own : condition p.record with
          | error e => exact ⟨e, rfl⟩
          | ok b => exact absurd ⟨b, own⟩ fails
        obtain ⟨e', he'⟩ := keep_error (List.mem_map_of_mem (f := Placed.record) hp) fails
        rw [he']
        refine iff_of_true rfl ⟨p.row E.realText, List.mem_map_of_mem hp, ?_⟩
        rw [capsule p hp, ← (conditions p hp).2]
        exact fails
  · rename_i unmounted
    simp only [not_forall] at unmounted
    -- The scan raises on an unmounted segment; the index does where one of its hits is in one.
    obtain ⟨row, hrow, archived⟩ := unmounted
    obtain ⟨e, he⟩ := scan_unmounted hrow (Bool.eq_true_of_not_eq_false archived)
    rw [he]
    cases bound with
    | false =>
      obtain ⟨e', he'⟩ := refused rfl
      rw [he']
      exact iff_of_true rfl fun h => by cases h
    | true =>
      rw [hits rfl, holds.rows]
      simp only [forall_const]
      constructor
      · intro same
        by_contra none_
        rw [mapM_ok (g := fun p => resolved E p)] at same
        · cases same
        · intro p hp
          obtain ⟨q, hq, hp⟩ := List.mem_flatMap.mp hp
          have pos : 0 < found (q.row E.realText) q.entry.capsule :=
            Nat.pos_of_ne_zero (List.mem_replicate.mp hp).1
          rw [List.eq_of_mem_replicate hp]
          refine holds.resolveLookupHit lawful hq (Bool.eq_false_of_not_eq_true fun archived => none_ ?_)
          exact ⟨q.row E.realText, List.mem_map_of_mem hq, by rwa [capsule q hq], archived⟩
      · rintro ⟨row', hrow', pos, archived'⟩
        obtain ⟨p, hp, rfl⟩ := List.mem_map.mp hrow'
        rw [capsule p hp] at pos
        have mem : p ∈ (place 1 (init ++ [last])).flatMap fun p =>
            List.replicate (found (p.row E.realText) p.entry.capsule) p :=
          List.mem_flatMap.mpr ⟨p, hp, List.mem_replicate.mpr ⟨pos.ne', rfl⟩⟩
        obtain ⟨e', he'⟩ := mapM_error (f := fun p => s.resolveLookupHit E cfg (hitAt p)) mem
          (resolveLookupHit_unmounted archived')
        rw [he']
        rfl

/-- What SQL selects, as what is found once. -/
lemma filter_eq_flatMap {α : Type} (b : α → Bool) (xs : List α) :
    xs.filter b = xs.flatMap fun x => List.replicate (if b x then 1 else 0) x := by
  induction xs with
  | nil => rfl
  | cons x xs ih =>
    rw [List.filter_cons, List.flatMap_cons, ← ih]
    cases b x <;> rfl

/-- Parameters that are bound exactly under a condition, and are refused without a database error. -/
def Binds (x : Py Unit) (bound : Bool) : Prop :=
  (bound = true → x = .ok ()) ∧ (bound = false → ∃ e, x = .error e ∧ e.kind ≠ .database)

/-- A requirement binds exactly where it holds. -/
lemma binds_require {cond : Bool} {kind : ErrorKind} {text : String} (ne : kind ≠ .database) :
    Binds (require (cond = true) kind text) cond := by
  refine ⟨fun h => require_of h, fun h => ⟨⟨kind, text⟩, ?_, ne⟩⟩
  rw [h]
  rfl

/-- Two values bind exactly where both do. -/
lemma Binds.bind {x y : Py Unit} {a b : Bool} (hx : Binds x a) (hy : Binds y b) :
    Binds (x >>= fun _ => y) (a && b) := by
  refine ⟨fun h => ?_, fun h => ?_⟩
  · obtain ⟨ha, hb⟩ := Bool.and_eq_true_iff.mp h
    rw [hx.1 ha, ok_bind, hy.1 hb]
  · cases a with
    | false =>
      obtain ⟨e, he, ne⟩ := hx.2 rfl
      exact ⟨e, by rw [he]; rfl, ne⟩
    | true =>
      obtain ⟨e, he, ne⟩ := hy.2 h
      exact ⟨e, by rw [hx.1 rfl, ok_bind, he], ne⟩

/-- A text binds exactly where it is encodable. -/
lemma binds_str (t : Str) : Binds (bind_ (.str t)) (encodable t) := binds_require (by decide)

/-- A number binds exactly where it fits into 64 bits. -/
lemma binds_int (n : ℤ) : Binds (bind_ (.int n)) (isInt64 n) := binds_require (by decide)

/-- A bound binds exactly where it is absent or encodable. -/
lemma binds_bound (bound : Option Str) : Binds (LookupIndex.bindBound bound) (bound.all encodable) := by
  cases bound with
  | none => exact ⟨fun _ => rfl, fun h => by cases h⟩
  | some t => exact binds_str t

/-- A query through an index that binds its parameters and then selects. -/
lemma query_iff (lawful : E.aac.Lawful) (holds : s.Holds E cfg init last)
    (looked : s.Looked E cfg (init ++ [last])) {α : Type} {hits : LookupIndex → Py α}
    {resolve : α → Py (List LedgerRecord)} {scanned : List LedgerRecord → Py (List LedgerRecord)}
    {condition : LedgerRecord → Py Bool} {x : Py Unit} {bound : Bool} (binds : Binds x bound) {selected : α}
    (selects : hits (LookupIndex.ofInputs E.realText cfg.correlationFields
      ((place 1 (init ++ [last])).map Placed.input)) = x >>= fun _ => .ok selected)
    {found : Row → Fields → ℕ} {alike raises : Row → Fields → Bool}
    (resolves : resolve selected = ((place 1 (init ++ [last])).flatMap fun p =>
      List.replicate (found (p.row E.realText) p.entry.capsule) p).mapM
        fun p => s.resolveLookupHit E cfg (hitAt p))
    (conditions : ∀ p ∈ place 1 (init ++ [last]),
      (condition p.record = .ok (decide (0 < found (p.row E.realText) p.entry.capsule)) ↔
          alike (p.row E.realText) p.entry.capsule = true) ∧
        ((∃ e, condition p.record = .error e) ↔ raises (p.row E.realText) p.entry.capsule = true))
    (kept : scanned ((place 1 (init ++ [last])).map Placed.record) =
      keep condition ((place 1 (init ++ [last])).map Placed.record)) :
    SameAnswer (s.query cfg hits resolve scanned)
        (({ s with lookup := none } : Store κ).query cfg hits resolve scanned) ↔
      s.Agrees E cfg bound found alike raises := by
  have scan : ({ s with lookup := none } : Store κ).query cfg hits resolve scanned =
      s.scan cfg >>= keep condition := by
    show s.scan cfg >>= scanned = _
    cases e : s.scan cfg with
    | error e => rfl
    | ok records =>
      obtain rfl := holds.scan_eq_ok e
      rw [ok_bind, ok_bind, kept]
  rw [scan]
  refine holds.sameAnswer_iff lawful (fun h => ?_) (fun h => ?_) conditions
  · obtain ⟨e, he, ne⟩ := binds.2 h
    refine ⟨e, ?_⟩
    unfold query
    rw [looked]
    dsimp only
    rw [selects, he]
    exact if_neg ne
  · unfold query
    rw [looked]
    dsimp only
    rw [selects, binds.1 h, ok_bind, ← resolves]

/-- The rows that a condition selects, place by place. -/
lemma selected_eq (realText : Str → Cell) (fields : List Str) (q : LookupRow → Bool) (places : List Placed) :
    ((LookupIndex.ofInputs realText fields (places.map Placed.input)).records.filter q).map LookupIndex.hit =
      (places.flatMap fun p =>
        List.replicate (if q (LookupIndex.rowOf realText p.input) then 1 else 0) p).map hitAt := by
  have rows : (LookupIndex.ofInputs realText fields (places.map Placed.input)).records =
      places.map fun p => LookupIndex.rowOf realText p.input := List.map_map
  rw [rows, List.filter_map, List.map_map, ← filter_eq_flatMap]
  rfl

/-- A comparison of the timestamp column. -/
def timeFound (start end_ : Option Str) (row : Row) (_ : Fields) : ℕ :=
  if LookupIndex.inTime start end_ row.columns.timestamp then 1 else 0

/-- Whether the column of a timestamp and the value itself compare alike. -/
def timesAlike (realText : Str → Cell) (start end_ : Option Str) : Json → Bool
  | .str _ => true
  | value =>
    if truthy value then start.isNone && end_.isNone
    else start.all (· = []) == LookupIndex.inTime start end_ (toCell realText value)

/-- Whether comparing a timestamp raises. -/
def timesRaise (start end_ : Option Str) : Json → Bool
  | .str _ => false
  | value => truthy value && (start.isSome || end_.isSome)

/-- The sign of an indicator decides its condition. -/
lemma decide_pos_ite (p : Prop) [Decidable p] : decide (0 < if p then 1 else 0) = decide p := by
  by_cases h : p <;> simp [h]

/-- A text is compared as it is. -/
lemma compareText_str (t : Str) (holds : Str → Bool) : compareText (.str t) holds = .ok (holds t) := by
  cases t <;> rfl

/-- A value that counts as false is compared as the empty text. -/
lemma compareText_falsy {value : Json} (falsy : truthy value = false) (holds : Str → Bool) :
    compareText value holds = .ok (holds []) := by
  unfold compareText
  rw [if_neg (by rw [falsy]; exact Bool.false_ne_true)]

/-- A string compares alike in both, by its code points. -/
lemma timeMatches_str (start end_ : Option Str) (t : Str) :
    timeMatches start end_ (.str t) = .ok (LookupIndex.inTime start end_ (some t)) := by
  unfold timeMatches
  cases start with
  | none => cases end_ <;> simp [compareText_str, LookupIndex.inTime, ok_bind]
  | some start =>
    simp only [compareText_str, ok_bind]
    cases late : decide (start ≤ t) <;> cases end_ <;> simp [LookupIndex.inTime, Option.any, late]

/-- What is false is compared as the empty string. -/
lemma timeMatches_falsy {value : Json} (falsy : truthy value = false) (start end_ : Option Str) :
    timeMatches start end_ value = .ok (start.all (· = [])) := by
  have least (t : Str) : ([] : Str) ≤ t := not_lt.mp (List.not_lt_nil t)
  unfold timeMatches
  cases start with
  | none => cases end_ <;> simp [compareText_falsy falsy, ok_bind, least]
  | some start =>
    simp only [compareText_falsy falsy, ok_bind]
    cases start <;> cases end_ <;> simp [least]

/-- What is true without being a string cannot be compared. -/
lemma timeMatches_truthy {value : Json} (truth : truthy value = true) (other : ∀ t, value ≠ .str t)
    (start end_ : Option Str) :
    (start.isNone && end_.isNone) = true ∧ timeMatches start end_ value = .ok true ∨
      (start.isSome || end_.isSome) = true ∧ ∃ e, timeMatches start end_ value = .error e := by
  have fails (holds : Str → Bool) : ∃ e, compareText value holds = .error e := by
    unfold compareText
    rw [if_pos truth]
    split
    · exact absurd rfl (other _)
    · exact ⟨_, rfl⟩
  unfold timeMatches
  cases start with
  | none =>
    cases end_ with
    | none => exact .inl ⟨rfl, rfl⟩
    | some end_ => exact .inr ⟨rfl, fails fun t => t ≤ end_⟩
  | some start =>
    obtain ⟨e, he⟩ := fails fun t => start ≤ t
    dsimp only
    rw [he]
    exact .inr ⟨rfl, e, rfl⟩

/-- What the condition of the scan gives for a timestamp. -/
lemma timeMatches_iff (realText : Str → Cell) (start end_ : Option Str) (value : Json) :
    ((timeMatches start end_ value = .ok (decide
        (0 < if LookupIndex.inTime start end_ (toCell realText value) then 1 else 0))) ↔
          timesAlike realText start end_ value = true) ∧
      ((∃ e, timeMatches start end_ value = .error e) ↔ timesRaise start end_ value = true) := by
  rw [decide_pos_ite, Bool.decide_eq_true]
  by_cases text : ∃ t, value = .str t
  · obtain ⟨t, rfl⟩ := text
    rw [timeMatches_str]
    simp [toCell, timesAlike, timesRaise]
  · have other : ∀ t, value ≠ .str t := fun t h => text ⟨t, h⟩
    have alike : timesAlike realText start end_ value =
        if truthy value then start.isNone && end_.isNone
        else start.all (· = []) == LookupIndex.inTime start end_ (toCell realText value) := by
      cases value <;> first | rfl | exact absurd rfl (other _)
    have raises : timesRaise start end_ value = (truthy value && (start.isSome || end_.isSome)) := by
      cases value <;> first | rfl | exact absurd rfl (other _)
    rw [alike, raises]
    cases truth : truthy value with
    | false =>
      rw [timeMatches_falsy truth]
      simp
    | true =>
      rcases timeMatches_truthy truth other start end_ with ⟨unbounded, same⟩ | ⟨bounded, e, he⟩
      · rw [same]
        obtain ⟨rfl, rfl⟩ : start = none ∧ end_ = none := by simpa using unbounded
        simp [LookupIndex.inTime]
      · rw [he]
        have none_ : (start.isNone && end_.isNone) = false := by
          cases start <;> cases end_ <;> simp_all
        simp [bounded, none_]

/-- The index answers a query by time exactly where the scan does. -/
lemma byTime_iff (lawful : E.aac.Lawful) (holds : s.Holds E cfg init last)
    (looked : s.Looked E cfg (init ++ [last])) (start end_ : Option Str) :
    SameAnswer (s.byTime E cfg start end_) (({ s with lookup := none } : Store κ).byTime E cfg start end_) ↔
      s.Agrees E cfg (start.all encodable && end_.all encodable) (timeFound start end_)
        (fun _ capsule => timesAlike E.realText start end_ (capsule.get "timestamp"))
        fun _ capsule => timesRaise start end_ (capsule.get "timestamp") := by
  have selects : (LookupIndex.ofInputs E.realText cfg.correlationFields
        ((place 1 (init ++ [last])).map Placed.input)).byTime start end_ =
      (LookupIndex.bindBound start >>= fun _ => LookupIndex.bindBound end_) >>= fun _ =>
        .ok (((place 1 (init ++ [last])).flatMap fun p => List.replicate
          (timeFound start end_ (p.row E.realText) p.entry.capsule) p).map hitAt) := by
    rw [LookupIndex.byTime, selected_eq, bind_assoc]
    rfl
  exact query_iff lawful holds looked ((binds_bound start).bind (binds_bound end_)) selects
    List.mapM_map (fun p _ => timeMatches_iff E.realText start end_ (p.entry.capsule.get "timestamp")) rfl

/-- Of distinct values, the first that fits is the only one. -/
lemma toList_find? {α : Type} [DecidableEq α] {places : List Placed} {f : Placed → α}
    (nodup : (places.map f).Nodup) (a : α) :
    (places.find? fun p => f p = a).toList = places.filter fun p => f p = a := by
  induction places with
  | nil => rfl
  | cons p places ih =>
    obtain ⟨fresh, nodup⟩ := List.nodup_cons.mp nodup
    rw [List.find?_cons, List.filter_cons]
    by_cases own : f p = a
    · have others : places.filter (fun q => f q = a) = [] := by
        rw [List.filter_eq_nil_iff]
        intro q hq same
        have same := of_decide_eq_true same
        exact fresh (List.mem_map.mpr ⟨q, hq, same.trans own.symm⟩)
      simp [own, others]
    · simpa [own] using ih nodup

/-- A comparison of the digest column. -/
def digestFound (recordDigest : Str) (row : Row) (_ : Fields) : ℕ :=
  if row.capsuleId = recordDigest then 1 else 0

/-- The index answers a query by digest exactly where the scan does. -/
lemma byDigest_iff (lawful : E.aac.Lawful) (holds : s.Holds E cfg init last)
    (looked : s.Looked E cfg (init ++ [last])) (recordDigest : Str) :
    SameAnswer (s.byDigest E cfg recordDigest)
        (({ s with lookup := none } : Store κ).byDigest E cfg recordDigest) ↔
      s.Agrees E cfg (encodable recordDigest) (digestFound recordDigest) (fun _ _ => true)
        fun _ _ => false := by
  have found := toList_find? holds.ids recordDigest
  have selects : (LookupIndex.ofInputs E.realText cfg.correlationFields
        ((place 1 (init ++ [last])).map Placed.input)).byDigest recordDigest =
      bind_ (.str recordDigest) >>= fun _ => .ok
        (((place 1 (init ++ [last])).find? fun p => p.entry.capsuleId = recordDigest).map hitAt) := by
    rw [LookupIndex.byDigest, LookupIndex.ofInputs, List.map_map, List.find?_map, Option.map_map]
    rfl
  have kept : Except.ok (((place 1 (init ++ [last])).map Placed.record).find?
        fun r => r.capsuleId = recordDigest).toList =
      keep (fun r => .ok (decide (r.capsuleId = recordDigest))) ((place 1 (init ++ [last])).map Placed.record) := by
    rw [keep_ok fun _ _ => rfl, List.find?_map, Option.toList_map, List.filter_map]
    exact congrArg (fun l => Except.ok (List.map Placed.record l)) found
  refine query_iff lawful holds looked (binds_str recordDigest) selects ?_ (fun p _ => ?_) kept
  · rw [Option.toList_map, List.mapM_map, found, filter_eq_flatMap]
    simp only [decide_eq_true_eq]
    rfl
  · have once : decide (0 < digestFound recordDigest (p.row E.realText) p.entry.capsule) =
        decide (p.record.capsuleId = recordDigest) := decide_pos_ite _
    simp [once]

/-- The rows of `correlations` that the join finds. -/
def correlationFound (fields : List Str) (correlationId : Str) (_ : Row) (capsule : Fields) : ℕ :=
  (LookupIndex.storedIds fields capsule).count correlationId

/-- The rows that are joined to a record are those of its own ids. -/
lemma joined_eq (fields : List Str) (correlationId : Str) {places : List Placed}
    (nodup : (places.map Placed.seq).Nodup) {p : Placed} (mem : p ∈ places) :
    (((places.map Placed.input).flatMap fun i =>
        (LookupIndex.storedIds fields i.capsule).map fun cid => (cid, i.seq)).filter
          fun c => c.1 = correlationId ∧ c.2 = p.seq).length =
      (LookupIndex.storedIds fields p.entry.capsule).count correlationId := by
  induction places with
  | nil => cases mem
  | cons q places ih =>
    obtain ⟨fresh, nodup⟩ := List.nodup_cons.mp nodup
    have own (r : Placed) : (((LookupIndex.storedIds fields r.entry.capsule).map fun cid => (cid, r.seq)).filter
        fun c => c.1 = correlationId ∧ c.2 = p.seq).length =
        if r.seq = p.seq then (LookupIndex.storedIds fields r.entry.capsule).count correlationId else 0 := by
      rw [List.filter_map, List.length_map, List.count, List.countP_eq_length_filter]
      split
      · rename_i same
        congr 2
        funext cid
        simp [same, beq_eq_decide]
      · rename_i other
        simp [other]
    rw [List.map_cons, List.flatMap_cons, List.filter_append, List.length_append]
    show (((LookupIndex.storedIds fields q.entry.capsule).map fun cid => (cid, q.seq)).filter _).length + _ = _
    rw [own q]
    rcases List.mem_cons.mp mem with rfl | mem
    · have none_ : (((places.map Placed.input).flatMap fun i =>
          (LookupIndex.storedIds fields i.capsule).map fun cid => (cid, i.seq)).filter
            fun c => c.1 = correlationId ∧ c.2 = p.seq) = [] := by
        rw [List.filter_eq_nil_iff]
        intro c hc same
        obtain ⟨i, hi, hc⟩ := List.mem_flatMap.mp hc
        obtain ⟨cid, -, rfl⟩ := List.mem_map.mp hc
        obtain ⟨q, hq, rfl⟩ := List.mem_map.mp hi
        exact fresh (List.mem_map.mpr ⟨q, hq, (of_decide_eq_true same).2⟩)
      rw [if_pos rfl, none_]
      rfl
    · have other : q.seq ≠ p.seq := fun same => fresh (same ▸ List.mem_map_of_mem mem)
      rw [if_neg other, Nat.zero_add]
      exact ih nodup mem

/-- The index answers a query by correlation exactly where the scan does. -/
lemma byCorrelation_iff (lawful : E.aac.Lawful) (holds : s.Holds E cfg init last)
    (looked : s.Looked E cfg (init ++ [last])) (correlationId : Str) :
    SameAnswer (s.byCorrelation E cfg correlationId)
        (({ s with lookup := none } : Store κ).byCorrelation E cfg correlationId) ↔
      s.Agrees E cfg (encodable correlationId) (correlationFound cfg.correlationFields correlationId)
        (fun _ capsule => decide (correlationId ∈ extractCorrelationIds capsule cfg.correlationFields →
          correlationId ∈ LookupIndex.storedIds cfg.correlationFields capsule))
        fun _ _ => false := by
  have nodup : ((place 1 (init ++ [last])).map Placed.seq).Nodup := by
    rw [map_seq_place]
    exact List.nodup_range'
  have selects : (LookupIndex.ofInputs E.realText cfg.correlationFields
        ((place 1 (init ++ [last])).map Placed.input)).byCorrelation correlationId =
      bind_ (.str correlationId) >>= fun _ => .ok (((place 1 (init ++ [last])).flatMap fun p =>
        List.replicate (correlationFound cfg.correlationFields correlationId (p.row E.realText)
          p.entry.capsule) p).map hitAt) := by
    rw [LookupIndex.byCorrelation, LookupIndex.ofInputs]
    congr 1
    funext _
    congr 1
    dsimp only
    rw [List.map_map, List.flatMap_map, List.map_flatMap]
    refine List.flatMap_congr fun p hp => ?_
    rw [List.map_const', List.map_replicate]
    congr 1
    exact joined_eq cfg.correlationFields correlationId nodup hp
  refine query_iff lawful holds looked (binds_str correlationId) selects List.mapM_map (fun p _ => ?_) rfl
  have sub : correlationId ∈ LookupIndex.storedIds cfg.correlationFields p.entry.capsule →
      correlationId ∈ extractCorrelationIds p.entry.capsule cfg.correlationFields :=
    fun mem => (List.takeWhile_sublist _).mem mem
  have own : (decide (correlationId ∈ extractCorrelationIds p.entry.capsule cfg.correlationFields) =
      decide (0 < correlationFound cfg.correlationFields correlationId (p.row E.realText) p.entry.capsule)) ↔
      (correlationId ∈ extractCorrelationIds p.entry.capsule cfg.correlationFields →
        correlationId ∈ LookupIndex.storedIds cfg.correlationFields p.entry.capsule) := by
    rw [decide_eq_decide, correlationFound, List.count_pos_iff]
    exact ⟨fun same => same.mp, fun stored => ⟨stored, sub⟩⟩
  simpa [Placed.record, imp_iff_not_or] using own

/-- A comparison of the row id. -/
def seqFound (first last : ℤ) (row : Row) (_ : Fields) : ℕ :=
  if first ≤ row.seq ∧ (row.seq : ℤ) ≤ last then 1 else 0

/-- The index answers a query by sequence numbers exactly where the scan does. -/
lemma bySeqRange_iff (lawful : E.aac.Lawful) (holds : s.Holds E cfg init last)
    (looked : s.Looked E cfg (init ++ [last])) (first last_ : ℤ) :
    SameAnswer (s.bySeqRange E cfg first last_)
        (({ s with lookup := none } : Store κ).bySeqRange E cfg first last_) ↔
      s.Agrees E cfg (isInt64 first && isInt64 last_) (seqFound first last_) (fun _ _ => true)
        fun _ _ => false := by
  have selects : (LookupIndex.ofInputs E.realText cfg.correlationFields
        ((place 1 (init ++ [last])).map Placed.input)).bySeqRange first last_ =
      (bind_ (.int first) >>= fun _ => bind_ (.int last_)) >>= fun _ =>
        .ok (((place 1 (init ++ [last])).flatMap fun p => List.replicate
          (seqFound first last_ (p.row E.realText) p.entry.capsule) p).map hitAt) := by
    rw [LookupIndex.bySeqRange, selected_eq, bind_assoc]
    simp only [decide_eq_true_eq]
    rfl
  refine query_iff lawful holds looked ((binds_int first).bind (binds_int last_)) selects
    List.mapM_map (fun p _ => ?_) rfl
  have once : decide (0 < seqFound first last_ (p.row E.realText) p.entry.capsule) =
      decide (first ≤ (p.record.seq : ℤ) ∧ (p.record.seq : ℤ) ≤ last_) := decide_pos_ite _
  simp only [once, reduceCtorEq, exists_false, Bool.false_eq_true, and_self]

/-- The row of `rebuild` that a leaf gives. -/
def Leaf.input (seq : ℕ) (leaf : Leaf) : LookupInput :=
  ⟨seq, leaf.capsule.get "timestamp", leaf.capsuleId, leaf.segment, leaf.offset, leaf.capsule⟩

/-- The rows that are numbered anew are what the lookup index would be told of the places. -/
lemma mapIdx_leaves {start : ℕ} {places : List Placed}
    (numbered : places.map Placed.seq = List.range' start places.length) :
    ((places.map Placed.leaf).mapIdx fun i leaf => Leaf.input (start + i) leaf) =
      places.map Placed.input := by
  induction places generalizing start with
  | nil => rfl
  | cons p places ih =>
    rw [List.map_cons, List.length_cons, List.range'_succ] at numbered
    obtain ⟨here, numbered⟩ := List.cons.inj numbered
    rw [List.map_cons, List.mapIdx_cons, List.map_cons, ← ih numbered, ← here]
    refine congrArg (List.cons _) ?_
    congr 1
    funext i leaf
    rw [Nat.add_assoc, Nat.add_comm 1]

/-- What is read is numbered upwards and can be bound. -/
lemma Holds.sequential (holds : s.Holds E cfg init last) :
    LookupIndex.Sequential ((place 1 (readOrder cfg (init ++ [last]))).map Placed.input) := by
  refine ⟨fun i hi => ?_, ?_⟩
  · obtain ⟨p, hp, rfl⟩ := List.mem_map.mp hi
    obtain ⟨stored, segment, offset⟩ := holds.bindable hp
    exact bindRow_input stored segment offset
  · have numbered : ((place 1 (readOrder cfg (init ++ [last]))).map Placed.seq).Pairwise (· < ·) := by
      rw [map_seq_place]
      exact List.pairwise_lt_range'
    rw [List.pairwise_map] at numbered ⊢
    exact numbered

/-- The lookup index is rebuilt from what `_leaves` yields. -/
lemma Holds.rebuildLookupIndex (holds : s.Holds E cfg init last) :
    s.rebuildLookupIndex E cfg =
      let rebuilt := LookupIndex.rebuild E.realText cfg.correlationFields
        ((place 1 (readOrder cfg (init ++ [last]))).map Placed.input)
      (rebuilt.1, { s with lookup := some rebuilt.2 }) := by
  have rows := mapIdx_leaves (map_seq_place 1 (readOrder cfg (init ++ [last])))
  rw [← rows, Store.rebuildLookupIndex, holds.leaves]
  have shift (i : ℕ) : i + 1 = 1 + i := Nat.add_comm i 1
  simp only [Leaf.input, shift]

/-- When rebuilding the lookup index gives back the one that the appends had written. -/
lemma Holds.rebuildLookupIndex_iff (holds : s.Holds E cfg init last)
    (looked : s.Looked E cfg (init ++ [last])) :
    s.rebuildLookupIndex E cfg = (.ok (), s) ↔
      (∀ row ∈ s.rows, ∀ cid ∈ extractCorrelationIds (s.capsuleAt cfg row) cfg.correlationFields,
        encodable cid = true) ∧
      (cfg.rotateAtCheckpoint = true ∨ (s.rows.map fun row => row.segment).Pairwise (· ≤ ·)) := by
  have along : (s.rows.map fun row => row.segment) = (place 1 (init ++ [last])).map Placed.segment := by
    rw [holds.rows, List.map_map]
    rfl
  obtain ⟨result, state⟩ := @LookupIndex.rebuild_eq E.realText cfg.correlationFields _ holds.sequential
  rw [along, ← place_readOrder cfg holds.nodup, holds.rows, List.forall_mem_map, holds.rebuildLookupIndex]
  dsimp only
  constructor
  · intro same
    obtain ⟨ok, store⟩ := Prod.mk.inj same
    have ids := result.mp ok
    have lookup := (Store.mk.inj store).2.2.2.2.2.1
    rw [state ok, looked, Option.some.injEq] at lookup
    have segments := congrArg (fun ix => ix.records.map LookupRow.segment) lookup
    simp only [LookupIndex.ofInputs, List.map_map] at segments
    have place_eq := place_readOrder_of_segments cfg holds.nodup segments
    refine ⟨fun p hp => ?_, place_eq⟩
    rw [place_eq, List.forall_mem_map] at ids
    rw [holds.capsuleAt hp]
    exact ids p hp
  · rintro ⟨ids, place_eq⟩
    have ok := result.mpr (by
      rw [place_eq, List.forall_mem_map]
      intro p hp
      have := ids p hp
      rwa [holds.capsuleAt hp] at this)
    rw [ok, state ok, place_eq, ← looked]

/-- After every history, each query has the same answer through the index and by a scan exactly under the
condition stated for it, and rebuilding the index gives back the one that the appends had written exactly
if every declared id can be stored and the segments are read in the order of the rows. -/
theorem queries_agree (lawful : E.aac.Lawful) (cfg : Config) (checkpointer : Option κ) (calls : List Call) :
    let s := Run.run (step E cfg) (fresh cfg checkpointer) calls
    let scanning : Store κ := { s with lookup := none }
    (∀ start end_, SameAnswer (s.byTime E cfg start end_) (scanning.byTime E cfg start end_) ↔
      s.Agrees E cfg (start.all encodable && end_.all encodable) (timeFound start end_)
        (fun _ capsule => timesAlike E.realText start end_ (capsule.get "timestamp"))
        fun _ capsule => timesRaise start end_ (capsule.get "timestamp")) ∧
    (∀ recordDigest, SameAnswer (s.byDigest E cfg recordDigest) (scanning.byDigest E cfg recordDigest) ↔
      s.Agrees E cfg (encodable recordDigest) (digestFound recordDigest) (fun _ _ => true)
        fun _ _ => false) ∧
    (∀ correlationId, SameAnswer (s.byCorrelation E cfg correlationId)
        (scanning.byCorrelation E cfg correlationId) ↔
      s.Agrees E cfg (encodable correlationId) (correlationFound cfg.correlationFields correlationId)
        (fun _ capsule => decide (correlationId ∈ extractCorrelationIds capsule cfg.correlationFields →
          correlationId ∈ LookupIndex.storedIds cfg.correlationFields capsule))
        fun _ _ => false) ∧
    (∀ first last, SameAnswer (s.bySeqRange E cfg first last) (scanning.bySeqRange E cfg first last) ↔
      s.Agrees E cfg (isInt64 first && isInt64 last) (seqFound first last) (fun _ _ => true)
        fun _ _ => false) ∧
    (s.rebuildLookupIndex E cfg = (.ok (), s) ↔
      (∀ row ∈ s.rows, ∀ cid ∈ extractCorrelationIds (s.capsuleAt cfg row) cfg.correlationFields,
        encodable cid = true) ∧
      (cfg.rotateAtCheckpoint = true ∨ (s.rows.map fun row => row.segment).Pairwise (· ≤ ·))) := by
  obtain ⟨init, last, holds, looked⟩ := sound_run lawful cfg checkpointer calls
  exact ⟨byTime_iff lawful holds looked, byDigest_iff lawful holds looked,
    byCorrelation_iff lawful holds looked, bySeqRange_iff lawful holds looked,
    holds.rebuildLookupIndex_iff looked⟩

/-- A store with one correlation field. -/
def correlatedConfig : Config := { sampleConfig with correlationFields := [Str.lit "ids"] }

/-- A capsule that declares one id twice and has no timestamp. -/
def sampleTwice : Capsule where
  fields := sealedFields (Str.lit "4765bebcdfb69ebead9d3a5d52f5686899fdfb440f252b9ed74b9d9b065c11f3")
    [(Str.lit "ids", .arr [.str (Str.lit "a"), .str (Str.lit "a")])] []
  portable := by decide +kernel

/-- The store after one append of it. -/
def twiceStore : Store MmrCheckpointer :=
  Run.run (step sampleEnv correlatedConfig) (fresh correlatedConfig none) [.append sampleTwice true .unsigned]

/-- Every query at that store, and the rebuilt index. -/
theorem queries_agree_sample :
    let scanning : Store MmrCheckpointer := { twiceStore with lookup := none }
    (SameAnswer (twiceStore.byTime sampleEnv correlatedConfig none (some (Str.lit "2026")))
        (scanning.byTime sampleEnv correlatedConfig none (some (Str.lit "2026"))) ↔
      twiceStore.Agrees sampleEnv correlatedConfig (encodable (Str.lit "2026"))
        (timeFound none (some (Str.lit "2026")))
        (fun _ capsule => timesAlike sampleEnv.realText none (some (Str.lit "2026")) (capsule.get "timestamp"))
        fun _ capsule => timesRaise none (some (Str.lit "2026")) (capsule.get "timestamp")) ∧
    (SameAnswer (twiceStore.byDigest sampleEnv correlatedConfig stampedId)
        (scanning.byDigest sampleEnv correlatedConfig stampedId) ↔
      twiceStore.Agrees sampleEnv correlatedConfig (encodable stampedId) (digestFound stampedId)
        (fun _ _ => true) fun _ _ => false) ∧
    (SameAnswer (twiceStore.byCorrelation sampleEnv correlatedConfig (Str.lit "a"))
        (scanning.byCorrelation sampleEnv correlatedConfig (Str.lit "a")) ↔
      twiceStore.Agrees sampleEnv correlatedConfig (encodable (Str.lit "a"))
        (correlationFound correlatedConfig.correlationFields (Str.lit "a"))
        (fun _ capsule => decide
          (Str.lit "a" ∈ extractCorrelationIds capsule correlatedConfig.correlationFields →
            Str.lit "a" ∈ LookupIndex.storedIds correlatedConfig.correlationFields capsule))
        fun _ _ => false) ∧
    (SameAnswer (twiceStore.bySeqRange sampleEnv correlatedConfig 1 2)
        (scanning.bySeqRange sampleEnv correlatedConfig 1 2) ↔
      twiceStore.Agrees sampleEnv correlatedConfig (isInt64 1 && isInt64 2) (seqFound 1 2) (fun _ _ => true)
        fun _ _ => false) ∧
    (twiceStore.rebuildLookupIndex sampleEnv correlatedConfig = (.ok (), twiceStore) ↔
      (∀ row ∈ twiceStore.rows, ∀ cid ∈ extractCorrelationIds (twiceStore.capsuleAt correlatedConfig row)
        correlatedConfig.correlationFields, encodable cid = true) ∧
      (correlatedConfig.rotateAtCheckpoint = true ∨
        (twiceStore.rows.map fun row => row.segment).Pairwise (· ≤ ·))) :=
  have agree := queries_agree sampleAac_lawful correlatedConfig none [.append sampleTwice true .unsigned]
  ⟨agree.1 none (some (Str.lit "2026")), agree.2.1 stampedId, agree.2.2.1 (Str.lit "a"), agree.2.2.2.1 1 2,
    agree.2.2.2.2⟩

/-- The index finds a record once for every time that it declares an id, and a record without a timestamp
in no interval; the scan finds it once, and in every interval without a beginning. -/
theorem index_duplicates :
    ((twiceStore.byCorrelation sampleEnv correlatedConfig (Str.lit "a")).toOption.map
        (List.map LedgerRecord.seq) = some [1, 1] ∧
      (({ twiceStore with lookup := none } : Store MmrCheckpointer).byCorrelation sampleEnv correlatedConfig
        (Str.lit "a")).toOption.map (List.map LedgerRecord.seq) = some [1]) ∧
    (twiceStore.byTime sampleEnv correlatedConfig none (some (Str.lit "2026"))).toOption.map
        (List.map LedgerRecord.seq) = some [] ∧
      (({ twiceStore with lookup := none } : Store MmrCheckpointer).byTime sampleEnv correlatedConfig none
        (some (Str.lit "2026"))).toOption.map (List.map LedgerRecord.seq) = some [1] := by
  decide +kernel

end Store

end CLL.Ledger
