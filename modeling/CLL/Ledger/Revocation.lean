import CLL.Ledger.Store
import CLL.Lib.Rfc3339

/-!
# Time-fenced revocation

`revocation.py`: the windows of the signing keys that the rotations of a ledger imply, and the check of a
capsule against them. The windows are rebuilt in the order of the ledger and the times are carried as text.
`buildKeyTimeline_eq` says which times end up in a window: the last of those at which the key was rotated to
and the first of those at which it was rotated away from. `revocation_exact_iff` says when these are the
earliest instants and the check compares instants.
-/

namespace CLL.Ledger
open CLL.Core

/-- `value.get(key)`. -/
def dictGet (value : Json) (key : String) : Py Json :=
  match value with
  | .obj fields => .ok (Fields.get fields key)
  | _ => raise .attributeError "object has no attribute 'get'"

/-- What `build_key_timeline` reads of a rotation. -/
structure Rotation where
  oldKeyId : Json
  newKeyId : Json
  rotatedAt : Json

/-- The rotation that a capsule records, if it records one. -/
def rotationOf (capsule : Json) : Py (Option Rotation) := do
  let payload ← dictGet capsule "asg_payload"
  match ← dictGet (orEmpty payload) "event" with
  | .str event =>
    if event = Str.lit "key_rotation" then
      let detail ← dictGet (orEmpty payload) "detail"
      let oldKeyId ← dictGet (orEmpty detail) "old_key_id"
      let newKeyId ← dictGet (orEmpty detail) "new_key_id"
      let rotatedAt ← dictGet (orEmpty detail) "rotated_at"
      .ok (some ⟨oldKeyId, newKeyId, rotatedAt⟩)
    else .ok none
  | _ => .ok none

/-- The rotations that capsules record, in their order. -/
def rotations : List Json → Py (List Rotation)
  | [] => .ok []
  | capsule :: capsules => do
    let rotation ← rotationOf capsule
    let rest ← rotations capsules
    .ok (rotation.toList ++ rest)

/-- `KeyWindow`; `.null` stands for `None`. -/
structure KeyWindow where
  keyId : Str
  activatedAt : Json
  revokedAt : Json

/-- The `dict` of the windows. -/
abbrev Timeline := List (Str × KeyWindow)

def isNone : Json → Bool
  | .null => true
  | _ => false

/-- `if isinstance(old_id, str): …`. -/
def revoke (windows : Timeline) (oldId rotatedAt : Json) : Timeline :=
  match oldId with
  | .str oldId =>
    match windows.lookup oldId with
    | none => Table.put windows oldId ⟨oldId, .null, rotatedAt⟩
    | some existing =>
      if isNone existing.revokedAt then Table.put windows oldId ⟨oldId, existing.activatedAt, rotatedAt⟩
      else windows
  | _ => windows

/-- `if isinstance(new_id, str): …`. -/
def activate (windows : Timeline) (newId rotatedAt : Json) : Timeline :=
  match newId with
  | .str newId =>
    let revoked := (windows.lookup newId).elim .null KeyWindow.revokedAt
    Table.put windows newId ⟨newId, rotatedAt, revoked⟩
  | _ => windows

/-- One rotation. -/
def rotate (windows : Timeline) (r : Rotation) : Timeline :=
  activate (revoke windows r.oldKeyId r.rotatedAt) r.newKeyId r.rotatedAt

/-- `for record in ledger.scan(): …` of `build_key_timeline`. -/
def timelineLoop (windows : Timeline) : List Json → Py Timeline
  | [] => .ok windows
  | capsule :: capsules => do
    match ← rotationOf capsule with
    | none => timelineLoop windows capsules
    | some r => timelineLoop (rotate windows r) capsules

/-- `build_key_timeline`. -/
def buildKeyTimeline (scan : Py (List LedgerRecord)) : Py Timeline := do
  let records ← scan
  timelineLoop [] (records.map LedgerRecord.capsule)

/-- What the reason of a finding names. -/
structure Revoked where
  keyId : Str
  timestamp : Str
  revokedAt : Str

/-- `RevocationFinding`; the reason is given by what its text names. -/
structure RevocationFinding where
  ok : Bool
  reason : Option Revoked

/-- The key id and the timestamp that `check_time_fenced_revocation` reads. -/
def signatureOf (capsule : Json) : Py (Json × Json) := do
  let sig ← dictGet capsule "asg_signature"
  let keyId ← dictGet (orEmpty sig) "key_id"
  let timestamp ← dictGet capsule "timestamp"
  .ok (keyId, timestamp)

/-- `check_time_fenced_revocation`. -/
def checkTimeFencedRevocation (capsule : Json) (timeline : Timeline) : Py RevocationFinding := do
  match ← signatureOf capsule with
  | (.str keyId, .str timestamp) =>
    match timeline.lookup keyId with
    | none => .ok ⟨true, none⟩
    | some window =>
      match window.revokedAt with
      | .null => .ok ⟨true, none⟩
      | .str revokedAt =>
        if revokedAt < timestamp then .ok ⟨false, some ⟨keyId, timestamp, revokedAt⟩⟩ else .ok ⟨true, none⟩
      | _ => raise .typeError "'>' not supported between instances"
  | _ => .ok ⟨true, none⟩

/-- The value is that text. -/
def isText (key : Str) : Json → Bool
  | .str s => s = key
  | _ => false

/-- The times at which a key was rotated to, in the order of the ledger. -/
def rotatedTo (rs : List Rotation) (key : Str) : List Json :=
  (rs.filter fun r => isText key r.newKeyId).map Rotation.rotatedAt

/-- The times at which a key was rotated away from, in the order of the ledger. -/
def rotatedAway (rs : List Rotation) (key : Str) : List Json :=
  (rs.filter fun r => isText key r.oldKeyId).map Rotation.rotatedAt

/-- The timeline is rotated by one rotation after the other. -/
lemma timelineLoop_eq (windows : Timeline) (capsules : List Json) :
    timelineLoop windows capsules = (rotations capsules).map fun rs => rs.foldl rotate windows := by
  induction capsules generalizing windows with
  | nil => rfl
  | cons capsule capsules ih =>
    rw [timelineLoop, rotations]
    cases rotationOf capsule with
    | error e => rfl
    | ok rotation =>
      cases rotation with
      | none =>
        rw [ok_bind, ok_bind]
        dsimp only
        rw [ih]
        cases rotations capsules with
        | error e => rfl
        | ok rs => rfl
      | some r =>
        rw [ok_bind, ok_bind]
        dsimp only
        rw [ih]
        cases rotations capsules with
        | error e => rfl
        | ok rs => rfl

/-- What one rotation does to the window of a key. -/
lemma lookup_revoke (windows : Timeline) (oldId rotatedAt : Json) (key : Str) :
    (revoke windows oldId rotatedAt).lookup key =
      if isText key oldId then
        match windows.lookup key with
        | none => some ⟨key, .null, rotatedAt⟩
        | some w => if isNone w.revokedAt then some ⟨key, w.activatedAt, rotatedAt⟩ else some w
      else windows.lookup key := by
  cases oldId with
  | str oldId =>
    rw [revoke, isText]
    by_cases own : oldId = key
    · subst own
      rw [decide_eq_true rfl, if_pos rfl]
      cases found : windows.lookup oldId with
      | none => exact Table.lookup_put_self _ _ _
      | some w =>
        dsimp only
        split
        · exact Table.lookup_put_self _ _ _
        · exact found
    · rw [decide_eq_false own, if_neg Bool.false_ne_true]
      split
      · exact Table.lookup_put_ne _ (Ne.symm own) _
      · split
        · exact Table.lookup_put_ne _ (Ne.symm own) _
        · rfl
  | null => rfl
  | bool b => rfl
  | int n => rfl
  | float literal => rfl
  | arr xs => rfl
  | obj fields => rfl

/-- Activating a key overwrites its time and changes no other key. -/
lemma lookup_activate (windows : Timeline) (newId rotatedAt : Json) (key : Str) :
    (activate windows newId rotatedAt).lookup key =
      if isText key newId then
        some ⟨key, rotatedAt, (windows.lookup key).elim .null KeyWindow.revokedAt⟩
      else windows.lookup key := by
  cases newId with
  | str newId =>
    rw [activate, isText]
    by_cases own : newId = key
    · subst own
      rw [decide_eq_true rfl, if_pos rfl]
      exact Table.lookup_put_self _ _ _
    · rw [decide_eq_false own, if_neg Bool.false_ne_true]
      exact Table.lookup_put_ne _ (Ne.symm own) _
  | null => rfl
  | bool b => rfl
  | int n => rfl
  | float literal => rfl
  | arr xs => rfl
  | obj fields => rfl

/-- A further rotation to a key adds its time. -/
lemma rotatedTo_concat (rs : List Rotation) (r : Rotation) (key : Str) : rotatedTo (rs ++ [r]) key =
    if isText key r.newKeyId then rotatedTo rs key ++ [r.rotatedAt] else rotatedTo rs key := by
  rw [rotatedTo, List.filter_append, List.map_append, List.filter_singleton]
  cases isText key r.newKeyId with
  | false => exact List.append_nil _
  | true => rfl

/-- A further rotation away from a key adds its time. -/
lemma rotatedAway_concat (rs : List Rotation) (r : Rotation) (key : Str) : rotatedAway (rs ++ [r]) key =
    if isText key r.oldKeyId then rotatedAway rs key ++ [r.rotatedAt] else rotatedAway rs key := by
  rw [rotatedAway, List.filter_append, List.map_append, List.filter_singleton]
  cases isText key r.oldKeyId with
  | false => exact List.append_nil _
  | true => rfl

/-- The window of a key that was rotated to and away from at these times: the last of the ones and the first
of the others, as far as they are given. -/
def windowOf (key : Str) (to_ away : List Json) : Option KeyWindow :=
  if to_.isEmpty && away.isEmpty then none
  else some ⟨key, to_.getLastD .null, (away.find? fun t => !isNone t).getD .null⟩

/-- What is none is null. -/
lemma eq_null_of_isNone {value : Json} (none_ : isNone value = true) : value = .null := by
  cases value with
  | null => rfl
  | _ => cases none_

/-- A rotation away revokes the key unless it is revoked. -/
lemma windowOf_away (key : Str) (to_ away : List Json) (t : Json) :
    (match windowOf key to_ away with
      | none => some ⟨key, .null, t⟩
      | some w => if isNone w.revokedAt then some ⟨key, w.activatedAt, t⟩ else some w) =
      windowOf key to_ (away ++ [t]) := by
  have first : ([t].find? fun t => !isNone t).getD .null = t := by
    cases none_ : isNone t with
    | true =>
      rw [eq_null_of_isNone none_]
      rfl
    | false => rw [List.find?_singleton, none_]; rfl
  have some_ : windowOf key to_ (away ++ [t]) =
      some ⟨key, to_.getLastD .null, ((away ++ [t]).find? fun t => !isNone t).getD .null⟩ :=
    if_neg (by simp)
  rw [some_, List.find?_append]
  by_cases empty : (to_.isEmpty && away.isEmpty) = true
  · obtain ⟨noTo, noAway⟩ := Bool.and_eq_true_iff.mp empty
    obtain rfl := List.isEmpty_iff.mp noTo
    obtain rfl := List.isEmpty_iff.mp noAway
    rw [windowOf, if_pos empty, List.find?_nil, Option.none_or, first]
    rfl
  · rw [windowOf, if_neg empty]
    dsimp only
    cases found : away.find? fun t => !isNone t with
    | none =>
      rw [Option.getD_none, Option.none_or, first]
      exact if_pos rfl
    | some u =>
      have given : isNone u = false := by simpa using List.find?_some found
      rw [Option.getD_some, Option.some_or, Option.getD_some, given]
      exact if_neg Bool.false_ne_true

/-- A rotation to a key sets its activation. -/
lemma windowOf_to (key : Str) (to_ away : List Json) (t : Json) :
    some ⟨key, t, (windowOf key to_ away).elim .null KeyWindow.revokedAt⟩ = windowOf key (to_ ++ [t]) away := by
  have some_ : windowOf key (to_ ++ [t]) away =
      some ⟨key, t, (away.find? fun t => !isNone t).getD .null⟩ := by
    rw [windowOf, if_neg (by simp), List.getLastD_concat]
  rw [some_]
  by_cases empty : (to_.isEmpty && away.isEmpty) = true
  · obtain rfl := List.isEmpty_iff.mp (Bool.and_eq_true_iff.mp empty).2
    rw [windowOf, if_pos empty]
    rfl
  · rw [windowOf, if_neg empty]
    rfl

/-- The windows after all rotations. -/
lemma lookup_rotations (rs : List Rotation) (key : Str) :
    (rs.foldl rotate []).lookup key = windowOf key (rotatedTo rs key) (rotatedAway rs key) := by
  induction rs using List.reverseRecOn with
  | nil => rfl
  | append_singleton rs r ih =>
    rw [List.foldl_concat, rotate, lookup_activate, lookup_revoke, ih, rotatedTo_concat, rotatedAway_concat,
      windowOf_away]
    have away : (if isText key r.oldKeyId = true then
          windowOf key (rotatedTo rs key) (rotatedAway rs key ++ [r.rotatedAt])
        else windowOf key (rotatedTo rs key) (rotatedAway rs key)) =
        windowOf key (rotatedTo rs key)
          (if isText key r.oldKeyId then rotatedAway rs key ++ [r.rotatedAt] else rotatedAway rs key) := by
      split
      · rfl
      · rfl
    rw [away, windowOf_to]
    split
    · rfl
    · rfl

/-- A ledger has windows exactly if its capsules are read without an error, and then those of its
rotations. -/
theorem buildKeyTimeline_eq_ok {records : List LedgerRecord} {timeline : Timeline} :
    buildKeyTimeline (.ok records) = .ok timeline ↔
      ∃ rs, rotations (records.map LedgerRecord.capsule) = .ok rs ∧ timeline = rs.foldl rotate [] := by
  rw [buildKeyTimeline, ok_bind, timelineLoop_eq]
  cases rotations (records.map LedgerRecord.capsule) with
  | error e =>
    constructor
    · intro eq
      cases eq
    · rintro ⟨rs, eq, -⟩
      cases eq
  | ok rs =>
    constructor
    · intro eq
      exact ⟨rs, rfl, (Except.ok.inj eq).symm⟩
    · rintro ⟨rs, eq, rfl⟩
      cases eq
      rfl

/-- The instant that a value names. -/
def namedInstant : Json → Option ℚ
  | .str s => Rfc3339.instant s
  | _ => none

/-- The value is `None` if there are no times, and otherwise the earliest of their instants. -/
def Earliest (times : List Json) (value : Json) : Prop :=
  (times = [] ∧ value = .null) ∨ ∃ i, namedInstant value = some i ∧ (∃ t ∈ times, namedInstant t = some i) ∧
    ∀ t ∈ times, ∀ j, namedInstant t = some j → i ≤ j

/-- One text names an earlier instant than another. -/
def Before (s t : Str) : Prop := ∃ i j, Rfc3339.instant s = some i ∧ Rfc3339.instant t = some j ∧ i < j

/-- A key has signed the capsule, which is dated. -/
def SignedAt (capsule : Json) (key timestamp : Str) : Prop :=
  signatureOf capsule = .ok (.str key, .str timestamp)

/-- The windows are those of the earliest instants, and the check reports the capsule exactly if its key was
revoked before its instant. -/
def RevocationExact (records : List LedgerRecord) (capsule : Json) : Prop :=
  ∃ rs timeline finding, rotations (records.map LedgerRecord.capsule) = .ok rs ∧
    buildKeyTimeline (.ok records) = .ok timeline ∧
    (∀ key, timeline.lookup key = none ↔ rotatedTo rs key = [] ∧ rotatedAway rs key = []) ∧
    (∀ key window, timeline.lookup key = some window → window.keyId = key ∧
      Earliest (rotatedTo rs key) window.activatedAt ∧ Earliest (rotatedAway rs key) window.revokedAt) ∧
    checkTimeFencedRevocation capsule timeline = .ok finding ∧
    (finding.ok = false ↔ ∃ key timestamp revokedAt, SignedAt capsule key timestamp ∧
      .str revokedAt ∈ rotatedAway rs key ∧ Before revokedAt timestamp)

/-- None of the times is earlier. -/
def NotAfter (first : Json) (times : List Json) : Prop :=
  ∀ t ∈ times, ∀ i j, namedInstant first = some i → namedInstant t = some j → i ≤ j

/-- The last rotation to a key and the first away from it in the ledger are the earliest, and the text of the
latter is compared with the timestamp of the capsule as the instants are. -/
structure InOrder (rs : List Rotation) (capsule : Json) : Prop where
  activated : ∀ key last, (rotatedTo rs key).getLast? = some last → NotAfter last (rotatedTo rs key)
  revoked : ∀ key first, (rotatedAway rs key).head? = some first → NotAfter first (rotatedAway rs key)
  compared : ∀ key timestamp revokedAt, SignedAt capsule key timestamp →
    (rotatedAway rs key).head? = some (.str revokedAt) → (revokedAt < timestamp ↔ Before revokedAt timestamp)

/-- Every rotation names an RFC 3339 time. -/
def Timed (rs : List Rotation) : Prop := ∀ r ∈ rs, ∃ i, namedInstant r.rotatedAt = some i

section Exact

variable {rs : List Rotation}

/-- The times of rotations away are instants. -/
lemma Timed.away (timed : Timed rs) {key : Str} {t : Json} (ht : t ∈ rotatedAway rs key) :
    ∃ s i, t = .str s ∧ Rfc3339.instant s = some i := by
  obtain ⟨r, hr, rfl⟩ := List.mem_map.mp ht
  obtain ⟨i, named⟩ := timed r (List.mem_filter.mp hr).1
  cases e : r.rotatedAt with
  | str s =>
    rw [e] at named
    exact ⟨s, i, rfl, named⟩
  | _ =>
    rw [e] at named
    cases named

/-- The times of rotations to a key are instants. -/
lemma Timed.to (timed : Timed rs) {key : Str} {t : Json} (ht : t ∈ rotatedTo rs key) :
    ∃ i, namedInstant t = some i := by
  obtain ⟨r, hr, rfl⟩ := List.mem_map.mp ht
  exact timed r (List.mem_filter.mp hr).1

/-- Times that are all given are revoked at the first. -/
lemma Timed.find (timed : Timed rs) (key : Str) :
    (rotatedAway rs key).find? (fun t => !isNone t) = (rotatedAway rs key).head? := by
  cases e : rotatedAway rs key with
  | nil => rfl
  | cons t ts =>
    have mem : t ∈ rotatedAway rs key := e ▸ List.mem_cons_self
    obtain ⟨s, i, rfl, -⟩ := timed.away mem
    rfl

/-- A time of a list is the earliest if none of the list is earlier. -/
lemma earliest_iff {times : List Json} {t : Json} (mem : t ∈ times) (named : ∃ i, namedInstant t = some i) :
    Earliest times t ↔ NotAfter t times := by
  obtain ⟨i, named⟩ := named
  constructor
  · rintro (⟨rfl, -⟩ | ⟨j, same, -, least⟩)
    · exact absurd mem List.not_mem_nil
    · intro u hu i' k first second
      obtain rfl := Option.some.inj (same.symm.trans first)
      exact least u hu k second
  · intro first
    exact .inr ⟨i, named, ⟨t, mem, named⟩, fun u hu j second => first u hu i j named second⟩

/-- The activation of a window is right if the last rotation to the key is the earliest. -/
lemma earliest_activated (timed : Timed rs) (key : Str) :
    Earliest (rotatedTo rs key) ((rotatedTo rs key).getLastD .null) ↔
      ∀ last, (rotatedTo rs key).getLast? = some last → NotAfter last (rotatedTo rs key) := by
  rw [List.getLastD_eq_getLast?]
  cases e : (rotatedTo rs key).getLast? with
  | none =>
    constructor
    · intro _ last eq
      cases eq
    · intro _
      exact .inl ⟨List.getLast?_eq_none_iff.mp e, rfl⟩
  | some last =>
    have mem := List.mem_of_getLast? e
    rw [Option.getD_some, earliest_iff mem (timed.to mem)]
    constructor
    · intro first _ same
      exact Option.some.inj same ▸ first
    · intro first
      exact first last rfl

/-- The first revocation is the earliest exactly where no other is before it. -/
lemma earliest_revoked (timed : Timed rs) (key : Str) :
    Earliest (rotatedAway rs key) (((rotatedAway rs key).find? fun t => !isNone t).getD .null) ↔
      ∀ first, (rotatedAway rs key).head? = some first → NotAfter first (rotatedAway rs key) := by
  rw [timed.find]
  cases e : (rotatedAway rs key).head? with
  | none =>
    constructor
    · intro _ first eq
      cases eq
    · intro _
      exact .inl ⟨List.head?_eq_none_iff.mp e, rfl⟩
  | some first =>
    have mem := List.mem_of_head? e
    obtain ⟨s, i, rfl, named⟩ := timed.away mem
    rw [Option.getD_some, earliest_iff mem ⟨i, named⟩]
    constructor
    · intro order _ same
      exact Option.some.inj same ▸ order
    · intro order
      exact order _ rfl

/-- A key has no window exactly where it was never rotated. -/
lemma windowOf_eq_none {key : Str} {to_ away : List Json} : windowOf key to_ away = none ↔ to_ = [] ∧ away = [] := by
  rw [windowOf]
  split
  · rename_i empty
    obtain ⟨noTo, noAway⟩ := Bool.and_eq_true_iff.mp empty
    exact ⟨fun _ => ⟨List.isEmpty_iff.mp noTo, List.isEmpty_iff.mp noAway⟩, fun _ => rfl⟩
  · rename_i given
    constructor
    · intro eq
      cases eq
    · rintro ⟨rfl, rfl⟩
      exact absurd rfl given

/-- What the check finds when the times are given: the text of the first rotation away from the key is
compared with the timestamp. -/
lemma check_rotations (timed : Timed rs) {capsule keyId timestamp : Json}
    (sig : signatureOf capsule = .ok (keyId, timestamp)) :
    ∃ finding, checkTimeFencedRevocation capsule (rs.foldl rotate []) = .ok finding ∧
      (finding.ok = false ↔ ∃ key t revokedAt, SignedAt capsule key t ∧
        (rotatedAway rs key).head? = some (.str revokedAt) ∧ revokedAt < t) := by
  have fine (no : ∀ key t revokedAt, SignedAt capsule key t →
      (rotatedAway rs key).head? = some (.str revokedAt) → ¬revokedAt < t) :
      ∃ finding : RevocationFinding, (.ok ⟨true, none⟩ : Py RevocationFinding) = .ok finding ∧
        (finding.ok = false ↔ ∃ key t revokedAt, SignedAt capsule key t ∧
          (rotatedAway rs key).head? = some (.str revokedAt) ∧ revokedAt < t) := by
    refine ⟨_, rfl, fun eq => (by cases eq), ?_⟩
    rintro ⟨key, t, revokedAt, signed, head, lt⟩
    exact absurd lt (no key t revokedAt signed head)
  rw [checkTimeFencedRevocation, sig, ok_bind]
  split
  · rename_i key t both
    obtain ⟨rfl, rfl⟩ := Prod.mk.inj both
    have only {key' t' : Str} (signed : SignedAt capsule key' t') : key = key' ∧ t = t' := by
      have eq := Prod.mk.inj (Except.ok.inj (sig.symm.trans signed))
      exact ⟨Json.str.inj eq.1, Json.str.inj eq.2⟩
    rw [lookup_rotations]
    cases e : (rotatedAway rs key).head? with
    -- The key was never rotated away, so its window has no revocation.
    | none =>
      have none_ : ∀ key' t' revokedAt, SignedAt capsule key' t' →
          (rotatedAway rs key').head? = some (.str revokedAt) → ¬revokedAt < t' := by
        intro key' t' revokedAt signed head
        obtain ⟨rfl, rfl⟩ := only signed
        cases e.symm.trans head
      cases found : windowOf key (rotatedTo rs key) (rotatedAway rs key) with
      | none => exact fine none_
      | some window =>
        have never : window.revokedAt = .null := by
          rw [windowOf] at found
          split at found
          · cases found
          · cases found
            dsimp only
            rw [timed.find, e]
            rfl
        dsimp only
        rw [never]
        exact fine none_
    | some first =>
      obtain ⟨revokedAt, i, rfl, -⟩ := timed.away (List.mem_of_head? e)
      have away : rotatedAway rs key ≠ [] := fun nil => by simp [nil] at e
      -- The first rotation away sets the revocation, and the texts are compared.
      have found : windowOf key (rotatedTo rs key) (rotatedAway rs key) =
          some ⟨key, (rotatedTo rs key).getLastD .null, .str revokedAt⟩ := by
        rw [windowOf, if_neg (by simp [away]), timed.find, e]
        rfl
      rw [found]
      dsimp only
      split
      · rename_i later
        exact ⟨_, rfl, fun _ => ⟨key, t, revokedAt, sig, e, later⟩, fun _ => rfl⟩
      · rename_i notLater
        refine fine fun key' t' revokedAt' signed head => ?_
        obtain ⟨rfl, rfl⟩ := only signed
        obtain rfl := Json.str.inj (Option.some.inj (e.symm.trans head))
        exact notLater
  · rename_i other
    refine fine fun key t revokedAt signed _ => ?_
    have eq := Except.ok.inj (sig.symm.trans signed)
    exact absurd eq (other key t)

/-- If the first rotation away from a key is the earliest, the key was revoked before an instant exactly if it
was by then. -/
lemma before_iff (timed : Timed rs) {key t : Str}
    (first : ∀ r, (rotatedAway rs key).head? = some r → NotAfter r (rotatedAway rs key)) :
    (∃ revokedAt, .str revokedAt ∈ rotatedAway rs key ∧ Before revokedAt t) ↔
      ∃ revokedAt, (rotatedAway rs key).head? = some (.str revokedAt) ∧ Before revokedAt t := by
  constructor
  · rintro ⟨revokedAt, mem, i, j, named, stamp, lt⟩
    cases e : (rotatedAway rs key).head? with
    | none => exact absurd mem (List.head?_eq_none_iff.mp e ▸ List.not_mem_nil)
    | some r =>
      obtain ⟨s, k, rfl, least⟩ := timed.away (List.mem_of_head? e)
      exact ⟨s, rfl, k, j, least, stamp, (first _ e _ mem k i least named).trans_lt lt⟩
  · rintro ⟨revokedAt, head, before⟩
    exact ⟨revokedAt, List.mem_of_head? head, before⟩

/-- On a ledger whose rotations name RFC 3339 times, the windows are those of the earliest instants and the
check compares instants exactly if the capsules are read without an error, the last rotation to each key and
the first away from it are the earliest, and the times compared are ordered as texts. -/
theorem revocation_exact_iff (records : List LedgerRecord) (capsule : Json)
    (timed : ∀ rs, rotations (records.map LedgerRecord.capsule) = .ok rs → Timed rs) :
    RevocationExact records capsule ↔
      ∃ rs sig, rotations (records.map LedgerRecord.capsule) = .ok rs ∧ signatureOf capsule = .ok sig ∧
        InOrder rs capsule := by
  constructor
  · rintro ⟨rs, timeline, finding, read, built, -, windows, checked, reports⟩
    obtain ⟨_, same, rfl⟩ := buildKeyTimeline_eq_ok.mp built
    obtain rfl := Except.ok.inj (read.symm.trans same)
    have timed := timed rs read
    obtain ⟨sig, signature, -⟩ := bind_eq_ok.mp checked
    have right (key : Str) : Earliest (rotatedTo rs key) ((rotatedTo rs key).getLastD .null) ∧
        Earliest (rotatedAway rs key) (((rotatedAway rs key).find? fun t => !isNone t).getD .null) := by
      by_cases none_ : rotatedTo rs key = [] ∧ rotatedAway rs key = []
      · rw [none_.1, none_.2]
        exact ⟨.inl ⟨rfl, rfl⟩, .inl ⟨rfl, rfl⟩⟩
      · cases found : windowOf key (rotatedTo rs key) (rotatedAway rs key) with
        | none => exact absurd (windowOf_eq_none.mp found) none_
        | some window =>
          obtain ⟨-, to_, away⟩ := windows key window ((lookup_rotations rs key).trans found)
          rw [windowOf] at found
          split at found
          · cases found
          · cases found
            exact ⟨to_, away⟩
    have revoked : ∀ key first, (rotatedAway rs key).head? = some first → NotAfter first (rotatedAway rs key) :=
      fun key => (earliest_revoked timed key).mp (right key).2
    refine ⟨rs, sig, read, signature, fun key => (earliest_activated timed key).mp (right key).1, revoked, ?_⟩
    intro key t revokedAt signed head
    obtain ⟨_, checked', found⟩ := check_rotations timed signed
    obtain rfl := Except.ok.inj (checked.symm.trans checked')
    -- The capsule is signed at one time, so both readings of a finding speak of the same key.
    have only {key' t' : Str} (signed' : SignedAt capsule key' t') : key = key' ∧ t = t' := by
      have eq := Prod.mk.inj (Except.ok.inj (signed.symm.trans signed'))
      exact ⟨Json.str.inj eq.1, Json.str.inj eq.2⟩
    constructor
    · intro lt
      obtain ⟨key', t', revokedAt', signed', mem, before⟩ :=
        reports.mp (found.mpr ⟨key, t, revokedAt, signed, head, lt⟩)
      obtain ⟨rfl, rfl⟩ := only signed'
      obtain ⟨s, head', before⟩ := (before_iff timed (revoked key)).mp ⟨revokedAt', mem, before⟩
      obtain rfl := Json.str.inj (Option.some.inj (head.symm.trans head'))
      exact before
    · intro before
      obtain ⟨key', t', revokedAt', signed', head', lt⟩ :=
        found.mp (reports.mpr ⟨key, t, revokedAt, signed, List.mem_of_head? head, before⟩)
      obtain ⟨rfl, rfl⟩ := only signed'
      obtain rfl := Json.str.inj (Option.some.inj (head.symm.trans head'))
      exact lt
  · rintro ⟨rs, ⟨keyId, timestamp⟩, read, signature, order⟩
    have timed := timed rs read
    obtain ⟨finding, checked, found⟩ := check_rotations timed signature
    refine ⟨rs, _, finding, read, buildKeyTimeline_eq_ok.mpr ⟨rs, read, rfl⟩, fun key => ?_,
      fun key window eq => ?_, checked, ?_⟩
    · rw [lookup_rotations]
      exact windowOf_eq_none
    · rw [lookup_rotations, windowOf] at eq
      split at eq
      · cases eq
      · cases eq
        exact ⟨rfl, (earliest_activated timed key).mpr (order.activated key),
          (earliest_revoked timed key).mpr (order.revoked key)⟩
    · rw [found]
      constructor
      · rintro ⟨key, t, revokedAt, signed, head, lt⟩
        exact ⟨key, t, revokedAt, signed, List.mem_of_head? head,
          (order.compared key t revokedAt signed head).mp lt⟩
      · rintro ⟨key, t, revokedAt, signed, mem, before⟩
        obtain ⟨s, head, before⟩ := (before_iff timed (order.revoked key)).mp ⟨revokedAt, mem, before⟩
        exact ⟨key, t, s, signed, head, (order.compared key t s signed head).mpr before⟩

end Exact

/-- A capsule that records a rotation. -/
def rotationCapsule (oldKeyId newKeyId rotatedAt : String) : Json :=
  .obj [(Str.lit "asg_payload", .obj [(Str.lit "event", .str (Str.lit "key_rotation")),
    (Str.lit "detail", .obj [(Str.lit "old_key_id", .str (Str.lit oldKeyId)),
      (Str.lit "new_key_id", .str (Str.lit newKeyId)), (Str.lit "rotated_at", .str (Str.lit rotatedAt))])])]

/-- A record of a capsule. -/
def recordOf (capsule : Json) : LedgerRecord := ⟨1, [], capsule, [], true, .unsigned, []⟩

/-- The key `b` is rotated to, away from and to again. -/
def toAndFro : List LedgerRecord :=
  [recordOf (rotationCapsule "a" "b" "2026-04-01T00:00:00Z"),
    recordOf (rotationCapsule "b" "a" "2026-04-02T00:00:00Z"),
    recordOf (rotationCapsule "a" "b" "2026-04-03T00:00:00Z")]

/-- The instant of the first rotation. -/
lemma instant_first : Rfc3339.instant (Str.lit "2026-04-01T00:00:00Z") = some 63910684800 := by decide +kernel
/-- The instant of the second rotation. -/
lemma instant_second : Rfc3339.instant (Str.lit "2026-04-02T00:00:00Z") = some 63910771200 := by decide +kernel
/-- The instant of the third rotation. -/
lemma instant_third : Rfc3339.instant (Str.lit "2026-04-03T00:00:00Z") = some 63910857600 := by decide +kernel

/-- The activation of `b` is that of the second rotation to it. -/
theorem revocation_toAndFro :
    (∀ rs, rotations (toAndFro.map LedgerRecord.capsule) = .ok rs → Timed rs) ∧
      ¬RevocationExact toAndFro (.obj []) := by
  have read : rotations (toAndFro.map LedgerRecord.capsule) =
      .ok [⟨.str (Str.lit "a"), .str (Str.lit "b"), .str (Str.lit "2026-04-01T00:00:00Z")⟩,
        ⟨.str (Str.lit "b"), .str (Str.lit "a"), .str (Str.lit "2026-04-02T00:00:00Z")⟩,
        ⟨.str (Str.lit "a"), .str (Str.lit "b"), .str (Str.lit "2026-04-03T00:00:00Z")⟩] := rfl
  constructor
  · intro rs same
    obtain rfl := Except.ok.inj (read.symm.trans same)
    refine List.forall_mem_cons.mpr ⟨⟨_, instant_first⟩, List.forall_mem_cons.mpr ⟨⟨_, instant_second⟩,
      List.forall_mem_cons.mpr ⟨⟨_, instant_third⟩, List.forall_mem_nil _⟩⟩⟩
  · rintro ⟨rs, timeline, finding, same, built, -, windows, -⟩
    obtain rfl := Except.ok.inj (read.symm.trans same)
    obtain ⟨_, same, rfl⟩ := buildKeyTimeline_eq_ok.mp built
    obtain rfl := Except.ok.inj (read.symm.trans same)
    obtain ⟨-, activated, -⟩ := windows (Str.lit "b")
      ⟨Str.lit "b", .str (Str.lit "2026-04-03T00:00:00Z"), .str (Str.lit "2026-04-02T00:00:00Z")⟩ rfl
    rcases activated with ⟨-, none_⟩ | ⟨i, named, -, least⟩
    · cases none_
    · obtain rfl := Option.some.inj (instant_third.symm.trans named)
      have le := least (.str (Str.lit "2026-04-01T00:00:00Z")) List.mem_cons_self _ instant_first
      norm_num at le

/-- One rotation, and a capsule that the old key signs later. -/
def rotatedOnce : List LedgerRecord := [recordOf (rotationCapsule "a" "b" "2026-04-02T00:00:00Z")]

def signedLate : Json :=
  .obj [(Str.lit "asg_signature", .obj [(Str.lit "key_id", .str (Str.lit "a"))]),
    (Str.lit "timestamp", .str (Str.lit "2026-04-03T00:00:00Z"))]

/-- A key that was rotated to once is checked exactly. -/
theorem revocation_rotatedOnce : RevocationExact rotatedOnce signedLate := by
  have read : rotations (rotatedOnce.map LedgerRecord.capsule) =
      .ok [⟨.str (Str.lit "a"), .str (Str.lit "b"), .str (Str.lit "2026-04-02T00:00:00Z")⟩] := rfl
  have alone {times : List Json} {t : Json} (few : times.length ≤ 1) (mem : t ∈ times) : NotAfter t times := by
    intro u hu i j first second
    cases times with
    | nil => exact absurd mem List.not_mem_nil
    | cons v rest =>
      obtain rfl : rest = [] := List.length_eq_zero_iff.mp (Nat.le_zero.mp (Nat.le_of_succ_le_succ few))
      obtain rfl := List.mem_singleton.mp mem
      obtain rfl := List.mem_singleton.mp hu
      exact (Option.some.inj (first.symm.trans second)).le
  refine (revocation_exact_iff rotatedOnce signedLate fun rs same => ?_).mpr ⟨_, _, read, rfl, ?_, ?_, ?_⟩
  · obtain rfl := Except.ok.inj (read.symm.trans same)
    exact List.forall_mem_cons.mpr ⟨⟨_, instant_second⟩, List.forall_mem_nil _⟩
  · intro key last eq
    refine alone ?_ (List.mem_of_getLast? eq)
    rw [rotatedTo, List.length_map]
    exact List.length_filter_le _ _
  · intro key first eq
    refine alone ?_ (List.mem_of_head? eq)
    rw [rotatedAway, List.length_map]
    exact List.length_filter_le _ _
  · intro key t revokedAt signed head
    have both := Prod.mk.inj (Except.ok.inj signed)
    obtain rfl : Str.lit "a" = key := Json.str.inj both.1
    obtain rfl : Str.lit "2026-04-03T00:00:00Z" = t := Json.str.inj both.2
    obtain rfl : Str.lit "2026-04-02T00:00:00Z" = revokedAt := Json.str.inj (Option.some.inj head)
    refine ⟨fun _ => ⟨_, _, instant_second, instant_third, by norm_num⟩, fun _ => by decide +kernel⟩

end CLL.Ledger
