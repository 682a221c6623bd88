import CLL.Python.CborKeys

/-!
# Which encodings are refused

`walk_eq_ok` says of every well-formed item what the walk checks, and that it ends where the item does.
`cbor2` is known by two rules: what it accepts it accepts in parts, and a part that does not depend on the
rest means the same alone (`Cbor2.Lawful`). With them `loads_rejects_iff` follows.
-/

namespace CLL.CborKeys
open Cbor (contextTags IsHead readAnyHead walkChunks)
open Cbor.Item

variable {α : Type} [DecidableEq α] (D : Objects α) (cbor2 : Cbor2 α)

mutual

/-- What the walk checks of an item, inside a key or not. -/
def Passes (inKey : Bool) : Cbor.Item → Prop
  | .scalar .. | .string .. | .chunks .. => True
  | .tag number _ x => ¬(inKey = true ∧ number ∈ contextTags) ∧ Passes inKey x
  | .array _ xs => PassesItems inKey xs
  | .map _ fields => PassesFields inKey [] fields

def PassesItems (inKey : Bool) : List Cbor.Item → Prop
  | [] => True
  | x :: xs => Passes inKey x ∧ PassesItems inKey xs

def PassesFields (inKey : Bool) (keys : List (Frozen α)) : List (Cbor.Item × Cbor.Item) → Prop
  | [] => True
  | (k, v) :: fields => Passes true k ∧ ∃ x, key D cbor2 k.bytes = .ok x ∧
      keys.any (fun earlier => earlier.eq D x) = false ∧ Passes inKey v ∧ PassesFields inKey (x :: keys) fields

end

variable {D cbor2}

/-- `_head` and the reader of trees split the same heads. -/
lemma readAnyHead_eq {data h rest : Bytes} {major : ℕ} {arg : Option ℕ}
    (split : splitHead data = some (major, arg, h, rest)) : readAnyHead data = .ok (major, arg, rest) := by
  cases data with
  | nil => cases split
  | cons initial data =>
    simp only [splitHead] at split
    simp only [readAnyHead]
    split_ifs at split with short long large
    · cases split
      rw [if_pos short]
    · cases split
      rw [if_neg short, if_pos long]
    · obtain ⟨⟨b, tail⟩, taken, e⟩ := Option.bind_eq_some_iff.mp split
      cases e
      rw [if_neg short, if_neg long, if_neg large, taken]

/-- Chunks are walked over up to the stop byte. -/
lemma walkChunks_chunkBytes {major : ℕ} : ∀ (cs : List (Bytes × Bytes)) (fuel : ℕ) (rest : Bytes),
    (∀ c ∈ cs, IsHead major c.2.length c.1) → cs.length < fuel →
      walkChunks fuel (chunkBytes cs ++ (stop :: rest)) = .ok rest
  | _, 0, _, _, enough => by cases enough
  | [], fuel + 1, rest, _, _ => by
    change walkChunks (fuel + 1) (stop :: rest) = _
    rw [walkChunks, if_pos (show stop = Cbor.breakByte from rfl)]
  | (h, content) :: cs, fuel + 1, rest, heads, enough => by
    have isHead : IsHead major content.length h := heads _ List.mem_cons_self
    have later := walkChunks_chunkBytes cs fuel rest (fun c hc => heads c (List.mem_cons_of_mem _ hc))
      (by simpa using enough)
    have all : chunkBytes ((h, content) :: cs) ++ (stop :: rest) =
        h ++ (content ++ (chunkBytes cs ++ (stop :: rest))) := by
      simp [chunkBytes]
    obtain ⟨b, tail, e, ne⟩ := ne_stop_of_isHead isHead (content ++ (chunkBytes cs ++ (stop :: rest)))
    have ne : b ≠ Cbor.breakByte := ne
    rw [all, e, walkChunks, if_neg ne, ← e, readAnyHead_eq (splitHead_append isHead _), ok_bind]
    dsimp only
    rw [List.drop_left, later]

/-- A key is fresh where no earlier one equals it. -/
lemma fresh_eq_ok {keys : List (Frozen α)} {k : Frozen α} {u : Unit} :
    fresh D keys k = .ok u ↔ keys.any (fun earlier => earlier.eq D k) = false := require_eq_ok

/-- The bytes that were read are those of the item. -/
lemma take_bytes (k : Cbor.Item) (rest : Bytes) :
    (k.bytes ++ rest).take ((k.bytes ++ rest).length - rest.length) = k.bytes := by
  rw [List.length_append, Nat.add_sub_cancel, List.take_left]

mutual

/-- The walk of an item ends where the item does, if the item passes and is not nested too deeply. -/
theorem walk_eq_ok : ∀ (t : Cbor.Item) (fuel frames : ℕ) (rest : Bytes) (inKey : Bool) (r : Bytes), t.Wf →
    2 * t.bytes.length ≤ fuel →
    (walk D cbor2 fuel frames (t.bytes ++ rest) inKey = .ok r ↔
      r = rest ∧ t.depth ≤ frames ∧ Passes D cbor2 inKey t)
  | t, 0, _, _, _, _, wf, enough => by
    have := wf.length_pos
    omega
  -- No frame is left: every item is deeper than that.
  | t, fuel + 1, 0, rest, inKey, r, _, _ => by
    have deep : ¬t.depth ≤ 0 := by
      cases t <;> simp only [depth] <;> omega
    simp [walk, deep]
  | .scalar major n h, fuel + 1, frames + 1, rest, inKey, r, wf, _ => by
    rw [Wf] at wf
    rw [bytes, walk, readAnyHead_eq (splitHead_append wf.2.1 _), ok_bind]
    dsimp only
    rw [if_pos wf.1]
    simp [depth, Passes, eq_comm]
  | .string major h content, fuel + 1, frames + 1, rest, inKey, r, wf, _ => by
    rw [Wf] at wf
    have other : major ∉ [0, 1, 7] := by
      have kind := wf.1
      simp only [List.mem_cons, List.not_mem_nil, or_false] at kind ⊢
      omega
    rw [bytes, List.append_assoc, walk, readAnyHead_eq (splitHead_append wf.2 _), ok_bind]
    dsimp only
    rw [if_neg other, if_pos wf.1, List.drop_left]
    simp [depth, Passes, eq_comm]
  | .chunks major cs, fuel + 1, frames + 1, rest, inKey, r, wf, enough => by
    rw [Wf] at wf
    have other : major ∉ [0, 1, 7] ∧ major < 8 := by
      have kind := wf.1
      simp only [List.mem_cons, List.not_mem_nil, or_false] at kind ⊢
      omega
    have long := length_le_chunkBytes wf.2
    rw [bytes, List.length_cons, List.length_append] at enough
    have walked := walkChunks_chunkBytes cs fuel rest wf.2 (by omega)
    rw [bytes, List.cons_append, List.append_assoc, walk,
      readAnyHead_eq (splitHead_indefinite other.2 _), ok_bind]
    dsimp only
    rw [if_neg other.1, if_pos wf.1, List.singleton_append, walked]
    simp [depth, Passes, eq_comm]
  | .array h xs, fuel + 1, frames + 1, rest, inKey, r, wf, enough => by
    rw [Wf] at wf
    have pos := length_opening_pos wf.1
    rw [bytes, List.length_append, List.length_append] at enough
    have inner := walkItems_eq_ok xs fuel frames h rest inKey r wf.2 (by omega)
    rw [bytes, List.append_assoc, List.append_assoc, walk,
      readAnyHead_eq (splitHead_opening (by decide) wf.1 _), ok_bind]
    dsimp only
    rw [if_neg (by decide), if_neg (by decide), if_neg (by decide), if_pos rfl, inner, depth, Passes]
    constructor
    · rintro ⟨e, le, passes⟩
      exact ⟨e, by omega, passes⟩
    · rintro ⟨e, le, passes⟩
      exact ⟨e, by omega, passes⟩
  | .map h fields, fuel + 1, frames + 1, rest, inKey, r, wf, enough => by
    rw [Wf] at wf
    have pos := length_opening_pos wf.1
    rw [bytes, List.length_append, List.length_append] at enough
    have inner := walkFields_eq_ok fields fuel frames h [] rest inKey r wf.2 (by omega)
    rw [bytes, List.append_assoc, List.append_assoc, walk,
      readAnyHead_eq (splitHead_opening (by decide) wf.1 _), ok_bind]
    dsimp only
    rw [if_neg (by decide), if_neg (by decide), if_neg (by decide), if_neg (by decide), inner, depth, Passes]
    constructor
    · rintro ⟨e, le, passes⟩
      exact ⟨e, by omega, passes⟩
    · rintro ⟨e, le, passes⟩
      exact ⟨e, by omega, passes⟩
  | .tag number h x, fuel + 1, frames + 1, rest, inKey, r, wf, enough => by
    rw [Wf] at wf
    have pos := length_pos_of_isHead wf.1
    rw [bytes, List.length_append] at enough
    have inner := walk_eq_ok x fuel frames rest inKey r wf.2 (by omega)
    have context : (∃ n ∈ contextTags, some number = some n) ↔ number ∈ contextTags := by simp
    rw [bytes, List.append_assoc, walk, readAnyHead_eq (splitHead_append wf.1 _), ok_bind]
    dsimp only
    rw [if_neg (by decide), if_neg (by decide), if_pos rfl, depth, Passes]
    -- A tag that depends on its context is refused inside a key.
    by_cases refused : inKey = true ∧ number ∈ contextTags
    · rw [if_pos ⟨refused.1, context.mpr refused.2⟩]
      simp [refused]
    · rw [if_neg fun h => refused ⟨h.1, context.mp h.2⟩, inner]
      constructor
      · rintro ⟨e, le, passes⟩
        exact ⟨e, by omega, refused, passes⟩
      · rintro ⟨e, le, -, passes⟩
        exact ⟨e, by omega, passes⟩

/-- Items are walked over exactly where each passes. -/
theorem walkItems_eq_ok : ∀ (xs : List Cbor.Item) (fuel frames : ℕ) (h : Option Bytes) (rest : Bytes)
    (inKey : Bool) (r : Bytes), WfItems xs → 2 * (itemsBytes xs).length + 1 ≤ fuel →
    (walkItems D cbor2 fuel frames (count h xs.length) (itemsBytes xs ++ (closing h ++ rest)) inKey = .ok r ↔
      r = rest ∧ depthItems xs ≤ frames ∧ PassesItems D cbor2 inKey xs)
  | _, 0, _, _, _, _, _, _, enough => by omega
  | [], fuel + 1, frames, h, rest, inKey, r, _, _ => by
    have ends : walkItems D cbor2 (fuel + 1) frames (count h 0) (closing h ++ rest) inKey = .ok rest := by
      cases h with
      | some h => rfl
      | none =>
        change walkItems D cbor2 (fuel + 1) frames none (stop :: rest) inKey = _
        rw [walkItems, if_pos (show stop = Cbor.breakByte from rfl)]
    rw [itemsBytes, List.nil_append, List.length_nil, ends]
    simp [depthItems, PassesItems, eq_comm]
  | x :: xs, fuel + 1, frames, h, rest, inKey, r, wf, enough => by
    rw [WfItems] at wf
    have pos := wf.1.length_pos
    rw [itemsBytes, List.length_append] at enough
    have first r := walk_eq_ok x fuel frames (itemsBytes xs ++ (closing h ++ rest)) inKey r wf.1 (by omega)
    have later := walkItems_eq_ok xs fuel frames h rest inKey r wf.2 (by omega)
    have step : walkItems D cbor2 (fuel + 1) frames (count h (xs.length + 1))
        (x.bytes ++ (itemsBytes xs ++ (closing h ++ rest))) inKey = (do
          let data ← walk D cbor2 fuel frames (x.bytes ++ (itemsBytes xs ++ (closing h ++ rest))) inKey
          walkItems D cbor2 fuel frames (count h xs.length) data inKey) := by
      cases h with
      | some h => exact walkItems.eq_3 ..
      | none =>
        obtain ⟨b, tail, e, ne⟩ := wf.1.ne_stop (itemsBytes xs ++ (closing none ++ rest))
        have ne : b ≠ Cbor.breakByte := ne
        change walkItems D cbor2 (fuel + 1) frames none _ inKey = _
        rw [e, walkItems, if_neg ne]
        rfl
    rw [itemsBytes, List.append_assoc, List.length_cons, step, bind_eq_ok, depthItems, PassesItems]
    simp only [first, max_le_iff]
    constructor
    · rintro ⟨_, ⟨rfl, le, passes⟩, rest_⟩
      obtain ⟨e, le', passes'⟩ := later.mp rest_
      exact ⟨e, ⟨le, le'⟩, passes, passes'⟩
    · rintro ⟨e, ⟨le, le'⟩, passes, passes'⟩
      exact ⟨_, ⟨rfl, le, passes⟩, later.mpr ⟨e, le', passes'⟩⟩

/-- Fields are walked over exactly where each passes and no two keys are equal. -/
theorem walkFields_eq_ok : ∀ (fields : List (Cbor.Item × Cbor.Item)) (fuel frames : ℕ) (h : Option Bytes)
    (keys : List (Frozen α)) (rest : Bytes) (inKey : Bool) (r : Bytes), WfFields fields →
    2 * (fieldsBytes fields).length + 1 ≤ fuel →
    (walkFields D cbor2 fuel frames (count h fields.length) keys (fieldsBytes fields ++ (closing h ++ rest))
        inKey = .ok r ↔
      r = rest ∧ depthFields fields ≤ frames ∧ PassesFields D cbor2 inKey keys fields)
  | fields, 0, _, _, _, _, _, _, _, enough => by omega
  | [], fuel + 1, frames, h, keys, rest, inKey, r, _, _ => by
    have ends : walkFields D cbor2 (fuel + 1) frames (count h 0) keys (closing h ++ rest) inKey = .ok rest := by
      cases h with
      | some h => rfl
      | none =>
        change walkFields D cbor2 (fuel + 1) frames none keys (stop :: rest) inKey = _
        rw [walkFields, if_pos (show stop = Cbor.breakByte from rfl)]
    rw [fieldsBytes, List.nil_append, List.length_nil, ends]
    simp [depthFields, PassesFields, eq_comm]
  | (k, v) :: fields, fuel + 1, frames, h, keys, rest, inKey, r, wf, enough => by
    rw [WfFields] at wf
    have posk := wf.1.length_pos
    have posv := wf.2.1.length_pos
    rw [fieldsBytes, List.length_append, List.length_append] at enough
    have atKey r := walk_eq_ok k fuel frames (v.bytes ++ (fieldsBytes fields ++ (closing h ++ rest))) true r
      wf.1 (by omega)
    have atValue r := walk_eq_ok v fuel frames (fieldsBytes fields ++ (closing h ++ rest)) inKey r wf.2.1
      (by omega)
    have later x := walkFields_eq_ok fields fuel frames h (x :: keys) rest inKey r wf.2.2 (by omega)
    have step : walkFields D cbor2 (fuel + 1) frames (count h (fields.length + 1)) keys
        (k.bytes ++ (v.bytes ++ (fieldsBytes fields ++ (closing h ++ rest)))) inKey = (do
          let data := k.bytes ++ (v.bytes ++ (fieldsBytes fields ++ (closing h ++ rest)))
          let rest ← walk D cbor2 fuel frames data true
          let x ← key D cbor2 (data.take (data.length - rest.length))
          let _ ← fresh D keys x
          let rest ← walk D cbor2 fuel frames rest inKey
          walkFields D cbor2 fuel frames (count h fields.length) (x :: keys) rest inKey) := by
      cases h with
      | some h => exact walkFields.eq_3 ..
      | none =>
        obtain ⟨b, tail, e, ne⟩ := wf.1.ne_stop (v.bytes ++ (fieldsBytes fields ++ (closing none ++ rest)))
        have ne : b ≠ Cbor.breakByte := ne
        change walkFields D cbor2 (fuel + 1) frames none keys _ inKey = _
        rw [e, walkFields, if_neg ne]
        rfl
    rw [fieldsBytes, List.append_assoc, List.append_assoc, List.length_cons, step, depthFields, PassesFields]
    simp only [bind_eq_ok, atKey, fresh_eq_ok, max_le_iff]
    constructor
    · rintro ⟨_, ⟨rfl, lek, passk⟩, x, decoded, _, new, _, walked, rest_⟩
      obtain ⟨rfl, lev, passv⟩ := (atValue _).mp walked
      rw [take_bytes] at decoded
      obtain ⟨e, le, passes⟩ := (later x).mp rest_
      exact ⟨e, ⟨lek, lev, le⟩, passk, x, decoded, new, passv, passes⟩
    · rintro ⟨e, ⟨lek, lev, le⟩, passk, x, decoded, new, passv, passes⟩
      refine ⟨_, ⟨rfl, lek, passk⟩, x, ?_, (), new, _, (atValue _).mpr ⟨rfl, lev, passv⟩,
        (later x).mpr ⟨e, le, passes⟩⟩
      rwa [take_bytes]

end

/-- The item is the key of a map in another. -/
def HasKey (t u : Cbor.Item) : Prop := t.SomeMap fun fields => ∃ f ∈ fields, f.1 = u

/-- A key holds a tag whose value depends on the rest of the item. -/
def ContextKey (t : Cbor.Item) : Prop := t.SomeMap fun fields => ∃ f ∈ fields, f.1.HasTag contextTags

variable (D) in
/-- The values that two keys decode to are equal. -/
def KeysEqual (k l : Cbor.Item) : Prop :=
  ∃ a b, value D k = some a ∧ value D l = some b ∧ Same D (immutable a) (immutable b)

variable (D) in
/-- Some map has two keys that decode to equal values. -/
def EqualKeys (t : Cbor.Item) : Prop :=
  t.SomeMap fun fields => ¬fields.Pairwise fun f g => ¬KeysEqual D f.1 g.1

/-- What `cbor2` accepts it accepts in parts, and a part that does not depend on the rest means the same
alone. -/
structure Cbor2.Lawful (cbor2 : Cbor2 α) (D : Objects α) : Prop where
  parts : ∀ t : Cbor.Item, t.Wf → (cbor2.loads t.bytes).isSome → ∀ u, HasKey t u → ¬u.HasTag contextTags →
    (cbor2.loads u.bytes).isSome
  value : ∀ u : Cbor.Item, u.Wf → ¬u.HasTag contextTags → ¬EqualKeys D u → ∀ v, cbor2.loads u.bytes = some v →
    ∃ w, value D u = some w ∧ immutable v = immutable w

variable (D cbor2) in
/-- A key that means the same alone, and the frozen object it is compared by. -/
def Reads (k : Cbor.Item) (x : Frozen α) : Prop :=
  ∃ v w, cbor2.loads k.bytes = some v ∧ NoItems D v ∧ value D k = some w ∧ immutable v = immutable w ∧
    x = frozen D v

omit [DecidableEq α] in
/-- The key of an item that is read is its value. -/
lemma Reads.key_eq {k : Cbor.Item} {x : Frozen α} (reads : Reads D cbor2 k x) :
    key D cbor2 k.bytes = .ok x := by
  obtain ⟨v, w, loaded, -, -, -, rfl⟩ := reads
  rw [key, loaded]

/-- Frozen keys are equal exactly where the keys are. -/
lemma Reads.eq_iff {k l : Cbor.Item} {x y : Frozen α} (reads : Reads D cbor2 k x) (reads' : Reads D cbor2 l y) :
    x.eq D y = true ↔ KeysEqual D k l := by
  obtain ⟨v, w, -, noItems, val, same, rfl⟩ := reads
  obtain ⟨v', w', -, noItems', val', same', rfl⟩ := reads'
  rw [eq_frozen_iff v v' noItems noItems', same, same', KeysEqual]
  constructor
  · exact fun e => ⟨w, w', val, val', e⟩
  · rintro ⟨a, b, ha, hb, e⟩
    cases val.symm.trans ha
    cases val'.symm.trans hb
    exact e

/-- Items pass exactly where each does. -/
lemma passesItems_iff {inKey : Bool} {xs : List Cbor.Item} :
    PassesItems D cbor2 inKey xs ↔ ∀ x ∈ xs, Passes D cbor2 inKey x := by
  induction xs with
  | nil => simp [PassesItems]
  | cons x xs ih => simp [PassesItems, ih]

/-- The fields pass if their keys and values do and no two keys are equal. -/
lemma passesFields_iff {inKey : Bool} {fields : List (Cbor.Item × Cbor.Item)} {earlier : List Cbor.Item}
    {keys : List (Frozen α)} (read : List.Forall₂ (Reads D cbor2) earlier keys)
    (reads : ∀ f ∈ fields, Passes D cbor2 true f.1 → ∃ x, Reads D cbor2 f.1 x) :
    PassesFields D cbor2 inKey keys fields ↔
      (∀ f ∈ fields, Passes D cbor2 true f.1 ∧ Passes D cbor2 inKey f.2) ∧
      (∀ f ∈ fields, ∀ e ∈ earlier, ¬KeysEqual D e f.1) ∧
      fields.Pairwise fun f g => ¬KeysEqual D f.1 g.1 := by
  induction fields generalizing earlier keys with
  | nil => simp [PassesFields]
  | cons f fields ih =>
    obtain ⟨k, v⟩ := f
    have first := reads (k, v) List.mem_cons_self
    have others : ∀ f ∈ fields, Passes D cbor2 true f.1 → ∃ x, Reads D cbor2 f.1 x := fun f mem =>
      reads f (List.mem_cons_of_mem _ mem)
    have new {x : Frozen α} (readsk : Reads D cbor2 k x) :
        keys.any (fun earlier => earlier.eq D x) = false ↔ ∀ e ∈ earlier, ¬KeysEqual D e k := by
      clear ih reads first others
      induction read with
      | nil => simp
      | cons h _ ih =>
        rw [List.any_cons, Bool.or_eq_false_iff, List.forall_mem_cons, ih, ← h.eq_iff readsk, Bool.not_eq_true]
    rw [PassesFields, List.pairwise_cons]
    simp only [List.forall_mem_cons]
    constructor
    · rintro ⟨passk, x, decoded, fresh, passv, rest⟩
      obtain ⟨x', readsk⟩ := first passk
      obtain rfl : x' = x := Except.ok.inj (readsk.key_eq.symm.trans decoded)
      obtain ⟨pass, apart, pairwise⟩ := (ih (.cons readsk read) others).mp rest
      exact ⟨⟨⟨passk, passv⟩, pass⟩,
        ⟨(new readsk).mp fresh, fun f mem e he => apart f mem e (List.mem_cons_of_mem _ he)⟩,
        fun g mem => apart g mem k List.mem_cons_self, pairwise⟩
    · rintro ⟨⟨⟨passk, passv⟩, pass⟩, ⟨apartk, apart⟩, here, pairwise⟩
      obtain ⟨x, readsk⟩ := first passk
      refine ⟨passk, x, readsk.key_eq, (new readsk).mpr apartk, passv, (ih (.cons readsk read) others).mpr
        ⟨pass, fun f mem e he => ?_, pairwise⟩⟩
      cases List.mem_cons.mp he with
      | inl same => exact same ▸ here f mem
      | inr he => exact apart f mem e he

/-- What passes has no equal keys and, inside of keys, no tag that depends on the rest. -/
theorem passes_iff (lawful : cbor2.Lawful D) {t : Cbor.Item} {inKey : Bool}
    (keys : ∀ u, HasKey t u → u.Wf ∧ (¬u.HasTag contextTags → (cbor2.loads u.bytes).isSome ∧
      ∀ v, cbor2.loads u.bytes = some v → NoItems D v)) :
    Passes D cbor2 inKey t ↔ (inKey = true → ¬t.HasTag contextTags) ∧ ¬ContextKey t ∧ ¬EqualKeys D t := by
  induction t using induct generalizing inKey with
  | scalar major n h => simp [Passes, HasTag, ContextKey, EqualKeys, SomeMap]
  | string major h content => simp [Passes, HasTag, ContextKey, EqualKeys, SomeMap]
  | chunks major cs => simp [Passes, HasTag, ContextKey, EqualKeys, SomeMap]
  | array h xs ih =>
    have each : ∀ x ∈ xs, (Passes D cbor2 inKey x ↔
        (inKey = true → ¬x.HasTag contextTags) ∧ ¬ContextKey x ∧ ¬EqualKeys D x) := fun x mem =>
      ih x mem fun u key => keys u (someMap_array.mpr ⟨x, mem, key⟩)
    rw [Passes, passesItems_iff, forall₂_congr each, hasTag_array, ContextKey, EqualKeys, someMap_array,
      someMap_array]
    constructor
    · intro all
      refine ⟨?_, ?_, ?_⟩
      · rintro isKey ⟨x, mem, tagged⟩
        exact (all x mem).1 isKey tagged
      · rintro ⟨x, mem, context⟩
        exact (all x mem).2.1 context
      · rintro ⟨x, mem, equal⟩
        exact (all x mem).2.2 equal
    · rintro ⟨untagged, context, equal⟩ x mem
      exact ⟨fun isKey tagged => untagged isKey ⟨x, mem, tagged⟩, fun c => context ⟨x, mem, c⟩,
        fun e => equal ⟨x, mem, e⟩⟩
  -- The tag's own number counts where the tag is inside a key.
  | tag number h x ih =>
    have context : ContextKey (.tag number h x) ↔ ContextKey x := someMap_tag
    have equal : EqualKeys D (.tag number h x) ↔ EqualKeys D x := someMap_tag
    rw [Passes, ih fun u key => keys u (someMap_tag.mpr key), HasTag, context, equal]
    constructor
    · rintro ⟨allowed, untagged, rest⟩
      exact ⟨fun isKey tagged => tagged.elim (fun mem => allowed ⟨isKey, mem⟩) (untagged isKey), rest⟩
    · rintro ⟨untagged, rest⟩
      refine ⟨?_, fun isKey tagged => untagged isKey (.inr tagged), rest⟩
      rintro ⟨isKey, mem⟩
      exact untagged isKey (.inl mem)
  | map h fields ih =>
    have atKey : ∀ f ∈ fields, (Passes D cbor2 true f.1 ↔
        (true = true → ¬f.1.HasTag contextTags) ∧ ¬ContextKey f.1 ∧ ¬EqualKeys D f.1) := fun f mem =>
      (ih f mem).1 fun u key => keys u (someMap_map.mpr (.inr ⟨f, mem, .inl key⟩))
    have atValue : ∀ f ∈ fields, (Passes D cbor2 inKey f.2 ↔
        (inKey = true → ¬f.2.HasTag contextTags) ∧ ¬ContextKey f.2 ∧ ¬EqualKeys D f.2) := fun f mem =>
      (ih f mem).2 fun u key => keys u (someMap_map.mpr (.inr ⟨f, mem, .inr key⟩))
    -- A key that passes has no tag that depends on its context, so the decoder reads it alone.
    have reads : ∀ f ∈ fields, Passes D cbor2 true f.1 → ∃ x, Reads D cbor2 f.1 x := by
      intro f mem passes
      obtain ⟨untagged, -, apart⟩ := (atKey f mem).mp passes
      obtain ⟨wf, decoded⟩ := keys f.1 (someMap_map.mpr (.inl ⟨f, mem, rfl⟩))
      obtain ⟨some_, noItems⟩ := decoded (untagged rfl)
      obtain ⟨v, loaded⟩ := Option.isSome_iff_exists.mp some_
      obtain ⟨w, val, same⟩ := lawful.value f.1 wf (untagged rfl) apart v loaded
      exact ⟨_, v, w, loaded, noItems v loaded, val, same, rfl⟩
    rw [Passes, passesFields_iff .nil reads, hasTag_map, ContextKey, EqualKeys, someMap_map, someMap_map]
    constructor
    · rintro ⟨pass, -, pairwise⟩
      have parts f mem := And.intro ((atKey f mem).mp (pass f mem).1) ((atValue f mem).mp (pass f mem).2)
      refine ⟨?_, ?_, ?_⟩
      · rintro isKey ⟨f, mem, tagged | tagged⟩
        · exact (parts f mem).1.1 rfl tagged
        · exact (parts f mem).2.1 isKey tagged
      · rintro (⟨f, mem, tagged⟩ | ⟨f, mem, context | context⟩)
        · exact (parts f mem).1.1 rfl tagged
        · exact (parts f mem).1.2.1 context
        · exact (parts f mem).2.2.1 context
      · rintro (equal | ⟨f, mem, equal | equal⟩)
        · exact equal pairwise
        · exact (parts f mem).1.2.2 equal
        · exact (parts f mem).2.2.2 equal
    · rintro ⟨untagged, context, equal⟩
      refine ⟨fun f mem => ⟨(atKey f mem).mpr ⟨fun _ tagged => ?_, fun c => ?_, fun e => ?_⟩,
        (atValue f mem).mpr ⟨fun isKey tagged => ?_, fun c => ?_, fun e => ?_⟩⟩, by simp, ?_⟩
      · exact context (.inl ⟨f, mem, tagged⟩)
      · exact context (.inr ⟨f, mem, .inl c⟩)
      · exact equal (.inr ⟨f, mem, .inl e⟩)
      · exact untagged isKey ⟨f, mem, .inr tagged⟩
      · exact context (.inr ⟨f, mem, .inr c⟩)
      · exact equal (.inr ⟨f, mem, .inr e⟩)
      · by_contra apart
        exact equal (.inl apart)

/-- The key of a well formed item is well formed. -/
lemma wf_of_hasKey {t u : Cbor.Item} (wf : t.Wf) (key : HasKey t u) : u.Wf := by
  refine of_hereditary (P := Wf) (fun h xs holds => ?_) (fun h fields holds => ?_) (fun number h x holds => ?_) key wf
  · rw [Wf] at holds
    exact wfItems_iff.mp holds.2
  · rw [Wf] at holds
    exact wfFields_iff.mp holds.2
  · rw [Wf] at holds
    exact holds.2

/-- `loads` refuses exactly the encodings with two equal keys in a map, with a key that holds a tag whose
value depends on the rest, and those nested too deeply. What it does not refuse it decodes as `cbor2` does,
and the walk ends where the item does. -/
theorem loads_rejects_iff (lawful : cbor2.Lawful D) {t : Cbor.Item} (wf : t.Wf) {v : PyValue α}
    (decoded : cbor2.loads t.bytes = some v) (frames : ℕ)
    (noItems : ∀ u, HasKey t u → ¬u.HasTag contextTags → ∀ w, cbor2.loads u.bytes = some w → NoItems D w) :
    ((∃ e, loads D cbor2 frames t.bytes = .error e) ↔
      EqualKeys D t ∨ ContextKey t ∨ frames < t.depth) ∧
    (∀ w, loads D cbor2 frames t.bytes = .ok w → w = v) ∧
    ∀ rest r, walk D cbor2 (2 * t.bytes.length) frames (t.bytes ++ rest) false = .ok r → r = rest := by
  have keys : ∀ u, HasKey t u → u.Wf ∧ (¬u.HasTag contextTags → (cbor2.loads u.bytes).isSome ∧
      ∀ v, cbor2.loads u.bytes = some v → NoItems D v) := by
    intro u key
    exact ⟨wf_of_hasKey wf key, fun untagged => ⟨lawful.parts t wf (by simp [decoded]) u key untagged, noItems u key untagged⟩⟩
  have passes : Passes D cbor2 false t ↔ (false = true → ¬t.HasTag contextTags) ∧ ¬ContextKey t ∧ ¬EqualKeys D t :=
    passes_iff lawful keys
  have walked rest r : walk D cbor2 (2 * t.bytes.length) frames (t.bytes ++ rest) false = .ok r ↔
      r = rest ∧ t.depth ≤ frames ∧ Passes D cbor2 false t := walk_eq_ok t _ frames rest false r wf le_rfl
  have whole : (∃ r, walk D cbor2 (2 * t.bytes.length) frames t.bytes false = .ok r) ↔
      t.depth ≤ frames ∧ ¬ContextKey t ∧ ¬EqualKeys D t := by
    have here r := walked [] r
    rw [List.append_nil] at here
    simp only [here, exists_eq_left, passes]
    simp
  refine ⟨?_, ?_, fun rest r ends => ((walked rest r).mp ends).1⟩
  · rw [loads, decoded]
    dsimp only
    cases result : walk D cbor2 (2 * t.bytes.length) frames t.bytes false with
    | ok r =>
      obtain ⟨le, context, equal⟩ := whole.mp ⟨r, result⟩
      constructor
      · rintro ⟨e, raised⟩
        cases raised
      · rintro (equal' | context' | deep)
        · exact absurd equal' equal
        · exact absurd context' context
        · omega
    | error e =>
      refine ⟨fun _ => ?_, fun _ => ⟨e, rfl⟩⟩
      by_contra good
      simp only [not_or, not_lt] at good
      obtain ⟨r, ends⟩ := whole.mpr ⟨good.2.2, good.2.1, good.1⟩
      rw [result] at ends
      cases ends
  · intro w returns
    rw [loads, decoded] at returns
    obtain ⟨r, -, e⟩ := bind_eq_ok.mp returns
    exact (Except.ok.inj e).symm

/-- Objects of simple values, which compare as integers, and of tags: those that depend on the rest of the
item mean their content or nothing, and the others are kept. -/
def referenceObjects : Objects ℕ where
  simple := id
  tagged number v :=
    if number = 28 ∨ number = 256 then some v
    else if number = 25 ∨ number = 29 then none
    else some (.cborTag number v)
  number n := some (.finite n)
  items _ := none

def referenceDecoder : Cbor2 ℕ := ⟨fun b => (read b).bind (value referenceObjects)⟩

/-- The reference decoder returns the value of an item. -/
lemma referenceDecoder_loads {t : Cbor.Item} (wf : t.Wf) :
    referenceDecoder.loads t.bytes = value referenceObjects t := by
  simp [referenceDecoder, read_bytes wf]

omit [DecidableEq α] in
/-- A part of what has a value has one. -/
lemma value_isSome_of_hasKey {t u : Cbor.Item} (key : HasKey t u) (some_ : (value D t).isSome) :
    (value D u).isSome := by
  have items : ∀ xs : List Cbor.Item, (valueItems D xs).isSome → ∀ x ∈ xs, (value D x).isSome := by
    intro xs
    induction xs with
    | nil => simp
    | cons x xs ih =>
      intro some_
      obtain ⟨vs, h⟩ := Option.isSome_iff_exists.mp some_
      rw [valueItems] at h
      obtain ⟨v, first, h⟩ := Option.bind_eq_some_iff.mp h
      obtain ⟨vs, others, -⟩ := Option.bind_eq_some_iff.mp h
      exact List.forall_mem_cons.mpr ⟨by simp [first], ih (by simp [others])⟩
  have entries : ∀ fields : List (Cbor.Item × Cbor.Item), (valueFields D fields).isSome →
      ∀ f ∈ fields, (value D f.1).isSome ∧ (value D f.2).isSome := by
    intro fields
    induction fields with
    | nil => simp
    | cons f fields ih =>
      intro some_
      obtain ⟨vs, h⟩ := Option.isSome_iff_exists.mp some_
      rw [valueFields] at h
      obtain ⟨k, first, h⟩ := Option.bind_eq_some_iff.mp h
      obtain ⟨v, second, h⟩ := Option.bind_eq_some_iff.mp h
      obtain ⟨vs, others, -⟩ := Option.bind_eq_some_iff.mp h
      exact List.forall_mem_cons.mpr ⟨⟨by simp [first], by simp [second]⟩, ih (by simp [others])⟩
  refine of_hereditary (P := fun x => (value D x).isSome = true) (fun h xs holds => ?_)
    (fun h fields holds => ?_) (fun number h x holds => ?_) key some_
  · rw [value, Option.isSome_map] at holds
    exact items xs holds
  · rw [value, Option.isSome_map] at holds
    exact entries fields holds
  · rw [value] at holds
    exact Option.isSome_of_isSome_bind holds

/-- The reference decoder is lawful. -/
lemma referenceDecoder_lawful : referenceDecoder.Lawful referenceObjects where
  parts t wf accepted u key _ := by
    rw [referenceDecoder_loads wf] at accepted
    rw [referenceDecoder_loads (wf_of_hasKey wf key)]
    exact value_isSome_of_hasKey key accepted
  value u wf _ _ v loaded := by
    rw [referenceDecoder_loads wf] at loaded
    exact ⟨v, loaded, rfl⟩

/-- `{1: 2, true: 3}`, of indefinite length and with a longer head than need be. -/
def equalSample : Cbor.Item :=
  .map none [(.scalar 0 1 [0x18, 0x01], .scalar 0 2 [0x02]), (.scalar 7 21 [0xF5], .scalar 0 3 [0x03])]

/-- `{28(1): 2}`. -/
def contextSample : Cbor.Item :=
  .map (some [0xA1]) [(.tag 28 [0xD8, 0x1C] (.scalar 0 1 [0x01]), .scalar 0 2 [0x02])]

/-- The map with equal keys is well formed. -/
lemma equalSample_wf : equalSample.Wf := by
  refine ⟨by simp, ?_⟩
  simp only [WfFields, Wf]
  exact ⟨⟨by decide, rfl, by decide⟩, ⟨by decide, rfl, by decide⟩, ⟨by decide, rfl, by decide⟩,
    ⟨by decide, rfl, by decide⟩, trivial⟩

/-- The map with keys inside a tag is well formed. -/
lemma contextSample_wf : contextSample.Wf := by
  refine ⟨?_, ?_⟩
  · rintro h ⟨⟩
    rfl
  · simp only [WfFields, Wf]
    exact ⟨⟨rfl, by decide, rfl, by decide⟩, ⟨by decide, rfl, by decide⟩, trivial⟩

/-- The map with equal keys is rejected. -/
theorem loads_rejects_iff_sample : ∃ e, loads referenceObjects referenceDecoder 1000 equalSample.bytes = .error e := by
  refine (loads_rejects_iff referenceDecoder_lawful equalSample_wf (referenceDecoder_loads equalSample_wf) 1000
    ?_).1.mpr (.inl ?_)
  · intro u key _ w loaded
    rw [referenceDecoder_loads (wf_of_hasKey equalSample_wf key)] at loaded
    simp only [HasKey, equalSample, someMap_map, List.mem_cons, List.not_mem_nil, or_false] at key
    rcases key with ⟨f, rfl | rfl, rfl⟩ | ⟨f, rfl | rfl, inner | inner⟩
    · cases loaded
      trivial
    · cases loaded
      trivial
    all_goals simp [SomeMap] at inner
  · refine someMap_map.mpr (.inl fun apart => ?_)
    have ne := (List.pairwise_cons.mp apart).1 _ List.mem_cons_self
    refine ne ⟨.atom (.int 1), .atom (.bool true), rfl, rfl, ?_⟩
    simp only [immutable, Same]
    exact .inl (by decide)

/-- A map of one key is refused, since the key holds a tag for a shared value. -/
theorem loads_rejects_contextSample :
    contextSample.Wf ∧ (referenceDecoder.loads contextSample.bytes).isSome = true ∧
      ¬EqualKeys referenceObjects contextSample ∧
      ∃ e, loads referenceObjects referenceDecoder 1000 contextSample.bytes = .error e := by
  refine ⟨contextSample_wf, ?_, ?_, ?_⟩
  · rw [referenceDecoder_loads contextSample_wf]
    rfl
  · simp [EqualKeys, contextSample, SomeMap]
  · exact ⟨_, rfl⟩

end CLL.CborKeys
