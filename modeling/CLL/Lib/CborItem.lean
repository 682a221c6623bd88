import CLL.Lib.LooseCbor

/-!
# Encoded data items

A well-formed encoding as a tree: heads of any width are kept as they are, strings may come in chunks, and
arrays and maps may have an indefinite length. `bytes` is what the tree was read from, and `read` reads it
back (`read_bytes`), so that one byte string has one tree.
-/

namespace CLL.Cbor

/-- A data item as it is encoded; the head of an array or a map is `none` for an indefinite length. -/
inductive Item where
  | scalar (major n : ℕ) (h : List UInt8)
  | string (major : ℕ) (h content : List UInt8)
  | chunks (major : ℕ) (cs : List (List UInt8 × List UInt8))
  | array (h : Option (List UInt8)) (xs : List Item)
  | map (h : Option (List UInt8)) (fields : List (Item × Item))
  | tag (number : ℕ) (h : List UInt8) (x : Item)

namespace Item

/-- How an item of indefinite length begins. -/
def indefinite (major : ℕ) : UInt8 := UInt8.ofNat (major * 32 + 31)

/-- The byte it ends with. -/
def stop : UInt8 := 0xFF

def opening (major : ℕ) : Option (List UInt8) → List UInt8
  | some h => h
  | none => [indefinite major]

def closing : Option (List UInt8) → List UInt8
  | some _ => []
  | none => [stop]

def chunkBytes (cs : List (List UInt8 × List UInt8)) : List UInt8 := cs.flatMap fun c => c.1 ++ c.2

mutual

/-- The encoding. -/
def bytes : Item → List UInt8
  | .scalar _ _ h => h
  | .string _ h content => h ++ content
  | .chunks major cs => indefinite major :: (chunkBytes cs ++ [stop])
  | .array h xs => opening 4 h ++ (itemsBytes xs ++ closing h)
  | .map h fields => opening 5 h ++ (fieldsBytes fields ++ closing h)
  | .tag _ h x => h ++ x.bytes

def itemsBytes : List Item → List UInt8
  | [] => []
  | x :: xs => x.bytes ++ itemsBytes xs

def fieldsBytes : List (Item × Item) → List UInt8
  | [] => []
  | (k, v) :: fields => k.bytes ++ (v.bytes ++ fieldsBytes fields)

end

mutual

/-- The heads belong to what follows them, and a simple value below 32 has a head of one byte. -/
def Wf : Item → Prop
  | .scalar major n h => major ∈ [0, 1, 7] ∧ IsHead major n h ∧ (major = 7 → h.length = 2 → 32 ≤ n)
  | .string major h content => major ∈ [2, 3] ∧ IsHead major content.length h
  | .chunks major cs => major ∈ [2, 3] ∧ ∀ c ∈ cs, IsHead major c.2.length c.1
  | .array h xs => (∀ h' ∈ h, IsHead 4 xs.length h') ∧ WfItems xs
  | .map h fields => (∀ h' ∈ h, IsHead 5 fields.length h') ∧ WfFields fields
  | .tag number h x => IsHead 6 number h ∧ x.Wf

def WfItems : List Item → Prop
  | [] => True
  | x :: xs => x.Wf ∧ WfItems xs

def WfFields : List (Item × Item) → Prop
  | [] => True
  | (k, v) :: fields => k.Wf ∧ v.Wf ∧ WfFields fields

end

mutual

/-- `P` holds of the fields of some map, at any depth and inside keys and tags too. -/
def SomeMap (P : List (Item × Item) → Prop) : Item → Prop
  | .scalar .. | .string .. | .chunks .. => False
  | .array _ xs => SomeMapItems P xs
  | .map _ fields => P fields ∨ SomeMapFields P fields
  | .tag _ _ x => x.SomeMap P

def SomeMapItems (P : List (Item × Item) → Prop) : List Item → Prop
  | [] => False
  | x :: xs => x.SomeMap P ∨ SomeMapItems P xs

def SomeMapFields (P : List (Item × Item) → Prop) : List (Item × Item) → Prop
  | [] => False
  | (k, v) :: fields => k.SomeMap P ∨ v.SomeMap P ∨ SomeMapFields P fields

end

mutual

/-- The item holds a tag with one of the numbers. -/
def HasTag (numbers : List ℕ) : Item → Prop
  | .scalar .. | .string .. | .chunks .. => False
  | .array _ xs => HasTagItems numbers xs
  | .map _ fields => HasTagFields numbers fields
  | .tag number _ x => number ∈ numbers ∨ x.HasTag numbers

def HasTagItems (numbers : List ℕ) : List Item → Prop
  | [] => False
  | x :: xs => x.HasTag numbers ∨ HasTagItems numbers xs

def HasTagFields (numbers : List ℕ) : List (Item × Item) → Prop
  | [] => False
  | (k, v) :: fields => k.HasTag numbers ∨ v.HasTag numbers ∨ HasTagFields numbers fields

end

mutual

/-- How deep items are nested. -/
def depth : Item → ℕ
  | .scalar .. | .string .. | .chunks .. => 1
  | .array _ xs => 1 + depthItems xs
  | .map _ fields => 1 + depthFields fields
  | .tag _ _ x => 1 + x.depth

def depthItems : List Item → ℕ
  | [] => 0
  | x :: xs => max x.depth (depthItems xs)

def depthFields : List (Item × Item) → ℕ
  | [] => 0
  | (k, v) :: fields => max k.depth (max v.depth (depthFields fields))

end

mutual

/-- Induction over what an item is made of. -/
theorem induct {motive : Item → Prop} (scalar : ∀ major n h, motive (.scalar major n h))
    (string : ∀ major h content, motive (.string major h content)) (chunks : ∀ major cs, motive (.chunks major cs))
    (array : ∀ h xs, (∀ x ∈ xs, motive x) → motive (.array h xs))
    (map : ∀ h fields, (∀ f ∈ fields, motive f.1 ∧ motive f.2) → motive (.map h fields))
    (tag : ∀ number h x, motive x → motive (.tag number h x)) : ∀ t, motive t
  | .scalar major n h => scalar major n h
  | .string major h content => string major h content
  | .chunks major cs => chunks major cs
  | .array h xs => array h xs (inductItems scalar string chunks array map tag xs)
  | .map h fields => map h fields (inductFields scalar string chunks array map tag fields)
  | .tag number h x => tag number h x (induct scalar string chunks array map tag x)

/-- Induction over the items of an array. -/
theorem inductItems {motive : Item → Prop} (scalar : ∀ major n h, motive (.scalar major n h))
    (string : ∀ major h content, motive (.string major h content)) (chunks : ∀ major cs, motive (.chunks major cs))
    (array : ∀ h xs, (∀ x ∈ xs, motive x) → motive (.array h xs))
    (map : ∀ h fields, (∀ f ∈ fields, motive f.1 ∧ motive f.2) → motive (.map h fields))
    (tag : ∀ number h x, motive x → motive (.tag number h x)) : ∀ xs : List Item, ∀ x ∈ xs, motive x
  | [], _, mem => (List.not_mem_nil mem).elim
  | y :: ys, x, mem => (List.mem_cons.mp mem).elim
      (fun e => e ▸ induct scalar string chunks array map tag y)
      (inductItems scalar string chunks array map tag ys x)

/-- Induction over the fields of a map. -/
theorem inductFields {motive : Item → Prop} (scalar : ∀ major n h, motive (.scalar major n h))
    (string : ∀ major h content, motive (.string major h content)) (chunks : ∀ major cs, motive (.chunks major cs))
    (array : ∀ h xs, (∀ x ∈ xs, motive x) → motive (.array h xs))
    (map : ∀ h fields, (∀ f ∈ fields, motive f.1 ∧ motive f.2) → motive (.map h fields))
    (tag : ∀ number h x, motive x → motive (.tag number h x)) :
    ∀ fields : List (Item × Item), ∀ f ∈ fields, motive f.1 ∧ motive f.2
  | [], _, mem => (List.not_mem_nil mem).elim
  | (k, v) :: fields, f, mem => (List.mem_cons.mp mem).elim
      (fun e => e ▸ ⟨induct scalar string chunks array map tag k, induct scalar string chunks array map tag v⟩)
      (inductFields scalar string chunks array map tag fields f)

end

/-- An array has such a map where one of its items has. -/
@[simp] lemma someMap_array {P : List (Item × Item) → Prop} {h : Option (List UInt8)} {xs : List Item} :
    (Item.array h xs).SomeMap P ↔ ∃ x ∈ xs, x.SomeMap P := by
  have items : SomeMapItems P xs ↔ ∃ x ∈ xs, x.SomeMap P := by
    induction xs with
    | nil => simp [SomeMapItems]
    | cons x xs ih => simp [SomeMapItems, ih]
  rw [SomeMap, items]

/-- A map has such a map where it is one or one of its fields has. -/
@[simp] lemma someMap_map {P : List (Item × Item) → Prop} {h : Option (List UInt8)}
    {fields : List (Item × Item)} :
    (Item.map h fields).SomeMap P ↔ P fields ∨ ∃ f ∈ fields, f.1.SomeMap P ∨ f.2.SomeMap P := by
  have inner : SomeMapFields P fields ↔ ∃ f ∈ fields, f.1.SomeMap P ∨ f.2.SomeMap P := by
    induction fields with
    | nil => simp [SomeMapFields]
    | cons f fields ih => simp [SomeMapFields, ih, or_assoc]
  rw [SomeMap, inner]

/-- A tagged item has such a map where its content has. -/
@[simp] lemma someMap_tag {P : List (Item × Item) → Prop} {number : ℕ} {h : List UInt8} {x : Item} :
    (Item.tag number h x).SomeMap P ↔ x.SomeMap P := by
  rw [SomeMap]

/-- An array has a tag where one of its items has. -/
@[simp] lemma hasTag_array {numbers : List ℕ} {h : Option (List UInt8)} {xs : List Item} :
    (Item.array h xs).HasTag numbers ↔ ∃ x ∈ xs, x.HasTag numbers := by
  have items : HasTagItems numbers xs ↔ ∃ x ∈ xs, x.HasTag numbers := by
    induction xs with
    | nil => simp [HasTagItems]
    | cons x xs ih => simp [HasTagItems, ih]
  rw [HasTag, items]

/-- A map has a tag where one of its fields has. -/
@[simp] lemma hasTag_map {numbers : List ℕ} {h : Option (List UInt8)} {fields : List (Item × Item)} :
    (Item.map h fields).HasTag numbers ↔ ∃ f ∈ fields, f.1.HasTag numbers ∨ f.2.HasTag numbers := by
  have inner : HasTagFields numbers fields ↔ ∃ f ∈ fields, f.1.HasTag numbers ∨ f.2.HasTag numbers := by
    induction fields with
    | nil => simp [HasTagFields]
    | cons f fields ih => simp [HasTagFields, ih, or_assoc]
  rw [HasTag, inner]

/-- Items are well formed where each is. -/
lemma wfItems_iff {xs : List Item} : WfItems xs ↔ ∀ x ∈ xs, x.Wf := by
  induction xs with
  | nil => simp [WfItems]
  | cons x xs ih => simp [WfItems, ih]

/-- Fields are well formed where each label and value is. -/
lemma wfFields_iff {fields : List (Item × Item)} : WfFields fields ↔ ∀ f ∈ fields, f.1.Wf ∧ f.2.Wf := by
  induction fields with
  | nil => simp [WfFields]
  | cons f fields ih => simp [WfFields, ih, and_assoc]

/-- What holds of an item and passes to its parts holds of the keys of its maps. -/
lemma of_hereditary {P : Item → Prop} (array : ∀ h xs, P (.array h xs) → ∀ x ∈ xs, P x)
    (map : ∀ h fields, P (.map h fields) → ∀ f ∈ fields, P f.1 ∧ P f.2)
    (tag : ∀ number h x, P (.tag number h x) → P x) {t u : Item}
    (key : t.SomeMap fun fields => ∃ f ∈ fields, f.1 = u) (holds : P t) : P u := by
  induction t using induct with
  | scalar major n h => simp [SomeMap] at key
  | string major h content => simp [SomeMap] at key
  | chunks major cs => simp [SomeMap] at key
  | array h xs ih =>
    obtain ⟨x, mem, key⟩ := someMap_array.mp key
    exact ih x mem key (array h xs holds x mem)
  | map h fields ih =>
    rcases someMap_map.mp key with ⟨f, mem, rfl⟩ | ⟨f, mem, key | key⟩
    · exact (map h fields holds f mem).1
    · exact (ih f mem).1 key (map h fields holds f mem).1
    · exact (ih f mem).2 key (map h fields holds f mem).2
  | tag number h x ih =>
    exact ih (someMap_tag.mp key) (tag number h x holds)

/-- The major type, the argument, `none` for an indefinite length, the head and what follows it. -/
def splitHead : List UInt8 → Option (ℕ × Option ℕ × List UInt8 × List UInt8)
  | [] => none
  | initial :: rest =>
    let major := initial.toNat / 32
    let info := initial.toNat % 32
    if info < 24 then some (major, some info, [initial], rest)
    else if info = 31 then some (major, none, [initial], rest)
    else if info > 27 then none
    else do
      let (arg, rest) ← takeBytes (2 ^ (info - 24)) rest
      some (major, some (ofBigEndian arg), initial :: arg, rest)

/-- A head is split off. -/
lemma splitHead_append {major n : ℕ} {h : List UInt8} (isHead : IsHead major n h) (rest : List UInt8) :
    splitHead (h ++ rest) = some (major, some n, h, rest) := by
  unfold IsHead at isHead
  cases h with
  | nil => cases isHead
  | cons initial b =>
    simp only [readHead] at isHead
    simp only [splitHead, List.cons_append]
    split_ifs at isHead with short long
    · obtain ⟨rfl, rfl, rfl⟩ : initial.toNat / 32 = major ∧ initial.toNat % 32 = n ∧ b = [] := by
        simpa using isHead
      rw [if_pos short]
      rfl
    · obtain ⟨⟨arg, tail⟩, taken, e⟩ := Option.bind_eq_some_iff.mp isHead
      obtain ⟨len, rfl⟩ := takeBytes_eq_some.mp taken
      obtain ⟨rfl, rfl, rfl⟩ : initial.toNat / 32 = major ∧ ofBigEndian arg = n ∧ tail = [] := by
        simpa using e
      rw [if_neg short, if_neg (by omega), if_neg (by omega), List.append_nil, ← len, takeBytes_append]
      rfl

/-- The byte of an indefinite head. -/
lemma indefinite_toNat {major : ℕ} (small : major < 8) : (indefinite major).toNat = major * 32 + 31 := by
  rw [indefinite, UInt8.toNat_ofNat']
  omega

/-- An indefinite head is split off. -/
lemma splitHead_indefinite {major : ℕ} (small : major < 8) (rest : List UInt8) :
    splitHead (indefinite major :: rest) = some (major, none, [indefinite major], rest) := by
  have split : (major * 32 + 31) / 32 = major ∧ (major * 32 + 31) % 32 = 31 := by omega
  simp [splitHead, indefinite_toNat small, split]

/-- A head has bytes. -/
lemma length_pos_of_isHead {major n : ℕ} {h : List UInt8} (isHead : IsHead major n h) : 0 < h.length := by
  cases h with
  | nil => cases isHead
  | cons initial b => simp

/-- A head is not mistaken for the end of an indefinite length. -/
lemma ne_stop_of_isHead {major n : ℕ} {h : List UInt8} (isHead : IsHead major n h) (rest : List UInt8) :
    ∃ b tail, h ++ rest = b :: tail ∧ b ≠ stop := by
  cases h with
  | nil => cases isHead
  | cons initial b =>
    refine ⟨initial, b ++ rest, rfl, fun e => ?_⟩
    subst e
    cases isHead

/-- A well formed item does not begin with the stop byte. -/
lemma Wf.ne_stop {t : Item} (wf : t.Wf) (rest : List UInt8) :
    ∃ b tail, t.bytes ++ rest = b :: tail ∧ b ≠ stop := by
  have open_ {major : ℕ} (small : major = 4 ∨ major = 5) {h : Option (List UInt8)} {n : ℕ}
      (isHead : ∀ h' ∈ h, IsHead major n h') (rest : List UInt8) :
      ∃ b tail, opening major h ++ rest = b :: tail ∧ b ≠ stop := by
    cases h with
    | some h => exact ne_stop_of_isHead (isHead h rfl) rest
    | none =>
      refine ⟨indefinite major, rest, rfl, ?_⟩
      rcases small with rfl | rfl <;> decide
  cases t with
  | scalar major n h =>
    rw [Wf] at wf
    exact ne_stop_of_isHead wf.2.1 rest
  | string major h content =>
    rw [Wf] at wf
    rw [bytes, List.append_assoc]
    exact ne_stop_of_isHead wf.2 _
  | chunks major cs =>
    rw [Wf] at wf
    refine ⟨indefinite major, chunkBytes cs ++ [stop] ++ rest, rfl, ?_⟩
    have small := wf.1
    simp only [List.mem_cons, List.not_mem_nil, or_false] at small
    rcases small with rfl | rfl <;> decide
  | array h xs =>
    rw [Wf] at wf
    rw [bytes, List.append_assoc]
    exact open_ (.inl rfl) wf.1 _
  | map h fields =>
    rw [Wf] at wf
    rw [bytes, List.append_assoc]
    exact open_ (.inr rfl) wf.1 _
  | tag number h x =>
    rw [Wf] at wf
    rw [bytes, List.append_assoc]
    exact ne_stop_of_isHead wf.1 _

/-- A well formed item has bytes. -/
lemma Wf.length_pos {t : Item} (wf : t.Wf) : 0 < t.bytes.length := by
  obtain ⟨b, tail, e, -⟩ := wf.ne_stop []
  rw [List.append_nil] at e
  rw [e]
  simp

/-- How many entries an array or a map says it has. -/
def count (h : Option (List UInt8)) (n : ℕ) : Option ℕ := h.map fun _ => n

/-- The opening of a container is split off. -/
lemma splitHead_opening {major n : ℕ} (small : major < 8) {h : Option (List UInt8)}
    (isHead : ∀ h' ∈ h, IsHead major n h') (rest : List UInt8) :
    splitHead (opening major h ++ rest) = some (major, count h n, opening major h, rest) := by
  cases h with
  | some h => exact splitHead_append (isHead h rfl) rest
  | none => exact splitHead_indefinite small rest

/-- The opening of a container has bytes. -/
lemma length_opening_pos {major n : ℕ} {h : Option (List UInt8)} (isHead : ∀ h' ∈ h, IsHead major n h') :
    0 < (opening major h).length := by
  cases h with
  | some h => exact length_pos_of_isHead (isHead h rfl)
  | none => exact Nat.one_pos

def readChunks (major : ℕ) : ℕ → List UInt8 → Option (List (List UInt8 × List UInt8) × List UInt8)
  | 0, _ => none
  | _ + 1, [] => none
  | fuel + 1, b :: rest =>
    if b = stop then some ([], rest)
    else do
      let (major', arg, h, rest) ← splitHead (b :: rest)
      guard (major' = major)
      let n ← arg
      let (content, rest) ← takeBytes n rest
      let (cs, rest) ← readChunks major fuel rest
      some ((h, content) :: cs, rest)

mutual

def readItem : ℕ → List UInt8 → Option (Item × List UInt8)
  | 0, _ => none
  | fuel + 1, b => do
    let (major, arg, h, rest) ← splitHead b
    if major ∈ [0, 1, 7] then
      let n ← arg
      guard (major = 7 → h.length = 2 → 32 ≤ n)
      some (.scalar major n h, rest)
    else if major ∈ [2, 3] then
      match arg with
      | some n =>
        let (content, rest) ← takeBytes n rest
        some (.string major h content, rest)
      | none =>
        let (cs, rest) ← readChunks major fuel rest
        some (.chunks major cs, rest)
    else if major = 6 then
      let n ← arg
      let (x, rest) ← readItem fuel rest
      some (.tag n h x, rest)
    else if major = 4 then
      let (xs, rest) ← readItems fuel arg rest
      some (.array (arg.map fun _ => h) xs, rest)
    else
      let (fields, rest) ← readFields fuel arg rest
      some (.map (arg.map fun _ => h) fields, rest)

def readItems : ℕ → Option ℕ → List UInt8 → Option (List Item × List UInt8)
  | 0, _, _ => none
  | _ + 1, some 0, b => some ([], b)
  | fuel + 1, some (n + 1), b => do
    let (x, b) ← readItem fuel b
    let (xs, b) ← readItems fuel (some n) b
    some (x :: xs, b)
  | _ + 1, none, [] => none
  | fuel + 1, none, c :: b =>
    if c = stop then some ([], b)
    else do
      let (x, b) ← readItem fuel (c :: b)
      let (xs, b) ← readItems fuel none b
      some (x :: xs, b)

def readFields : ℕ → Option ℕ → List UInt8 → Option (List (Item × Item) × List UInt8)
  | 0, _, _ => none
  | _ + 1, some 0, b => some ([], b)
  | fuel + 1, some (n + 1), b => do
    let (k, b) ← readItem fuel b
    let (v, b) ← readItem fuel b
    let (fields, b) ← readFields fuel (some n) b
    some ((k, v) :: fields, b)
  | _ + 1, none, [] => none
  | fuel + 1, none, c :: b =>
    if c = stop then some ([], b)
    else do
      let (k, b) ← readItem fuel (c :: b)
      let (v, b) ← readItem fuel b
      let (fields, b) ← readFields fuel none b
      some ((k, v) :: fields, b)

end

/-- The tree of a well-formed byte string. -/
def read (b : List UInt8) : Option Item :=
  match readItem (2 * b.length) b with
  | some (t, []) => some t
  | _ => none

/-- Chunks are read back up to the stop byte. -/
lemma readChunks_chunkBytes {major : ℕ} : ∀ (cs : List (List UInt8 × List UInt8)) (fuel : ℕ)
    (rest : List UInt8), (∀ c ∈ cs, IsHead major c.2.length c.1) → cs.length < fuel →
      readChunks major fuel (chunkBytes cs ++ (stop :: rest)) = some (cs, rest)
  | _, 0, _, _, enough => by cases enough
  | [], fuel + 1, rest, _, _ => by
    change readChunks major (fuel + 1) (stop :: rest) = _
    rw [readChunks, if_pos rfl]
  | (h, content) :: cs, fuel + 1, rest, heads, enough => by
    have isHead : IsHead major content.length h := heads _ List.mem_cons_self
    have later := readChunks_chunkBytes cs fuel rest (fun c hc => heads c (List.mem_cons_of_mem _ hc))
      (by simpa using enough)
    have all : chunkBytes ((h, content) :: cs) ++ (stop :: rest) =
        h ++ (content ++ (chunkBytes cs ++ (stop :: rest))) := by
      simp [chunkBytes]
    obtain ⟨b, tail, e, ne⟩ := ne_stop_of_isHead isHead (content ++ (chunkBytes cs ++ (stop :: rest)))
    rw [all, e, readChunks, if_neg ne, ← e, splitHead_append isHead]
    simp only [Option.bind_eq_bind, Option.bind_some, guard, if_true, Option.pure_def, takeBytes_append, later]

/-- There are no more chunks than bytes. -/
lemma length_le_chunkBytes {major : ℕ} {cs : List (List UInt8 × List UInt8)}
    (heads : ∀ c ∈ cs, IsHead major c.2.length c.1) : cs.length ≤ (chunkBytes cs).length := by
  induction cs with
  | nil => exact Nat.zero_le _
  | cons c cs ih =>
    have pos := length_pos_of_isHead (heads c List.mem_cons_self)
    have later := ih fun c hc => heads c (List.mem_cons_of_mem _ hc)
    have split : chunkBytes (c :: cs) = c.1 ++ c.2 ++ chunkBytes cs := by simp [chunkBytes]
    rw [split, List.length_append, List.length_append, List.length_cons]
    omega

mutual

/-- What was encoded is read back, and nothing after it. -/
theorem readItem_bytes : ∀ (t : Item) (fuel : ℕ) (rest : List UInt8), t.Wf → 2 * t.bytes.length ≤ fuel →
    readItem fuel (t.bytes ++ rest) = some (t, rest)
  | t, 0, _, wf, enough => by
    have := wf.length_pos
    omega
  | .scalar major n h, fuel + 1, rest, wf, _ => by
    rw [Wf] at wf
    obtain ⟨kind, isHead, simple⟩ := wf
    rw [bytes, readItem, splitHead_append isHead]
    simp only [Option.bind_eq_bind, Option.bind_some]
    rw [if_pos kind, guard, if_pos simple]
    rfl
  | .string major h content, fuel + 1, rest, wf, _ => by
    rw [Wf] at wf
    obtain ⟨kind, isHead⟩ := wf
    have other : major ∉ [0, 1, 7] := by
      simp only [List.mem_cons, List.not_mem_nil, or_false] at kind ⊢
      omega
    rw [bytes, List.append_assoc, readItem, splitHead_append isHead]
    simp only [Option.bind_eq_bind, Option.bind_some]
    rw [if_neg other, if_pos kind, takeBytes_append]
    rfl
  | .chunks major cs, fuel + 1, rest, wf, enough => by
    rw [Wf] at wf
    obtain ⟨kind, heads⟩ := wf
    have other : major ∉ [0, 1, 7] ∧ major < 8 := by
      simp only [List.mem_cons, List.not_mem_nil, or_false] at kind ⊢
      omega
    have long := length_le_chunkBytes heads
    rw [bytes, List.length_cons, List.length_append] at enough
    have later := readChunks_chunkBytes cs fuel rest heads (by omega)
    rw [bytes, List.cons_append, List.append_assoc, readItem, splitHead_indefinite other.2]
    simp only [Option.bind_eq_bind, Option.bind_some]
    rw [if_neg other.1, if_pos kind, List.singleton_append, later]
    rfl
  | .array h xs, fuel + 1, rest, wf, enough => by
    rw [Wf] at wf
    have pos := length_opening_pos wf.1
    rw [bytes, List.length_append, List.length_append] at enough
    have later := readItems_bytes xs fuel h rest wf.2 (by omega)
    rw [bytes, List.append_assoc, List.append_assoc, readItem, splitHead_opening (by decide) wf.1]
    simp only [Option.bind_eq_bind, Option.bind_some]
    rw [if_neg (by decide), if_neg (by decide), if_neg (by decide), if_pos trivial, later]
    cases h <;> rfl
  | .map h fields, fuel + 1, rest, wf, enough => by
    rw [Wf] at wf
    have pos := length_opening_pos wf.1
    rw [bytes, List.length_append, List.length_append] at enough
    have later := readFields_bytes fields fuel h rest wf.2 (by omega)
    rw [bytes, List.append_assoc, List.append_assoc, readItem, splitHead_opening (by decide) wf.1]
    simp only [Option.bind_eq_bind, Option.bind_some]
    rw [if_neg (by decide), if_neg (by decide), if_neg (by decide), if_neg (by decide), later]
    cases h <;> rfl
  | .tag number h x, fuel + 1, rest, wf, enough => by
    rw [Wf] at wf
    have pos := length_pos_of_isHead wf.1
    rw [bytes, List.length_append] at enough
    have later := readItem_bytes x fuel rest wf.2 (by omega)
    rw [bytes, List.append_assoc, readItem, splitHead_append wf.1]
    simp only [Option.bind_eq_bind, Option.bind_some]
    rw [if_neg (by decide), if_neg (by decide), if_pos trivial, later]
    rfl

/-- Items are read back one by one. -/
theorem readItems_bytes : ∀ (xs : List Item) (fuel : ℕ) (h : Option (List UInt8)) (rest : List UInt8),
    WfItems xs → 2 * (itemsBytes xs).length + 1 ≤ fuel →
      readItems fuel (count h xs.length) (itemsBytes xs ++ (closing h ++ rest)) = some (xs, rest)
  | _, 0, _, _, _, enough => by omega
  | [], fuel + 1, h, rest, _, _ => by
    cases h with
    | some h => rfl
    | none =>
      change readItems (fuel + 1) none (stop :: rest) = _
      rw [readItems, if_pos rfl]
  | x :: xs, fuel + 1, h, rest, wf, enough => by
    rw [WfItems] at wf
    have pos := wf.1.length_pos
    rw [itemsBytes, List.length_append] at enough
    have first := readItem_bytes x fuel (itemsBytes xs ++ (closing h ++ rest)) wf.1 (by omega)
    have later := readItems_bytes xs fuel h rest wf.2 (by omega)
    rw [itemsBytes, List.append_assoc]
    cases h with
    | some h =>
      change readItems (fuel + 1) (some (xs.length + 1)) _ = _
      rw [readItems, first]
      simp only [Option.bind_eq_bind, Option.bind_some]
      exact congrArg (Option.bind · _) later
    | none =>
      obtain ⟨b, tail, e, ne⟩ := wf.1.ne_stop (itemsBytes xs ++ (closing none ++ rest))
      change readItems (fuel + 1) none _ = _
      rw [e, readItems, if_neg ne, ← e, first]
      simp only [Option.bind_eq_bind, Option.bind_some]
      exact congrArg (Option.bind · _) later

/-- Fields are read back one by one. -/
theorem readFields_bytes : ∀ (fields : List (Item × Item)) (fuel : ℕ) (h : Option (List UInt8))
    (rest : List UInt8), WfFields fields → 2 * (fieldsBytes fields).length + 1 ≤ fuel →
      readFields fuel (count h fields.length) (fieldsBytes fields ++ (closing h ++ rest)) =
        some (fields, rest)
  | fields, 0, _, _, _, enough => by omega
  | [], fuel + 1, h, rest, _, _ => by
    cases h with
    | some h => rfl
    | none =>
      change readFields (fuel + 1) none (stop :: rest) = _
      rw [readFields, if_pos rfl]
  | (k, v) :: fields, fuel + 1, h, rest, wf, enough => by
    rw [WfFields] at wf
    have posk := wf.1.length_pos
    have posv := wf.2.1.length_pos
    rw [fieldsBytes, List.length_append, List.length_append] at enough
    have key := readItem_bytes k fuel (v.bytes ++ (fieldsBytes fields ++ (closing h ++ rest))) wf.1 (by omega)
    have value := readItem_bytes v fuel (fieldsBytes fields ++ (closing h ++ rest)) wf.2.1 (by omega)
    have later := readFields_bytes fields fuel h rest wf.2.2 (by omega)
    rw [fieldsBytes, List.append_assoc, List.append_assoc]
    cases h with
    | some h =>
      change readFields (fuel + 1) (some (fields.length + 1)) _ = _
      rw [readFields, key]
      simp only [Option.bind_eq_bind, Option.bind_some, value]
      exact congrArg (Option.bind · _) later
    | none =>
      obtain ⟨b, tail, e, ne⟩ := wf.1.ne_stop (v.bytes ++ (fieldsBytes fields ++ (closing none ++ rest)))
      change readFields (fuel + 1) none _ = _
      rw [e, readFields, if_neg ne, ← e, key]
      simp only [Option.bind_eq_bind, Option.bind_some, value]
      exact congrArg (Option.bind · _) later

end

/-- A well-formed byte string has one tree. -/
theorem read_bytes {t : Item} (wf : t.Wf) : read t.bytes = some t := by
  have whole := readItem_bytes t (2 * t.bytes.length) [] wf le_rfl
  rw [List.append_nil] at whole
  rw [read, whole]

end Item

end CLL.Cbor
