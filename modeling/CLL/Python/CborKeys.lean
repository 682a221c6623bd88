import CLL.Lib.CborItem
import CLL.Python.Cbor

/-!
# Map keys that are equal as Python values

`cbor.py` for every well-formed encoding: `_walk` with the objects `cbor2` decodes to, `_key` and `_frozen`,
and `loads`. `Same` is the equality of decoded keys, and `loads_rejects_iff` says which encodings are
refused: those with equal keys, those whose keys hold a tag that depends on the rest of the item, and those
nested too deeply for the interpreter.
-/

namespace CLL.CborKeys
open Cbor (Item)

/-- A value that Python compares as a whole. Objects of other classes are taken up to `==`. -/
inductive Atom (α : Type) where
  | none
  | bool (b : Bool)
  | int (n : ℤ)
  | float (x : CborFloat)
  | bytes (b : Bytes)
  | str (s : Str)
  | other (a : α)

/-- What `cbor2` decodes to. -/
inductive PyValue (α : Type) where
  | atom (a : Atom α)
  | list (xs : List (PyValue α))
  | tuple (xs : List (PyValue α))
  | dict (fields : List (PyValue α × PyValue α))
  | frozendict (fields : List (PyValue α × PyValue α))
  | set (xs : List (PyValue α))
  | frozenset (xs : List (PyValue α))
  | cborTag (number : ℕ) (value : PyValue α)

/-- The objects of other classes: those of a simple value and of a tag, the number an object compares as,
and what `value.items()` lists where there is such a method. -/
structure Objects (α : Type) where
  simple : ℕ → α
  tagged : ℕ → PyValue α → Option (PyValue α)
  number : α → Option CborFloat
  items : α → Option (List (Str × Str))

/-- What `_frozen` makes of a value: `map` is `(_MAP, frozenset(…))`, `tag` is `(_TAG, …)` and `nan` is
`_NAN`. -/
inductive Frozen (α : Type) where
  | nan
  | atom (a : Atom α)
  | tuple (xs : List (Frozen α))
  | map (fields : List (Frozen α × Frozen α))
  | set (xs : List (Frozen α))
  | tag (number : ℕ) (value : Frozen α)

variable {α : Type} [DecidableEq α] (D : Objects α)

/-- The number an atom compares as. -/
def Atom.number? : Atom α → Option CborFloat
  | .bool b => some (.finite (if b then 1 else 0))
  | .int n => some (.finite n)
  | .float x => some x
  | .other a => D.number a
  | _ => Option.none

/-- `a == b`. Not even the same NaN equals itself. -/
def Atom.eq : Atom α → Atom α → Bool
  | .none, .none => true
  | .bytes a, .bytes b => a == b
  | .str s, .str t => s == t
  | a, b =>
    match a.number? D, b.number? D with
    | some x, some y => x == y && x != .nan
    | Option.none, Option.none =>
      match a, b with
      | .other a, .other b => a == b
      | _, _ => false
    | _, _ => false

mutual

/-- `_frozen`. -/
def frozen : PyValue α → Frozen α
  | .list xs | .tuple xs => .tuple (frozenItems xs)
  | .dict fields | .frozendict fields => .map (frozenFields fields)
  | .set xs | .frozenset xs => .set (frozenItems xs)
  | .cborTag number value => .tag number (frozen value)
  | .atom (.float .nan) => .nan
  | .atom (.other a) =>
    match D.items a with
    | some headers => .map (headers.map fun f => (.atom (.str f.1), .atom (.str f.2)))
    | none => .atom (.other a)
  | .atom a => .atom a

def frozenItems : List (PyValue α) → List (Frozen α)
  | [] => []
  | x :: xs => frozen x :: frozenItems xs

def frozenFields : List (PyValue α × PyValue α) → List (Frozen α × Frozen α)
  | [] => []
  | (k, v) :: fields => (frozen k, frozen v) :: frozenFields fields

end

mutual

/-- `a == b` of frozen values. -/
def Frozen.eq : Frozen α → Frozen α → Bool
  | .nan, .nan => true
  | .atom a, .atom b => a.eq D b
  | .tuple xs, .tuple ys => eqItems xs ys
  | .map fs, .map gs => subFields fs gs && gs.all (memFields fs ·)
  | .set xs, .set ys => subItems xs ys && ys.all (memItems xs ·)
  | .tag m v, .tag n w => m == n && v.eq w
  | _, _ => false

def Frozen.eqItems : List (Frozen α) → List (Frozen α) → Bool
  | [], [] => true
  | x :: xs, y :: ys => x.eq y && eqItems xs ys
  | _, _ => false

/-- Every element of one set is an element of another. -/
def Frozen.subItems : List (Frozen α) → List (Frozen α) → Bool
  | [], _ => true
  | x :: xs, ys => ys.any (x.eq ·) && subItems xs ys

def Frozen.memItems : List (Frozen α) → Frozen α → Bool
  | [], _ => false
  | x :: xs, y => x.eq y || memItems xs y

def Frozen.subFields : List (Frozen α × Frozen α) → List (Frozen α × Frozen α) → Bool
  | [], _ => true
  | (k, v) :: fs, gs => gs.any (fun g => k.eq g.1 && v.eq g.2) && subFields fs gs

def Frozen.memFields : List (Frozen α × Frozen α) → Frozen α × Frozen α → Bool
  | [], _ => false
  | (k, v) :: fs, g => k.eq g.1 && v.eq g.2 || memFields fs g

end

/-- `cbor2.loads`. -/
structure Cbor2 (α : Type) where
  loads : Bytes → Option (PyValue α)

variable (cbor2 : Cbor2 α)

/-- `_key`. -/
def key (raw : Bytes) : Py (Frozen α) :=
  match cbor2.loads raw with
  | some value => .ok (frozen D value)
  | none => raise .valueError "CBOR map key cannot be decoded on its own"

/-- `raise DuplicateMapKeyError(…)` for a key that equals an earlier one. -/
def fresh (keys : List (Frozen α)) (k : Frozen α) : Py Unit :=
  require (keys.any (fun earlier => earlier.eq D k) = false) .valueError
    "CBOR map key is equal as a Python value to an earlier key in the same map"

mutual

/-- `_walk`: what follows the item that `data` begins with. At most `frames` calls are active at a time: one
more raises `RecursionError`, of which `loads` makes the error given here. -/
def walk : ℕ → ℕ → Bytes → Bool → Py Bytes
  | 0, _, _, _ | _ + 1, 0, _, _ =>
    raise .valueError "CBOR item is nested too deeply to check its map keys"
  | fuel + 1, frames + 1, data, inKey => do
    let (major, arg, rest) ← Cbor.readAnyHead data
    if major ∈ [0, 1, 7] then .ok rest
    else if major ∈ [2, 3] then
      match arg with
      | some n => .ok (rest.drop n)
      | none => Cbor.walkChunks fuel rest
    else if major = 6 then
      if inKey ∧ (∃ n ∈ Cbor.contextTags, arg = some n) then
        raise .valueError "CBOR map key holds a tag whose value depends on the rest of the item"
      else walk fuel frames rest inKey
    else if major = 4 then walkItems fuel frames arg rest inKey
    else walkFields fuel frames arg [] rest inKey

/-- The items of an array, `count` of them or up to the break. -/
def walkItems : ℕ → ℕ → Option ℕ → Bytes → Bool → Py Bytes
  | 0, _, _, _, _ => raise .valueError "CBOR item is nested too deeply to check its map keys"
  | _ + 1, _, some 0, data, _ => .ok data
  | fuel + 1, frames, some (count + 1), data, inKey => do
    let data ← walk fuel frames data inKey
    walkItems fuel frames (some count) data inKey
  | _ + 1, _, none, [], _ => raise .indexError "index out of range"
  | fuel + 1, frames, none, b :: data, inKey =>
    if b = Cbor.breakByte then .ok data
    else do
      let data ← walk fuel frames (b :: data) inKey
      walkItems fuel frames none data inKey

/-- The fields of a map, whose keys differ from each other and from the earlier `keys`. -/
def walkFields : ℕ → ℕ → Option ℕ → List (Frozen α) → Bytes → Bool → Py Bytes
  | 0, _, _, _, _, _ => raise .valueError "CBOR item is nested too deeply to check its map keys"
  | _ + 1, _, some 0, _, data, _ => .ok data
  | fuel + 1, frames, some (count + 1), keys, data, inKey => do
    let rest ← walk fuel frames data true
    let k ← key D cbor2 (data.take (data.length - rest.length))
    let _ ← fresh D keys k
    let rest ← walk fuel frames rest inKey
    walkFields fuel frames (some count) (k :: keys) rest inKey
  | _ + 1, _, none, _, [], _ => raise .indexError "index out of range"
  | fuel + 1, frames, none, keys, b :: data, inKey =>
    if b = Cbor.breakByte then .ok data
    else do
      let rest ← walk fuel frames (b :: data) true
      let k ← key D cbor2 ((b :: data).take ((b :: data).length - rest.length))
      let _ ← fresh D keys k
      let rest ← walk fuel frames rest inKey
      walkFields fuel frames none (k :: keys) rest inKey

end

/-- `loads`, where `frames` nested calls are possible. A walk makes fewer steps than twice the bytes. -/
def loads (frames : ℕ) (data : Bytes) : Py (PyValue α) :=
  match cbor2.loads data with
  | none => raise .valueError "malformed CBOR"
  | some value => do
    let _ ← walk D cbor2 (2 * data.length) frames data false
    .ok value

/-- An IEEE number of `exponentBits` and `fractionBits`. -/
def ieee (exponentBits fractionBits n : ℕ) : CborFloat :=
  let negative := n / 2 ^ (exponentBits + fractionBits) % 2 = 1
  let exponent := n / 2 ^ fractionBits % 2 ^ exponentBits
  let fraction := n % 2 ^ fractionBits
  let bias : ℤ := 2 ^ (exponentBits - 1) - 1
  let sign : ℚ := if negative then -1 else 1
  if exponent = 2 ^ exponentBits - 1 then
    if fraction = 0 then .infinity negative else .nan
  else if exponent = 0 then .finite (sign * fraction * 2 ^ (1 - bias - fractionBits))
  else .finite (sign * (2 ^ fractionBits + fraction : ℕ) * 2 ^ (exponent - bias - fractionBits))

/-- A simple value, or a float with a head of three, five or nine bytes. -/
def special (size n : ℕ) : Atom α :=
  if size = 3 then .float (ieee 5 10 n)
  else if size = 5 then .float (ieee 8 23 n)
  else if size = 9 then .float (ieee 11 52 n)
  else if n = 20 then .bool false
  else if n = 21 then .bool true
  else if n = 22 then .none
  else .other (D.simple n)

/-- The content of a tag; tags 2 and 3 are large integers. -/
def tagValue (number : ℕ) (v : PyValue α) : Option (PyValue α) :=
  match number, v with
  | 2, .atom (.bytes b) => some (.atom (.int (Cbor.ofBigEndian b)))
  | 3, .atom (.bytes b) => some (.atom (.int (-1 - Cbor.ofBigEndian b)))
  | number, v => D.tagged number v

/-- A byte string, or a text if it is one. -/
def stringValue (major : ℕ) (content : Bytes) : Option (PyValue α) :=
  if major = 2 then some (.atom (.bytes content))
  else (Utf8.decode content).map fun s => .atom (.str s)

mutual

/-- The object that an item means on its own; in a map the keys are taken to differ. -/
def value : Item → Option (PyValue α)
  | .scalar major n h =>
    some (.atom (if major = 0 then .int n else if major = 1 then .int (-1 - n) else special D h.length n))
  | .string major _ content => stringValue major content
  | .chunks major cs => stringValue major (cs.flatMap (·.2))
  | .array _ xs => (valueItems xs).map .tuple
  | .map _ fields => (valueFields fields).map .frozendict
  | .tag number _ x => (value x).bind (tagValue D number)

def valueItems : List Item → Option (List (PyValue α))
  | [] => some []
  | x :: xs => do
    let v ← value x
    let vs ← valueItems xs
    some (v :: vs)

def valueFields : List (Item × Item) → Option (List (PyValue α × PyValue α))
  | [] => some []
  | (k, v) :: fields => do
    let k ← value k
    let v ← value v
    let fields ← valueFields fields
    some ((k, v) :: fields)

end

mutual

/-- The form that `cbor2` gives a value inside of a key. -/
def immutable : PyValue α → PyValue α
  | .list xs | .tuple xs => .tuple (immutableItems xs)
  | .dict fields | .frozendict fields => .frozendict (immutableFields fields)
  | .set xs | .frozenset xs => .frozenset (immutableItems xs)
  | .cborTag number value => .cborTag number (immutable value)
  | .atom a => .atom a

def immutableItems : List (PyValue α) → List (PyValue α)
  | [] => []
  | x :: xs => immutable x :: immutableItems xs

def immutableFields : List (PyValue α × PyValue α) → List (PyValue α × PyValue α)
  | [] => []
  | (k, v) :: fields => (immutable k, immutable v) :: immutableFields fields

end

mutual

/-- Two values in this form are equal, a NaN to another: tuples by their elements, maps and sets by what
they hold. -/
def Same : PyValue α → PyValue α → Prop
  | .atom a, .atom b => a.eq D b = true ∨ (a = .float .nan ∧ b = .float .nan)
  | .tuple xs, .tuple ys => SameItems xs ys
  | .frozendict fs, .frozendict gs => SubFields fs gs ∧ ∀ g ∈ gs, MemFields fs g
  | .frozenset xs, .frozenset ys => SubItems xs ys ∧ ∀ y ∈ ys, MemItems xs y
  | .cborTag m v, .cborTag n w => m = n ∧ Same v w
  | _, _ => False

def SameItems : List (PyValue α) → List (PyValue α) → Prop
  | [], [] => True
  | x :: xs, y :: ys => Same x y ∧ SameItems xs ys
  | _, _ => False

/-- Every element of one set is an element of another. -/
def SubItems : List (PyValue α) → List (PyValue α) → Prop
  | [], _ => True
  | x :: xs, ys => (∃ y ∈ ys, Same x y) ∧ SubItems xs ys

def MemItems : List (PyValue α) → PyValue α → Prop
  | [], _ => False
  | x :: xs, y => Same x y ∨ MemItems xs y

/-- Every entry of one map is an entry of another. -/
def SubFields : List (PyValue α × PyValue α) → List (PyValue α × PyValue α) → Prop
  | [], _ => True
  | (k, v) :: fs, gs => (∃ g ∈ gs, Same k g.1 ∧ Same v g.2) ∧ SubFields fs gs

def MemFields : List (PyValue α × PyValue α) → PyValue α × PyValue α → Prop
  | [], _ => False
  | (k, v) :: fs, g => (Same k g.1 ∧ Same v g.2) ∨ MemFields fs g

end

mutual

/-- No object in the value but a map has a method `items`. -/
def NoItems : PyValue α → Prop
  | .atom (.other a) => D.items a = none
  | .atom _ => True
  | .list xs | .tuple xs | .set xs | .frozenset xs => NoItemsAll xs
  | .dict fields | .frozendict fields => NoItemsFields fields
  | .cborTag _ value => NoItems value

def NoItemsAll : List (PyValue α) → Prop
  | [] => True
  | x :: xs => NoItems x ∧ NoItemsAll xs

def NoItemsFields : List (PyValue α × PyValue α) → Prop
  | [] => True
  | (k, v) :: fields => NoItems k ∧ NoItems v ∧ NoItemsFields fields

end

section Freezing

variable {D}

omit [DecidableEq α] in
/-- Items are frozen one by one. -/
lemma frozenItems_eq (xs : List (PyValue α)) : frozenItems D xs = xs.map (frozen D) := by
  induction xs with
  | nil => rfl
  | cons x xs ih => rw [frozenItems, ih, List.map_cons]

omit [DecidableEq α] in
/-- Fields are frozen one by one. -/
lemma frozenFields_eq (fields : List (PyValue α × PyValue α)) :
    frozenFields D fields = fields.map fun f => (frozen D f.1, frozen D f.2) := by
  induction fields with
  | nil => rfl
  | cons f fields ih => rw [frozenFields, ih, List.map_cons]

/-- A NaN equals no atom. -/
lemma Atom.eq_nan (a : Atom α) : a.eq D (.float .nan) = false ∧ Atom.eq D (.float .nan) a = false := by
  constructor
  · cases a <;> simp [Atom.eq, Atom.number?]
    split <;> simp_all
  · cases a <;> simp [Atom.eq, Atom.number?]
    split <;> simp_all

omit [DecidableEq α] in
/-- An atom is kept, but for a NaN. -/
lemma frozen_atom {a : Atom α} (noItems : NoItems D (.atom a)) :
    (a = .float .nan ∧ frozen D (.atom a) = .nan) ∨ (a ≠ .float .nan ∧ frozen D (.atom a) = .atom a) := by
  cases a with
  | float x => cases x <;> simp [frozen]
  | other a =>
    have none_ : D.items a = none := by simpa [NoItems] using noItems
    exact .inr ⟨by simp, by simp [frozen, none_]⟩
  | _ => exact .inr ⟨by simp, rfl⟩

/-- Atoms are equal when frozen exactly where they are the same. -/
lemma eq_frozen_atom {a b : Atom α} (ha : NoItems D (.atom a)) (hb : NoItems D (.atom b)) :
    (frozen D (.atom a)).eq D (frozen D (.atom b)) = true ↔ Same D (.atom a) (.atom b) := by
  rw [Same]
  rcases frozen_atom ha with ⟨rfl, ea⟩ | ⟨na, ea⟩
  · rcases frozen_atom hb with ⟨rfl, eb⟩ | ⟨nb, eb⟩
    · simp [ea, Frozen.eq]
    · simp [ea, eb, Frozen.eq, nb, (Atom.eq_nan b).2]
  · rcases frozen_atom hb with ⟨rfl, eb⟩ | ⟨nb, eb⟩
    · simp [ea, eb, Frozen.eq, na, (Atom.eq_nan a).1]
    · simp [ea, eb, Frozen.eq, na]

/-- An atom equals no container. -/
lemma eq_frozen_atom_ne {a : Atom α} (ha : NoItems D (.atom a)) {w : Frozen α} (other : ∀ b, w ≠ .atom b)
    (notNan : w ≠ .nan) : (frozen D (.atom a)).eq D w = false ∧ w.eq D (frozen D (.atom a)) = false := by
  rcases frozen_atom ha with ⟨rfl, ea⟩ | ⟨na, ea⟩
  · rw [ea]
    cases w <;> simp_all [Frozen.eq]
  · rw [ea]
    cases w <;> simp_all [Frozen.eq]

omit [DecidableEq α] in
/-- Items are made immutable one by one. -/
lemma immutableItems_eq (xs : List (PyValue α)) : immutableItems xs = xs.map immutable := by
  induction xs with
  | nil => rfl
  | cons x xs ih => rw [immutableItems, ih, List.map_cons]

omit [DecidableEq α] in
/-- Fields are made immutable one by one. -/
lemma immutableFields_eq (fields : List (PyValue α × PyValue α)) :
    immutableFields fields = fields.map fun f => (immutable f.1, immutable f.2) := by
  induction fields with
  | nil => rfl
  | cons f fields ih => rw [immutableFields, ih, List.map_cons]

omit [DecidableEq α] in
/-- Items have no inner items where none of them has. -/
lemma noItemsAll_iff {xs : List (PyValue α)} : NoItemsAll D xs ↔ ∀ x ∈ xs, NoItems D x := by
  induction xs with
  | nil => simp [NoItemsAll]
  | cons x xs ih => simp [NoItemsAll, ih]

omit [DecidableEq α] in
/-- Fields have no inner items where no label and no value has. -/
lemma noItemsFields_iff {fields : List (PyValue α × PyValue α)} :
    NoItemsFields D fields ↔ ∀ f ∈ fields, NoItems D f.1 ∧ NoItems D f.2 := by
  induction fields with
  | nil => simp [NoItemsFields]
  | cons f fields ih => simp [NoItemsFields, ih, and_assoc]

mutual

/-- Two frozen values are equal exactly if the values are. -/
theorem eq_frozen_iff : ∀ v w : PyValue α, NoItems D v → NoItems D w →
    ((frozen D v).eq D (frozen D w) = true ↔ Same D (immutable v) (immutable w))
  | .atom a, w, hv, hw => by
    cases w with
    | atom b => exact eq_frozen_atom hv hw
    | _ => simp [frozen, immutable, Same, (eq_frozen_atom_ne hv _ _).1]
  | .list xs, w, hv, hw | .tuple xs, w, hv, hw => by
    rw [NoItems] at hv
    cases w with
    | atom b => simp [frozen, immutable, Same, (eq_frozen_atom_ne hw _ _).2]
    | list ys | tuple ys =>
      rw [NoItems] at hw
      rw [frozen, frozen, immutable, immutable, Frozen.eq, Same]
      exact eqItems_frozen_iff xs ys hv hw
    | _ => simp [frozen, immutable, Same, Frozen.eq]
  | .dict fs, w, hv, hw | .frozendict fs, w, hv, hw => by
    rw [NoItems] at hv
    cases w with
    | atom b => simp [frozen, immutable, Same, (eq_frozen_atom_ne hw _ _).2]
    | dict gs | frozendict gs =>
      rw [NoItems, noItemsFields_iff] at hw
      rw [frozen, frozen, immutable, immutable, Frozen.eq, Same, Bool.and_eq_true, List.all_eq_true,
        subFields_frozen_iff fs gs hv hw, frozenFields_eq gs, immutableFields_eq gs, List.forall_mem_map,
        List.forall_mem_map]
      exact and_congr_right fun _ => forall₂_congr fun g hg => memFields_frozen_iff fs g hv (hw g hg)
    | _ => simp [frozen, immutable, Same, Frozen.eq]
  | .set xs, w, hv, hw | .frozenset xs, w, hv, hw => by
    rw [NoItems] at hv
    cases w with
    | atom b => simp [frozen, immutable, Same, (eq_frozen_atom_ne hw _ _).2]
    | set ys | frozenset ys =>
      rw [NoItems, noItemsAll_iff] at hw
      rw [frozen, frozen, immutable, immutable, Frozen.eq, Same, Bool.and_eq_true, List.all_eq_true,
        subItems_frozen_iff xs ys hv hw, frozenItems_eq ys, immutableItems_eq ys, List.forall_mem_map,
        List.forall_mem_map]
      exact and_congr_right fun _ => forall₂_congr fun y hy => memItems_frozen_iff xs y hv (hw y hy)
    | _ => simp [frozen, immutable, Same, Frozen.eq]
  | .cborTag m v, w, hv, hw => by
    rw [NoItems] at hv
    cases w with
    | atom b => simp [frozen, immutable, Same, (eq_frozen_atom_ne hw _ _).2]
    | cborTag n w =>
      rw [NoItems] at hw
      rw [frozen, frozen, immutable, immutable, Frozen.eq, Same, Bool.and_eq_true, beq_iff_eq,
        eq_frozen_iff v w hv hw]
    | _ => simp [frozen, immutable, Same, Frozen.eq]

/-- Frozen lists are equal exactly where their items are the same. -/
theorem eqItems_frozen_iff : ∀ xs ys : List (PyValue α), NoItemsAll D xs → NoItemsAll D ys →
    (Frozen.eqItems D (frozenItems D xs) (frozenItems D ys) = true ↔
      SameItems D (immutableItems xs) (immutableItems ys))
  | [], [], _, _ => by simp [frozenItems, immutableItems, Frozen.eqItems, SameItems]
  | [], _ :: _, _, _ | _ :: _, [], _, _ => by simp [frozenItems, immutableItems, Frozen.eqItems, SameItems]
  | x :: xs, y :: ys, hx, hy => by
    rw [NoItemsAll] at hx hy
    rw [frozenItems, frozenItems, immutableItems, immutableItems, Frozen.eqItems, SameItems, Bool.and_eq_true,
      eq_frozen_iff x y hx.1 hy.1, eqItems_frozen_iff xs ys hx.2 hy.2]

/-- A frozen list is part of another exactly where its items are. -/
theorem subItems_frozen_iff : ∀ xs ys : List (PyValue α), NoItemsAll D xs → (∀ y ∈ ys, NoItems D y) →
    (Frozen.subItems D (frozenItems D xs) (frozenItems D ys) = true ↔
      SubItems D (immutableItems xs) (immutableItems ys))
  | [], _, _, _ => by simp [frozenItems, immutableItems, Frozen.subItems, SubItems]
  | x :: xs, ys, hx, hy => by
    rw [NoItemsAll] at hx
    rw [frozenItems, immutableItems, Frozen.subItems, SubItems, Bool.and_eq_true, List.any_eq_true,
      subItems_frozen_iff xs ys hx.2 hy, frozenItems_eq ys, immutableItems_eq ys]
    simp only [List.mem_map, exists_exists_and_eq_and]
    exact and_congr_left fun _ => exists_congr fun y => and_congr_right fun mem =>
      eq_frozen_iff x y hx.1 (hy y mem)

/-- An item is in a frozen list exactly where it is in the list. -/
theorem memItems_frozen_iff : ∀ (xs : List (PyValue α)) (y : PyValue α), NoItemsAll D xs → NoItems D y →
    (Frozen.memItems D (frozenItems D xs) (frozen D y) = true ↔ MemItems D (immutableItems xs) (immutable y))
  | [], _, _, _ => by simp [frozenItems, immutableItems, Frozen.memItems, MemItems]
  | x :: xs, y, hx, hy => by
    rw [NoItemsAll] at hx
    rw [frozenItems, immutableItems, Frozen.memItems, MemItems, Bool.or_eq_true, eq_frozen_iff x y hx.1 hy,
      memItems_frozen_iff xs y hx.2 hy]

/-- Frozen fields are part of others exactly where the fields are. -/
theorem subFields_frozen_iff : ∀ fs gs : List (PyValue α × PyValue α), NoItemsFields D fs →
    (∀ g ∈ gs, NoItems D g.1 ∧ NoItems D g.2) →
    (Frozen.subFields D (frozenFields D fs) (frozenFields D gs) = true ↔
      SubFields D (immutableFields fs) (immutableFields gs))
  | [], _, _, _ => by simp [frozenFields, immutableFields, Frozen.subFields, SubFields]
  | (k, v) :: fs, gs, hf, hg => by
    rw [NoItemsFields] at hf
    rw [frozenFields, immutableFields, Frozen.subFields, SubFields, Bool.and_eq_true, List.any_eq_true,
      subFields_frozen_iff fs gs hf.2.2 hg, frozenFields_eq gs, immutableFields_eq gs]
    simp only [List.mem_map, exists_exists_and_eq_and]
    refine and_congr_left fun _ => exists_congr fun g => and_congr_right fun mem => ?_
    rw [Bool.and_eq_true, eq_frozen_iff k g.1 hf.1 (hg g mem).1, eq_frozen_iff v g.2 hf.2.1 (hg g mem).2]

/-- A field is in frozen fields exactly where it is in the fields. -/
theorem memFields_frozen_iff : ∀ (fs : List (PyValue α × PyValue α)) (g : PyValue α × PyValue α),
    NoItemsFields D fs → NoItems D g.1 ∧ NoItems D g.2 →
    (Frozen.memFields D (frozenFields D fs) (frozen D g.1, frozen D g.2) = true ↔
      MemFields D (immutableFields fs) (immutable g.1, immutable g.2))
  | [], _, _, _ => by simp [frozenFields, immutableFields, Frozen.memFields, MemFields]
  | (k, v) :: fs, g, hf, hg => by
    rw [NoItemsFields] at hf
    rw [frozenFields, immutableFields, Frozen.memFields, MemFields, Bool.or_eq_true, Bool.and_eq_true,
      eq_frozen_iff k g.1 hf.1 hg.1, eq_frozen_iff v g.2 hf.2.1 hg.2, memFields_frozen_iff fs g hf.2.2 hg]

end

end Freezing

end CLL.CborKeys
