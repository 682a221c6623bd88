import CLL.Lib.Cbor
import CLL.Python.Value

/-!
# Decoding CBOR without losing keys

`cbor.py`: `loads` decodes an item with the package `cbor2` and walks its bytes to refuse a map whose
keys collide as Python values. What `cbor2` does is a parameter; `loads_encode` says that every item of
the deterministic encoding is accepted as it is.
-/

namespace CLL

/-- The functions of the package `cbor2`: `loads`, and `dumps` with `canonical=True`. -/
structure Cbor2 where
  loads : Bytes → Option Cbor
  dumps : Cbor → Option Bytes

/-- `cbor2` writes the deterministic encoding and reads it. -/
structure Cbor2.Lawful (cbor2 : Cbor2) : Prop where
  loads_encode : ∀ v : Cbor, v.Plain → v.fits = true → cbor2.loads v.encode = some v
  dumps_eq : ∀ (v : Cbor) (b : Bytes), v.Plain → cbor2.dumps v = some b →
    v.fits = true ∧ b = v.canonical.encode

namespace Cbor

/-- The number a `bool`, `int` or `float` compares as. -/
def number? : Cbor → Option CborFloat
  | .bool b => some (.finite (if b then 1 else 0))
  | .int n => some (.finite n)
  | .float x => some x
  | _ => none

mutual

/-- `_frozen(a) == _frozen(b)`: numbers by value, maps without regard to order, and one NaN. -/
def frozenEq : Cbor → Cbor → Bool
  | .null, .null => true
  | .str s, .str t => s == t
  | .bytes a, .bytes b => a == b
  | .array xs, .array ys => frozenEqItems xs ys
  | .map xs, .map ys => frozenSubset xs ys && ys.all (frozenMem xs ·)
  | .tag m v, .tag n w => m == n && frozenEq v w
  | .object i, .object j => i == j
  | a, b =>
    match a.number?, b.number? with
    | some x, some y => x == y
    | _, _ => false

def frozenEqItems : List Cbor → List Cbor → Bool
  | [], [] => true
  | x :: xs, y :: ys => frozenEq x y && frozenEqItems xs ys
  | _, _ => false

/-- Every pair of `xs` is one of `ys`. -/
def frozenSubset : List (Cbor × Cbor) → List (Cbor × Cbor) → Bool
  | [], _ => true
  | (k, v) :: xs, ys => ys.any (fun f => frozenEq k f.1 && frozenEq v f.2) && frozenSubset xs ys

/-- The pair `f` is one of `xs`. -/
def frozenMem : List (Cbor × Cbor) → Cbor × Cbor → Bool
  | [], _ => false
  | (k, v) :: xs, f => frozenEq k f.1 && frozenEq v f.2 || frozenMem xs f

end

/-- `bool(v)`. -/
def truthy : Cbor → Bool
  | .null => false
  | .bool b => b
  | .int n => n != 0
  | .float x => x != .finite 0
  | .bytes b => b != []
  | .str s => s != []
  | .array xs => !xs.isEmpty
  | .map fields => !fields.isEmpty
  | .tag _ _ | .object _ => true

/-- `d.get(label)`: the value of the field whose key equals the label. -/
def get? (fields : List (Cbor × Cbor)) (label : Cbor) : Option Cbor :=
  (fields.find? fun f => f.1.frozenEq label).map (·.2)

/-- `_head`: the major type, the argument, `None` for an indefinite length, and what follows the head. -/
def readAnyHead (data : Bytes) : Py (ℕ × Option ℕ × Bytes) :=
  match data with
  | [] => raise .indexError "index out of range"
  | initial :: rest =>
    let major := initial.toNat / 32
    let info := initial.toNat % 32
    if info < 24 then .ok (major, some info, rest)
    else if info = 31 then .ok (major, none, rest)
    else if info > 27 then raise .valueError s!"reserved additional information {info}"
    else
      match takeBytes (2 ^ (info - 24)) rest with
      | some (arg, rest) => .ok (major, some (ofBigEndian arg), rest)
      | none => raise .valueError "CBOR item is truncated"

/-- `_CONTEXT_TAGS`. -/
def contextTags : List ℕ := [25, 28, 29, 256]

/-- The byte an indefinite length ends with. -/
def breakByte : UInt8 := 0xFF

/-- The chunks of a string of indefinite length. -/
def walkChunks : ℕ → Bytes → Py Bytes
  | 0, _ => raise .valueError "CBOR item is nested too deeply to check its map keys"
  | _ + 1, [] => raise .indexError "index out of range"
  | fuel + 1, b :: data =>
    if b = breakByte then .ok data
    else do
      let (_, n, rest) ← readAnyHead (b :: data)
      match n with
      | some n => walkChunks fuel (rest.drop n)
      | none => raise .typeError "unsupported operand type(s) for +=: 'int' and 'NoneType'"

variable (cbor2 : Cbor2)

/-- `_key`. -/
def key (raw : Bytes) : Py Cbor :=
  match cbor2.loads raw with
  | some k => .ok k
  | none => raise .valueError "CBOR map key cannot be decoded on its own"

mutual

/-- `_walk`: what follows the item that `data` begins with. -/
def walk : ℕ → Bytes → Bool → Py Bytes
  | 0, _, _ => raise .valueError "CBOR item is nested too deeply to check its map keys"
  | fuel + 1, data, inKey => do
    let (major, arg, rest) ← readAnyHead data
    if major ∈ [0, 1, 7] then .ok rest
    else if major ∈ [2, 3] then
      match arg with
      | some n => .ok (rest.drop n)
      | none => walkChunks fuel rest
    else if major = 6 then
      if inKey ∧ (∃ n ∈ contextTags, arg = some n) then
        raise .valueError "CBOR map key holds a tag whose value depends on the rest of the item"
      else walk fuel rest inKey
    else if major = 4 then walkItems fuel arg rest inKey
    else walkFields fuel arg [] rest inKey

/-- The items of an array, `count` of them or up to the break. -/
def walkItems : ℕ → Option ℕ → Bytes → Bool → Py Bytes
  | 0, _, _, _ => raise .valueError "CBOR item is nested too deeply to check its map keys"
  | _ + 1, some 0, data, _ => .ok data
  | fuel + 1, some (count + 1), data, inKey => do
    let data ← walk fuel data inKey
    walkItems fuel (some count) data inKey
  | _ + 1, none, [], _ => raise .indexError "index out of range"
  | fuel + 1, none, b :: data, inKey =>
    if b = breakByte then .ok data
    else do
      let data ← walk fuel (b :: data) inKey
      walkItems fuel none data inKey

/-- The fields of a map, whose keys differ from each other and from the earlier `keys`. -/
def walkFields : ℕ → Option ℕ → List Cbor → Bytes → Bool → Py Bytes
  | 0, _, _, _, _ => raise .valueError "CBOR item is nested too deeply to check its map keys"
  | _ + 1, some 0, _, data, _ => .ok data
  | fuel + 1, some (count + 1), keys, data, inKey => do
    let rest ← walk fuel data true
    let k ← key cbor2 (data.take (data.length - rest.length))
    require (keys.any (frozenEq k ·) = false) .valueError
      "CBOR map key is equal as a Python value to an earlier key in the same map"
    let rest ← walk fuel rest inKey
    walkFields fuel (some count) (k :: keys) rest inKey
  | _ + 1, none, _, [], _ => raise .indexError "index out of range"
  | fuel + 1, none, keys, b :: data, inKey =>
    if b = breakByte then .ok data
    else do
      let rest ← walk fuel (b :: data) true
      let k ← key cbor2 ((b :: data).take ((b :: data).length - rest.length))
      require (keys.any (frozenEq k ·) = false) .valueError
        "CBOR map key is equal as a Python value to an earlier key in the same map"
      let rest ← walk fuel rest inKey
      walkFields fuel none (k :: keys) rest inKey

end

/-- `cbor.loads`. -/
def loads (data : Bytes) : Py Cbor :=
  match cbor2.loads data with
  | none => raise .valueError "malformed CBOR"
  | some value => do
    let _ ← walk cbor2 (3 * data.length) data false
    .ok value

/-- A head is read back. -/
lemma readAnyHead_head {major n : ℕ} (hm : major < 8) (hn : n < 2 ^ 64) (rest : Bytes) :
    readAnyHead (head major n ++ rest) = .ok (major, some n, rest) := by
  have short := readHead_head hm hn rest
  generalize head major n ++ rest = b at *
  cases b with
  | nil => cases short
  | cons initial b =>
    simp only [readHead, readAnyHead] at short ⊢
    split_ifs at short with h1 h2
    · cases short
      rw [if_pos h1]
    · obtain ⟨⟨arg, tail⟩, taken, e⟩ := Option.bind_eq_some_iff.mp short
      cases e
      rw [if_neg h1, if_neg (by omega), if_neg (by omega), taken]

/-- Frozen texts are equal where the texts are. -/
@[simp] lemma frozenEq_str (s t : Str) : frozenEq (.str s) (.str t) = (s == t) := by
  rw [frozenEq]

/-- Frozen numbers are equal where the numbers are. -/
@[simp] lemma frozenEq_int (m n : ℤ) : frozenEq (.int m) (.int n) = (m == n) := by
  unfold frozenEq
  by_cases h : m = n <;> simp [number?, h]

/-- A number is no text. -/
@[simp] lemma frozenEq_int_str (n : ℤ) (s : Str) : frozenEq (.int n) (.str s) = false := by
  unfold frozenEq
  rfl

/-- A text is no number. -/
@[simp] lemma frozenEq_str_int (n : ℤ) (s : Str) : frozenEq (.str s) (.int n) = false := by
  unfold frozenEq
  rfl

/-- Labels are equal as Python values when they are equal. -/
lemma frozenEq_label {a b : Cbor} (ha : a.IsLabel) (hb : b.IsLabel) :
    frozenEq a b = true ↔ a = b := by
  cases a with
  | int m =>
    cases b with
    | int n => simp
    | str s => simp
    | _ => exact hb.elim
  | str s =>
    cases b with
    | int n => simp
    | str t => simp
    | _ => exact hb.elim
  | _ => exact ha.elim

/-- A byte string or a text is skipped. -/
lemma walk_bytes {major : ℕ} (hm : major ∈ [2, 3]) {b : Bytes} (lt : b.length < 2 ^ 64) (fuel : ℕ)
    (rest : Bytes) (inKey : Bool) :
    walk cbor2 (fuel + 1) (head major b.length ++ (b ++ rest)) inKey = .ok rest := by
  have small : major < 8 := by
    simp only [List.mem_cons, List.not_mem_nil, or_false] at hm
    omega
  have other : major ∉ [0, 1, 7] := by
    simp only [List.mem_cons, List.not_mem_nil, or_false] at hm ⊢
    omega
  rw [walk, readAnyHead_head small lt, ok_bind]
  dsimp only
  rw [if_neg other, if_pos hm, List.drop_left]

/-- An encoded number is walked over. -/
lemma walk_encodeInt {n : ℤ} (fit : fitsInt n = true) (fuel : ℕ) (rest : Bytes) (inKey : Bool) :
    walk cbor2 (fuel + 2) (encodeInt n ++ rest) inKey = .ok rest := by
  cases n with
  | ofNat n =>
    by_cases lt : n < 2 ^ 64
    · rw [encodeInt, if_pos lt, walk, readAnyHead_head (by decide) lt]
      rfl
    · have inner := walk_bytes cbor2 (by decide : 2 ∈ [2, 3]) (of_decide_eq_true fit) fuel
        rest inKey
      rw [encodeInt, if_neg lt, List.append_assoc, List.append_assoc, walk,
        readAnyHead_head (by decide) (by decide), ok_bind]
      simpa [contextTags] using inner
  | negSucc n =>
    by_cases lt : n < 2 ^ 64
    · rw [encodeInt, if_pos lt, walk, readAnyHead_head (by decide) lt]
      rfl
    · have inner := walk_bytes cbor2 (by decide : 2 ∈ [2, 3]) (of_decide_eq_true fit) fuel
        rest inKey
      rw [encodeInt, if_neg lt, List.append_assoc, List.append_assoc, walk,
        readAnyHead_head (by decide) (by decide), ok_bind]
      simpa [contextTags] using inner

variable {cbor2}

mutual

/-- The walk of an encoded item ends where the item does. -/
theorem walk_encode (lawful : cbor2.Lawful) : ∀ (v : Cbor) (fuel : ℕ) (rest : Bytes) (inKey : Bool),
    Plain v → fits v = true → fuelFor v ≤ fuel →
      walk cbor2 fuel (encode v ++ rest) inKey = .ok rest
  | v, 0, _, _, _, _, enough => by cases v <;> simp [fuelFor] at enough
  | .null, fuel + 1, rest, _, _, _, _ => rfl
  | .bool true, fuel + 1, rest, _, _, _, _ => rfl
  | .bool false, fuel + 1, rest, _, _, _, _ => rfl
  | .int n, 1, rest, _, _, _, enough => by simp [fuelFor] at enough
  | .int n, fuel + 2, rest, inKey, _, fit, _ => by
    rw [fits] at fit
    rw [encode]
    exact walk_encodeInt cbor2 fit fuel rest inKey
  | .float _, _ + 1, _, _, plain, _, _ => by rw [Plain] at plain; exact plain.elim
  | .object _, _ + 1, _, _, plain, _, _ => by rw [Plain] at plain; exact plain.elim
  | .bytes b, fuel + 1, rest, inKey, _, fit, _ => by
    rw [fits, decide_eq_true_eq] at fit
    rw [encode, List.append_assoc, walk_bytes cbor2 (by decide) fit]
  | .str s, fuel + 1, rest, inKey, _, fit, _ => by
    rw [fits, fitsText_eq_true] at fit
    obtain ⟨b, hb, lt⟩ := fit
    rw [encode, hb, Option.getD_some, List.append_assoc, walk_bytes cbor2 (by decide) lt]
  | .array xs, fuel + 1, rest, inKey, plain, fit, enough => by
    rw [Plain] at plain
    rw [fits, Bool.and_eq_true, decide_eq_true_eq] at fit
    rw [fuelFor] at enough
    rw [encode, List.append_assoc, walk, readAnyHead_head (by decide) fit.1, ok_bind]
    exact walkItems_encodeItems lawful xs fuel rest inKey plain fit.2 (by omega)
  | .map fields, fuel + 1, rest, inKey, plain, fit, enough => by
    rw [Plain] at plain
    rw [fits, Bool.and_eq_true, decide_eq_true_eq] at fit
    rw [fuelFor] at enough
    rw [encode, List.append_assoc, walk, readAnyHead_head (by decide) fit.1, ok_bind]
    refine walkFields_encodeFields lawful fields fuel [] rest inKey plain.2 fit.2 (by omega) plain.1 ?_
    intro f _
    simp
  | .tag number value, fuel + 1, rest, inKey, plain, fit, enough => by
    rw [Plain] at plain
    rw [fits, Bool.and_eq_true, decide_eq_true_eq] at fit
    rw [fuelFor] at enough
    obtain ⟨rfl, plain⟩ := plain
    have inner := walk_encode lawful value fuel rest inKey plain fit.2 (by omega)
    rw [encode, List.append_assoc, walk, readAnyHead_head (by decide) fit.1, ok_bind]
    simpa [contextTags] using inner

/-- Encoded items are walked over. -/
theorem walkItems_encodeItems (lawful : cbor2.Lawful) : ∀ (xs : List Cbor) (fuel : ℕ) (rest : Bytes)
    (inKey : Bool), PlainItems xs → fitsItems xs = true → fuelForItems xs ≤ fuel →
      walkItems cbor2 fuel (some xs.length) (encodeItems xs ++ rest) inKey = .ok rest
  | xs, 0, _, _, _, _, enough => by cases xs <;> simp [fuelForItems] at enough
  | [], fuel + 1, rest, _, _, _, _ => rfl
  | x :: xs, fuel + 1, rest, inKey, plain, fit, enough => by
    rw [PlainItems] at plain
    rw [fitsItems, Bool.and_eq_true] at fit
    rw [fuelForItems] at enough
    have first := walk_encode lawful x fuel (encodeItems xs ++ rest) inKey plain.1 fit.1 (by omega)
    rw [encodeItems, List.append_assoc, List.length_cons, walkItems, first, ok_bind]
    exact walkItems_encodeItems lawful xs fuel rest inKey plain.2 fit.2 (by omega)

/-- Encoded fields with distinct keys are walked over. -/
theorem walkFields_encodeFields (lawful : cbor2.Lawful) : ∀ (fields : List (Cbor × Cbor)) (fuel : ℕ)
    (keys : List Cbor) (rest : Bytes) (inKey : Bool), PlainFields fields → fitsFields fields = true →
      fuelForFields fields ≤ fuel → (fields.map (·.1)).Nodup →
      (∀ f ∈ fields, keys.any (frozenEq f.1 ·) = false) →
      walkFields cbor2 fuel (some fields.length) keys (encodeFields fields ++ rest) inKey = .ok rest
  | fields, 0, _, _, _, _, _, enough, _, _ => by
    cases fields with
    | nil => simp [fuelForFields] at enough
    | cons field fields => simp [fuelForFields] at enough
  | [], fuel + 1, _, rest, _, _, _, _, _, _ => rfl
  | (k, v) :: fields, fuel + 1, keys, rest, inKey, plain, fit, enough, nodup, fresh => by
    rw [PlainFields] at plain
    rw [fitsFields, Bool.and_eq_true, Bool.and_eq_true] at fit
    rw [fuelForFields] at enough
    rw [List.map_cons, List.nodup_cons] at nodup
    have atKey := walk_encode lawful k fuel (encode v ++ (encodeFields fields ++ rest)) true
      plain.1.plain fit.1 (by omega)
    have atValue := walk_encode lawful v fuel (encodeFields fields ++ rest) inKey plain.2.1 fit.2.1
      (by omega)
    have raw : (encode k ++ (encode v ++ (encodeFields fields ++ rest))).take
        ((encode k ++ (encode v ++ (encodeFields fields ++ rest))).length -
          (encode v ++ (encodeFields fields ++ rest)).length) = encode k := by
      rw [List.length_append, Nat.add_sub_cancel, List.take_left]
    have decoded : key cbor2 (encode k) = .ok k := by
      rw [key, lawful.loads_encode k plain.1.plain fit.1]
    have new := fresh (k, v) List.mem_cons_self
    -- The later keys differ from this one, and so from all the earlier ones.
    have later : ∀ f ∈ fields, (k :: keys).any (frozenEq f.1 ·) = false := by
      intro f mem
      rw [List.any_cons, fresh f (List.mem_cons_of_mem _ mem), Bool.or_false, Bool.eq_false_iff]
      intro same
      have label := (plainFields_iff.mp plain.2.2 f mem).1
      apply nodup.1
      rw [← (frozenEq_label label plain.1).mp same]
      exact List.mem_map.mpr ⟨f, mem, rfl⟩
    rw [encodeFields, List.append_assoc, List.append_assoc, List.length_cons, walkFields, atKey, ok_bind,
      raw, decoded, ok_bind, require_of new, ok_bind, atValue, ok_bind]
    exact walkFields_encodeFields lawful fields fuel (k :: keys) rest inKey plain.2.2 fit.2.2 (by omega)
      nodup.2 later

end

/-- A lookup in a map in deterministic order finds what the map holds. -/
lemma get?_canonical {fields sorted : List (Cbor × Cbor)} (plain : Plain (.map fields))
    (eq : canonical (.map fields) = .map sorted) {k : Cbor} (hk : k.IsLabel) :
    get? sorted k = (get? fields k).map canonical :=
  find?_canonical plain eq fun _ ha => frozenEq_label ha hk

/-- `cbor.loads` gives back what was encoded. -/
theorem loads_encode (lawful : cbor2.Lawful) {v : Cbor} (plain : Plain v) (fit : fits v = true) :
    loads cbor2 (encode v) = .ok v := by
  have walked := walk_encode lawful v _ [] false plain fit (fuelFor_lt v plain).le
  rw [List.append_nil] at walked
  rw [loads, lawful.loads_encode v plain fit]
  simp only [walked, ok_bind]

end Cbor

/-- A `cbor2` that reads and writes the deterministic encoding. -/
def referenceCbor2 : Cbor2 := ⟨Cbor.read, Cbor.write⟩

/-- The reference package is lawful. -/
lemma referenceCbor2_lawful : referenceCbor2.Lawful := by
  constructor
  · intro v plain fit
    exact Cbor.read_encode plain fit
  · intro v b _ written
    change Cbor.write v = some b at written
    unfold Cbor.write at written
    split at written
    · rename_i fit
      exact ⟨fit, (Option.some.inj written).symm⟩
    · cases written

/-- It reads back what it writes. -/
lemma referenceCbor2_dumps {v : Cbor} (plain : v.Plain) (fit : v.fits = true) :
    referenceCbor2.dumps v = some v.canonical.encode ∧
      Cbor.loads referenceCbor2 v.canonical.encode = .ok v.canonical :=
  ⟨if_pos fit, Cbor.loads_encode referenceCbor2_lawful (Cbor.canonical_plain v plain)
    (Cbor.canonical_fits v fit)⟩

end CLL
