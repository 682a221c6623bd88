import Mathlib.Data.Rat.Defs
import Mathlib.Data.List.Basic
import Mathlib.Order.Basic
import Mathlib.Tactic.Linarith

/-!
# Python values

The values the Python sources work on and the exceptions they raise. Arguments that a caller chooses
freely have type `Obj`: a function checks them with `isinstance` and its own rules before it uses them,
so nothing is assumed about them here. A `str` is its list of code points, which may hold unpaired
surrogates.
-/

namespace CLL

/-- A Python `bytes` value. -/
abbrev Bytes := List UInt8

/-- A Python `str`: its code points. -/
abbrev Str := List ℕ

instance : LawfulBEq Bytes := inferInstance

instance : LawfulBEq Str := inferInstance

/-- The `str` of a literal in the source. -/
def Str.lit (s : String) : Str := s.toList.map Char.toNat

/-- The characters of a literal, without decoding its bytes. -/
lemma Str.lit_ofList (cs : List Char) : Str.lit (String.ofList cs) = cs.map Char.toNat := by
  rw [Str.lit, String.toList_ofList]

/-- A literal is written one part after the other. -/
lemma Str.lit_append (s t : String) : Str.lit (s ++ t) = Str.lit s ++ Str.lit t := by
  rw [Str.lit, String.toList_append, List.map_append]
  rfl

/-- Different literals are different texts. -/
lemma Str.lit_injective : Function.Injective Str.lit := by
  intro s t e
  have inj : Function.Injective Char.toNat := fun a b h => Char.toNat_inj.mp h
  exact String.toList_inj.mp (List.map_injective_iff.mpr inj e)

/-- Texts are equal exactly where their literals are. -/
@[simp] lemma Str.lit_inj {s t : String} : Str.lit s = Str.lit t ↔ s = t :=
  Str.lit_injective.eq_iff

/-- The exception classes the sources raise. -/
inductive ErrorKind where
  /-- `core.InvalidArgumentError`, a `ValueError`. -/
  | invalidArgument
  /-- `core.IntegrityError`. -/
  | integrity
  | notFound
  | invalid
  | corrupt
  | closed
  | contention
  | rejected
  | unsupported
  | valueError
  | typeError
  | indexError
  | keyError
  | attributeError
  | overflowError
  | memoryError
  | osError
  /-- `sqlite3.Error`. -/
  | database
  /-- `checkpoint.emit.CheckpointError`. -/
  | checkpoint
  /-- `checkpoint.emit.RollbackError`. -/
  | rollback
  /-- `checkpoint.bundle.BundleError`. -/
  | bundle
  | admissionRejected
  | duplicateRecord
  | ledgerCorrupt
  | segmentRotation
  | segmentUnmounted
  deriving DecidableEq, Repr

/-- `isinstance(exc, CllError)`. -/
def ErrorKind.isCllError : ErrorKind → Bool
  | .notFound | .invalid | .corrupt | .closed | .contention | .rejected | .unsupported => true
  | _ => false

/-- `isinstance(exc, ValueError)`. -/
def ErrorKind.isValueError : ErrorKind → Bool
  | .invalidArgument | .valueError => true
  | _ => false

/-- A raised exception. -/
structure Error where
  kind : ErrorKind
  text : String
  deriving DecidableEq, Repr

/-- A computation that returns or raises. -/
abbrev Py (α : Type) := Except Error α

/-- `raise kind(text)`. -/
def raise {α : Type} (kind : ErrorKind) (text : String) : Py α := .error ⟨kind, text⟩

/-- What raises returns nothing. -/
@[simp] lemma raise_ne_ok {α : Type} {kind : ErrorKind} {text : String} {a : α} :
    raise kind text ≠ (.ok a : Py α) := by
  simp [raise]

/-- Every computation before a successful `bind` succeeded. -/
lemma bind_eq_ok {ε α β : Type} {x : Except ε α} {f : α → Except ε β} {b : β} :
    x >>= f = .ok b ↔ ∃ a, x = .ok a ∧ f a = .ok b := by
  cases x with
  | error e => simp [bind, Except.bind]
  | ok a => simp [bind, Except.bind]

/-- A mapped value is the image of a returned one. -/
lemma map_eq_ok {α β : Type} {x : Py α} {f : α → β} {b : β} :
    x.map f = .ok b ↔ ∃ a, x = .ok a ∧ f a = b := by
  cases x with
  | error e => simp [Except.map]
  | ok a => simp [Except.map]

/-- A returned value is passed on. -/
@[simp] lemma ok_bind {ε α β : Type} (a : α) (f : α → Except ε β) :
    (Except.ok a : Except ε α) >>= f = f a := rfl

/-- A pure value is returned. -/
@[simp] lemma pure_eq_ok {α : Type} (a : α) : (pure a : Py α) = .ok a := rfl

/-- `if not cond: raise kind(text)`. -/
def require (cond : Prop) [Decidable cond] (kind : ErrorKind) (text : String) : Py Unit :=
  if cond then .ok () else raise kind text

/-- A requirement passes exactly where its condition holds. -/
@[simp] lemma require_eq_ok {cond : Prop} [Decidable cond] {kind : ErrorKind} {text : String}
    {u : Unit} : require cond kind text = .ok u ↔ cond := by
  unfold require
  split <;> simp_all

/-- A requirement that holds passes. -/
lemma require_of {cond : Prop} [Decidable cond] {kind : ErrorKind} {text : String} (h : cond) :
    require cond kind text = .ok () := require_eq_ok.mpr h

/-- What a computation returns that is known to return. -/
def Py.val {α : Type} (x : Py α) (returns : x.toBool = true) : α :=
  match x, returns with
  | .ok a, _ => a

/-- What returns has a value. -/
lemma Py.eq_ok_val {α : Type} {x : Py α} (returns : x.toBool = true) : x = .ok (x.val returns) := by
  cases x with
  | ok a => rfl
  | error e => cases returns

/-- `if not cond: return False` in a verifier, which turns an exception into `False` as well. -/
def ensure (cond : Prop) [Decidable cond] : Py Unit := require cond .rejected "return False"

/-- `ensure` of a value that is needed further on. -/
def need {α : Type} : Option α → Py α
  | some a => .ok a
  | none => raise .rejected "return False"

/-- `except Exception: return False`. -/
def verdict : Py Bool → Bool
  | .ok b => b
  | .error _ => false

/-- An assertion passes exactly where its condition holds. -/
@[simp] lemma ensure_eq_ok {cond : Prop} [Decidable cond] {u : Unit} :
    ensure cond = .ok u ↔ cond := require_eq_ok

/-- An assertion that holds passes. -/
lemma ensure_of {cond : Prop} [Decidable cond] (h : cond) : ensure cond = .ok () := require_of h

/-- A needed value is returned exactly where it is present. -/
@[simp] lemma need_eq_ok {α : Type} {o : Option α} {a : α} : need o = .ok a ↔ o = some a := by
  cases o <;> simp [need]

/-- A present value is returned. -/
@[simp] lemma need_some {α : Type} (a : α) : need (some a) = .ok a := rfl

/-- A verdict is true exactly where `True` is returned. -/
lemma verdict_eq_true {x : Py Bool} : verdict x = true ↔ x = .ok true := by
  cases x <;> simp [verdict]

/-- Microseconds of the years 0001..9999, all that a `datetime` holds. -/
def maxMicros : ℕ := 3652059 * 86400 * 1000000

/-- A `datetime`: the reading of its own clock in microseconds since `0001-01-01T00:00:00`, and its
`utcoffset()`, `none` for a naive one. -/
structure DateTime where
  clock : ℕ
  clock_lt : clock < maxMicros
  offset : Option ℤ
  deriving DecidableEq, Repr

/-- Milliseconds of the years 0001..9999. -/
def maxMillis : ℕ := 3652059 * 86400 * 1000

/-- A UTC time in whole milliseconds since `0001-01-01T00:00:00Z`: what `normalize_time` returns. -/
structure Time where
  millis : ℕ
  millis_lt : millis < maxMillis
  deriving DecidableEq, Repr

/-- Times of the same milliseconds are equal. -/
@[ext] lemma Time.ext {a b : Time} (h : a.millis = b.millis) : a = b := by
  cases a; cases b; cases h; rfl

instance : LE Time := ⟨fun a b => a.millis ≤ b.millis⟩

instance (a b : Time) : Decidable (a ≤ b) := inferInstanceAs (Decidable (a.millis ≤ b.millis))

/-- A stored time as the `datetime` it is. -/
def Time.toDateTime (t : Time) : DateTime where
  clock := t.millis * 1000
  clock_lt := by have := t.millis_lt; simp only [maxMillis, maxMicros] at *; omega
  offset := some 0

/-- The dataclasses of the sources that reach a function as an argument. -/
inductive Cls where
  | inclusionProof
  | consistencyProof
  | rangeProof
  | appendInput
  | checkpointState
  | witnessReceipt
  | witnessState
  | cllState
  deriving DecidableEq, Repr

/-- An arbitrary argument. `other` stands for a value of any class not listed, which no function of the
sources accepts. -/
inductive Obj where
  | none
  | bool (b : Bool)
  | int (n : ℤ)
  | float (x : ℚ)
  | str (s : Str)
  | bytes (b : Bytes)
  | bytearray (b : Bytes)
  | memoryview (b : Bytes)
  | datetime (t : DateTime)
  | list (xs : List Obj)
  | tuple (xs : List Obj)
  | inst (cls : Cls) (attrs : List (String × Obj))
  | other (id : ℕ)

namespace Obj

/-- `getattr(o, name)`. -/
def attr : Obj → String → Py Obj
  | .inst _ attrs, name =>
    match attrs.lookup name with
    | some o => .ok o
    | Option.none => raise .attributeError s!"object has no attribute {name}"
  | _, name => raise .attributeError s!"object has no attribute {name}"

/-- The number a `bool`, `int` or `float` compares as. -/
def num? : Obj → Option ℚ
  | .bool b => some (if b then 1 else 0)
  | .int n => some n
  | .float x => some x
  | _ => Option.none

/-- The bytes a buffer compares as. -/
def buf? : Obj → Option Bytes
  | .bytes b | .bytearray b | .memoryview b => some b
  | _ => Option.none

mutual

/-- `a == b`. -/
def eq : Obj → Obj → Bool
  | .none, .none => true
  | .str s, .str t => s == t
  | .datetime s, .datetime t =>
    match s.offset, t.offset with
    | some o, some p => (s.clock : ℤ) - o == (t.clock : ℤ) - p
    | Option.none, Option.none => s.clock == t.clock
    | _, _ => false
  | .list xs, .list ys => eqList xs ys
  | .tuple xs, .tuple ys => eqList xs ys
  | .inst c xs, .inst d ys => c == d && eqAttrs xs ys
  | .other i, .other j => i == j
  | a, b =>
    match a.num?, b.num? with
    | some x, some y => x == y
    | _, _ =>
      match a.buf?, b.buf? with
      | some x, some y => x == y
      | _, _ => false

/-- Element by element `==`. -/
def eqList : List Obj → List Obj → Bool
  | [], [] => true
  | x :: xs, y :: ys => eq x y && eqList xs ys
  | _, _ => false

/-- Field by field `==`. -/
def eqAttrs : List (String × Obj) → List (String × Obj) → Bool
  | [], [] => true
  | (m, x) :: xs, (n, y) :: ys => m == n && eq x y && eqAttrs xs ys
  | _, _ => false

end

/-- Numbers are equal as objects where they are equal. -/
@[simp] lemma eq_int (m n : ℤ) : eq (.int m) (.int n) = (m == n) := by
  unfold eq
  simp only [num?]
  by_cases h : m = n <;> simp [h]

/-- Texts are equal as objects where they are equal. -/
@[simp] lemma eq_str (s t : Str) : eq (.str s) (.str t) = (s == t) := by
  simp [eq]

/-- The items of a `list` or `tuple`. -/
def seq? : Obj → Option (List Obj)
  | .list xs | .tuple xs => some xs
  | _ => Option.none

/-- The value of an argument that passes `isinstance(o, int)`, as a `bool` does. -/
def intLike? : Obj → Option ℤ
  | .int n => some n
  | .bool b => some (if b then 1 else 0)
  | _ => Option.none

/-- The value of an `int` that is not a `bool`. -/
def int? : Obj → Option ℤ
  | .int n => some n
  | _ => Option.none

/-- The bytes of a `bytes` or `bytearray`. -/
def digest? : Obj → Option Bytes
  | .bytes b | .bytearray b => some b
  | _ => Option.none

end Obj

end CLL
