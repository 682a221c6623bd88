import CLL.Lib.Cbor
import CLL.Python.Value

/-!
# TypeScript values

What a function throws: a `CllError` with its code, or another error. A promise that is rejected is a call
that throws. A `number` is an IEEE double, and a safe integer among them is an integer.
-/

namespace CLL.Ts

/-- `CllErrorCode`. -/
inductive CllErrorCode where
  | notFound
  | invalid
  | corrupt
  | closed
  | contention
  | rejected
  | unsupported
deriving DecidableEq

/-- A thrown `CllError`, or another error. -/
inductive Thrown where
  | cll (code : CllErrorCode) (message : String)
  | error (message : String)
deriving DecidableEq

/-- A call that returns or throws. -/
abbrev Js (α : Type) := Except Thrown α

/-- `if (!cond) throw new CllError(code, message)`. -/
def check (cond : Prop) [Decidable cond] (code : CllErrorCode) (message : String) : Js Unit :=
  if cond then .ok () else .error (.cll code message)

/-- A check passes exactly where its condition holds. -/
@[simp] lemma check_eq_ok {cond : Prop} [Decidable cond] {code : CllErrorCode} {message : String}
    {u : Unit} : check cond code message = .ok u ↔ cond := by
  unfold check
  split <;> simp_all

/-- A value that is there, or a thrown `CllError`. -/
def orThrow {α : Type} (x : Option α) (code : CllErrorCode) (message : String) : Js α :=
  match x with
  | some a => .ok a
  | none => .error (.cll code message)

/-- A value is returned exactly where it is present. -/
@[simp] lemma orThrow_eq_ok {α : Type} {x : Option α} {code : CllErrorCode} {message : String} {a : α} :
    orThrow x code message = .ok a ↔ x = some a := by
  cases x <;> simp [orThrow]

/-- A value that is there, or another error thrown by what is called. -/
def orError {α : Type} (x : Option α) (message : String) : Js α :=
  match x with
  | some a => .ok a
  | none => .error (.error message)

/-- A present value is returned. -/
@[simp] lemma orError_eq_ok {α : Type} {x : Option α} {message : String} {a : α} :
    orError x message = .ok a ↔ x = some a := by
  cases x <;> simp [orError]

/-- `Number.MAX_SAFE_INTEGER`. -/
def maxSafeInteger : ℕ := 2 ^ 53 - 1

/-- The integer, if `Number.isSafeInteger`. -/
def safeInteger : CborFloat → Option ℤ
  | .finite x => if x.den = 1 ∧ x.num.natAbs ≤ maxSafeInteger then some x.num else none
  | _ => none

end CLL.Ts
