import CLL.Python.Value

/-!
# Go values

A Go function that returns a value and an `error` is a computation in `Result`: the text of the error is the
one its format string begins with. A slice may be `nil`, which has no elements but is another value where
it is encoded.
-/

namespace CLL.Go

/-- A call that returns a value or an `error`. -/
abbrev Result (α : Type) := Except String α

/-- A slice; `none` is `nil`. -/
abbrev Slice (α : Type) := Option (List α)

/-- The elements, none of `nil`. -/
def Slice.items {α : Type} (s : Slice α) : List α := s.getD []

/-- `if !cond { return …, fmt.Errorf(text) }`. -/
def check (cond : Prop) [Decidable cond] (text : String) : Result Unit :=
  if cond then .ok () else .error text

/-- A check passes exactly where its condition holds. -/
@[simp] lemma check_eq_ok {cond : Prop} [Decidable cond] {text : String} {u : Unit} :
    check cond text = .ok u ↔ cond := by
  unfold check
  split <;> simp_all

/-- `if err != nil { return …, fmt.Errorf(text) }`. -/
def orError {α : Type} (x : Option α) (text : String) : Result α :=
  match x with
  | some a => .ok a
  | none => .error text

/-- A present value is returned. -/
@[simp] lemma orError_eq_ok {α : Type} {x : Option α} {text : String} {a : α} :
    orError x text = .ok a ↔ x = some a := by
  cases x <;> simp [orError]

/-- What a call returns that is known to return no error. -/
def Result.val {α : Type} (x : Result α) (returns : x.toBool = true) : α :=
  match x, returns with
  | .ok a, _ => a

/-- What returns has a value. -/
lemma Result.eq_ok_val {α : Type} {x : Result α} (returns : x.toBool = true) :
    x = .ok (x.val returns) := by
  cases x with
  | ok a => rfl
  | error e => cases returns

end CLL.Go
