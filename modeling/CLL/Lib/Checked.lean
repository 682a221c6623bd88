import Mathlib.Algebra.Order.Ring.Int
import Mathlib.Tactic.Ring

/-!
# Arithmetic that checks for overflow

The integers of a fixed-width type are those of a range. An operation gives its exact result when the range
has it and nothing otherwise, which is where the operation would overflow; a program that runs to its end
in this arithmetic computes what it computes on the integers.
-/

namespace CLL.Checked

/-- The integers that a type has. -/
structure Range where
  low : ℤ
  high : ℤ

/-- Signed integers of 64 bits. -/
def i64 : Range := ⟨-2 ^ 63, 2 ^ 63 - 1⟩

namespace Range

variable (R : Range)

/-- The range has an integer. -/
def Has (n : ℤ) : Prop := R.low ≤ n ∧ n ≤ R.high

instance (n : ℤ) : Decidable (R.Has n) := inferInstanceAs (Decidable (_ ∧ _))

/-- A result, if the range has it. -/
def check (n : ℤ) : Option ℤ := if R.Has n then some n else none

def add (a b : ℤ) : Option ℤ := R.check (a + b)

def sub (a b : ℤ) : Option ℤ := R.check (a - b)

def mul (a b : ℤ) : Option ℤ := R.check (a * b)

def neg (a : ℤ) : Option ℤ := R.check (-a)

variable {R}

/-- A number passes the check exactly where it is in range. -/
lemma check_eq_some_iff {n m : ℤ} : R.check n = some m ↔ R.Has n ∧ n = m := by
  unfold check
  split
  · next has => exact ⟨fun e => ⟨has, Option.some.inj e⟩, fun e => congrArg some e.2⟩
  · next out => exact ⟨nofun, fun e => absurd e.1 out⟩

/-- An operation whose result the range has is exact. -/
lemma check_of_has {n : ℤ} (has : R.Has n) : R.check n = some n := check_eq_some_iff.mpr ⟨has, rfl⟩

end Range

/-- A number within 64 bits passes. -/
lemma i64_check {n : ℤ} (low : -9223372036854775808 ≤ n) (high : n ≤ 9223372036854775807) :
    i64.check n = some n :=
  Range.check_of_has ⟨low, high⟩

/-- A step of a run whose operation is exact. -/
lemma i64_bind {α : Type} {n m : ℤ} {f : ℤ → Option α} {y : Option α} (eq : n = m)
    (low : -9223372036854775808 ≤ m) (high : m ≤ 9223372036854775807) (rest : f m = y) :
    (i64.check n >>= f) = y := by
  rw [eq, i64_check low high]
  exact rest

/-- A step of a run. -/
lemma some_bind {α β : Type} {x : Option α} {a : α} {f : α → Option β} {y : Option β} (exact_ : x = some a)
    (rest : f a = y) : (x >>= f) = y := by
  rw [exact_]
  exact rest

/-- A step for every element of a list. -/
lemma mapM_exact {α β : Type} {f : α → Option β} {g : α → β} {as : List α} (exact_ : ∀ a ∈ as, f a = some (g a)) :
    as.mapM f = some (as.map g) := by
  induction as with
  | nil => exact rfl
  | cons a as ih =>
    rw [List.mapM_cons]
    refine some_bind (exact_ a List.mem_cons_self) ?_
    exact some_bind (ih fun b mem => exact_ b (List.mem_cons_of_mem _ mem)) rfl

namespace Word

/-- The operations of words of a number of bits, on natural numbers. -/
def add (w a b : ℕ) : Option ℕ := if a + b < 2 ^ w then some (a + b) else none

def sub (a b : ℕ) : Option ℕ := if b ≤ a then some (a - b) else none

def mul (w a b : ℕ) : Option ℕ := if a * b < 2 ^ w then some (a * b) else none

/-- A shift checks the number of places and drops the bits beyond the word. -/
def shl (w a places : ℕ) : Option ℕ := if places < w then some (a * 2 ^ places % 2 ^ w) else none

variable {w a b places : ℕ}

/-- A sum below the bound is returned. -/
lemma add_of_lt (lt : a + b < 2 ^ w) : add w a b = some (a + b) := if_pos lt

/-- A sum from the bound on is refused. -/
lemma add_of_le (le : 2 ^ w ≤ a + b) : add w a b = none := if_neg (Nat.not_lt.mpr le)

/-- A difference of a smaller number is returned. -/
lemma sub_of_le (le : b ≤ a) : sub a b = some (a - b) := if_pos le

/-- A difference of a larger number is refused. -/
lemma sub_of_lt (lt : a < b) : sub a b = none := if_neg (Nat.not_le.mpr lt)

/-- A product below the bound is returned. -/
lemma mul_of_lt (lt : a * b < 2 ^ w) : mul w a b = some (a * b) := if_pos lt

/-- A product from the bound on is refused. -/
lemma mul_of_le (le : 2 ^ w ≤ a * b) : mul w a b = none := if_neg (Nat.not_lt.mpr le)

/-- A power of two. -/
lemma shl_one (lt : places < w) : shl w 1 places = some (2 ^ places) := by
  rw [shl, if_pos lt, Nat.one_mul, Nat.mod_eq_of_lt (Nat.pow_lt_pow_right (by decide) lt)]

/-- A shift by the width is refused. -/
lemma shl_of_le (le : w ≤ places) : shl w a places = none := if_neg (Nat.not_lt.mpr le)

/-- The number below a power of two. -/
lemma pow_sub_one (places : ℕ) : sub (2 ^ places) 1 = some (2 ^ places - 1) := sub_of_le Nat.one_le_two_pow

/-- A sum that fits is added up without an overflow. -/
lemma foldlM_add {ns : List ℕ} (acc : ℕ) (lt : acc + ns.sum < 2 ^ w) :
    ns.foldlM (add w) acc = some (acc + ns.sum) := by
  induction ns generalizing acc with
  | nil => exact rfl
  | cons n ns ih =>
    rw [List.sum_cons, ← Nat.add_assoc] at lt ⊢
    rw [List.foldlM_cons, add_of_lt (Nat.lt_of_le_of_lt (Nat.le_add_right _ _) lt)]
    exact ih _ lt

end Word

/-- A lifted value is passed on. -/
lemma lift_bind {α β : Type} {x : Option α} {a : α} {f : α → OptionT Option β} (exact_ : x = some a) :
    OptionT.lift x >>= f = f a := by
  rw [exact_]
  exact rfl

/-- A guard that holds passes. -/
lemma guard_bind {β : Type} {p : Prop} [Decidable p] {f : Unit → OptionT Option β} (holds : p) :
    guard p >>= f = f () := by
  simp only [guard, if_pos holds]
  exact rfl

/-- No operation of a run overflows, and its result, or that it refuses its input, is as said. -/
def Runs {α : Type} (run : OptionT Option α) (result : Option α) : Prop := run.run = some result

namespace Runs

variable {α β : Type}

/-- A value runs to itself. -/
lemma done (a : α) : Runs (pure a) (some a) := rfl

/-- A guard runs to its test. -/
lemma test (p : Prop) [Decidable p] : Runs (guard p) (guard p) := by
  by_cases holds : p
  · simp only [guard, if_pos holds]
    exact rfl
  · simp only [guard, if_neg holds]
    exact rfl

/-- A run whose test fails refuses. -/
lemma refuse {p : Prop} [Decidable p] {f : Unit → OptionT Option β} (fails : ¬p) : Runs (guard p >>= f) none := by
  simp only [guard, if_neg fails]
  exact rfl

/-- A run whose test holds goes on. -/
lemma pass {p : Prop} [Decidable p] {f : Unit → OptionT Option β} {result : Option β} (holds : p)
    (rest : Runs (f ()) result) : Runs (guard p >>= f) result := by
  rw [guard_bind holds]
  exact rest

/-- Runs are composed. -/
lemma bind {run : OptionT Option α} {result : Option α} {f : α → OptionT Option β} {g : α → Option β}
    (first : Runs run result) (rest : ∀ a, result = some a → Runs (f a) (g a)) :
    Runs (run >>= f) (result >>= g) := by
  cases result with
  | none => exact Option.bind_eq_some_iff.mpr ⟨none, first, rfl⟩
  | some a => exact Option.bind_eq_some_iff.mpr ⟨some a, first, rest a rfl⟩

/-- A lifted value runs to itself. -/
lemma lift {x : Option α} {a : α} (exact_ : x = some a) : Runs (OptionT.lift x) (some a) := by
  rw [exact_]
  exact rfl

/-- A step of checked arithmetic in a run. -/
lemma step {x : Option α} {a : α} {f : α → OptionT Option β} {result : Option β} (exact_ : x = some a)
    (rest : Runs (f a) result) : Runs (OptionT.lift x >>= f) result := by
  rw [lift_bind exact_]
  exact rest

end Runs

end CLL.Checked
