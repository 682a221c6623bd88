import CLL.Lib.Json
import Mathlib.Data.List.Forall2

/-!
# JSON objects as dictionaries

Two JSON values are the same dictionary when every key finds the same value in both: the order of the
fields and fields that a lookup never reaches do not count. A dictionary less its `null` fields is the same
dictionary exactly when it has none (`same_less_nulls_iff`).
-/

namespace CLL.Json

/-- The same value, read as nested dictionaries, arrays and scalars. -/
inductive Same : Json → Json → Prop
  | refl (a : Json) : Same a a
  | arr {xs ys : List Json} (items : List.Forall₂ Same xs ys) : Same (.arr xs) (.arr ys)
  | obj {fs gs : List (List ℕ × Json)} (fields : ∀ key, Option.Rel Same (get? fs key) (get? gs key)) :
    Same (.obj fs) (.obj gs)

/-- Neither an array nor an object. -/
def isScalar : Json → Bool
  | .arr _ | .obj _ => false
  | _ => true

/-- Any value but `null`. -/
def nonNull : Json → Bool
  | .null => false
  | _ => true

/-- A value is not null. -/
lemma nonNull_iff {a : Json} : nonNull a = true ↔ a ≠ .null := by
  cases a <;> simp [nonNull]

/-- Scalars are the same where they are equal. -/
lemma Same.eq_of_isScalar {a b : Json} (same : Same a b) (scalar : isScalar a = true) : a = b := by
  cases same with
  | refl => rfl
  | arr => cases scalar
  | obj => cases scalar

/-- Arrays that are the same have the same items. -/
lemma Same.items {xs ys : List Json} (same : Same (.arr xs) (.arr ys)) : List.Forall₂ Same xs ys := by
  cases same with
  | refl => exact List.forall₂_same.mpr fun x _ => .refl x
  | arr items => exact items

/-- Arrays are the same exactly where their items are. -/
lemma same_arr {xs ys : List Json} : Same (.arr xs) (.arr ys) ↔ List.Forall₂ Same xs ys :=
  ⟨Same.items, .arr⟩

/-- Objects that are the same have the same fields. -/
lemma Same.fields {fs gs : List (List ℕ × Json)} (same : Same (.obj fs) (.obj gs)) (key : List ℕ) :
    Option.Rel Same (get? fs key) (get? gs key) := by
  cases same with
  | refl =>
    cases get? fs key with
    | none => exact .none
    | some a => exact .some (.refl a)
  | obj fields => exact fields key

/-- What a key finds in one of two equal dictionaries, it finds in the other. -/
lemma Same.get?_eq_some {fs gs : List (List ℕ × Json)} (same : Same (.obj fs) (.obj gs)) {key : List ℕ}
    {a b : Json} (left : get? fs key = some a) (right : get? gs key = some b) : Same a b := by
  have rel := same.fields key
  rw [left, right] at rel
  cases rel with
  | some same => exact same

/-- Texts are the same exactly where they are equal. -/
@[simp] lemma same_str {s t : List ℕ} : Same (.str s) (.str t) ↔ s = t := by
  constructor
  · intro same
    exact Json.str.inj (same.eq_of_isScalar rfl)
  · rintro rfl
    exact .refl _

/-- Numbers are the same exactly where they are equal. -/
@[simp] lemma same_int {m n : ℤ} : Same (.int m) (.int n) ↔ m = n := by
  constructor
  · intro same
    exact Json.int.inj (same.eq_of_isScalar rfl)
  · rintro rfl
    exact .refl _

/-- Truth values are the same exactly where they are equal. -/
@[simp] lemma same_bool {a b : Bool} : Same (.bool a) (.bool b) ↔ a = b := by
  constructor
  · intro same
    exact Json.bool.inj (same.eq_of_isScalar rfl)
  · rintro rfl
    exact .refl _

section
variable {α : Type} {f : α → Json} (inj : ∀ a b, Same (f a) (f b) → a = b)
include inj

/-- Optional values whose encodings are the same are the same. -/
lemma eq_of_rel_map {o p : Option α} (rel : Option.Rel Same (o.map f) (p.map f)) : o = p := by
  cases o with
  | none =>
    cases p with
    | none => rfl
    | some b => cases rel
  | some a =>
    cases p with
    | none => cases rel
    | some b =>
      cases rel with
      | some same => rw [inj a b same]

/-- Lists are equal where their images are the same. -/
lemma eq_of_same_map {xs ys : List α} (same : Same (.arr (xs.map f)) (.arr (ys.map f))) : xs = ys := by
  have items := same.items
  rw [List.forall₂_map_left_iff, List.forall₂_map_right_iff] at items
  have equal := items.imp inj
  rwa [List.forall₂_eq_eq_eq] at equal

end

/-- An optional value is the same as itself. -/
lemma rel_refl (o : Option Json) : Option.Rel Same o o := by
  cases o with
  | none => exact .none
  | some a => exact .some (.refl a)

/-- Every key of the object is one of `keys`. -/
def OnlyKeys (keys : List (List ℕ)) (fields : List (List ℕ × Json)) : Prop := ∀ f ∈ fields, f.1 ∈ keys

/-- No other key is found. -/
lemma OnlyKeys.get?_eq_none {keys : List (List ℕ)} {fields : List (List ℕ × Json)}
    (only : OnlyKeys keys fields) {key : List ℕ} (other : key ∉ keys) : get? fields key = none := by
  rw [get?, List.lookup_eq_none_iff]
  intro f mem
  rw [bne_iff_ne]
  rintro rfl
  exact other (only f mem)

/-- A lookup that leaves out `null` finds the same as one that does not, unless it is `null`. -/
lemma rel_filter_iff {o : Option Json} : Option.Rel Same (o.filter nonNull) o ↔ o ≠ some .null := by
  cases o with
  | none => simp
  | some a =>
    by_cases present : nonNull a = true
    · have ne := nonNull_iff.mp present
      rw [Option.filter_some, if_pos present]
      simpa [ne] using rel_refl (some a)
    · have null : a = .null := by
        by_contra ne
        exact present (nonNull_iff.mpr ne)
      subst null
      constructor
      · intro rel
        cases rel
      · intro ne
        exact absurd rfl ne

section
variable {fs gs : List (List ℕ × Json)}

/-- A dictionary less its `null` fields is the dictionary when it has none, and only then. -/
theorem same_less_nulls_iff (less : ∀ key, get? gs key = (get? fs key).filter nonNull) :
    Same (.obj gs) (.obj fs) ↔ ∀ key, get? fs key ≠ some .null := by
  constructor
  · intro same key
    have rel := same.fields key
    rw [less] at rel
    exact rel_filter_iff.mp rel
  · intro full
    refine .obj fun key => ?_
    rw [less]
    exact rel_filter_iff.mpr (full key)

/-- The same for a dictionary that has another value under one key. -/
theorem same_replaced_iff {key : List ℕ} {a b : Json} (left : get? gs key = some a)
    (right : get? fs key = some b) (present : b ≠ .null)
    (less : ∀ k, k ≠ key → get? gs k = (get? fs k).filter nonNull) :
    Same (.obj gs) (.obj fs) ↔ (∀ k, get? fs k ≠ some .null) ∧ Same a b := by
  constructor
  · intro same
    refine ⟨fun k => ?_, same.get?_eq_some left right⟩
    by_cases e : k = key
    · subst e
      rw [right]
      simpa using present
    · have rel := same.fields k
      rw [less k e] at rel
      exact rel_filter_iff.mp rel
  · rintro ⟨full, same⟩
    refine .obj fun k => ?_
    by_cases e : k = key
    · subst e
      rw [left, right]
      exact .some same
    · rw [less k e]
      exact rel_filter_iff.mpr (full k)

end

end CLL.Json
