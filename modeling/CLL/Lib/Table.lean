import Mathlib.Data.List.Basic

/-!
# Tables

Association lists that are read with `List.lookup`. `put` replaces the value of a key in its place or adds
the key at the end, `remove` takes a key out.
-/

namespace CLL.Table

variable {κ α : Type*} [BEq κ] [LawfulBEq κ] [DecidableEq κ]

/-- The table with `value` under `key`. -/
def put : List (κ × α) → κ → α → List (κ × α)
  | [], key, value => [(key, value)]
  | row :: table, key, value =>
    if row.1 = key then (key, value) :: table else row :: put table key value

/-- The table without `key`. -/
def remove (table : List (κ × α)) (key : κ) : List (κ × α) := table.filter fun row => row.1 ≠ key

/-- The first row is looked up first. -/
lemma lookup_cons (row : κ × α) (table : List (κ × α)) (key : κ) :
    (row :: table).lookup key = if key = row.1 then some row.2 else table.lookup key := by
  obtain ⟨k, v⟩ := row
  rw [List.lookup_cons]
  by_cases e : key = k
  · rw [if_pos e, e, beq_self_eq_true]
  · rw [if_neg e, beq_eq_false_iff_ne.mpr e]

/-- A value that is put is looked up, and no other one changes. -/
lemma lookup_put (table : List (κ × α)) (key key' : κ) (value : α) :
    (put table key value).lookup key' = if key' = key then some value else table.lookup key' := by
  induction table with
  | nil => exact lookup_cons _ _ _
  | cons row table ih =>
    rw [put]
    by_cases own : row.1 = key
    · rw [if_pos own, lookup_cons, lookup_cons, own]
      by_cases e : key' = key
      · rw [if_pos e, if_pos e]
      · rw [if_neg e, if_neg e, if_neg e]
    · rw [if_neg own, lookup_cons, lookup_cons, ih]
      by_cases e : key' = row.1
      · rw [if_pos e, if_neg fun h => own (e.symm.trans h), if_pos e]
      · rw [if_neg e, if_neg e]

/-- A value that is put is looked up. -/
@[simp] lemma lookup_put_self (table : List (κ × α)) (key : κ) (value : α) :
    (put table key value).lookup key = some value := by
  rw [lookup_put, if_pos rfl]

/-- Putting a value changes no other one. -/
lemma lookup_put_ne (table : List (κ × α)) {key key' : κ} (ne : key' ≠ key) (value : α) :
    (put table key value).lookup key' = table.lookup key' := by
  rw [lookup_put, if_neg ne]

/-- Putting a value adds its key at the end, or none. -/
lemma keys_put (table : List (κ × α)) (key : κ) (value : α) :
    (put table key value).map Prod.fst =
      if key ∈ table.map Prod.fst then table.map Prod.fst else table.map Prod.fst ++ [key] := by
  induction table with
  | nil => rfl
  | cons row table ih =>
    rw [put]
    by_cases own : row.1 = key
    · simp [own]
    · rw [if_neg own, List.map_cons, ih, List.map_cons]
      simp only [List.mem_cons, Ne.symm own, false_or]
      split <;> simp

/-- A removed key is not looked up, and no other one changes. -/
lemma lookup_remove (table : List (κ × α)) (key key' : κ) :
    (remove table key).lookup key' = if key' = key then none else table.lookup key' := by
  induction table with
  | nil => simp [remove]
  | cons row table ih =>
    unfold remove at ih ⊢
    by_cases own : row.1 = key
    · rw [List.filter_cons_of_neg (by simp [own]), ih, lookup_cons, own]
      split <;> rfl
    · rw [List.filter_cons_of_pos (by simp [own]), lookup_cons, lookup_cons, ih]
      by_cases e : key' = row.1
      · rw [if_pos e, if_neg fun h => own (e.symm.trans h), if_pos e]
      · rw [if_neg e, if_neg e]

/-- Nothing is looked up exactly where the key is missing. -/
lemma lookup_eq_none {table : List (κ × α)} {key : κ} :
    table.lookup key = none ↔ key ∉ table.map Prod.fst := by
  induction table with
  | nil => simp
  | cons row table ih =>
    rw [lookup_cons]
    by_cases e : key = row.1
    · simp [e]
    · simp [e, ih]

/-- A search with at most one hit does not depend on the order. -/
lemma find?_perm {p : α → Bool} {xs ys : List α} (perm : xs.Perm ys)
    (unique : ∀ a ∈ xs, ∀ b ∈ xs, p a = true → p b = true → a = b) : xs.find? p = ys.find? p := by
  cases found : ys.find? p with
  | none =>
    rw [List.find?_eq_none] at found ⊢
    intro a mem
    exact found a (perm.mem_iff.mp mem)
  | some b =>
    have hb := List.find?_some found
    have mem := perm.mem_iff.mpr (List.mem_of_find?_eq_some found)
    cases again : xs.find? p with
    | none => exact absurd hb (List.find?_eq_none.mp again b mem)
    | some a =>
      rw [unique a (List.mem_of_find?_eq_some again) b mem (List.find?_some again) hb]

/-- A list is mapped to one of its length. -/
lemma length_of_mapM {β γ : Type} {f : β → Option γ} {xs : List β} {ys : List γ}
    (ok : xs.mapM f = some ys) : ys.length = xs.length := by
  induction xs generalizing ys with
  | nil =>
    cases ok
    rfl
  | cons x xs ih =>
    rw [List.mapM_cons] at ok
    obtain ⟨y, -, ok⟩ := Option.bind_eq_some_iff.mp ok
    obtain ⟨ys', rest, ok⟩ := Option.bind_eq_some_iff.mp ok
    cases ok
    rw [List.length_cons, List.length_cons, ih rest]

end CLL.Table
