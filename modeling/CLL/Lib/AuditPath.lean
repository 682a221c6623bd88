import Mathlib.Algebra.Order.Ring.Nat
import Mathlib.Data.Nat.Log
import Mathlib.Tactic.Ring

/-!
# Merkle trees split at a power of two

The tree over a list of leaves whose left part is the largest power of two below the whole, the audit path
of a leaf in it, and the climb from a leaf along a path to the root. A path lists the siblings from the
leaf upwards; a climb reads them from the root downwards. `climb_path` says that the audit path of a leaf
leads to the root, `climb_isSome_iff` which paths lead anywhere.
-/

namespace CLL.AuditPath

/-- The largest power of two below `n`, and 1 for a tree that is not split. -/
def split (n : ℕ) : ℕ := 2 ^ Nat.log2 (n - 1)

/-- The left part of a tree is not empty. -/
lemma split_pos (n : ℕ) : 0 < split n := Nat.two_pow_pos _

/-- The right part of a tree is not empty. -/
lemma split_lt {n : ℕ} (two : 2 ≤ n) : split n < n := by
  have le := Nat.log2_self_le (show n - 1 ≠ 0 by omega)
  unfold split
  omega

/-- The left part of a tree is at least its half. -/
lemma le_two_mul_split (n : ℕ) : n ≤ 2 * split n := by
  have lt : n - 1 < 2 ^ (Nat.log2 (n - 1) + 1) := Nat.lt_log2_self
  unfold split
  rw [pow_succ] at lt
  omega

/-- A power of two that halves what is above it is the split. -/
lemma split_eq {n e : ℕ} (below : 2 ^ e < n) (above : n ≤ 2 * 2 ^ e) : split n = 2 ^ e := by
  have log : Nat.log2 (n - 1) = e := by
    rw [Nat.log2_eq_iff (by omega), pow_succ]
    omega
  rw [split, log]

/-- The number of levels between the leaf at `m` and the root of a tree of `n` leaves. -/
def depth (n m : ℕ) : ℕ :=
  if n ≤ 1 then 0
  else if m < split n then depth (split n) m + 1
  else depth (n - split n) (m - split n) + 1
termination_by n
decreasing_by
  · exact split_lt (by omega)
  · exact Nat.sub_lt (by omega) (split_pos n)

/-- A single leaf is at depth zero. -/
lemma depth_of_le {n : ℕ} (one : n ≤ 1) (m : ℕ) : depth n m = 0 := by
  rw [depth, if_pos one]

/-- A leaf in the left part is one deeper than there. -/
lemma depth_of_lt {n m : ℕ} (two : ¬ n ≤ 1) (left : m < split n) : depth n m = depth (split n) m + 1 := by
  rw [depth, if_neg two, if_pos left]

/-- A leaf in the right part is one deeper than there. -/
lemma depth_of_ge {n m : ℕ} (two : ¬ n ≤ 1) (right : ¬ m < split n) :
    depth n m = depth (n - split n) (m - split n) + 1 := by
  rw [depth, if_neg two, if_neg right]

/-- A tree of at most `2 ** d` leaves has at most `d` levels below its root. -/
lemma depth_le {n d : ℕ} (small : n ≤ 2 ^ d) (m : ℕ) : depth n m ≤ d := by
  induction d generalizing n m with
  | zero => rw [depth_of_le (by simpa using small)]
  | succ d ih =>
    by_cases one : n ≤ 1
    · rw [depth_of_le one]
      exact Nat.zero_le _
    have lt := split_lt (show 2 ≤ n by omega)
    have half := le_two_mul_split n
    -- The split is a power of two below `2 ** (d + 1)`.
    have left : split n ≤ 2 ^ d := by
      have pow : 2 ^ Nat.log2 (n - 1) < 2 ^ (d + 1) := lt.trans_le small
      exact Nat.pow_le_pow_right (by decide) (Nat.lt_succ_iff.mp ((Nat.pow_lt_pow_iff_right (by decide)).mp pow))
    by_cases isLeft : m < split n
    · rw [depth_of_lt one isLeft]
      exact Nat.succ_le_succ (ih left m)
    · rw [depth_of_ge one isLeft]
      exact Nat.succ_le_succ (ih (by omega) _)

variable {α : Type*} (node : α → α → α)

/-- The root above the leaf at `m` of a tree of `n` leaves, along the siblings from the root downwards. -/
def climb (leaf : α) : List α → ℕ → ℕ → Option α
  | [], n, _ => if n ≤ 1 then some leaf else none
  | sibling :: siblings, n, m =>
    if n ≤ 1 then none
    else if m < split n then (climb leaf siblings (split n) m).map (node · sibling)
    else (climb leaf siblings (n - split n) (m - split n)).map (node sibling ·)

/-- A path leads to a root when it has a sibling for every level. -/
theorem climb_isSome_iff {leaf : α} {siblings : List α} {n m : ℕ} :
    (climb node leaf siblings n m).isSome ↔ siblings.length = depth n m := by
  induction siblings generalizing n m with
  | nil =>
    by_cases one : n ≤ 1
    · simp [climb, one, depth_of_le one]
    · by_cases left : m < split n
      · simp [climb, one, depth_of_lt one left]
      · simp [climb, one, depth_of_ge one left]
  | cons sibling siblings ih =>
    by_cases one : n ≤ 1
    · simp [climb, one, depth_of_le one]
    · by_cases left : m < split n
      · simp [climb, one, left, depth_of_lt one left, ih]
      · simp [climb, one, left, depth_of_ge one left, ih]

variable (empty : α)

/-- The root of the tree over the leaves; `empty` is that of no leaves. -/
def root (leaves : List α) : α :=
  match leaves with
  | [] => empty
  | [leaf] => leaf
  | first :: second :: rest =>
    let leaves := first :: second :: rest
    node (root (leaves.take (split leaves.length))) (root (leaves.drop (split leaves.length)))
termination_by leaves.length
decreasing_by
  · rw [List.length_take]
    exact (min_le_left _ _).trans_lt (split_lt (by simp))
  · rw [List.length_drop]
    exact Nat.sub_lt (by simp) (split_pos _)

/-- The audit path of the leaf at `m`, from the leaf upwards. -/
def path (m : ℕ) (leaves : List α) : List α :=
  match leaves with
  | [] => []
  | [_] => []
  | first :: second :: rest =>
    let leaves := first :: second :: rest
    let k := split leaves.length
    if m < k then path m (leaves.take k) ++ [root node empty (leaves.drop k)]
    else path (m - k) (leaves.drop k) ++ [root node empty (leaves.take k)]
termination_by leaves.length
decreasing_by
  · rw [List.length_take]
    exact (min_le_left _ _).trans_lt (split_lt (by simp))
  · rw [List.length_drop]
    exact Nat.sub_lt (by simp) (split_pos _)

/-- The root of a tree joins those of its parts. -/
lemma root_of_two {leaves : List α} (two : 2 ≤ leaves.length) :
    root node empty leaves = node (root node empty (leaves.take (split leaves.length)))
      (root node empty (leaves.drop (split leaves.length))) := by
  match leaves, two with
  | first :: second :: rest, _ => rw [root]

/-- The path of a leaf ends in the root of the other part. -/
lemma path_of_two {leaves : List α} (two : 2 ≤ leaves.length) (m : ℕ) :
    path node empty m leaves =
      if m < split leaves.length then
        path node empty m (leaves.take (split leaves.length)) ++
          [root node empty (leaves.drop (split leaves.length))]
      else
        path node empty (m - split leaves.length) (leaves.drop (split leaves.length)) ++
          [root node empty (leaves.take (split leaves.length))] := by
  match leaves, two with
  | first :: second :: rest, _ => rw [path]

/-- The audit path of a leaf leads to the root. -/
theorem climb_path {leaves : List α} {m : ℕ} {leaf : α} (at_ : leaves[m]? = some leaf) :
    climb node leaf (path node empty m leaves).reverse leaves.length m = some (root node empty leaves) := by
  induction len : leaves.length using Nat.strong_induction_on generalizing leaves m with
  | _ n ih =>
    subst len
    have inside : m < leaves.length := (List.getElem?_eq_some_iff.mp at_).1
    by_cases one : leaves.length ≤ 1
    · obtain ⟨only, rfl⟩ : ∃ only, leaves = [only] := List.length_eq_one_iff.mp (by omega)
      obtain rfl : m = 0 := by simpa using inside
      obtain rfl : only = leaf := by simpa using at_
      simp [path, root, climb]
    · have two : 2 ≤ leaves.length := by omega
      have lt := split_lt two
      have pos := split_pos leaves.length
      rw [path_of_two node empty two, root_of_two node empty two]
      by_cases left : m < split leaves.length
      · have below : (leaves.take (split leaves.length)).length = split leaves.length := by
          rw [List.length_take, min_eq_left lt.le]
        have here : (leaves.take (split leaves.length))[m]? = some leaf := by
          rw [List.getElem?_take_of_lt left, at_]
        have inner := ih _ lt here below
        rw [if_pos left, List.reverse_append, List.reverse_singleton, List.singleton_append, climb, if_neg one,
          if_pos left, inner, Option.map_some]
      · have below : (leaves.drop (split leaves.length)).length = leaves.length - split leaves.length :=
          List.length_drop
        have here : (leaves.drop (split leaves.length))[m - split leaves.length]? = some leaf := by
          rw [List.getElem?_drop, Nat.add_sub_cancel' (not_lt.mp left), at_]
        have inner := ih _ (by omega) here below
        rw [if_neg left, List.reverse_append, List.reverse_singleton, List.singleton_append, climb, if_neg one,
          if_neg left, inner, Option.map_some]

end CLL.AuditPath
