import CLL.Lib.Range

/-!
# Rebuilding behind a cursor

A program that rebuilds a block walks over a fixed list of labels with a cursor. `rebuildFrom` is `rebuild`
in that form. It obeys the equations that such a program has as its branches: a block outside the range
takes the label at the cursor, a leaf inside takes none, and any other block rebuilds its children in turn.
-/

namespace CLL.PostOrder

variable {α : Type*} {lo hi : ℕ} {leaf : ℕ → α} {node : ℕ → α → α → α} {ws : List α}

/-- What is left of the labels is a final part of them. -/
lemma rebuild_suffix {h k : ℕ} {ws rest : List α} {out : α}
    (ok : rebuild lo hi leaf node h k ws = some (out, rest)) : rest <:+ ws := by
  have one {ws rest : List α} {out : α} (ok : takeOne ws = some (out, rest)) : rest <:+ ws := by
    cases ws with
    | nil => cases ok
    | cons w ws =>
      cases ok
      exact List.suffix_cons _ _
  induction h generalizing k ws rest out with
  | zero =>
    rw [rebuild] at ok
    split at ok
    · exact one ok
    · cases ok
      exact List.suffix_rfl
  | succ h ih =>
    rw [rebuild] at ok
    split at ok
    · exact one ok
    · simp only [Option.bind_eq_bind, Option.bind_eq_some_iff] at ok
      obtain ⟨⟨left, ws₁⟩, hl, ⟨right, ws₂⟩, hr, e⟩ := ok
      cases e
      exact (ih hr).trans (ih hl)

/-- A final part of a list is what is left behind a cursor. -/
lemma drop_of_suffix {ws rest : List α} (suffix : rest <:+ ws) :
    ws.drop (ws.length - rest.length) = rest := by
  obtain ⟨before, rfl⟩ := suffix
  rw [List.length_append, Nat.add_sub_cancel, List.drop_left]

variable (lo hi leaf node ws) in
/-- The label of block `(h, k)` from the labels behind a cursor, and the cursor after them. -/
def rebuildFrom (h k cursor : ℕ) : Option (α × ℕ) :=
  (rebuild lo hi leaf node h k (ws.drop cursor)).map fun (out, rest) => (out, ws.length - rest.length)

/-- One witness is taken at the cursor. -/
lemma takeOne_drop_map (cursor : ℕ) :
    ((takeOne (ws.drop cursor)).map fun (out, rest) => (out, ws.length - rest.length)) =
      ws[cursor]?.map fun w => (w, cursor + 1) := by
  rw [takeOne_drop]
  by_cases lt : cursor < ws.length
  · simp [List.getElem?_eq_getElem lt]
    omega
  · simp [List.getElem?_eq_none (Nat.not_lt.mp lt)]

/-- A block outside the range is taken from the witnesses. -/
lemma rebuildFrom_outside {h k cursor : ℕ} (outside : Outside lo hi h k) :
    rebuildFrom lo hi leaf node ws h k cursor = ws[cursor]?.map fun w => (w, cursor + 1) := by
  cases h with
  | zero => rw [rebuildFrom, rebuild, if_pos outside, takeOne_drop_map]
  | succ h => rw [rebuildFrom, rebuild, if_pos outside, takeOne_drop_map]

/-- A leaf inside the range is rebuilt. -/
lemma rebuildFrom_leaf {k cursor : ℕ} (inside : ¬Outside lo hi 0 k) (le : cursor ≤ ws.length) :
    rebuildFrom lo hi leaf node ws 0 k cursor = some (leaf k, cursor) := by
  have back : ws.length - (ws.length - cursor) = cursor := by omega
  simp [rebuildFrom, rebuild, inside, back]

/-- A block that meets the range is rebuilt from its halves. -/
lemma rebuildFrom_node {h k cursor : ℕ} (inside : ¬Outside lo hi (h + 1) k) :
    rebuildFrom lo hi leaf node ws (h + 1) k cursor =
      (rebuildFrom lo hi leaf node ws h (2 * k) cursor).bind fun (left, cursor) =>
        (rebuildFrom lo hi leaf node ws h (2 * k + 1) cursor).bind fun (right, cursor) =>
          some (node (root (h + 1) k) left right, cursor) := by
  rw [rebuildFrom, rebuild, if_neg inside, rebuildFrom]
  cases hl : rebuild lo hi leaf node h (2 * k) (ws.drop cursor) with
  | none => rfl
  | some left =>
    obtain ⟨left, rest⟩ := left
    have suffix : rest <:+ ws := (rebuild_suffix hl).trans (List.drop_suffix _ _)
    simp only [Option.map_some, Option.bind_eq_bind, Option.bind_some]
    rw [rebuildFrom, drop_of_suffix suffix]
    cases rebuild lo hi leaf node h (2 * k + 1) rest with
    | none => rfl
    | some right => rfl

/-- The cursor stays within the witnesses. -/
lemma rebuildFrom_le {h k cursor cursor' : ℕ} {out : α}
    (ok : rebuildFrom lo hi leaf node ws h k cursor = some (out, cursor')) : cursor' ≤ ws.length := by
  obtain ⟨⟨out', rest⟩, -, e⟩ := Option.map_eq_some_iff.mp ok
  cases e
  exact Nat.sub_le _ _

end CLL.PostOrder
