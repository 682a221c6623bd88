import CLL.Lib.Climb

/-!
# Rebuilding blocks from a range of leaves

The leaves `lo, …, hi` and one label for every maximal block outside of them determine the label of each
block. `outs` lists these maximal blocks in the order of a depth-first walk, and `rebuild` consumes
their labels in the same order.

`rebuild_outs` says that the true labels rebuild the true label. `rebuild_pins` is the converse: where
`node` is injective on the arguments used, rebuilding the true label forces the leaves in the range, the
labels consumed and their number.
-/

namespace CLL.PostOrder

variable {α : Type*} (lo hi : ℕ)

/-- No leaf of block `(h, k)` is in the range. -/
def Outside (h k : ℕ) : Prop := (k + 1) * 2 ^ h ≤ lo ∨ hi < k * 2 ^ h

instance (h k : ℕ) : Decidable (Outside lo hi h k) :=
  inferInstanceAs (Decidable (_ ∨ _))

/-- The maximal blocks below `(h, k)` outside the range, from left to right. -/
def outs : ℕ → ℕ → List (ℕ × ℕ)
  | 0, k => if Outside lo hi 0 k then [(0, k)] else []
  | h + 1, k =>
    if Outside lo hi (h + 1) k then [(h + 1, k)] else outs h (2 * k) ++ outs h (2 * k + 1)

/-- The first label of a list. -/
def takeOne : List α → Option (α × List α)
  | [] => none
  | w :: ws => some (w, ws)

/-- The label at a cursor, and the labels after it. -/
lemma takeOne_drop (ws : List α) (cursor : ℕ) :
    takeOne (ws.drop cursor) = ws[cursor]?.map fun w => (w, ws.drop (cursor + 1)) := by
  by_cases lt : cursor < ws.length
  · rw [List.drop_eq_getElem_cons lt, List.getElem?_eq_getElem lt]
    rfl
  · rw [List.drop_eq_nil_of_le (by omega), List.getElem?_eq_none (by omega)]
    rfl

section Rebuild

variable (leaf : ℕ → α) (node : ℕ → α → α → α)

/-- The label of block `(h, k)` from the leaves in the range and the labels of the blocks outside. -/
def rebuild : ℕ → ℕ → List α → Option (α × List α)
  | 0, k, ws => if Outside lo hi 0 k then takeOne ws else some (leaf k, ws)
  | h + 1, k, ws =>
    if Outside lo hi (h + 1) k then takeOne ws
    else do
      let (left, ws) ← rebuild h (2 * k) ws
      let (right, ws) ← rebuild h (2 * k + 1) ws
      some (node (root (h + 1) k) left right, ws)

/-- The arguments `rebuild` passes to `node`. -/
def rebuildArgs : ℕ → ℕ → List α → List (ℕ × α × α)
  | 0, _, _ => []
  | h + 1, k, ws =>
    if Outside lo hi (h + 1) k then []
    else
      match rebuild lo hi leaf node h (2 * k) ws with
      | none => []
      | some (left, ws') =>
        rebuildArgs h (2 * k) ws ++ rebuildArgs h (2 * k + 1) ws' ++
          match rebuild lo hi leaf node h (2 * k + 1) ws' with
          | none => []
          | some (right, _) => [(root (h + 1) k, left, right)]

variable {lo hi leaf node}

/-- A leaf of a block outside the range is not in the range. -/
lemma Outside.not_mem {h k i : ℕ} (out : Outside lo hi h k) (ge : k * 2 ^ h ≤ i)
    (lt : i < (k + 1) * 2 ^ h) : ¬(lo ≤ i ∧ i ≤ hi) := by
  unfold Outside at out
  omega

/-- No block is left out below a block that lies in the range. -/
lemma outs_eq_nil {h k : ℕ} (ge : lo ≤ k * 2 ^ h) (le : (k + 1) * 2 ^ h ≤ hi + 1) :
    outs lo hi h k = [] := by
  induction h generalizing k with
  | zero =>
    have inside : ¬Outside lo hi 0 k := by
      unfold Outside
      omega
    rw [outs, if_neg inside]
  | succ h ih =>
    have pos := Nat.two_pow_pos h
    have e1 : (k + 1) * 2 ^ (h + 1) = (2 * k + 1 + 1) * 2 ^ h := by ring
    have e2 : (2 * k + 1 + 1) * 2 ^ h = (2 * k + 1) * 2 ^ h + 2 ^ h := by ring
    have e3 : k * 2 ^ (h + 1) = 2 * k * 2 ^ h := by ring
    have e4 : (2 * k + 1) * 2 ^ h = 2 * k * 2 ^ h + 2 ^ h := by ring
    have inside : ¬Outside lo hi (h + 1) k := by
      unfold Outside
      omega
    rw [outs, if_neg inside, ih (by omega) (by omega), ih (by omega) (by omega)]
    rfl

/-- A block outside the range is complete where the whole one is. -/
lemma mem_outs {n h k : ℕ} (c : Complete n h k) {b : ℕ × ℕ} (hb : b ∈ outs lo hi h k) :
    Complete n b.1 b.2 := by
  induction h generalizing k with
  | zero =>
    unfold outs at hb
    split at hb
    · rw [List.mem_singleton.mp hb]
      exact c
    · cases hb
  | succ h ih =>
    unfold outs at hb
    split at hb
    · rw [List.mem_singleton.mp hb]
      exact c
    · cases List.mem_append.mp hb with
      | inl hb => exact ih c.left hb
      | inr hb => exact ih c.right hb

/-- The true labels of the blocks outside rebuild the true label. -/
theorem rebuild_outs {trueLeaf : ℕ → α} {h k : ℕ} (rest : List α)
    (agree : ∀ i, lo ≤ i → i ≤ hi → k * 2 ^ h ≤ i → i < (k + 1) * 2 ^ h → leaf i = trueLeaf i) :
    rebuild lo hi leaf node h k
        ((outs lo hi h k).map (fun b => label trueLeaf node b.1 b.2) ++ rest) =
      some (label trueLeaf node h k, rest) := by
  induction h generalizing k rest with
  | zero =>
    by_cases out : Outside lo hi 0 k
    · rw [outs, rebuild, if_pos out, if_pos out]
      rfl
    · rw [outs, rebuild, if_neg out, if_neg out]
      unfold Outside at out
      rw [agree k (by omega) (by omega) (by omega) (by omega)]
      rfl
  | succ h ih =>
    by_cases out : Outside lo hi (h + 1) k
    · rw [outs, rebuild, if_pos out, if_pos out]
      rfl
    · have e1 : (k + 1) * 2 ^ (h + 1) = (2 * k + 1 + 1) * 2 ^ h := by ring
      have e2 : (2 * k + 1 + 1) * 2 ^ h = (2 * k + 1) * 2 ^ h + 2 ^ h := by ring
      have e3 : k * 2 ^ (h + 1) = 2 * k * 2 ^ h := by ring
      have e4 : (2 * k + 1) * 2 ^ h = 2 * k * 2 ^ h + 2 ^ h := by ring
      rw [outs, rebuild, if_neg out, if_neg out, List.map_append, List.append_assoc]
      rw [ih _ fun i h1 h2 h3 h4 => agree i h1 h2 (by omega) (by omega)]
      simp only [Option.bind_eq_bind, Option.bind_some]
      rw [ih _ fun i h1 h2 h3 h4 => agree i h1 h2 (by omega) (by omega)]
      rfl

/-- How a block that is not outside was rebuilt. -/
lemma rebuild_succ_eq_some {h k : ℕ} {ws rest : List α} {out : α}
    (inside : ¬Outside lo hi (h + 1) k)
    (ok : rebuild lo hi leaf node (h + 1) k ws = some (out, rest)) :
    ∃ left ws' right, rebuild lo hi leaf node h (2 * k) ws = some (left, ws') ∧
      rebuild lo hi leaf node h (2 * k + 1) ws' = some (right, rest) ∧
      out = node (root (h + 1) k) left right ∧
      rebuildArgs lo hi leaf node (h + 1) k ws = rebuildArgs lo hi leaf node h (2 * k) ws ++
        rebuildArgs lo hi leaf node h (2 * k + 1) ws' ++ [(root (h + 1) k, left, right)] := by
  rw [rebuild, if_neg inside] at ok
  cases hl : rebuild lo hi leaf node h (2 * k) ws with
  | none =>
    rw [hl] at ok
    cases ok
  | some l =>
    rw [hl] at ok
    simp only [Option.bind_eq_bind, Option.bind_some] at ok
    cases hr : rebuild lo hi leaf node h (2 * k + 1) l.2 with
    | none =>
      rw [hr] at ok
      cases ok
    | some r =>
      rw [hr] at ok
      cases ok
      refine ⟨l.1, l.2, r.1, rfl, hr, rfl, ?_⟩
      rw [rebuildArgs, if_neg inside, hl]
      dsimp only
      rw [hr]

/-- Rebuilding the true label forces the labels consumed and the leaves in the range. -/
theorem rebuild_pins {used : ℕ × α × α → Prop} (pins : PinsOn node used) {trueLeaf : ℕ → α}
    {n h k : ℕ} (tree : ∀ h k, Complete n (h + 1) k →
      used (root (h + 1) k, label trueLeaf node h (2 * k), label trueLeaf node h (2 * k + 1)))
    (c : Complete n h k) {ws rest : List α} {out : α}
    (run : ∀ t ∈ rebuildArgs lo hi leaf node h k ws, used t)
    (ok : rebuild lo hi leaf node h k ws = some (out, rest))
    (eq : out = label trueLeaf node h k) :
    ws = (outs lo hi h k).map (fun b => label trueLeaf node b.1 b.2) ++ rest ∧
      ∀ i, lo ≤ i → i ≤ hi → k * 2 ^ h ≤ i → i < (k + 1) * 2 ^ h → leaf i = trueLeaf i := by
  induction h generalizing k ws rest out with
  | zero =>
    by_cases outside : Outside lo hi 0 k
    · rw [rebuild, if_pos outside] at ok
      rw [outs, if_pos outside]
      cases ws with
      | nil => cases ok
      | cons w ws =>
        cases ok
        refine ⟨by rw [eq]; rfl, fun i h1 h2 h3 h4 => ?_⟩
        exact absurd ⟨h1, h2⟩ (outside.not_mem h3 h4)
    · rw [rebuild, if_neg outside] at ok
      rw [outs, if_neg outside]
      cases ok
      refine ⟨rfl, fun i _ _ h3 h4 => ?_⟩
      obtain rfl : i = k := by omega
      exact eq
  | succ h ih =>
    by_cases outside : Outside lo hi (h + 1) k
    · rw [rebuild, if_pos outside] at ok
      rw [outs, if_pos outside]
      cases ws with
      | nil => cases ok
      | cons w ws =>
        cases ok
        refine ⟨by rw [eq]; rfl, fun i h1 h2 h3 h4 => ?_⟩
        exact absurd ⟨h1, h2⟩ (outside.not_mem h3 h4)
    · obtain ⟨left, ws', right, hl, hr, eout, eargs⟩ := rebuild_succ_eq_some outside ok
      rw [eargs] at run
      have here := run _ (List.mem_append_right _ List.mem_cons_self)
      -- The join pins both halves, and each goes on with its own witnesses.
      obtain ⟨el, er⟩ := pins _ _ _ _ _ here (tree h k c) (eout.symm.trans eq)
      obtain ⟨wl, al⟩ := ih c.left (fun t ht => run t (by simp [ht])) hl el
      obtain ⟨wr, ar⟩ := ih c.right (fun t ht => run t (by simp [ht])) hr er
      have e1 : (k + 1) * 2 ^ (h + 1) = (2 * k + 1 + 1) * 2 ^ h := by ring
      have e3 : k * 2 ^ (h + 1) = 2 * k * 2 ^ h := by ring
      refine ⟨?_, fun i h1 h2 h3 h4 => ?_⟩
      · rw [outs, if_neg outside, wl, wr, List.map_append, List.append_assoc]
      · by_cases lt : i < (2 * k + 1) * 2 ^ h
        · exact al i h1 h2 (by omega) lt
        · exact ar i h1 h2 (by omega) (by omega)

/-- A property of every label carried that `node` establishes holds of every argument of `node`. -/
lemma forall_rebuild {P : α → Prop} (hleaf : ∀ i, lo ≤ i → i ≤ hi → P (leaf i))
    (hnode : ∀ p a b, P (node p a b)) {h k : ℕ} {ws rest : List α} {out : α} (hws : ∀ w ∈ ws, P w)
    (ok : rebuild lo hi leaf node h k ws = some (out, rest)) :
    P out ∧ (∀ w ∈ rest, P w) ∧ ∀ t ∈ rebuildArgs lo hi leaf node h k ws, P t.2.1 ∧ P t.2.2 := by
  induction h generalizing k ws rest out with
  | zero =>
    by_cases outside : Outside lo hi 0 k
    · rw [rebuild, if_pos outside] at ok
      cases ws with
      | nil => cases ok
      | cons w ws =>
        cases ok
        exact ⟨hws _ List.mem_cons_self, fun w hw => hws w (List.mem_cons_of_mem _ hw), by
          simp [rebuildArgs]⟩
    · rw [rebuild, if_neg outside] at ok
      cases ok
      unfold Outside at outside
      exact ⟨hleaf k (by omega) (by omega), hws, by simp [rebuildArgs]⟩
  | succ h ih =>
    by_cases outside : Outside lo hi (h + 1) k
    · rw [rebuild, if_pos outside] at ok
      cases ws with
      | nil => cases ok
      | cons w ws =>
        cases ok
        refine ⟨hws _ List.mem_cons_self, fun w hw => hws w (List.mem_cons_of_mem _ hw), ?_⟩
        simp [rebuildArgs, outside]
    · obtain ⟨left, ws', right, hl, hr, eout, eargs⟩ := rebuild_succ_eq_some outside ok
      obtain ⟨pl, pws', al⟩ := ih hws hl
      obtain ⟨pr, prest, ar⟩ := ih pws' hr
      refine ⟨by rw [eout]; exact hnode _ _ _, prest, fun t ht => ?_⟩
      rw [eargs] at ht
      simp only [List.mem_append, List.mem_singleton] at ht
      rcases ht with (ht | ht) | rfl
      · exact al t ht
      · exact ar t ht
      · exact ⟨pl, pr⟩

end Rebuild

end CLL.PostOrder
