import CLL.Lib.PostOrder

/-!
# Labelled blocks and climbing paths

`label leaf node` labels every block: a leaf by `leaf`, an inner block by `node` applied to its number
and the labels of its children. `ascent h k d` lists the `d` steps from block `(h, k)` to the block `d`
levels above it, and `climb` folds a label along such steps with one sibling label per step.

`climb_ascent` says that climbing with the true sibling labels reaches the true label above.
`climb_pins` is the converse for an arbitrary start and arbitrary siblings: where `node` is injective on
the arguments used, reaching the true label forces the start and every sibling to be the true ones.
-/

namespace CLL.PostOrder

variable {α : Type*}

/-- One step from a block to its parent. -/
structure Step where
  /-- Number of the sibling. -/
  siblingPos : ℕ
  /-- The path arrives as the right child. -/
  targetIsRight : Bool
  /-- Number of the parent. -/
  parentPos : ℕ
  deriving DecidableEq, Repr

/-- The block beside `(h, k)` under their common parent. -/
def sibling (k : ℕ) : ℕ := if k % 2 = 1 then k - 1 else k + 1

/-- Both children of a complete block are complete. -/
lemma Complete.of_parent {n h k : ℕ} (c : Complete n (h + 1) (k / 2)) :
    Complete n h k ∧ Complete n h (sibling k) := by
  have left := c.left
  have right := c.right
  unfold sibling
  rcases Nat.mod_two_eq_zero_or_one k with even | odd
  · rw [if_neg (by omega)]
    rw [show 2 * (k / 2) = k by omega] at left right
    exact ⟨left, right⟩
  · rw [if_pos odd]
    rw [show 2 * (k / 2) = k - 1 by omega] at left right
    rw [show k - 1 + 1 = k by omega] at right
    exact ⟨right, left⟩

/-- The step from block `(h, k)` to its parent. -/
def stepUp (h k : ℕ) : Step := ⟨root h (sibling k), k % 2 = 1, root (h + 1) (k / 2)⟩

/-- The steps from block `(h, k)` to the block `d` levels above it, lowest first. -/
def ascent (h k : ℕ) : ℕ → List Step
  | 0 => []
  | d + 1 => ascent h k d ++ [stepUp (h + d) (k / 2 ^ d)]

/-- An ascent has one step for each level. -/
@[simp] lemma length_ascent (h k d : ℕ) : (ascent h k d).length = d := by
  induction d with
  | zero => rfl
  | succ d ih => simp [ascent, ih]

/-- The number of each block passed on the way, without the top. -/
lemma mem_ascent {h k d : ℕ} {s : Step} (hs : s ∈ ascent h k d) :
    ∃ i < d, s = stepUp (h + i) (k / 2 ^ i) := by
  induction d with
  | zero => simp [ascent] at hs
  | succ d ih =>
    simp only [ascent, List.mem_append, List.mem_singleton] at hs
    rcases hs with hs | hs
    · obtain ⟨i, lt, e⟩ := ih hs
      exact ⟨i, by omega, e⟩
    · exact ⟨d, by omega, hs⟩

section Label

variable (leaf : ℕ → α) (node : ℕ → α → α → α)

/-- The label of block `(h, k)`. -/
def label : ℕ → ℕ → α
  | 0, k => leaf k
  | h + 1, k => node (root (h + 1) k) (label h (2 * k)) (label h (2 * k + 1))

/-- A leaf has its own label. -/
@[simp] lemma label_zero (k : ℕ) : label leaf node 0 k = leaf k := rfl

/-- The label of a block joins those of its halves. -/
lemma label_succ (h k : ℕ) :
    label leaf node (h + 1) k =
      node (root (h + 1) k) (label leaf node h (2 * k)) (label leaf node h (2 * k + 1)) := rfl

/-- A label depends only on the leaves below it. -/
lemma label_congr {leaf' : ℕ → α} {n h k : ℕ} (c : Complete n h k)
    (eq : ∀ i < n, leaf i = leaf' i) : label leaf node h k = label leaf' node h k := by
  induction h generalizing k with
  | zero => exact eq k (by simpa [Complete] using c)
  | succ h ih => rw [label_succ, label_succ, ih c.left, ih c.right]

/-- Folding one sibling label into the label carried upwards. -/
def join (s : Step) (acc sib : α) : α :=
  if s.targetIsRight then node s.parentPos sib acc else node s.parentPos acc sib

/-- Carries a label along `steps`, one sibling label per step. -/
def climb (acc : α) (steps : List Step) (sibs : List α) : α :=
  (steps.zip sibs).foldl (fun acc x => join node x.1 acc x.2) acc

/-- The arguments `climb` passes to `node`. -/
def climbArgs : α → List Step → List α → List (ℕ × α × α)
  | acc, s :: steps, sib :: sibs =>
    (if s.targetIsRight then (s.parentPos, sib, acc) else (s.parentPos, acc, sib)) ::
      climbArgs (join node s acc sib) steps sibs
  | _, _, _ => []

/-- A climb without steps stays. -/
@[simp] lemma climb_nil (acc : α) (sibs : List α) : climb node acc [] sibs = acc := by
  simp [climb]

/-- A climb is continued by further steps. -/
lemma climb_append (acc : α) {steps steps' : List Step} {sibs sibs' : List α}
    (len : steps.length = sibs.length) :
    climb node acc (steps ++ steps') (sibs ++ sibs') =
      climb node (climb node acc steps sibs) steps' sibs' := by
  simp [climb, List.zip_append len]

/-- The arguments of a climb are those of both parts. -/
lemma climbArgs_append (acc : α) {steps steps' : List Step} {sibs sibs' : List α}
    (len : steps.length = sibs.length) :
    climbArgs node acc (steps ++ steps') (sibs ++ sibs') =
      climbArgs node acc steps sibs ++ climbArgs node (climb node acc steps sibs) steps' sibs' := by
  induction steps generalizing acc sibs with
  | nil =>
    obtain rfl : sibs = [] := by simpa using len.symm
    simp [climbArgs]
  | cons s steps ih =>
    cases sibs with
    | nil => simp at len
    | cons sib sibs =>
      have len : steps.length = sibs.length := by simpa using len
      have ih := ih (join node s acc sib) len
      simp only [List.cons_append, climbArgs, ih]
      simp [climb]

/-- The true sibling label of each step of an ascent. -/
def siblingLabels (h k : ℕ) : ℕ → List α
  | 0 => []
  | d + 1 => siblingLabels h k d ++ [label leaf node (h + d) (sibling (k / 2 ^ d))]

/-- There is one sibling for each level. -/
@[simp] lemma length_siblingLabels (h k d : ℕ) :
    (siblingLabels leaf node h k d).length = d := by
  induction d with
  | zero => rfl
  | succ d ih => simp [siblingLabels, ih]

/-- A parent's label is its children's, joined in the order the step gives. -/
lemma join_stepUp (h k : ℕ) :
    join node (stepUp h k) (label leaf node h k) (label leaf node h (sibling k)) =
      label leaf node (h + 1) (k / 2) := by
  rcases Nat.mod_two_eq_zero_or_one k with hm | hm
  · have e : 2 * (k / 2) = k := by omega
    simp [join, stepUp, sibling, hm, label_succ, e]
  · have e : 2 * (k / 2) = k - 1 := by omega
    have e' : k - 1 + 1 = k := by omega
    simp [join, stepUp, sibling, hm, label_succ, e, e']

/-- Climbing with the true sibling labels reaches the true label. -/
theorem climb_ascent (h k d : ℕ) :
    climb node (label leaf node h k) (ascent h k d) (siblingLabels leaf node h k d) =
      label leaf node (h + d) (k / 2 ^ d) := by
  induction d with
  | zero => simp [ascent]
  | succ d ih =>
    rw [ascent, siblingLabels, climb_append node _ (by simp), ih]
    simp only [climb, List.zip_cons_cons, List.zip_nil_left, List.foldl_cons, List.foldl_nil]
    rw [join_stepUp, ← div_pow_succ]
    rfl

/-- `node` tells apart the argument triples in `used`. -/
def PinsOn (used : ℕ × α × α → Prop) : Prop :=
  ∀ p a b a' b', used (p, a, b) → used (p, a', b') → node p a b = node p a' b' → a = a' ∧ b = b'

variable {node} in
/-- A pinning join pins the sibling and the block below. -/
lemma join_pins {used : ℕ × α × α → Prop} (pins : PinsOn node used) {h k : ℕ} {acc sib : α}
    (u : used (if (stepUp h k).targetIsRight then ((stepUp h k).parentPos, sib, acc)
      else ((stepUp h k).parentPos, acc, sib)))
    (u' : used (root (h + 1) (k / 2), label leaf node h (2 * (k / 2)),
      label leaf node h (2 * (k / 2) + 1)))
    (eq : join node (stepUp h k) acc sib = label leaf node (h + 1) (k / 2)) :
    acc = label leaf node h k ∧ sib = label leaf node h (sibling k) := by
  rcases Nat.mod_two_eq_zero_or_one k with hm | hm
  · have e : 2 * (k / 2) = k := by omega
    simp only [join, stepUp, hm, label_succ, e] at u u' eq ⊢
    simpa [sibling, hm] using pins _ _ _ _ _ (by simpa using u) u' (by simpa using eq)
  · have e : 2 * (k / 2) = k - 1 := by omega
    have e' : k - 1 + 1 = k := by omega
    simp only [join, stepUp, hm, label_succ, e, e'] at u u' eq ⊢
    simpa [sibling, hm, and_comm] using pins _ _ _ _ _ (by simpa using u) u' (by simpa using eq)

variable {node} in
/-- Reaching the true label forces the true start and the true siblings. -/
theorem climb_pins {used : ℕ × α × α → Prop} (pins : PinsOn node used) {n h k d : ℕ} {acc : α}
    {sibs : List α} (len : sibs.length = d)
    (tree : ∀ h k, Complete n (h + 1) k →
      used (root (h + 1) k, label leaf node h (2 * k), label leaf node h (2 * k + 1)))
    (path : ∀ t ∈ climbArgs node acc (ascent h k d) sibs, used t)
    (c : Complete n (h + d) (k / 2 ^ d))
    (eq : climb node acc (ascent h k d) sibs = label leaf node (h + d) (k / 2 ^ d)) :
    acc = label leaf node h k ∧ sibs = siblingLabels leaf node h k d := by
  induction d generalizing sibs with
  | zero =>
    obtain rfl : sibs = [] := by simpa using len
    simpa [ascent, siblingLabels] using eq
  | succ d ih =>
    obtain ⟨sibs, sib, rfl⟩ : ∃ xs x, sibs = xs ++ [x] :=
      ⟨sibs.dropLast, sibs.getLast (by rintro rfl; simp at len),
        (List.dropLast_append_getLast _).symm⟩
    have len : sibs.length = d := by simpa using len
    rw [ascent, climbArgs_append node _ (by simp [len])] at path
    rw [ascent, climb_append node _ (by simp [len])] at eq
    have top : join node (stepUp (h + d) (k / 2 ^ d)) (climb node acc (ascent h k d) sibs) sib =
        label leaf node (h + d + 1) (k / 2 ^ d / 2) := by
      rw [← div_pow_succ]; exact eq
    have c' : Complete n (h + d + 1) (k / 2 ^ d / 2) := by rw [← div_pow_succ]; exact c
    obtain ⟨e1, e2⟩ := join_pins leaf pins
      (path _ (by simp [climbArgs])) (tree _ _ c') top
    have cd : Complete n (h + d) (k / 2 ^ d) := by
      rcases div_pow_cases k d with e | e <;> rw [e]
      · exact c.left
      · exact c.right
    obtain ⟨e3, e4⟩ := ih len (fun t ht => path t (by simp [ht])) cd e1
    exact ⟨e3, by rw [siblingLabels, e4, e2]⟩

end Label

end CLL.PostOrder
