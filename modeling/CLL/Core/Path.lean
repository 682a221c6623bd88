import CLL.Core.Append

/-!
# Proof paths

`_find_containing_peak` and `_locate_path` of `checkpoint/core.py`. Prover and verifier call both on
positions alone. `locatePath_root` says that the descent from a peak finds the path by which block
`(h, k)` climbs to it, and `findContainingPeak_root` that the search finds the mountain over the block.
-/

namespace CLL.Core
open PostOrder

/-- `_PathStep`. -/
abbrev PathStep := Step

/-- `_find_containing_peak`; `none` for `-1`. -/
def findContainingPeak (pos : ℕ) : List ℕ → Option ℕ
  | [] => none
  | peakPos :: peakPositions =>
    let h := heightAt peakPos
    let mSize := 2 ^ (h + 1) - 1
    let start := peakPos + 1 - mSize
    if start ≤ pos ∧ pos ≤ peakPos then some 0
    else (findContainingPeak pos peakPositions).map (· + 1)

/-- `while cur_height > 0 and cur_root != target_pos: …` of `_locate_path`: the steps top down. -/
def locatePathLoop (targetPos : ℕ) : ℕ → ℕ → List PathStep
  | 0, _ => []
  | curHeight + 1, curRoot =>
    if curRoot = targetPos then []
    else
      let parentPos := curRoot
      let leftSize := 2 ^ (curHeight + 1) - 1
      let leftChildRoot := curRoot - leftSize - 1
      let rightChildRoot := curRoot - 1
      if targetPos ≤ leftChildRoot then
        ⟨rightChildRoot, false, parentPos⟩ :: locatePathLoop targetPos curHeight leftChildRoot
      else ⟨leftChildRoot, true, parentPos⟩ :: locatePathLoop targetPos curHeight rightChildRoot

/-- `_locate_path`. -/
def locatePath (rootPos height targetPos : ℕ) : List PathStep :=
  (locatePathLoop targetPos height rootPos).reverse

/-- From an even block the sibling is on the right. -/
lemma stepUp_of_left {h k : ℕ} (e : k = 2 * (k / 2)) :
    stepUp h k = ⟨root h (2 * (k / 2) + 1), false, root (h + 1) (k / 2)⟩ := by
  have even : k % 2 = 0 := by omega
  simp only [stepUp, sibling, even]
  rw [← e]
  rfl

/-- From an odd block the sibling is on the left. -/
lemma stepUp_of_right {h k : ℕ} (e : k = 2 * (k / 2) + 1) :
    stepUp h k = ⟨root h (2 * (k / 2)), true, root (h + 1) (k / 2)⟩ := by
  have odd : k % 2 = 1 := by omega
  have left : k - 1 = 2 * (k / 2) := by omega
  simp [stepUp, sibling, odd, left]

/-- A descent from the parent of the block `d` levels above `(h, k)` goes down to that block, and the step
there is the one by which it climbs. -/
lemma descend_cases (h k d : ℕ) :
    let parent := root (h + d + 1) (k / 2 ^ (d + 1))
    let left := parent - (2 ^ (h + d + 1) - 1) - 1
    parent ≠ root h k ∧
      (root h k ≤ left ∧ left = root (h + d) (k / 2 ^ d) ∧
          stepUp (h + d) (k / 2 ^ d) = ⟨parent - 1, false, parent⟩ ∨
        ¬ root h k ≤ left ∧ parent - 1 = root (h + d) (k / 2 ^ d) ∧
          stepUp (h + d) (k / 2 ^ d) = ⟨left, true, parent⟩) := by
  intro parent left
  have above := root_lt_root_up h k d
  have left_root := root_left (h + d) (k / 2 ^ (d + 1))
  have right_root := root_right (h + d) (k / 2 ^ (d + 1))
  have side := root_le_left_iff h k d
  have two := pow_pos_two (h + d)
  have eleft : left = root (h + d) (2 * (k / 2 ^ (d + 1))) := by omega
  have eright : parent - 1 = root (h + d) (2 * (k / 2 ^ (d + 1)) + 1) := by omega
  refine ⟨Nat.ne_of_gt above, ?_⟩
  cases div_pow_cases k d with
  | inl e =>
    have e' : k / 2 ^ d = 2 * (k / 2 ^ d / 2) := by rwa [← div_pow_succ]
    refine .inl ⟨by rw [eleft]; exact side.mpr e, by rw [eleft, e], ?_⟩
    rw [stepUp_of_left e', ← div_pow_succ, ← eright]
  | inr e =>
    have e' : k / 2 ^ d = 2 * (k / 2 ^ d / 2) + 1 := by rwa [← div_pow_succ]
    refine .inr ⟨fun le => ?_, by rw [eright, e], ?_⟩
    · have := side.mp (eleft ▸ le)
      omega
    · rw [stepUp_of_right e', ← div_pow_succ, ← eleft]

/-- The path to a block is found from the root. -/
lemma locatePathLoop_root (h k d : ℕ) :
    locatePathLoop (root h k) (h + d) (root (h + d) (k / 2 ^ d)) = (ascent h k d).reverse := by
  induction d with
  | zero => cases h <;> simp [locatePathLoop, ascent]
  | succ d ih =>
    obtain ⟨ne, sides⟩ := descend_cases h k d
    change locatePathLoop (root h k) (h + d + 1) (root (h + d + 1) _) = _
    rw [ascent, List.reverse_append, locatePathLoop, if_neg ne]
    dsimp only
    rcases sides with ⟨le, down, step⟩ | ⟨gt, down, step⟩
    · rw [if_pos le, down, ih, step]
      rfl
    · rw [if_neg gt, down, ih, step]
      rfl

/-- The path located from a block down to a block below it climbs back up. -/
theorem locatePath_root (h k d : ℕ) :
    locatePath (root (h + d) (k / 2 ^ d)) (h + d) (root h k) = ascent h k d := by
  rw [locatePath, locatePathLoop_root, List.reverse_reverse]

/-- The mountain over a complete block that lies past the mountains from height `H` upwards. -/
lemma findContainingPeak_peakRoots {n H h k : ℕ} (c : Complete n h k)
    (past : n / 2 ^ H * 2 ^ H ≤ k * 2 ^ h) :
    ∃ left right d, (heights n H).reverse = left ++ (h + d) :: right ∧
      k / 2 ^ d = mountain n (h + d) ∧
      findContainingPeak (root h k) (peakRoots n H) = some left.length := by
  induction H with
  | zero =>
    have pos := Nat.two_pow_pos h
    simp only [pow_zero, Nat.div_one, Nat.mul_one] at past
    simp only [Complete, Nat.add_mul, Nat.one_mul] at c
    omega
  | succ H ih =>
    cases b : n.testBit H with
    | false =>
      rw [prefix_succ_of_not_testBit b] at past
      rw [heights_succ_of_not_testBit b, peakRoots_succ_of_not_testBit b]
      exact ih past
    | true =>
      rw [prefix_succ_of_testBit n H] at past
      rw [heights_succ_of_testBit b, List.reverse_append, peakRoots_succ_of_testBit b]
      have size : root H (mountain n H) + 1 =
          forestSize (mountain n H * 2 ^ H) + (2 ^ (H + 1) - 1) := by
        have := pow_pos_two H
        simp only [root]
        omega
      cases c.mem_mountain_or b past with
      | inl under =>
        obtain ⟨d, rfl, e⟩ := under
        have span := root_mem_span h k d
        rw [e] at span
        refine ⟨[], (heights n (h + d)).reverse, d, rfl, e, ?_⟩
        rw [findContainingPeak, heightAt_root, if_pos ⟨by omega, span.2⟩]
        rfl
      | inr later =>
        obtain ⟨left, right, d, eh, ek, found⟩ := ih later
        have next : root H (mountain n H) < root h k := by
          have le := forestSize_le later
          have here : root H (mountain n H) + 1 = forestSize (n / 2 ^ H * 2 ^ H) := by
            rw [prefix_of_testBit b]
            exact root_add_one_of_even H _
          have : forestSize (k * 2 ^ h) ≤ root h k := by simp [root]
          omega
        refine ⟨H :: left, right, d, by simpa using eh, ek, ?_⟩
        rw [findContainingPeak, heightAt_root, if_neg (by omega), found]
        rfl

/-- Every complete block lies under one of the peaks, and the search finds it. -/
theorem findContainingPeak_root {n h k : ℕ} (c : Complete n h k) :
    ∃ left right d, mountains n = left ++ (h + d, k / 2 ^ d) :: right ∧
      findContainingPeak (root h k) (peakRoots n n.size) = some left.length := by
  have past : n / 2 ^ n.size * 2 ^ n.size ≤ k * 2 ^ h := by
    rw [Nat.div_eq_of_lt (Nat.lt_size_self n), Nat.zero_mul]
    exact Nat.zero_le _
  obtain ⟨left, right, d, eh, ek, found⟩ := findContainingPeak_peakRoots c past
  refine ⟨left.map fun h => (h, mountain n h), right.map fun h => (h, mountain n h), d, ?_, ?_⟩
  · rw [mountains, eh, ek]
    simp
  · simpa using found

/-- The peaks are the roots of the mountains. -/
lemma peakRoots_eq (n : ℕ) :
    peakRoots n n.size = (mountains n).map fun b => root b.1 b.2 := by
  simp [peakRoots, mountains]

section Split

variable {n : ℕ} {left right : List (ℕ × ℕ)} {b : ℕ × ℕ}

/-- There are as many peaks as mountains. -/
lemma length_peakRoots_split (split : mountains n = left ++ b :: right) :
    (peakRoots n n.size).length = left.length + right.length + 1 := by
  simp [peakRoots_eq, split, Nat.add_assoc]

/-- The peak of a mountain in its place. -/
lemma getD_peakRoots_split (split : mountains n = left ++ b :: right) :
    (peakRoots n n.size).getD left.length 0 = root b.1 b.2 := by
  simp [peakRoots_eq, split]

/-- The peaks before a mountain. -/
lemma take_peakRoots_split (split : mountains n = left ++ b :: right) :
    (peakRoots n n.size).take left.length = left.map fun b => root b.1 b.2 := by
  simp [peakRoots_eq, split]

/-- The peaks after a mountain. -/
lemma drop_peakRoots_split (split : mountains n = left ++ b :: right) :
    (peakRoots n n.size).drop (left.length + 1) = right.map fun b => root b.1 b.2 := by
  simp [peakRoots_eq, split, List.drop_append]

end Split

end CLL.Core
