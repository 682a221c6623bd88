import CLL.Lib.Checked
import CLL.Rust.Verifiers

/-!
# Positions on words of 64 bits

The position arithmetic of `mmr.rs` with every operation checked: a run gives nothing where a sum, a
difference or a product leaves the word or where a shift is by 64 places or more. `positions_exact` says
for which arguments each function runs to its end, and what it then gives.
-/

namespace CLL.Rust
open PostOrder Checked Word
open CLL.Core (heightAt heightBound heightLoop nodeCount maxMmrSize fitHeight peakRoots PathStep)

/-- `while (1u64 << (h + 1)) - 1 < pos1 { h += 1; }`. The shift ends the loop at the latest. -/
def heightBoundChecked (pos1 : ℕ) : ℕ → ℕ → Option ℕ
  | 0, _ => none
  | fuel + 1, h => do
    let bound ← sub (← shl 64 1 (h + 1)) 1
    if bound < pos1 then heightBoundChecked pos1 fuel (h + 1) else some h

/-- `loop { … }` of `height_at`. -/
def heightLoopChecked : ℕ → ℕ → Option ℕ
  | 0, _ => some 0
  | h + 1, pos1 => do
    let size ← sub (← shl 64 1 (h + 2)) 1
    if pos1 = size then some (h + 1)
    else do
      let leftSize ← sub (← shl 64 1 (h + 1)) 1
      let pos1 ← if pos1 > leftSize then sub pos1 leftSize else some pos1
      heightLoopChecked h pos1

/-- `height_at`. -/
def heightAtChecked (pos : ℕ) : Option ℕ := do
  let pos1 ← add 64 pos 1
  let h ← heightBoundChecked pos1 64 0
  heightLoopChecked h pos1

/-- `node_count`. -/
def nodeCountChecked (leafCount : ℕ) : Option ℕ := do
  let double ← mul 64 2 leafCount
  sub double (ones leafCount)

/-- `while (1u64 << (h + 2)) - 1 <= remaining { h += 1; }`. -/
def fitHeightChecked (remaining : ℕ) : ℕ → ℕ → Option ℕ
  | 0, _ => none
  | fuel + 1, h => do
    let bound ← sub (← shl 64 1 (h + 2)) 1
    if bound ≤ remaining then fitHeightChecked remaining fuel (h + 1) else some h

/-- `while remaining > 0 { … }` of `peaks`. -/
def peaksLoopChecked : ℕ → ℕ → ℕ → ℕ → List ℕ → OptionT Option (List ℕ)
  | 0, _, _, _, result => pure result
  | fuel + 1, remaining, offset, prevHeight, result =>
    if remaining > 0 then do
      let h ← OptionT.lift (fitHeightChecked remaining 64 0)
      guard (h < prevHeight)
      let mSize ← OptionT.lift (do sub (← shl 64 1 (h + 1)) 1)
      let offset ← OptionT.lift (add 64 offset mSize)
      let last ← OptionT.lift (sub offset 1)
      let remaining ← OptionT.lift (sub remaining mSize)
      peaksLoopChecked fuel remaining offset h (result ++ [last])
    else pure result

/-- `peaks`. -/
def peaksChecked (size : ℕ) : OptionT Option (List ℕ) := do
  guard (size < maxMmrSize)
  peaksLoopChecked size size 0 i64Max []

/-- `leaf_count`. -/
def leafCountChecked (size : ℕ) : OptionT Option ℕ := do
  let pks ← peaksChecked size
  let heights ← OptionT.lift (pks.mapM fun p => do shl 64 1 (← heightAtChecked p))
  OptionT.lift (heights.foldlM (add 64) 0)

/-- `leaf_index_to_pos`. -/
def leafIndexToPosChecked (leafIndex : ℕ) : OptionT Option ℕ := do
  let pos ← OptionT.lift (nodeCountChecked leafIndex)
  guard (pos < maxMmrSize)
  pure pos

/-- `pos_to_leaf_index`. -/
def posToLeafIndexChecked (pos : ℕ) : OptionT Option ℕ := do
  let h ← OptionT.lift (heightAtChecked pos)
  guard (h = 0)
  leafCountChecked pos

/-- `find_containing_peak`. -/
def findContainingPeakChecked (pos : ℕ) : ℕ → List ℕ → OptionT Option ℕ
  | _, [] => failure
  | i, peakPos :: peakPositions => do
    let h ← OptionT.lift (heightAtChecked peakPos)
    let mSize ← OptionT.lift (do sub (← shl 64 1 (h + 1)) 1)
    let start ← OptionT.lift (do sub (← add 64 peakPos 1) mSize)
    if start ≤ pos ∧ pos ≤ peakPos then pure i
    else findContainingPeakChecked pos (i + 1) peakPositions

/-- `while cur_height > 0 && cur_root != target_pos { … }` of `locate_path`. -/
def locatePathLoopChecked (targetPos : ℕ) : ℕ → ℕ → List PathStep → Option (List PathStep)
  | 0, _, topDown => some topDown
  | curHeight + 1, curRoot, topDown =>
    if curRoot = targetPos then some topDown
    else do
      let leftSize ← sub (← shl 64 1 (curHeight + 1)) 1
      let leftChildRoot ← sub (← sub curRoot leftSize) 1
      let rightChildRoot ← sub curRoot 1
      if targetPos ≤ leftChildRoot then
        locatePathLoopChecked targetPos curHeight leftChildRoot
          (topDown ++ [⟨rightChildRoot, false, curRoot⟩])
      else
        locatePathLoopChecked targetPos curHeight rightChildRoot
          (topDown ++ [⟨leftChildRoot, true, curRoot⟩])

/-- `locate_path`. -/
def locatePathChecked (rootPos height targetPos : ℕ) : Option (List PathStep) :=
  (locatePathLoopChecked targetPos height rootPos []).map List.reverse

/-- The checks of `verify_range` up to the number of its digests. -/
def checkLengthChecked (size fromIndex toIndex : UInt64) (digests : ℕ) (proof : RangeProof) :
    OptionT Option Unit := do
  guard (proof.v = 1 ∧ proof.kind.1 = .lit "range")
  guard (proof.size = size ∧ proof.fromIndex = fromIndex ∧ proof.toIndex = toIndex)
  guard (¬ (size.toNat ≥ maxMmrSize ∨ toIndex < fromIndex))
  let last ← OptionT.lift (sub toIndex.toNat fromIndex.toNat)
  let leaves ← OptionT.lift (add 64 last 1)
  guard (digests = leaves)

/-- The height is found on the way to 62. -/
lemma heightBoundChecked_eq {pos1 fuel fuel' h : ℕ} (small : pos1 ≤ 2 ^ 63 - 1) (le : h ≤ 62)
    (enough : 63 ≤ h + fuel) (fits : pos1 ≤ 2 ^ (h + fuel' + 1) - 1) :
    heightBoundChecked pos1 fuel h = some (heightBound pos1 fuel' h) ∧ heightBound pos1 fuel' h ≤ 62 := by
  induction fuel generalizing fuel' h with
  | zero => omega
  | succ fuel ih =>
    by_cases below : 2 ^ (h + 1) - 1 < pos1
    · have lt : 2 ^ (h + 1) < 2 ^ 63 := by omega
      have lt := (Nat.pow_lt_pow_iff_right (by decide)).mp lt
      cases fuel' with
      | zero => exact absurd fits (Nat.not_le.mpr below)
      | succ fuel' =>
        obtain ⟨eq, le⟩ := ih (h := h + 1) (by omega) (by omega)
          (show pos1 ≤ 2 ^ (h + 1 + fuel' + 1) - 1 by rwa [Nat.add_assoc h, Nat.add_comm 1 fuel'])
        rw [heightBound, if_pos below]
        refine ⟨some_bind (shl_one (by omega)) (some_bind (pow_sub_one _) ?_), le⟩
        rw [if_pos below, eq]
    · have same : heightBound pos1 fuel' h = h := by
        cases fuel' with
        | zero => exact rfl
        | succ fuel' => rw [heightBound, if_neg below]
      rw [same]
      exact ⟨some_bind (shl_one (by omega)) (some_bind (pow_sub_one _) (if_neg below)), le⟩

/-- Beyond the largest height the shift ends the loop. -/
lemma heightBoundChecked_eq_none {pos1 : ℕ} (large : 2 ^ 63 - 1 < pos1) (fuel h : ℕ) :
    heightBoundChecked pos1 fuel h = none := by
  induction fuel generalizing h with
  | zero => exact rfl
  | succ fuel ih =>
    rcases Nat.lt_or_ge (h + 1) 64 with lt | ge
    · have le : 2 ^ (h + 1) ≤ 2 ^ 63 := Nat.pow_le_pow_right (by decide) (by omega)
      refine some_bind (shl_one lt) (some_bind (pow_sub_one _) ?_)
      rw [if_pos (by omega), ih]
    · rw [heightBoundChecked, shl_of_le ge]
      exact rfl

/-- The height loop does not overflow from a height within 64 bits. -/
lemma heightLoopChecked_eq {h : ℕ} (le : h ≤ 62) (pos1 : ℕ) :
    heightLoopChecked h pos1 = some (heightLoop h pos1) := by
  induction h generalizing pos1 with
  | zero => exact rfl
  | succ h ih =>
    refine some_bind (shl_one (by omega)) (some_bind (pow_sub_one _) ?_)
    rw [heightLoop]
    dsimp only
    split
    · exact rfl
    · refine some_bind (shl_one (by omega)) (some_bind (pow_sub_one _) ?_)
      split
      · next gt => exact some_bind (sub_of_le gt.le) (ih (by omega) _)
      · exact some_bind rfl (ih (by omega) _)

/-- The height of a small position does not overflow. -/
lemma heightAtChecked_eq {pos : ℕ} (small : pos < 2 ^ 63 - 1) : heightAtChecked pos = some (heightAt pos) := by
  have fits : pos + 1 ≤ 2 ^ (0 + (pos + 1) + 1) - 1 := by
    have := Nat.lt_two_pow_self (n := pos + 1)
    rw [Nat.zero_add, pow_succ]
    omega
  have within : pos + 1 ≤ 2 ^ 63 - 1 := small
  obtain ⟨eq, le⟩ := heightBoundChecked_eq within (Nat.zero_le _) (by decide : 63 ≤ 0 + 64) fits
  exact some_bind (add_of_lt (by omega)) (some_bind eq (heightLoopChecked_eq le _))

/-- The height of a large position overflows. -/
lemma heightAtChecked_eq_none {pos : ℕ} (large : 2 ^ 63 - 1 ≤ pos) : heightAtChecked pos = none := by
  rcases Nat.lt_or_ge (pos + 1) (2 ^ 64) with lt | ge
  · refine some_bind (add_of_lt lt) ?_
    rw [heightBoundChecked_eq_none (by omega)]
    exact rfl
  · rw [heightAtChecked, add_of_le ge]
    exact rfl

/-- Every position is that of one block. -/
lemma exists_block (pos : ℕ) : ∃ h k, pos = root h k := by
  obtain ⟨h, k, -, e⟩ := exists_root (forestSize_strictMono.le_apply : pos + 1 ≤ forestSize (pos + 1))
  exact ⟨h, k, e.symm⟩

/-- The size of the tree of a block is within its position. -/
lemma size_le_pos (pos : ℕ) : 2 ^ (heightAt pos + 1) - 1 ≤ pos + 1 := by
  obtain ⟨h, k, rfl⟩ := exists_block pos
  have := pow_pos_two h
  rw [Core.heightAt_root, root]
  omega

/-- Heights of positions of the range. -/
lemma heightAt_le {pos : ℕ} (small : pos < 2 ^ 63 - 1) : heightAt pos ≤ 62 := by
  have size := size_le_pos pos
  have lt : 2 ^ (heightAt pos + 1) < 2 ^ 64 := by
    have := Nat.two_pow_pos (heightAt pos + 1)
    omega
  have lt := (Nat.pow_lt_pow_iff_right (by decide)).mp lt
  omega

/-- The node count of few leaves does not overflow. -/
lemma nodeCountChecked_eq {n : ℕ} (small : n < 2 ^ 63) : nodeCountChecked n = some (nodeCount n) := by
  have le := ones_le n
  exact some_bind (mul_of_lt (by omega)) (sub_of_le (by omega))

/-- The node count of many leaves overflows. -/
lemma nodeCountChecked_eq_none {n : ℕ} (large : 2 ^ 63 ≤ n) : nodeCountChecked n = none := by
  rw [nodeCountChecked, mul_of_le (by omega)]
  exact rfl

/-- The height that fits does not overflow. -/
lemma fitHeightChecked_eq {remaining fuel fuel' h : ℕ} (small : remaining < 2 ^ 50) (le : h ≤ 49)
    (enough : 50 ≤ h + fuel) (fits : remaining < 2 ^ (h + fuel' + 2) - 1) :
    fitHeightChecked remaining fuel h = some (fitHeight remaining fuel' h) ∧
      fitHeight remaining fuel' h ≤ 49 := by
  induction fuel generalizing fuel' h with
  | zero => omega
  | succ fuel ih =>
    by_cases more : 2 ^ (h + 2) - 1 ≤ remaining
    · have lt : 2 ^ (h + 2) < 2 ^ 51 := by omega
      have lt := (Nat.pow_lt_pow_iff_right (by decide)).mp lt
      cases fuel' with
      | zero => exact absurd fits (Nat.not_lt.mpr more)
      | succ fuel' =>
        obtain ⟨eq, le⟩ := ih (h := h + 1) (by omega) (by omega)
          (show remaining < 2 ^ (h + 1 + fuel' + 2) - 1 by rwa [Nat.add_assoc h, Nat.add_comm 1 fuel'])
        rw [fitHeight, if_pos more]
        refine ⟨some_bind (shl_one (by omega)) (some_bind (pow_sub_one _) ?_), le⟩
        rw [if_pos more, eq]
    · have same : fitHeight remaining fuel' h = h := by
        cases fuel' with
        | zero => exact rfl
        | succ fuel' => rw [fitHeight, if_neg more]
      rw [same]
      exact ⟨some_bind (shl_one (by omega)) (some_bind (pow_sub_one _) (if_neg more)), le⟩

/-- No operation of the loop leaves the word. -/
lemma peaksLoopChecked_runs {fuel remaining offset prevHeight : ℕ} (small : offset + remaining < 2 ^ 50)
    (result : List ℕ) : Runs (peaksLoopChecked fuel remaining offset prevHeight result)
      (peaksLoop fuel remaining offset prevHeight result) := by
  induction fuel generalizing remaining offset prevHeight result with
  | zero => exact rfl
  | succ fuel ih =>
    unfold peaksLoopChecked peaksLoop
    split
    · next pos =>
      have fits : remaining < 2 ^ (0 + remaining + 2) - 1 := by
        have := Nat.lt_two_pow_self (n := remaining)
        rw [Nat.zero_add, pow_add]
        omega
      have within : remaining < 2 ^ 50 := by omega
      obtain ⟨height, le⟩ := fitHeightChecked_eq within (Nat.zero_le _) (by decide : 50 ≤ 0 + 64) fits
      obtain ⟨size, -⟩ := Core.fitHeight_bounds pos
      generalize fitHeight remaining remaining 0 = h at height le size
      have one := Nat.one_le_two_pow (n := h)
      have double : 2 ^ (h + 1) = 2 * 2 ^ h := pow_succ' 2 h
      refine Runs.step height ?_
      by_cases high : h ≥ prevHeight
      · rw [if_pos high]
        exact Runs.refuse (Nat.not_lt.mpr high)
      · rw [if_neg high]
        refine Runs.pass (Nat.not_le.mp high) ?_
        refine Runs.step (some_bind (shl_one (by omega)) (pow_sub_one _)) ?_
        refine Runs.step (add_of_lt (by omega)) ?_
        refine Runs.step (sub_of_le (by omega)) ?_
        refine Runs.step (sub_of_le size) ?_
        exact ih (by omega) _
    · exact Runs.done _

/-- Peaks do not overflow. -/
lemma peaksChecked_runs (size : ℕ) : Runs (peaksChecked size) (peaks size) := by
  unfold peaksChecked peaks
  by_cases large : size ≥ maxMmrSize
  · rw [if_pos large]
    exact Runs.refuse (Nat.not_lt.mpr large)
  · rw [if_neg large]
    have small : size < maxMmrSize := Nat.not_le.mp large
    exact Runs.pass small (peaksLoopChecked_runs (by rwa [Nat.zero_add]) [])

/-- Peaks are positions below the size. -/
lemma lt_of_mem_peaks {size p : ℕ} {ps : List ℕ} (e : peaks size = some ps) (mem : p ∈ ps) :
    p < size ∧ size < maxMmrSize := by
  obtain ⟨n, rfl, small, rfl⟩ := peaks_eq_some.mp e
  obtain ⟨h, mem, e⟩ := List.mem_map.mp mem
  rw [← e]
  have bit := (mem_heights.mp (List.mem_reverse.mp mem)).2
  exact ⟨(mountain_complete bit).root_lt, small⟩

/-- Leaf counts do not overflow. -/
lemma leafCountChecked_runs (size : ℕ) : Runs (leafCountChecked size) (leafCount size) := by
  unfold leafCountChecked leafCount
  refine (peaksChecked_runs size).bind fun ps e => ?_
  have heights : ps.mapM (fun p => do shl 64 1 (← heightAtChecked p)) =
      some (ps.map fun p => 2 ^ heightAt p) := by
    refine mapM_exact fun p mem => ?_
    obtain ⟨lt, small⟩ := lt_of_mem_peaks e mem
    unfold maxMmrSize at small
    have small : p < 2 ^ 63 - 1 := by omega
    have le := heightAt_le small
    exact some_bind (heightAtChecked_eq small) (shl_one (by omega))
  have count : leafCount size = some (ps.map fun p => 2 ^ heightAt p).sum := by
    rw [leafCount, e]
    exact rfl
  have sum : 0 + (ps.map fun p => 2 ^ heightAt p).sum < 2 ^ 64 := by
    obtain ⟨same, small⟩ := leafCount_eq_some.mp count
    have le := forestSize_strictMono.le_apply (x := (ps.map fun p => 2 ^ heightAt p).sum)
    rw [Core.nodeCount_eq] at small
    unfold maxMmrSize at small
    omega
  refine Runs.step heights ?_
  rw [← Nat.zero_add (List.sum _)]
  exact Runs.lift (foldlM_add 0 sum)

/-- The position of a small leaf index does not overflow. -/
lemma leafIndexToPosChecked_runs {n : ℕ} (small : n < 2 ^ 63) :
    Runs (leafIndexToPosChecked n) (leafIndexToPos n) := by
  refine Runs.step (nodeCountChecked_eq small) ?_
  unfold leafIndexToPos
  dsimp only
  split
  · next large => exact Runs.refuse (Nat.not_lt.mpr large)
  · next within => exact Runs.pass (Nat.not_le.mp within) (Runs.done _)

/-- The position of a leaf index is that of its leaf below the bound. -/
lemma leafIndexToPos_eq_some {n pos : ℕ} :
    leafIndexToPos n = some pos ↔ pos = forestSize n ∧ pos < maxMmrSize := by
  rw [leafIndexToPos, Core.nodeCount_eq]
  constructor
  · intro e
    split at e
    · cases e
    · next small =>
      cases e
      exact ⟨rfl, Nat.not_le.mp small⟩
  · rintro ⟨rfl, small⟩
    exact if_neg (Nat.not_le.mpr small)

/-- The position of a large leaf index overflows. -/
lemma leafIndexToPosChecked_eq_none {n : ℕ} (large : 2 ^ 63 ≤ n) : (leafIndexToPosChecked n).run = none := by
  rw [leafIndexToPosChecked, nodeCountChecked_eq_none large]
  exact rfl

/-- `pos_to_leaf_index`. -/
def posToLeafIndex (pos : ℕ) : Option ℕ := if heightAt pos ≠ 0 then none else leafCount pos

/-- The leaf index of a small position does not overflow. -/
lemma posToLeafIndexChecked_runs {pos : ℕ} (small : pos < 2 ^ 63 - 1) :
    Runs (posToLeafIndexChecked pos) (posToLeafIndex pos) := by
  refine Runs.step (heightAtChecked_eq small) ?_
  unfold posToLeafIndex
  split
  · next inner => exact Runs.refuse inner
  · next leaf => exact Runs.pass (not_not.mp leaf) (leafCountChecked_runs pos)

/-- The leaf index of a large position overflows. -/
lemma posToLeafIndexChecked_eq_none {pos : ℕ} (large : 2 ^ 63 - 1 ≤ pos) :
    (posToLeafIndexChecked pos).run = none := by
  rw [posToLeafIndexChecked, heightAtChecked_eq_none large]
  exact rfl

/-- A leaf index is that of its position below the bound. -/
lemma posToLeafIndex_eq_some {pos i : ℕ} :
    posToLeafIndex pos = some i ↔ pos = nodeCount i ∧ nodeCount i < maxMmrSize := by
  rw [posToLeafIndex, ← leafCount_eq_some]
  constructor
  · intro e
    split at e
    · cases e
    · exact e
  · intro e
    obtain ⟨rfl, -⟩ := leafCount_eq_some.mp e
    rw [if_neg (not_not.mpr (Core.heightAt_eq_zero_iff.mpr ⟨i, rfl⟩)), e]

/-- The mountain of a peak has a position. -/
def UnderPeak (peak pos : ℕ) : Prop := peak + 1 - (2 ^ (heightAt peak + 1) - 1) ≤ pos ∧ pos ≤ peak

instance (peak pos : ℕ) : Decidable (UnderPeak peak pos) := inferInstanceAs (Decidable (_ ∧ _))

/-- The search looks at the peaks up to the first whose mountain has the position. -/
def Looked (pos peak : ℕ) (peaks : List ℕ) : Prop :=
  ∃ left right, peaks = left ++ peak :: right ∧ ∀ q ∈ left, ¬UnderPeak q pos

/-- A peak is looked at first, or after one that does not reach the position. -/
lemma looked_cons {pos peak p : ℕ} {ps : List ℕ} :
    Looked pos peak (p :: ps) ↔ peak = p ∨ ¬UnderPeak p pos ∧ Looked pos peak ps := by
  constructor
  · rintro ⟨left, right, e, before⟩
    cases left with
    | nil =>
      cases e
      exact .inl rfl
    | cons q left =>
      cases e
      exact .inr ⟨before p List.mem_cons_self, left, right, rfl, fun q mem =>
        before q (List.mem_cons_of_mem _ mem)⟩
  · rintro (rfl | ⟨not, left, right, rfl, before⟩)
    · exact ⟨[], ps, rfl, List.forall_mem_nil _⟩
    · exact ⟨p :: left, right, rfl, List.forall_mem_cons.mpr ⟨not, before⟩⟩

/-- The search runs to its end if every peak that it looks at is in the range of `height_at`. -/
lemma findContainingPeakChecked_runs {pos i : ℕ} {ps : List ℕ}
    (small : ∀ p, Looked pos p ps → p < 2 ^ 63 - 1) :
    Runs (findContainingPeakChecked pos i ps) (findContainingPeakFrom pos i ps) := by
  induction ps generalizing i with
  | nil => exact rfl
  | cons p ps ih =>
    have first := small p (looked_cons.mpr (.inl rfl))
    have le := heightAt_le first
    refine Runs.step (heightAtChecked_eq first) ?_
    refine Runs.step (some_bind (shl_one (by omega)) (pow_sub_one _)) ?_
    refine Runs.step (some_bind (add_of_lt (by omega)) (sub_of_le (size_le_pos p))) ?_
    rw [findContainingPeakFrom]
    split
    · exact Runs.done _
    · next not => exact ih fun q looked => small q (looked_cons.mpr (.inr ⟨not, looked⟩))

/-- The search for a peak overflows at a large one. -/
lemma findContainingPeakChecked_eq_none {pos i p : ℕ} {ps : List ℕ} (looked : Looked pos p ps)
    (large : 2 ^ 63 - 1 ≤ p) : (findContainingPeakChecked pos i ps).run = none := by
  induction ps generalizing i with
  | nil =>
    obtain ⟨left, right, e, -⟩ := looked
    exact absurd e (by simp)
  | cons q ps ih =>
    rcases Nat.lt_or_ge q (2 ^ 63 - 1) with first | first
    · have le := heightAt_le first
      rcases looked_cons.mp looked with rfl | ⟨not, looked⟩
      · exact absurd first (Nat.not_lt.mpr large)
      · have size : (do sub (← shl 64 1 (heightAt q + 1)) 1) = some (2 ^ (heightAt q + 1) - 1) :=
          some_bind (shl_one (by omega)) (pow_sub_one _)
        have start : (do sub (← add 64 q 1) (2 ^ (heightAt q + 1) - 1)) =
            some (q + 1 - (2 ^ (heightAt q + 1) - 1)) :=
          some_bind (add_of_lt (by omega)) (sub_of_le (size_le_pos q))
        rw [findContainingPeakChecked, lift_bind (heightAtChecked_eq first), lift_bind size, lift_bind start]
        exact (congrArg OptionT.run (if_neg not)).trans (ih looked)
    · rw [findContainingPeakChecked, heightAtChecked_eq_none first]
      exact rfl

/-- The descent from a position of a height to a target never goes below zero: where the left child of a
node would, the target is at the node already. -/
def Descends (rootPos height targetPos : ℕ) : Prop :=
  height = 0 ∨ rootPos = targetPos ∨ height < 64 ∧ 2 ^ height ≤ rootPos ∧
    ∀ j, 0 < j → j < height → rootPos + 2 ^ (height - j) < 2 ^ (height + 1) →
      rootPos + 2 ^ (height - j + 1) ≤ targetPos + 2 ^ (height + 1)

/-- A descent to the right stays above zero. -/
lemma descends_right {height rootPos targetPos : ℕ} (lt : height + 1 < 64) (room : 2 ^ (height + 1) ≤ rootPos) :
    Descends (rootPos - 1) height targetPos := by
  have one := Nat.one_le_two_pow (n := height)
  rw [pow_succ] at room
  refine .inr (.inr ⟨by omega, by omega, fun j _ _ below => ?_⟩)
  have := Nat.two_pow_pos (height - j)
  rw [pow_succ] at below
  omega

/-- The path goes right below a root with room. -/
lemma descends_of_right {height rootPos targetPos : ℕ} (lt : height + 1 < 64)
    (room : 2 ^ (height + 1) ≤ rootPos) (right : ¬targetPos ≤ rootPos - 2 ^ (height + 1)) :
    Descends rootPos (height + 1) targetPos := by
  refine .inr (.inr ⟨lt, room, fun j pos less _ => ?_⟩)
  have le : 2 ^ (height + 1 - j + 1) ≤ 2 ^ (height + 1) := Nat.pow_le_pow_right (by decide) (by omega)
  have double : 2 ^ (height + 1 + 1) = 2 ^ (height + 1) + 2 ^ (height + 1) := by rw [pow_succ, mul_two]
  omega

/-- A descent to the left goes on from the left child. -/
lemma descends_left {height rootPos targetPos : ℕ} (lt : height + 1 < 64) (room : 2 ^ (height + 1) ≤ rootPos)
    (ne : rootPos ≠ targetPos) (left : targetPos ≤ rootPos - 2 ^ (height + 1)) :
    Descends rootPos (height + 1) targetPos ↔ Descends (rootPos - 2 ^ (height + 1)) height targetPos := by
  have double : 2 ^ (height + 1 + 1) = 2 ^ (height + 1) + 2 ^ (height + 1) := by rw [pow_succ, mul_two]
  have half : 2 ^ (height + 1) = 2 ^ height + 2 ^ height := by rw [pow_succ, mul_two]
  constructor
  · rintro (zero | same | ⟨-, -, room'⟩)
    · cases zero
    · exact absurd same ne
    · rcases Nat.eq_zero_or_pos height with zero | pos
      · exact .inl zero
      by_cases at_ : rootPos - 2 ^ (height + 1) = targetPos
      · exact .inr (.inl at_)
      -- The first node below the root is the left child itself.
      have first := room' 1 (by omega) (by omega)
      rw [Nat.add_sub_cancel] at first
      refine .inr (.inr ⟨by omega, by omega, fun j pos less below => ?_⟩)
      have next := room' (j + 1) (by omega) (by omega)
      rw [show height + 1 - (j + 1) = height - j by omega] at next
      omega
  · rintro descends
    refine .inr (.inr ⟨lt, room, fun j pos less below => ?_⟩)
    obtain ⟨i, rfl⟩ := Nat.exists_eq_add_of_le' pos
    rw [show height + 1 - (i + 1) = height - i by omega] at below ⊢
    rcases descends with zero | same | ⟨-, room', below'⟩
    · omega
    · have le : 2 ^ (height - i + 1) ≤ 2 ^ (height + 1) := Nat.pow_le_pow_right (by decide) (by omega)
      omega
    · rcases Nat.eq_zero_or_pos i with rfl | pos
      · rw [Nat.sub_zero] at below ⊢
        omega
      · have next := below' i pos (by omega)
        omega

/-- The descent runs to its end exactly if it never goes below zero. -/
lemma locatePathLoopChecked_eq {targetPos height rootPos : ℕ} (topDown : List PathStep)
    (descends : Descends rootPos height targetPos) :
    locatePathLoopChecked targetPos height rootPos topDown =
      some (locatePathLoop targetPos height rootPos topDown) := by
  induction height generalizing rootPos topDown with
  | zero => exact rfl
  | succ height ih =>
    unfold locatePathLoopChecked locatePathLoop
    split
    · exact rfl
    · next ne =>
      have whole := descends
      rcases descends with zero | same | ⟨lt, room, -⟩
      · cases zero
      · exact absurd same ne
      have one := Nat.one_le_two_pow (n := height + 1)
      refine some_bind (shl_one lt) (some_bind (pow_sub_one _) ?_)
      refine some_bind (sub_of_le (by omega)) (some_bind (sub_of_le (by omega)) ?_)
      refine some_bind (sub_of_le (by omega)) ?_
      have child : rootPos - (2 ^ (height + 1) - 1) - 1 = rootPos - 2 ^ (height + 1) := by omega
      dsimp only
      rw [child]
      split
      · next left => exact ih _ ((descends_left lt room ne left).mp whole)
      · exact ih _ (descends_right lt room)

/-- The path overflows where the target is not below the root. -/
lemma locatePathLoopChecked_eq_none {targetPos height rootPos : ℕ} (topDown : List PathStep)
    (not : ¬Descends rootPos height targetPos) :
    locatePathLoopChecked targetPos height rootPos topDown = none := by
  induction height generalizing rootPos topDown with
  | zero => exact absurd (.inl rfl) not
  | succ height ih =>
    have ne : rootPos ≠ targetPos := fun same => not (.inr (.inl same))
    rw [locatePathLoopChecked, if_neg ne]
    rcases Nat.lt_or_ge (height + 1) 64 with lt | ge
    · have one := Nat.one_le_two_pow (n := height + 1)
      refine some_bind (shl_one lt) (some_bind (pow_sub_one _) ?_)
      rcases Nat.lt_or_ge rootPos (2 ^ (height + 1)) with less | room
      · rcases Nat.lt_or_ge rootPos (2 ^ (height + 1) - 1) with less' | room
        · rw [sub_of_lt less']
          exact rfl
        · refine some_bind (sub_of_le room) ?_
          rw [sub_of_lt (by omega)]
          exact rfl
      · refine some_bind (sub_of_le (by omega)) (some_bind (sub_of_le (by omega)) ?_)
        refine some_bind (sub_of_le (by omega)) ?_
        have child : rootPos - (2 ^ (height + 1) - 1) - 1 = rootPos - 2 ^ (height + 1) := by omega
        rw [child]
        split
        · next left => exact ih _ (mt (descends_left lt room ne left).mpr not)
        · next right => exact absurd (descends_of_right lt room right) not
    · rw [shl_of_le ge]
      exact rfl

/-- What the checks ask. -/
def LengthFits (size fromIndex toIndex : UInt64) (digests : ℕ) (proof : RangeProof) : Prop :=
  (proof.v = 1 ∧ proof.kind.1 = .lit "range") ∧
    (proof.size = size ∧ proof.fromIndex = fromIndex ∧ proof.toIndex = toIndex) ∧
    size.toNat < maxMmrSize ∧ fromIndex.toNat ≤ toIndex.toNat ∧
    digests = toIndex.toNat - fromIndex.toNat + 1

/-- A proof over the whole word that the first checks let through. -/
def WholeWord (size fromIndex toIndex : UInt64) (proof : RangeProof) : Prop :=
  (proof.v = 1 ∧ proof.kind.1 = .lit "range") ∧
    (proof.size = size ∧ proof.fromIndex = fromIndex ∧ proof.toIndex = toIndex) ∧
    size.toNat < maxMmrSize ∧ fromIndex.toNat = 0 ∧ toIndex.toNat = 2 ^ 64 - 1

/-- A range is allowed below the bound and in order. -/
lemma range_iff {size fromIndex toIndex : UInt64} : ¬(size.toNat ≥ maxMmrSize ∨ toIndex < fromIndex) ↔
    size.toNat < maxMmrSize ∧ fromIndex.toNat ≤ toIndex.toNat := by
  rw [not_or, not_le, UInt64.lt_iff_toNat_lt, not_lt]

/-- The length of a range is checked without overflow unless it is the whole word. -/
lemma checkLengthChecked_runs {size fromIndex toIndex : UInt64} {digests : ℕ} {proof : RangeProof}
    (not : ¬WholeWord size fromIndex toIndex proof) :
    ∃ r, Runs (checkLengthChecked size fromIndex toIndex digests proof) r ∧
      (r = some () ↔ LengthFits size fromIndex toIndex digests proof) := by
  by_cases kind : proof.v = 1 ∧ proof.kind.1 = .lit "range"
  case neg => exact ⟨none, Runs.refuse kind, iff_of_false (by simp) fun fits => kind fits.1⟩
  by_cases same : proof.size = size ∧ proof.fromIndex = fromIndex ∧ proof.toIndex = toIndex
  case neg => exact ⟨none, Runs.pass kind (Runs.refuse same), iff_of_false (by simp) fun fits => same fits.2.1⟩
  by_cases range : ¬(size.toNat ≥ maxMmrSize ∨ toIndex < fromIndex)
  case neg =>
    refine ⟨none, Runs.pass kind (Runs.pass same (Runs.refuse range)), iff_of_false (by simp) fun fits => ?_⟩
    exact range (range_iff.mpr ⟨fits.2.2.1, fits.2.2.2.1⟩)
  obtain ⟨small, le⟩ := range_iff.mp range
  have bound := toIndex.toNat_lt
  have fits : toIndex.toNat - fromIndex.toNat + 1 < 2 ^ 64 := by
    by_contra whole
    exact not ⟨kind, same, small, by omega, by omega⟩
  refine ⟨guard (digests = toIndex.toNat - fromIndex.toNat + 1), Runs.pass kind (Runs.pass same
    (Runs.pass range (Runs.step (sub_of_le le) (Runs.step (add_of_lt fits) (Runs.test _))))), ?_⟩
  rw [Option.guard_eq_some']
  exact ⟨fun length => ⟨kind, same, small, le, length⟩, fun fits => fits.2.2.2.2⟩

/-- The length of the range over the whole word overflows. -/
lemma checkLengthChecked_eq_none {size fromIndex toIndex : UInt64} {digests : ℕ} {proof : RangeProof}
    (whole : WholeWord size fromIndex toIndex proof) :
    (checkLengthChecked size fromIndex toIndex digests proof).run = none := by
  obtain ⟨kind, same, small, first, last⟩ := whole
  rw [checkLengthChecked, guard_bind kind, guard_bind same, guard_bind (range_iff.mpr ⟨small, by omega⟩),
    lift_bind (sub_of_le (by omega)), add_of_le (by omega)]
  exact rfl

/-- For which arguments each function of the position arithmetic runs to its end without leaving the word,
and that it then gives the height of the position, the number of nodes, the peaks, the number of leaves, the
position, the leaf, the peak over the position, the path to the root, and the outcome of the comparison. -/
theorem positions_exact (pos n size rootPos targetPos fromIndex toIndex : UInt64) (peaks : List UInt64)
    (height : UInt32) (digests : ℕ) (proof : RangeProof) :
    ((∃ h k, pos.toNat = root h k ∧ heightAtChecked pos.toNat = some h) ↔ pos.toNat < 2 ^ 63 - 1) ∧
    (nodeCountChecked n.toNat = some (forestSize n.toNat) ↔ n.toNat < 2 ^ 63) ∧
    (∃ r, Runs (peaksChecked size.toNat) r ∧ ∀ ps, r = some ps ↔
      ∃ n, size.toNat = forestSize n ∧ forestSize n < maxMmrSize ∧ ps = peakRoots n n.size) ∧
    (∃ r, Runs (leafCountChecked size.toNat) r ∧ ∀ n, r = some n ↔
      size.toNat = forestSize n ∧ forestSize n < maxMmrSize) ∧
    ((∃ r, Runs (leafIndexToPosChecked n.toNat) r ∧ ∀ pos, r = some pos ↔
      pos = forestSize n.toNat ∧ pos < maxMmrSize) ↔ n.toNat < 2 ^ 63) ∧
    ((∃ r, Runs (posToLeafIndexChecked pos.toNat) r ∧ ∀ i, r = some i ↔
      pos.toNat = forestSize i ∧ forestSize i < maxMmrSize) ↔ pos.toNat < 2 ^ 63 - 1) ∧
    (Runs (findContainingPeakChecked pos.toNat 0 (peaks.map (·.toNat)))
        (findContainingPeak pos.toNat (peaks.map (·.toNat))) ↔
      ∀ p, Looked pos.toNat p (peaks.map (·.toNat)) → p < 2 ^ 63 - 1) ∧
    ((∃ path, locatePathChecked rootPos.toNat height.toNat targetPos.toNat = some path ∧
        ∀ h k d, rootPos.toNat = root (h + d) (k / 2 ^ d) → height.toNat = h + d → targetPos.toNat = root h k →
          path = ascent h k d) ↔ Descends rootPos.toNat height.toNat targetPos.toNat) ∧
    ((∃ r, Runs (checkLengthChecked size fromIndex toIndex digests proof) r ∧
        (r = some () ↔ LengthFits size fromIndex toIndex digests proof)) ↔
      ¬WholeWord size fromIndex toIndex proof) := by
  refine ⟨⟨?_, fun small => ?_⟩, ⟨?_, nodeCountChecked_eq⟩, ?_, ?_, ⟨?_, fun small => ?_⟩, ⟨?_, fun small => ?_⟩,
    ⟨?_, findContainingPeakChecked_runs⟩, ⟨?_, fun descends => ?_⟩, ⟨?_, checkLengthChecked_runs⟩⟩
  -- Outside its domain each function overflows, so it cannot return the exact result.
  · rintro ⟨h, k, -, e⟩
    by_contra large
    rw [heightAtChecked_eq_none (Nat.not_lt.mp large)] at e
    cases e
  · obtain ⟨h, k, e⟩ := exists_block pos.toNat
    refine ⟨h, k, e, ?_⟩
    rw [heightAtChecked_eq small, e, Core.heightAt_root]
  · intro e
    by_contra large
    rw [nodeCountChecked_eq_none (Nat.not_lt.mp large)] at e
    cases e
  · exact ⟨_, peaksChecked_runs _, fun ps => peaks_eq_some⟩
  · exact ⟨_, leafCountChecked_runs _, fun n => leafCount_eq_some⟩
  · rintro ⟨r, runs, -⟩
    by_contra large
    rw [Runs, leafIndexToPosChecked_eq_none (Nat.not_lt.mp large)] at runs
    cases runs
  · exact ⟨_, leafIndexToPosChecked_runs small, fun pos => leafIndexToPos_eq_some⟩
  · rintro ⟨r, runs, -⟩
    by_contra large
    rw [Runs, posToLeafIndexChecked_eq_none (Nat.not_lt.mp large)] at runs
    cases runs
  · exact ⟨_, posToLeafIndexChecked_runs small, fun i => posToLeafIndex_eq_some⟩
  · intro runs p looked
    by_contra large
    rw [Runs, findContainingPeakChecked_eq_none looked (Nat.not_lt.mp large)] at runs
    cases runs
  · rintro ⟨path, e, -⟩
    by_contra not
    rw [locatePathChecked, locatePathLoopChecked_eq_none [] not] at e
    cases e
  · refine ⟨_, congrArg (Option.map List.reverse) (locatePathLoopChecked_eq [] descends), fun h k d e e' e'' => ?_⟩
    rw [e, e', e'']
    exact (locatePath_eq _ _ _).trans (Core.locatePath_root h k d)
  · rintro ⟨r, runs, -⟩ whole
    rw [Runs, checkLengthChecked_eq_none whole] at runs
    cases runs

/-- Arguments at which an operation leaves the word. -/
theorem positions_overflow :
    heightAtChecked (9223372036854775807 : UInt64).toNat = none ∧
      nodeCountChecked (9223372036854775808 : UInt64).toNat = none ∧
      (leafIndexToPosChecked (9223372036854775813 : UInt64).toNat).run = none ∧
      (posToLeafIndexChecked (18446744073709551615 : UInt64).toNat).run = none :=
  ⟨heightAtChecked_eq_none (by decide), nodeCountChecked_eq_none (by decide),
    leafIndexToPosChecked_eq_none (by decide), posToLeafIndexChecked_eq_none (by decide)⟩

end CLL.Rust
