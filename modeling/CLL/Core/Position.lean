import CLL.Lib.Mountains
import CLL.Python.Value

/-!
# Positions

The position arithmetic of `checkpoint/core.py`: `height_at`, `node_count`, `peaks`, `leaf_count`,
`leaf_index_to_pos` and `pos_to_leaf_index`. A `while` loop takes a step count as its first argument;
every caller passes one that suffices.

`heightAt_root` and `peaks_nodeCount` say that the code computes the post-order numbering of
`CLL.PostOrder`: position `root h k` has height `h`, and the peaks of `node_count(n)` are the mountains
of `n` leaves. `peaks_eq_ok` is the converse, that no other size has peaks.
-/

namespace CLL.Core
open PostOrder

/-- `MAX_MMR_SIZE`. -/
def maxMmrSize : ℕ := 2 ^ 50

/-- `while 2 ** (h + 1) - 1 < pos1: h += 1`. -/
def heightBound (pos1 : ℕ) : ℕ → ℕ → ℕ
  | 0, h => h
  | fuel + 1, h => if 2 ^ (h + 1) - 1 < pos1 then heightBound pos1 fuel (h + 1) else h

/-- `while h > 0: …` of `height_at`. -/
def heightLoop : ℕ → ℕ → ℕ
  | 0, _ => 0
  | h + 1, pos1 =>
    let size := 2 ^ (h + 2) - 1
    if pos1 = size then h + 1
    else
      let leftSize := 2 ^ (h + 1) - 1
      heightLoop h (if pos1 > leftSize then pos1 - leftSize else pos1)

/-- `height_at`. -/
def heightAt (pos : ℕ) : ℕ :=
  let pos1 := pos + 1
  heightLoop (heightBound pos1 pos1 0) pos1

/-- `node_count`. -/
def nodeCount (leafCount : ℕ) : ℕ := 2 * leafCount - (Nat.digits 2 leafCount).count 1

/-- `h = 0; while 2 ** (h + 2) - 1 <= remaining: h += 1`. -/
def fitHeight (remaining : ℕ) : ℕ → ℕ → ℕ
  | 0, h => h
  | fuel + 1, h => if 2 ^ (h + 2) - 1 ≤ remaining then fitHeight remaining fuel (h + 1) else h

/-- `while remaining > 0: …` of `peaks`; `prevHeight` is `none` for `float("inf")`. -/
def peaksLoop (size : ℕ) : ℕ → ℕ → ℕ → Option ℕ → Py (List ℕ)
  | 0, _, _, _ => .ok []
  | fuel + 1, remaining, offset, prevHeight =>
    if remaining > 0 then
      let h := fitHeight remaining remaining 0
      if prevHeight.any (h ≥ ·) then
        raise .invalidArgument s!"invalid MMR size (not a valid node count): {size}"
      else do
        let mSize := 2 ^ (h + 1) - 1
        let result ← peaksLoop size fuel (remaining - mSize) (offset + mSize) (some h)
        .ok ((offset + mSize - 1) :: result)
    else .ok []

/-- `peaks`. -/
def peaks (size : ℕ) : Py (List ℕ) :=
  if size ≥ maxMmrSize then raise .invalidArgument s!"invalid MMR size: {size}"
  else peaksLoop size size size 0 none

/-- `leaf_count`. -/
def leafCount (size : ℕ) : Py ℕ := do
  let pks ← peaks size
  .ok (pks.map fun p => 2 ^ heightAt p).sum

/-- `leaf_index_to_pos`. -/
def leafIndexToPos (leafIndex : ℕ) : Py ℕ :=
  let pos := nodeCount leafIndex
  if pos ≥ maxMmrSize then raise .invalidArgument s!"leaf_index too large: {leafIndex}" else .ok pos

/-- `pos_to_leaf_index`. -/
def posToLeafIndex (pos : ℕ) : Py ℕ :=
  if heightAt pos ≠ 0 then raise .invalidArgument s!"position {pos} is not a leaf"
  else leafCount pos

/-- `peaks` of an arbitrary argument. -/
def peaksObj : Obj → Py (List ℕ)
  | .int (.ofNat size) => peaks size
  | _ => raise .invalidArgument "invalid MMR size"

/-- `leaf_count` of an arbitrary argument. -/
def leafCountObj : Obj → Py ℕ
  | .int (.ofNat size) => leafCount size
  | _ => raise .invalidArgument "invalid MMR size"

/-- `leaf_index_to_pos` of an arbitrary argument. -/
def leafIndexToPosObj : Obj → Py ℕ
  | .int (.ofNat leafIndex) => leafIndexToPos leafIndex
  | _ => raise .invalidArgument "leaf_index must be a non-negative integer"

/-- Nodes of `n` leaves. -/
lemma nodeCount_eq (n : ℕ) : nodeCount n = forestSize n := rfl

/-- Enough steps find a height whose tree reaches `pos1`. -/
lemma le_heightBound {pos1 fuel h : ℕ} (enough : pos1 ≤ 2 ^ (h + fuel + 1) - 1) :
    pos1 ≤ 2 ^ (heightBound pos1 fuel h + 1) - 1 := by
  induction fuel generalizing h with
  | zero => exact enough
  | succ fuel ih =>
    unfold heightBound
    split
    · apply ih
      rwa [show h + 1 + fuel + 1 = h + (fuel + 1) + 1 by omega]
    · omega

/-- Within the tree over the first `2 ^ (h + d)` leaves the descent stops at the height of the block. -/
lemma heightLoop_root {h k d : ℕ} (lt : k < 2 ^ d) :
    heightLoop (h + d) (root h k + 1) = h := by
  induction d generalizing k with
  | zero =>
    obtain rfl : k = 0 := by simpa using lt
    have hp := pow_pos_two h
    cases h with
    | zero => rfl
    | succ h =>
      have e : root (h + 1) 0 + 1 = 2 ^ (h + 2) - 1 := by
        rw [root_first]
        change 2 ^ (h + 1 + 1) - 2 + 1 = 2 ^ (h + 1 + 1) - 1
        omega
      simp [heightLoop, e]
  | succ d ih =>
    have hp := pow_pos_two (h + d)
    have top := root_lt_root_up h k d
    have span := (root_mem_span h k d).2
    rw [Nat.div_eq_of_lt lt, root_first, ← Nat.add_assoc] at top
    have hne : root h k + 1 ≠ 2 ^ (h + d + 2) - 1 := by
      change root h k + 1 ≠ 2 ^ (h + d + 1 + 1) - 1
      omega
    change heightLoop (h + d + 1) _ = h
    unfold heightLoop
    simp only [hne, if_false]
    by_cases left : k < 2 ^ d
    · rw [Nat.div_eq_of_lt left, root_first] at span
      rw [if_neg (by omega)]
      exact ih left
    · have e : k / 2 ^ d = 1 := by
        apply Nat.div_eq_of_lt_le
        · omega
        · rw [pow_succ] at lt; omega
      have er := root_eq_add h k d
      rw [e, Nat.one_mul, forestSize_pow] at er
      rw [if_pos (by omega)]
      rw [show root h k + 1 - (2 ^ (h + d + 1) - 1) = root h (k % 2 ^ d) + 1 by omega]
      exact ih (Nat.mod_lt _ (Nat.two_pow_pos d))

/-- The position of a block of height `h` has height `h`. -/
@[simp] theorem heightAt_root (h k : ℕ) : heightAt (root h k) = h := by
  have enough : root h k + 1 ≤ 2 ^ (0 + (root h k + 1) + 1) - 1 := by
    have : root h k + 1 < 2 ^ (root h k + 1) := Nat.lt_two_pow_self
    rw [Nat.zero_add, pow_succ]
    omega
  have bound := le_heightBound enough
  change heightLoop (heightBound (root h k + 1) (root h k + 1) 0) (root h k + 1) = h
  generalize heightBound (root h k + 1) (root h k + 1) 0 = H at bound
  have c : Complete (2 ^ H) h k := by
    apply complete_of_root_lt
    rw [forestSize_pow]
    omega
  have le : h ≤ H := by
    have : 2 ^ h ≤ 2 ^ H := (Nat.le_mul_of_pos_left _ (Nat.succ_pos k)).trans c
    exact (Nat.pow_le_pow_iff_right (by norm_num)).mp this
  obtain ⟨d, rfl⟩ := Nat.exists_eq_add_of_le le
  apply heightLoop_root
  rw [Complete, Nat.add_comm h, pow_add] at c
  exact Nat.le_of_mul_le_mul_right c (Nat.two_pow_pos h)

/-- Blocks with one position are one block. -/
lemma root_injective {h k h' k' : ℕ} (e : root h k = root h' k') : h = h' ∧ k = k' := by
  have eh : h = h' := by rw [← heightAt_root h k, e, heightAt_root]
  subst eh
  refine ⟨rfl, ?_⟩
  have ef : forestSize (k * 2 ^ h) = forestSize (k' * 2 ^ h) := by
    simp only [root] at e; omega
  exact Nat.eq_of_mul_eq_mul_right (Nat.two_pow_pos h) (forestSize_injective ef)

/-- The positions of height zero are those of leaves. -/
lemma heightAt_eq_zero_iff {p : ℕ} : heightAt p = 0 ↔ ∃ i, p = nodeCount i := by
  constructor
  case mp =>
    intro zero
    have lt : p < forestSize (p + 1) := forestSize_strictMono.le_apply
    obtain ⟨h, k, -, rfl⟩ := exists_root lt
    rw [heightAt_root] at zero
    subst zero
    exact ⟨k, root_zero k⟩
  case mpr =>
    rintro ⟨i, rfl⟩
    rw [nodeCount_eq, ← root_zero, heightAt_root]

/-- The largest mountain that fits. -/
lemma fitHeight_spec {remaining fuel h : ℕ} (lo : 2 ^ (h + 1) - 1 ≤ remaining)
    (hi : remaining < 2 ^ (h + fuel + 2) - 1) :
    2 ^ (fitHeight remaining fuel h + 1) - 1 ≤ remaining ∧
      remaining < 2 ^ (fitHeight remaining fuel h + 2) - 1 := by
  induction fuel generalizing h with
  | zero => exact ⟨lo, hi⟩
  | succ fuel ih =>
    unfold fitHeight
    split
    · rename_i fits
      apply ih fits
      rwa [show h + 1 + fuel + 2 = h + (fuel + 1) + 2 by omega]
    · exact ⟨lo, by omega⟩

/-- The largest mountain that fits. -/
lemma fitHeight_bounds {remaining : ℕ} (pos : 0 < remaining) :
    2 ^ (fitHeight remaining remaining 0 + 1) - 1 ≤ remaining ∧
      remaining < 2 ^ (fitHeight remaining remaining 0 + 2) - 1 := by
  apply fitHeight_spec
  · exact pos
  · have : remaining < 2 ^ remaining := Nat.lt_two_pow_self
    rw [Nat.zero_add, pow_add]
    omega

/-- The height that fits is found. -/
lemma fitHeight_eq {remaining H : ℕ} (lo : 2 ^ (H + 1) - 1 ≤ remaining)
    (hi : remaining < 2 ^ (H + 2) - 1) : fitHeight remaining remaining 0 = H := by
  have hp := pow_pos_two H
  obtain ⟨lo', hi'⟩ := fitHeight_bounds (show 0 < remaining by omega)
  generalize fitHeight remaining remaining 0 = h at lo' hi'
  have hp' := pow_pos_two h
  have h1 : 2 ^ (h + 1) < 2 ^ (H + 2) := by omega
  have h2 : 2 ^ (H + 1) < 2 ^ (h + 2) := by omega
  have h1 := (Nat.pow_lt_pow_iff_right (by norm_num)).mp h1
  have h2 := (Nat.pow_lt_pow_iff_right (by norm_num)).mp h2
  omega

/-- The positions of the mountains of `n` leaves below height `H`. -/
def peakRoots (n H : ℕ) : List ℕ := (heights n H).reverse.map fun h => root h (mountain n h)

/-- A binary digit of one is a mountain. -/
lemma peakRoots_succ_of_testBit {n H : ℕ} (b : n.testBit H = true) :
    peakRoots n (H + 1) = root H (mountain n H) :: peakRoots n H := by
  simp [peakRoots, heights_succ_of_testBit b]

/-- A binary digit of zero is none. -/
lemma peakRoots_succ_of_not_testBit {n H : ℕ} (b : n.testBit H = false) :
    peakRoots n (H + 1) = peakRoots n H := by
  simp [peakRoots, heights_succ_of_not_testBit b]

/-- On the leaves of the digits below `2 ^ H` the loop finds the mountains below height `H`. -/
lemma peaksLoop_forestSize (size n : ℕ) {H fuel : ℕ} {prev : Option ℕ} (lt : ∀ q ∈ prev, H ≤ q)
    (enough : forestSize (n % 2 ^ H) ≤ fuel) :
    peaksLoop size fuel (forestSize (n % 2 ^ H)) (forestSize (n / 2 ^ H * 2 ^ H)) prev =
      .ok (peakRoots n H) := by
  induction H generalizing fuel prev with
  | zero =>
    simp only [pow_zero, Nat.mod_one, forestSize_zero]
    cases fuel <;> rfl
  | succ H ih =>
    cases b : n.testBit H with
    | false =>
      rw [mod_succ_of_not_testBit b] at enough
      rw [mod_succ_of_not_testBit b, prefix_succ_of_not_testBit b, peakRoots_succ_of_not_testBit b]
      exact ih (fun q hq => Nat.le_of_succ_le (lt q hq)) enough
    | true =>
      have hp := pow_pos_two H
      have split : forestSize (n % 2 ^ (H + 1)) = 2 ^ (H + 1) - 1 + forestSize (n % 2 ^ H) := by
        have := forestSize_mul_pow_add 1 (Nat.mod_lt n (Nat.two_pow_pos H))
        rw [mod_succ_of_testBit b]
        simpa using this
      have hi : forestSize (n % 2 ^ (H + 1)) < 2 ^ (H + 2) - 1 := by
        rw [← forestSize_pow (H + 1)]
        exact forestSize_strictMono (Nat.mod_lt n (Nat.two_pow_pos (H + 1)))
      have fit : fitHeight _ _ 0 = H := fitHeight_eq (by omega) hi
      obtain ⟨fuel, rfl⟩ : ∃ f, fuel = f + 1 := ⟨fuel - 1, by omega⟩
      have ok : prev.any (H ≥ ·) = false := by
        cases prev with
        | none => rfl
        | some q => have := lt q rfl; simp; omega
      have next : forestSize (n / 2 ^ (H + 1) * 2 ^ (H + 1)) + (2 ^ (H + 1) - 1) =
          forestSize (n / 2 ^ H * 2 ^ H) := by
        rw [prefix_of_testBit b, mountain, forestSize_odd_mul_pow]
      have rest : peaksLoop size fuel (forestSize (n % 2 ^ H)) (forestSize (n / 2 ^ H * 2 ^ H))
          (some H) = .ok (peakRoots n H) := ih (by simp) (by omega)
      have here := root_add_one_of_even H (n / 2 ^ (H + 1))
      rw [peaksLoop, if_pos (by omega)]
      simp only [fit, ok, next, Bool.false_eq_true, if_false]
      rw [split, Nat.add_sub_cancel_left, rest, peakRoots_succ_of_testBit b]
      rw [prefix_of_testBit b, mountain, ← here]
      rfl

/-- The peaks of `node_count(n)` are the mountains of `n` leaves. -/
theorem peaks_nodeCount {n : ℕ} (lt : nodeCount n < maxMmrSize) :
    peaks (nodeCount n) = .ok (peakRoots n n.size) := by
  have hn := Nat.lt_size_self n
  have enough : forestSize (n % 2 ^ n.size) ≤ nodeCount n := by rw [Nat.mod_eq_of_lt hn]; rfl
  have none : ∀ q ∈ (none : Option ℕ), n.size ≤ q := by simp
  have := peaksLoop_forestSize (nodeCount n) n none enough
  rw [Nat.mod_eq_of_lt hn, Nat.div_eq_of_lt hn] at this
  simp only [Nat.zero_mul, forestSize_zero] at this
  rw [peaks, if_neg (by omega)]
  exact this

/-- A loop that succeeds decomposed the size of a forest. -/
lemma peaksLoop_eq_ok {size fuel remaining offset : ℕ} {prev : Option ℕ} {ps : List ℕ}
    (enough : remaining ≤ fuel) (ok : peaksLoop size fuel remaining offset prev = .ok ps) :
    ∃ r, remaining = forestSize r ∧ ∀ q ∈ prev, r < 2 ^ q := by
  induction fuel generalizing remaining offset prev ps with
  | zero =>
    obtain rfl : remaining = 0 := by omega
    exact ⟨0, by simp, fun q _ => Nat.two_pow_pos q⟩
  | succ fuel ih =>
    unfold peaksLoop at ok
    split at ok
    · rename_i pos
      obtain ⟨lo, hi⟩ := fitHeight_bounds pos
      generalize fitHeight remaining remaining 0 = h at lo hi ok
      have hp := pow_pos_two h
      dsimp only at ok
      split at ok
      · simp at ok
      · rename_i high
        obtain ⟨rest, ok, _⟩ := bind_eq_ok.mp ok
        obtain ⟨r, e, lt⟩ := ih (by omega) ok
        have lt := lt h rfl
        refine ⟨2 ^ h + r, ?_, fun q hq => ?_⟩
        · have := forestSize_mul_pow_add 1 lt
          simp only [Nat.one_mul, forestSize_pow] at this
          omega
        · subst hq
          have hq : h + 1 ≤ q := by simpa using high
          have := Nat.pow_le_pow_right (n := 2) (by norm_num) hq
          rw [pow_succ] at this
          omega
    · obtain rfl : remaining = 0 := by omega
      exact ⟨0, by simp, fun q _ => Nat.two_pow_pos q⟩

/-- Only sizes of complete forests have peaks. -/
theorem peaks_eq_ok {size : ℕ} {ps : List ℕ} (ok : peaks size = .ok ps) :
    size < maxMmrSize ∧ ∃ n, size = nodeCount n ∧ ps = peakRoots n n.size := by
  unfold peaks at ok
  split at ok
  · simp at ok
  · rename_i lt
    obtain ⟨n, e, _⟩ := peaksLoop_eq_ok le_rfl ok
    refine ⟨by omega, n, e, ?_⟩
    have := peaks_nodeCount (n := n) (by rw [nodeCount_eq, ← e]; omega)
    rw [nodeCount_eq, ← e, peaks, if_neg lt, ok] at this
    exact Except.ok.inj this

/-- The heights of the peaks. -/
lemma map_heightAt_peakRoots (n H : ℕ) :
    (peakRoots n H).map heightAt = (heights n H).reverse := by
  simp [peakRoots, Function.comp_def]

/-- The leaves of a complete size are counted. -/
lemma leafCount_nodeCount {n : ℕ} (lt : nodeCount n < maxMmrSize) :
    leafCount (nodeCount n) = .ok n := by
  have e : (peakRoots n n.size).map (fun p => 2 ^ heightAt p) =
      ((peakRoots n n.size).map heightAt).map (2 ^ ·) := by simp
  have sum := sum_heights n n.size
  rw [Nat.mod_eq_of_lt (Nat.lt_size_self n)] at sum
  rw [leafCount, peaks_nodeCount lt, ok_bind, e, map_heightAt_peakRoots, List.map_reverse,
    List.sum_reverse, sum]

/-- `leaf_count` succeeds on the sizes of complete forests only. -/
lemma leafCount_eq_ok {size n : ℕ} (ok : leafCount size = .ok n) :
    size < maxMmrSize ∧ size = nodeCount n := by
  obtain ⟨ps, hp, _⟩ := bind_eq_ok.mp ok
  obtain ⟨lt, m, rfl, _⟩ := peaks_eq_ok hp
  rw [leafCount_nodeCount lt] at ok
  cases ok
  exact ⟨lt, rfl⟩

/-- A leaf index has its position. -/
lemma leafIndexToPos_of_lt {i n : ℕ} (lt : i < n) (small : nodeCount n < maxMmrSize) :
    leafIndexToPos i = .ok (root 0 i) := by
  have := forestSize_strictMono lt
  rw [nodeCount_eq] at small
  rw [leafIndexToPos, if_neg (by rw [nodeCount_eq]; omega), nodeCount_eq, root_zero]

/-- What has a position is a leaf index. -/
lemma leafIndexToPosObj_eq_ok {leafIndex : Obj} {pos : ℕ} (ok : leafIndexToPosObj leafIndex = .ok pos) :
    ∃ i : ℕ, leafIndex = .int i ∧ pos = root 0 i := by
  unfold leafIndexToPosObj at ok
  split at ok
  · rename_i i
    unfold leafIndexToPos at ok
    dsimp only at ok
    split at ok
    · simp at ok
    · cases ok
      exact ⟨i, rfl, (root_zero i).symm⟩
  · simp at ok

/-- What has a leaf count is a complete size. -/
lemma leafCountObj_eq_ok {size : Obj} {n : ℕ} (ok : leafCountObj size = .ok n) :
    nodeCount n < maxMmrSize ∧ size = .int (nodeCount n) := by
  unfold leafCountObj at ok
  split at ok
  · obtain ⟨lt, rfl⟩ := leafCount_eq_ok ok
    exact ⟨lt, rfl⟩
  · simp at ok

/-- What has peaks is a complete size. -/
lemma peaksObj_eq_ok {size : Obj} {ps : List ℕ} (ok : peaksObj size = .ok ps) :
    ∃ n, nodeCount n < maxMmrSize ∧ size = .int (nodeCount n) ∧ ps = peakRoots n n.size := by
  unfold peaksObj at ok
  split at ok
  · obtain ⟨lt, n, rfl, e⟩ := peaks_eq_ok ok
    exact ⟨n, lt, rfl, e⟩
  · simp at ok

/-- The peaks of a complete size. -/
lemma peaksObj_nodeCount {n : ℕ} (small : nodeCount n < maxMmrSize) :
    peaksObj (.int (nodeCount n)) = .ok (peakRoots n n.size) := peaks_nodeCount small

/-- The two position maps are inverse on leaves. -/
theorem posToLeafIndex_leafIndexToPos {i pos : ℕ} (ok : leafIndexToPos i = .ok pos) :
    posToLeafIndex pos = .ok i := by
  unfold leafIndexToPos at ok
  dsimp only at ok
  split at ok
  · simp at ok
  · rename_i lt
    cases ok
    have h0 : heightAt (nodeCount i) = 0 := by
      rw [nodeCount_eq, ← root_zero, heightAt_root]
    rw [posToLeafIndex, if_neg (by simp [h0])]
    exact leafCount_nodeCount (by omega)

/-- `leaf_index_to_pos` inverts `pos_to_leaf_index` below `MAX_MMR_SIZE`. -/
theorem leafIndexToPos_posToLeafIndex {i pos : ℕ} (ok : posToLeafIndex pos = .ok i) :
    leafIndexToPos i = .ok pos := by
  unfold posToLeafIndex at ok
  split at ok
  · simp at ok
  · obtain ⟨lt, rfl⟩ := leafCount_eq_ok ok
    rw [leafIndexToPos, if_neg (by omega)]

/-- The sizes that have peaks. -/
lemma exists_peaks_iff {size : ℕ} (lt : size < maxMmrSize) :
    (∃ ps, peaks size = .ok ps) ↔ ∃ k, size = nodeCount k := by
  constructor
  case mp =>
    rintro ⟨ps, ok⟩
    obtain ⟨-, k, e, -⟩ := peaks_eq_ok ok
    exact ⟨k, e⟩
  case mpr =>
    rintro ⟨k, rfl⟩
    exact ⟨_, peaks_nodeCount lt⟩

example : peaks 39 = .ok [30, 37, 38] := by decide

end CLL.Core
