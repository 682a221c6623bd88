import Mathlib.Data.Nat.Digits.Lemmas
import Mathlib.Data.Nat.Bitwise
import Mathlib.Tactic.Ring
import Mathlib.Tactic.Linarith

/-!
# Post-order numbering of perfect binary forests

The leaves `0, 1, 2, …` are grouped into perfect binary trees. Block `(h, k)` is the perfect tree of
height `h` over the leaves `k * 2 ^ h, …, (k + 1) * 2 ^ h - 1`; its children are `(h - 1, 2 * k)` and
`(h - 1, 2 * k + 1)`. Writing every block just after both of its children numbers all of them:
`forestSize n` counts the blocks that `n` leaves complete, and `root h k` is the number of block
`(h, k)`. Neither depends on how many leaves follow, which is why a numbered forest only grows.

`mountains n` lists the maximal blocks of `n` leaves, one per binary digit of `n`, and `label` computes
a value for every block from values at the leaves.
-/

namespace CLL.PostOrder

/-- Number of one bits of `n`. -/
def ones (n : ℕ) : ℕ := (Nat.digits 2 n).count 1

/-- Zero has no bit that is set. -/
@[simp] lemma ones_zero : ones 0 = 0 := by simp [ones]

/-- Doubling keeps the bits. -/
@[simp] lemma ones_two_mul (n : ℕ) : ones (2 * n) = ones n := by
  rcases Nat.eq_zero_or_pos n with h | h
  · simp [h]
  · unfold ones
    rw [Nat.digits_def' (by norm_num) (by omega)]
    simp

/-- Doubling and one more sets a bit. -/
@[simp] lemma ones_two_mul_add_one (n : ℕ) : ones (2 * n + 1) = ones n + 1 := by
  unfold ones
  rw [Nat.digits_def' (by norm_num) (by omega)]
  have h : (2 * n + 1) / 2 = n := by omega
  simp [h]

/-- The low `h` bits and the bits above them are counted separately. -/
lemma ones_mul_pow_add {h j : ℕ} (k : ℕ) (hj : j < 2 ^ h) :
    ones (k * 2 ^ h + j) = ones k + ones j := by
  induction h generalizing j with
  | zero =>
    have hj : j = 0 := by simpa using hj
    simp [hj]
  | succ h ih =>
    have hlt : j / 2 < 2 ^ h := by rw [pow_succ] at hj; omega
    have ih := ih hlt
    have e : k * 2 ^ (h + 1) + j = 2 * (k * 2 ^ h + j / 2) + j % 2 := by
      rw [pow_succ]; have := Nat.div_add_mod j 2; ring_nf; ring_nf at this; omega
    rcases Nat.mod_two_eq_zero_or_one j with hm | hm
    · have ej : j = 2 * (j / 2) := by omega
      rw [e, hm, Nat.add_zero, ones_two_mul, ih]
      conv_rhs => rw [ej, ones_two_mul]
    · have ej : j = 2 * (j / 2) + 1 := by omega
      rw [e, hm, ones_two_mul_add_one, ih]
      conv_rhs => rw [ej, ones_two_mul_add_one]
      omega

/-- Shifting keeps the bits. -/
@[simp] lemma ones_mul_pow (k h : ℕ) : ones (k * 2 ^ h) = ones k := by
  simpa using ones_mul_pow_add (j := 0) k (Nat.two_pow_pos h)

/-- A power of two has one bit. -/
@[simp] lemma ones_pow (h : ℕ) : ones (2 ^ h) = 1 := by
  have h1 : ones 1 = 1 := by simpa using ones_two_mul_add_one 0
  simpa [h1] using ones_mul_pow 1 h

/-- Adding one leaf sets at most one more bit. -/
lemma ones_succ_le (n : ℕ) : ones (n + 1) ≤ ones n + 1 := by
  induction n using Nat.strong_induction_on with
  | _ n ih =>
    rcases Nat.even_or_odd' n with ⟨q, hq | hq⟩
    · subst hq; simp
    · subst hq
      have h := ih q (by omega)
      have e : 2 * q + 1 + 1 = 2 * (q + 1) := by ring
      rw [e, ones_two_mul, ones_two_mul_add_one]
      omega

/-- A number has at most as many bits as it counts. -/
lemma ones_le (n : ℕ) : ones n ≤ n := by
  induction n with
  | zero => simp
  | succ n ih => have := ones_succ_le n; omega

/-- Number of blocks that the first `n` leaves complete. -/
def forestSize (n : ℕ) : ℕ := 2 * n - ones n

/-- Every leaf is a node. -/
lemma le_forestSize (n : ℕ) : n ≤ forestSize n := by
  have := ones_le n
  simp only [forestSize]
  omega

/-- A forest of no leaves has no nodes. -/
@[simp] lemma forestSize_zero : forestSize 0 = 0 := by simp [forestSize]

/-- A forest is a part at a multiple of its height and the rest. -/
lemma forestSize_mul_pow_add {h j : ℕ} (k : ℕ) (hj : j < 2 ^ h) :
    forestSize (k * 2 ^ h + j) = forestSize (k * 2 ^ h) + forestSize j := by
  have h1 := ones_le (k * 2 ^ h)
  have h2 := ones_le j
  simp only [forestSize, ones_mul_pow_add k hj, ones_mul_pow] at *
  omega

/-- A perfect tree has one node less than twice its leaves. -/
@[simp] lemma forestSize_pow (h : ℕ) : forestSize (2 ^ h) = 2 ^ (h + 1) - 1 := by
  simp [forestSize, pow_succ, Nat.mul_comm]

/-- One more leaf completes at least one more block. -/
lemma forestSize_lt_succ (n : ℕ) : forestSize n < forestSize (n + 1) := by
  have h1 := ones_succ_le n
  have h2 := ones_le n
  have h3 := ones_le (n + 1)
  simp only [forestSize]
  omega

/-- More leaves have more nodes. -/
lemma forestSize_strictMono : StrictMono forestSize := strictMono_nat_of_lt_succ forestSize_lt_succ

/-- Forests of one size have the same leaves. -/
lemma forestSize_injective : Function.Injective forestSize := forestSize_strictMono.injective

/-- A larger forest has at least as many nodes. -/
lemma forestSize_le {m n : ℕ} (h : m ≤ n) : forestSize m ≤ forestSize n :=
  forestSize_strictMono.monotone h

/-- Number of block `(h, k)`. -/
def root (h k : ℕ) : ℕ := forestSize (k * 2 ^ h) + (2 ^ (h + 1) - 2)

/-- A leaf stands after the forest before it. -/
@[simp] lemma root_zero (k : ℕ) : root 0 k = forestSize k := by simp [root]

/-- The root of the first tree of a height. -/
lemma root_first (h : ℕ) : root h 0 = 2 ^ (h + 1) - 2 := by simp [root]

/-- A power of two above a height is at least two. -/
lemma pow_pos_two (h : ℕ) : 2 ≤ 2 ^ (h + 1) := by
  rw [pow_succ]; have := Nat.two_pow_pos h; omega

/-- A forest that ends in an odd block has one more tree. -/
lemma forestSize_odd_mul_pow (h k : ℕ) :
    forestSize ((2 * k + 1) * 2 ^ h) = forestSize (k * 2 ^ (h + 1)) + (2 ^ (h + 1) - 1) := by
  have hlt : 2 ^ h < 2 ^ (h + 1) := Nat.pow_lt_pow_right (by norm_num) (by omega)
  have e : (2 * k + 1) * 2 ^ h = k * 2 ^ (h + 1) + 2 ^ h := by ring
  rw [e, forestSize_mul_pow_add k hlt, forestSize_pow]

/-- The left child is `2 ^ (h + 1)` before its parent. -/
lemma root_left (h k : ℕ) : root h (2 * k) + 2 ^ (h + 1) = root (h + 1) k := by
  have e : 2 * k * 2 ^ h = k * 2 ^ (h + 1) := by ring
  have h1 := pow_pos_two h
  simp only [root, e]
  rw [pow_succ 2 (h + 1)]
  omega

/-- The right child is just before its parent. -/
lemma root_right (h k : ℕ) : root h (2 * k + 1) + 1 = root (h + 1) k := by
  have h1 := pow_pos_two h
  simp only [root, forestSize_odd_mul_pow]
  rw [pow_succ 2 (h + 1)]
  omega

/-- A block that ends at leaf `n` is the last one numbered among the blocks of `n` leaves. -/
lemma root_add_one_of_even (h k : ℕ) : root h (2 * k) + 1 = forestSize ((2 * k + 1) * 2 ^ h) := by
  have e : 2 * k * 2 ^ h = k * 2 ^ (h + 1) := by ring
  have h1 := pow_pos_two h
  rw [forestSize_odd_mul_pow]
  simp only [root, e]
  omega

/-- Walking up one more level halves the index. -/
lemma div_pow_succ (k d : ℕ) : k / 2 ^ (d + 1) = k / 2 ^ d / 2 := by
  rw [pow_succ, Nat.div_div_eq_div_mul]

/-- The block `d` levels up is the left or the right child of the block one level further up. -/
lemma div_pow_cases (k d : ℕ) :
    k / 2 ^ d = 2 * (k / 2 ^ (d + 1)) ∨ k / 2 ^ d = 2 * (k / 2 ^ (d + 1)) + 1 := by
  have e := div_pow_succ k d
  omega

/-- A parent starts no later than either child. -/
lemma start_parent_le (h k : ℕ) : k / 2 * 2 ^ (h + 1) ≤ k * 2 ^ h := by
  rw [pow_succ', ← Nat.mul_assoc]
  exact Nat.mul_le_mul_right _ (Nat.div_mul_le_self k 2)

/-- The blocks below `(h + d, k / 2 ^ d)` are numbered from its first leaf up to itself. -/
lemma root_mem_span (h k d : ℕ) :
    forestSize (k / 2 ^ d * 2 ^ (h + d)) ≤ root h k ∧ root h k ≤ root (h + d) (k / 2 ^ d) := by
  induction d with
  | zero => simp [root]
  | succ d ih =>
    obtain ⟨ih1, ih2⟩ := ih
    have hl := root_left (h + d) (k / 2 ^ (d + 1))
    have hr := root_right (h + d) (k / 2 ^ (d + 1))
    have hs := start_parent_le (h + d) (k / 2 ^ d)
    rw [← div_pow_succ] at hs
    refine ⟨(forestSize_le hs).trans ih1, ?_⟩
    have hp := pow_pos_two (h + d)
    change root h k ≤ root (h + d + 1) _
    rcases div_pow_cases k d with e | e <;> rw [e] at ih2 <;> omega

/-- A block is numbered strictly below every block above it. -/
lemma root_lt_root_up (h k d : ℕ) : root h k < root (h + (d + 1)) (k / 2 ^ (d + 1)) := by
  have hs := (root_mem_span h k d).2
  have hl := root_left (h + d) (k / 2 ^ (d + 1))
  have hr := root_right (h + d) (k / 2 ^ (d + 1))
  have hp := pow_pos_two (h + d)
  change root h k < root (h + d + 1) _
  rcases div_pow_cases k d with e | e <;> rw [e] at hs <;> omega

/-- The left half of a block ends where its left child is numbered. -/
lemma root_le_left_iff (h k d : ℕ) :
    root h k ≤ root (h + d) (2 * (k / 2 ^ (d + 1))) ↔ k / 2 ^ d = 2 * (k / 2 ^ (d + 1)) := by
  obtain ⟨h1, h2⟩ := root_mem_span h k d
  have hodd := root_add_one_of_even (h + d) (k / 2 ^ (d + 1))
  rcases div_pow_cases k d with e | e <;> rw [e] at h1 h2 ⊢ <;> omega

/-- Block `(h, k)` lies within the first `n` leaves. -/
def Complete (n h k : ℕ) : Prop := (k + 1) * 2 ^ h ≤ n

/-- A complete block stays complete. -/
lemma Complete.mono {m n h k : ℕ} (c : Complete m h k) (le : m ≤ n) : Complete n h k :=
  Nat.le_trans c le

/-- The left half of a complete block is complete. -/
lemma Complete.left {n h k : ℕ} (c : Complete n (h + 1) k) : Complete n h (2 * k) := by
  simp only [Complete, pow_succ] at *
  have := Nat.two_pow_pos h
  nlinarith

/-- The right half of a complete block is complete. -/
lemma Complete.right {n h k : ℕ} (c : Complete n (h + 1) k) : Complete n h (2 * k + 1) := by
  simp only [Complete, pow_succ] at *
  have e : (2 * k + 1 + 1) * 2 ^ h = (k + 1) * (2 ^ h * 2) := by ring
  omega

/-- The block after the last one of a complete prefix starts past it. -/
lemma root_lt_forestSize_succ (h k : ℕ) : root h k < forestSize ((k + 1) * 2 ^ h) := by
  obtain ⟨q, rfl | rfl⟩ := Nat.even_or_odd' k
  · have := root_add_one_of_even h q
    omega
  · have hr := root_right h q
    have hs := root_lt_forestSize_succ (h + 1) q
    have e : (2 * q + 1 + 1) * 2 ^ h = (q + 1) * 2 ^ (h + 1) := by ring
    rw [e]
    omega
termination_by k

/-- A complete block is numbered below the size of the forest. -/
lemma Complete.root_lt {n h k : ℕ} (c : Complete n h k) : root h k < forestSize n :=
  Nat.lt_of_lt_of_le (root_lt_forestSize_succ h k) (forestSize_le c)

/-- Only complete blocks are numbered below the size of the forest. -/
lemma complete_of_root_lt {n h k : ℕ} (lt : root h k < forestSize n) : Complete n h k := by
  have hp := Nat.two_pow_pos h
  have e : ((k + 1) * 2 ^ h - 1) / 2 ^ h = k := by
    rw [Nat.add_mul]
    apply Nat.div_eq_of_lt_le
    · omega
    · rw [Nat.add_mul]; omega
  have last := (root_mem_span 0 ((k + 1) * 2 ^ h - 1) h).2
  rw [e, root_zero, Nat.zero_add] at last
  have := forestSize_strictMono.lt_iff_lt.mp (Nat.lt_of_le_of_lt last lt)
  simp only [Complete]
  omega

/-- Numbers within a block are those of the block over the first leaves, shifted. -/
lemma root_eq_add (h k d : ℕ) :
    root h k = forestSize (k / 2 ^ d * 2 ^ (h + d)) + root h (k % 2 ^ d) := by
  have lt : k % 2 ^ d * 2 ^ h < 2 ^ (h + d) := by
    rw [Nat.add_comm, pow_add]
    exact Nat.mul_lt_mul_of_pos_right (Nat.mod_lt _ (Nat.two_pow_pos d)) (Nat.two_pow_pos h)
  have e : k * 2 ^ h = k / 2 ^ d * 2 ^ (h + d) + k % 2 ^ d * 2 ^ h := by
    conv_lhs => rw [← Nat.div_add_mod k (2 ^ d)]
    ring
  simp only [root]
  rw [e, forestSize_mul_pow_add _ lt]
  omega

end CLL.PostOrder
