import CLL.Lib.Climb
import Mathlib.Data.Nat.Size

/-!
# Mountains of a numbered forest

The maximal blocks of `n` leaves are its mountains: one of height `h` for every binary digit `2 ^ h` of
`n`, from the highest digit on the left to the lowest on the right. `heights n H` lists the digits below
`H` upwards; `mountain n h` is the index of the mountain of height `h`.

The last section describes what leaf `n` adds: it completes block `(j, n / 2 ^ j)` for every `j` up to
the number of trailing ones of `n`, in this order and with consecutive numbers.
-/

namespace CLL.PostOrder

/-- Binary digits of `n` below `2 ^ H`, lowest first. -/
def heights (n H : ℕ) : List ℕ := (List.range H).filter fun h => n.testBit h

/-- No mountain is below the level 0. -/
@[simp] lemma heights_zero (n : ℕ) : heights n 0 = [] := rfl

/-- A bit that is set adds its height. -/
lemma heights_succ_of_testBit {n H : ℕ} (b : n.testBit H = true) :
    heights n (H + 1) = heights n H ++ [H] := by
  simp [heights, List.range_succ, b]

/-- A bit that is not set adds no height. -/
lemma heights_succ_of_not_testBit {n H : ℕ} (b : n.testBit H = false) :
    heights n (H + 1) = heights n H := by
  simp [heights, List.range_succ, b]

/-- The heights are the bits that are set. -/
lemma mem_heights {n H h : ℕ} : h ∈ heights n H ↔ h < H ∧ n.testBit h = true := by
  simp [heights]

/-- Index of the mountain of height `h`. -/
def mountain (n h : ℕ) : ℕ := 2 * (n / 2 ^ (h + 1))

/-- A bit that is set rounds down to its mountain and one more. -/
lemma div_eq_of_testBit {n h : ℕ} (b : n.testBit h = true) : n / 2 ^ h = mountain n h + 1 := by
  have hodd : n / 2 ^ h % 2 = 1 := by
    simpa [Nat.testBit, Nat.shiftRight_eq_div_pow, Nat.one_and_eq_mod_two] using b
  have e := div_pow_succ n h
  simp only [mountain]
  omega

/-- A bit that is not set rounds down to its mountain. -/
lemma div_eq_of_not_testBit {n h : ℕ} (b : n.testBit h = false) : n / 2 ^ h = mountain n h := by
  have heven : n / 2 ^ h % 2 = 0 := by
    simpa [Nat.testBit, Nat.shiftRight_eq_div_pow, Nat.one_and_eq_mod_two] using b
  have e := div_pow_succ n h
  simp only [mountain]
  omega

/-- A mountain is complete. -/
lemma mountain_complete {n h : ℕ} (b : n.testBit h = true) : Complete n h (mountain n h) := by
  have e := div_eq_of_testBit b
  have := Nat.div_mul_le_self n (2 ^ h)
  rwa [e] at this

/-- The digits from `2 ^ h` upwards count the leaves of the mountains of height at least `h`. -/
lemma prefix_of_testBit {n h : ℕ} (b : n.testBit h = true) :
    n / 2 ^ h * 2 ^ h = (mountain n h + 1) * 2 ^ h := by
  rw [div_eq_of_testBit b]

/-- The prefix above a bit that is not set stays. -/
lemma prefix_succ_of_not_testBit {n h : ℕ} (b : n.testBit h = false) :
    n / 2 ^ (h + 1) * 2 ^ (h + 1) = n / 2 ^ h * 2 ^ h := by
  rw [div_eq_of_not_testBit b, mountain]
  ring

/-- The prefix above a bit that is set ends before its mountain. -/
lemma prefix_succ_of_testBit (n h : ℕ) :
    n / 2 ^ (h + 1) * 2 ^ (h + 1) = mountain n h * 2 ^ h := by
  rw [mountain]
  ring

/-- The remainder above a bit that is set adds its mountain. -/
lemma mod_succ_of_testBit {n h : ℕ} (b : n.testBit h = true) :
    n % 2 ^ (h + 1) = 2 ^ h + n % 2 ^ h := by
  have h1 := Nat.div_add_mod n (2 ^ h)
  have h2 := Nat.div_add_mod n (2 ^ (h + 1))
  have e := prefix_of_testBit b
  have e' := prefix_succ_of_testBit n h
  rw [Nat.mul_comm] at h1 h2
  rw [Nat.add_mul] at e
  omega

/-- The remainder above a bit that is not set stays. -/
lemma mod_succ_of_not_testBit {n h : ℕ} (b : n.testBit h = false) :
    n % 2 ^ (h + 1) = n % 2 ^ h := by
  have h1 := Nat.div_add_mod n (2 ^ h)
  have h2 := Nat.div_add_mod n (2 ^ (h + 1))
  have e := prefix_succ_of_not_testBit b
  rw [Nat.mul_comm] at h1 h2
  omega

/-- The mountains below height `H` hold the leaves of the digits below `2 ^ H`. -/
lemma sum_heights (n H : ℕ) : ((heights n H).map (2 ^ ·)).sum = n % 2 ^ H := by
  induction H with
  | zero => simp [Nat.mod_one]
  | succ H ih =>
    cases b : n.testBit H with
    | true =>
      rw [heights_succ_of_testBit b, mod_succ_of_testBit b]
      simp [ih, Nat.add_comm]
    | false => rw [heights_succ_of_not_testBit b, mod_succ_of_not_testBit b, ih]

/-- A complete block past the higher mountains lies in the mountain of height `H` or past it. -/
lemma Complete.mem_mountain_or {n H h k : ℕ} (c : Complete n h k) (b : n.testBit H = true)
    (past : mountain n H * 2 ^ H ≤ k * 2 ^ h) :
    (∃ d, H = h + d ∧ k / 2 ^ d = mountain n H) ∨ n / 2 ^ H * 2 ^ H ≤ k * 2 ^ h := by
  have hpre := prefix_of_testBit b
  have hmod := mod_succ_of_testBit b
  have hlt := Nat.mod_lt n (Nat.two_pow_pos (H + 1))
  have hdm := Nat.div_add_mod n (2 ^ (H + 1))
  have e := prefix_succ_of_testBit n H
  simp only [Complete, Nat.add_mul, Nat.one_mul] at c hpre
  have hle : h ≤ H := by
    by_contra lt
    have := Nat.pow_le_pow_right (n := 2) (by norm_num) (show H + 1 ≤ h by omega)
    rw [Nat.mul_comm] at hdm
    omega
  obtain ⟨d, rfl⟩ := Nat.exists_eq_add_of_le hle
  rw [pow_add, Nat.mul_comm (2 ^ h), ← Nat.mul_assoc] at past
  have lo : mountain n (h + d) * 2 ^ d ≤ k := Nat.le_of_mul_le_mul_right past (Nat.two_pow_pos h)
  by_cases lt : k < (mountain n (h + d) + 1) * 2 ^ d
  · left
    refine ⟨d, rfl, ?_⟩
    exact Nat.div_eq_of_lt_le lo lt
  · right
    have hi : (mountain n (h + d) + 1) * 2 ^ d * 2 ^ h ≤ k * 2 ^ h :=
      Nat.mul_le_mul_right _ (by omega)
    rw [prefix_of_testBit b, pow_add, Nat.mul_comm (2 ^ h), ← Nat.mul_assoc]
    exact hi

/-- Every mountain of `n` leaves, from the highest digit of `n` to the lowest. -/
def mountains (n : ℕ) : List (ℕ × ℕ) := (heights n n.size).reverse.map fun h => (h, mountain n h)

/-- A mountain stands at a bit that is set. -/
lemma mem_mountains {n : ℕ} {b : ℕ × ℕ} (hb : b ∈ mountains n) :
    n.testBit b.1 = true ∧ b.2 = mountain n b.1 := by
  simp only [mountains, List.mem_map, List.mem_reverse, mem_heights] at hb
  obtain ⟨h, ⟨_, bit⟩, rfl⟩ := hb
  exact ⟨bit, rfl⟩

/-- The blocks of a list lie side by side from leaf `start` on. -/
def Adjacent : ℕ → List (ℕ × ℕ) → Prop
  | _, [] => True
  | start, b :: bs => b.2 * 2 ^ b.1 = start ∧ Adjacent (start + 2 ^ b.1) bs

/-- The mountains below a height are adjacent. -/
lemma adjacent_heights (n H : ℕ) :
    Adjacent (n / 2 ^ H * 2 ^ H) ((heights n H).reverse.map fun h => (h, mountain n h)) := by
  induction H with
  | zero => trivial
  | succ H ih =>
    cases b : n.testBit H with
    | true =>
      have next := prefix_of_testBit b
      rw [Nat.add_mul, Nat.one_mul] at next
      rw [heights_succ_of_testBit b, List.reverse_append, prefix_succ_of_testBit]
      refine ⟨rfl, ?_⟩
      rw [← next]
      exact ih
    | false =>
      rw [heights_succ_of_not_testBit b, prefix_succ_of_not_testBit b]
      exact ih

/-- The mountains are adjacent from zero on. -/
lemma adjacent_mountains (n : ℕ) : Adjacent 0 (mountains n) := by
  have adjacent := adjacent_heights n n.size
  rwa [Nat.div_eq_of_lt (Nat.lt_size_self n), Nat.zero_mul] at adjacent

/-- Adjacent blocks begin at the start or after it. -/
lemma Adjacent.le_start {start : ℕ} {bs : List (ℕ × ℕ)} (adjacent : Adjacent start bs) {b : ℕ × ℕ}
    (mem : b ∈ bs) : start ≤ b.2 * 2 ^ b.1 := by
  induction bs generalizing start with
  | nil => cases mem
  | cons c bs ih =>
    obtain ⟨here, adjacent⟩ := adjacent
    cases mem with
    | head => exact here.ge
    | tail _ mem => exact (Nat.le_add_right _ _).trans (ih adjacent mem)

/-- Only one of adjacent blocks holds a leaf. -/
lemma Adjacent.split_unique {start i : ℕ} {left right left' right' : List (ℕ × ℕ)} {b b' : ℕ × ℕ}
    (adjacent : Adjacent start (left ++ b :: right)) (eq : left ++ b :: right = left' ++ b' :: right')
    (hb : i / 2 ^ b.1 = b.2) (hb' : i / 2 ^ b'.1 = b'.2) : left = left' ∧ b = b' ∧ right = right' := by
  have before {c : ℕ × ℕ} (hc : i / 2 ^ c.1 = c.2) : c.2 * 2 ^ c.1 ≤ i ∧ i < c.2 * 2 ^ c.1 + 2 ^ c.1 := by
    rw [← hc]
    exact ⟨Nat.div_mul_le_self _ _, Nat.lt_div_mul_add (Nat.two_pow_pos _)⟩
  have inB := before hb
  have inB' := before hb'
  induction left generalizing left' start with
  | nil =>
    cases left' with
    | nil =>
      obtain ⟨rfl, rfl⟩ := List.cons.inj eq
      exact ⟨rfl, rfl, rfl⟩
    | cons c left' =>
      -- The other block is to the right of this one.
      obtain ⟨rfl, rfl⟩ := List.cons.inj eq
      have later := adjacent.2.le_start (List.mem_append_right left' List.mem_cons_self)
      have here : b.2 * 2 ^ b.1 = start := adjacent.1
      omega
  | cons c left ih =>
    cases left' with
    | nil =>
      obtain ⟨rfl, rfl⟩ := List.cons.inj eq
      have later := adjacent.2.le_start (List.mem_append_right left List.mem_cons_self)
      have here : c.2 * 2 ^ c.1 = start := adjacent.1
      omega
    | cons c' left' =>
      obtain ⟨rfl, rest⟩ := List.cons.inj eq
      obtain ⟨rfl, same⟩ := ih adjacent.2 rest
      exact ⟨rfl, same⟩

/-- The lowest `j` binary digits of `n` are ones: leaf `n` carries at least `j` times. -/
def Carries (n j : ℕ) : Prop := (n / 2 ^ j + 1) * 2 ^ j = n + 1

/-- Every number carries into bit zero. -/
lemma carries_zero (n : ℕ) : Carries n 0 := by simp [Carries]

/-- A carry goes over a bit that is set. -/
lemma Carries.succ {n j : ℕ} (c : Carries n j) (b : n.testBit j = true) : Carries n (j + 1) := by
  have e := div_eq_of_testBit b
  simp only [Carries, mountain] at *
  rw [e] at c
  rw [← c, pow_succ]
  ring

/-- A carry came over a bit that is set. -/
lemma Carries.pred {n j : ℕ} (c : Carries n (j + 1)) :
    n / 2 ^ j = 2 * (n / 2 ^ (j + 1)) + 1 ∧ Carries n j := by
  have h1 := Nat.div_add_mod n (2 ^ j)
  have h2 := Nat.mod_lt n (Nat.two_pow_pos j)
  simp only [Carries] at c ⊢
  generalize n / 2 ^ (j + 1) = q at c ⊢
  rw [show (q + 1) * 2 ^ (j + 1) = 2 ^ j * (2 * q + 2) by ring] at c
  have e : n / 2 ^ j = 2 * q + 1 := by
    apply Nat.div_eq_of_lt_le
    · rw [Nat.mul_comm]
      have := Nat.two_pow_pos j
      rw [show 2 ^ j * (2 * q + 2) = 2 ^ j * (2 * q + 1) + 2 ^ j by ring] at c
      omega
    · rw [Nat.mul_comm]
      exact Nat.lt_of_succ_le (Nat.le_of_eq c.symm)
  rw [e, ← c]
  exact ⟨rfl, by ring⟩

/-- A carry goes through every lower bit. -/
lemma Carries.of_le {n i j : ℕ} (c : Carries n j) (le : i ≤ j) : Carries n i := by
  induction j with
  | zero => rwa [Nat.le_zero.mp le]
  | succ j ih =>
    cases Nat.le_succ_iff.mp le with
    | inl le => exact ih c.pred.2 le
    | inr e => rwa [e]

/-- No carry goes past a zero digit. -/
lemma Carries.le_of_not_testBit {n h t : ℕ} (c : Carries n h) (b : n.testBit t = false) : h ≤ t := by
  by_contra lt
  have c := c.of_le (show t + 1 ≤ h by omega)
  have e := div_eq_of_not_testBit b
  have o := c.pred.1
  rw [mountain] at e
  omega

/-- The block a carry completes is numbered after the blocks of the carries before it. -/
lemma Carries.root_eq {n j : ℕ} (c : Carries n j) : root j (n / 2 ^ j) = forestSize n + j := by
  induction j with
  | zero => simp
  | succ j ih =>
    obtain ⟨hodd, cj⟩ := c.pred
    have ih := ih cj
    have hr := root_right j (n / 2 ^ (j + 1))
    rw [← hodd, ih] at hr
    omega

/-- A carry completes a block. -/
lemma Carries.complete {n j : ℕ} (c : Carries n j) : Complete (n + 1) j (n / 2 ^ j) :=
  Nat.le_of_eq c

/-- Where the carrying stops, the forest of one more leaf ends. -/
lemma Carries.forestSize_succ {n j : ℕ} (c : Carries n j) (b : n.testBit j = false) :
    forestSize (n + 1) = forestSize n + j + 1 := by
  have e := div_eq_of_not_testBit b
  have hr := c.root_eq
  have ho := root_add_one_of_even j (n / 2 ^ (j + 1))
  simp only [Carries, mountain] at *
  rw [e] at c hr
  rw [← c]
  omega

/-- The carrying stops. -/
lemma exists_carries (n : ℕ) : ∃ t, n.testBit t = false ∧ ∀ j ≤ t, Carries n j := by
  have ex : ∃ t, n.testBit t = false := ⟨n, Nat.testBit_lt_two_pow Nat.lt_two_pow_self⟩
  refine ⟨Nat.find ex, Nat.find_spec ex, fun j => ?_⟩
  induction j with
  | zero => exact fun _ => carries_zero n
  | succ j ih =>
    intro le
    have bit := Nat.find_min ex (show j < Nat.find ex by omega)
    exact (ih (by omega)).succ (by simpa using bit)

/-- Every number below the size of the forest is that of a complete block. -/
lemma exists_root {n p : ℕ} (lt : p < forestSize n) : ∃ h k, Complete n h k ∧ root h k = p := by
  induction n with
  | zero => simp at lt
  | succ n ih =>
    by_cases old : p < forestSize n
    · obtain ⟨h, k, c, e⟩ := ih old
      exact ⟨h, k, c.mono (by omega), e⟩
    · obtain ⟨t, bit, carries⟩ := exists_carries n
      have size := (carries t le_rfl).forestSize_succ bit
      have c := carries (p - forestSize n) (by omega)
      refine ⟨_, _, c.complete, ?_⟩
      rw [c.root_eq]
      omega

/-- A block that leaf `n` completes is one of its carries. -/
lemma Complete.of_succ {n h k : ℕ} (c : Complete (n + 1) h k) :
    Complete n h k ∨ k = n / 2 ^ h ∧ Carries n h := by
  by_cases le : Complete n h k
  · exact .inl le
  · right
    simp only [Complete] at c le
    have hp := Nat.two_pow_pos h
    have e : k = n / 2 ^ h := by
      symm
      apply Nat.div_eq_of_lt_le
      · rw [Nat.add_mul] at c
        omega
      · omega
    refine ⟨e, ?_⟩
    simp only [Carries, ← e]
    omega

end CLL.PostOrder
