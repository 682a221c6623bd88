import CLL.Core.Hash
import CLL.Lib.AuditPath

/-!
# Receipts in Go

The functions of `go/witness/verify.go` that rebuild a root from an inclusion proof. Sizes and indices are
`int64` values whose arithmetic wraps; a loop is given a number of turns and is `none` when it takes more.
-/

namespace CLL.Go
open CLL.Core

variable (H : HashFunction)

/-- `nodeHash`. -/
def nodeHash (left right : Bytes) : Bytes := H.digest (1 :: (left ++ right))

/-- `maxTreeSize`. -/
def maxTreeSize : Int64 := Int64.ofNat (1 <<< 62)

/-- The loop of `largestPowerBelow`. -/
def largestPowerLoop : ℕ → Int64 → Int64 → Option Int64
  | 0, _, _ => none
  | turns + 1, n, k => if k ≤ (n - 1) / 2 then largestPowerLoop turns n (k * 2) else some k

/-- `largestPowerBelow`. -/
def largestPowerBelow (n : Int64) : Option Int64 := if n ≤ 1 then some 1 else largestPowerLoop 64 n 1

/-- The loop of `expectedPath`. -/
def expectedPathLoop : ℕ → Int64 → Int64 → Int64 → Option Int64
  | 0, _, _, _ => none
  | turns + 1, size, index, count =>
    if 1 < size then do
      let k ← largestPowerBelow size
      if index < k then expectedPathLoop turns k index (count + 1)
      else expectedPathLoop turns (size - k) (index - k) (count + 1)
    else some count

/-- `expectedPath`. -/
def expectedPath (size index : Int64) : Option Int64 := expectedPathLoop 64 size index 0

/-- `fold`: the hash and the siblings that are left, if there were enough. The last sibling of the path comes
first. -/
def fold (leaf : Bytes) : List Bytes → Int64 → Int64 → Option (Option (Bytes × List Bytes))
  | [], n, _ => if n = 1 then some (some (leaf, [])) else some none
  | sibling :: siblings, n, m =>
    if n = 1 then some (some (leaf, sibling :: siblings))
    else do
      let k ← largestPowerBelow n
      if m < k then do
        let child ← fold leaf siblings k m
        some (child.map fun c => (nodeHash H c.1 sibling, c.2))
      else do
        let child ← fold leaf siblings (n - k) (m - k)
        some (child.map fun c => (nodeHash H sibling c.1, c.2))

/-- `rootFromProof`. -/
def rootFromProof (entry : Bytes) (index size : Int64) (path : List Bytes) : Option (Option Bytes) :=
  if index < 0 ∨ size ≤ index ∨ maxTreeSize < size then some none
  else do
    let expected ← expectedPath size index
    if Int64.ofNat path.length ≠ expected then some none
    else do
      let root ← fold H (H.digest (0 :: entry)) path.reverse size index
      some (root.bind fun r => if r.2 = [] then some r.1 else none)

/-- One stays one in 64 bits. -/
lemma toInt_one : (1 : Int64).toInt = 1 := by decide

/-- Two stays two in 64 bits. -/
lemma toInt_two : (2 : Int64).toInt = 2 := by decide

/-- The largest tree size in 64 bits. -/
lemma toInt_maxTreeSize : maxTreeSize.toInt = 2 ^ 62 := Int64.toInt_ofNat_of_lt (by decide)

/-- A number within 64 bits is not wrapped. -/
lemma bmod_of_lt {x : ℤ} (ge : -2 ^ 63 ≤ x) (lt : x < 2 ^ 63) : x.bmod (2 ^ 64) = x :=
  Int.bmod_eq_of_le (by omega) (by omega)

/-- A difference within 64 bits is not wrapped. -/
lemma toInt_sub_of_lt {a b : Int64} (ge : -2 ^ 63 ≤ a.toInt - b.toInt) (lt : a.toInt - b.toInt < 2 ^ 63) :
    (a - b).toInt = a.toInt - b.toInt := by
  rw [Int64.toInt_sub, bmod_of_lt ge lt]

/-- The next number is not wrapped below the largest. -/
lemma toInt_add_one {a : Int64} (lt : a.toInt < 2 ^ 63 - 1) : (a + 1).toInt = a.toInt + 1 := by
  have ge := a.le_toInt
  rw [Int64.toInt_add, toInt_one, bmod_of_lt (by omega) (by omega)]

/-- A double is not wrapped below `2 ^ 62`. -/
lemma toInt_double {a : Int64} (ge : 0 ≤ a.toInt) (lt : a.toInt < 2 ^ 62) : (a * 2).toInt = 2 * a.toInt := by
  rw [Int64.toInt_mul, toInt_two, bmod_of_lt (by omega) (by omega), mul_comm]

/-- The half of a positive number in 64 bits. -/
lemma toInt_half {n : Int64} (pos : 1 ≤ n.toInt) : ((n - 1) / 2).toInt = (n.toInt - 1) / 2 := by
  have lt := n.toInt_lt
  rw [Int64.toInt_div_of_ne_right _ _ (by decide), toInt_sub_of_lt (by rw [toInt_one]; omega)
    (by rw [toInt_one]; omega), toInt_one, toInt_two, Int.tdiv_eq_ediv_of_nonneg (by omega)]

/-- The loop doubles a power of two up to the split. -/
lemma largestPowerLoop_eq {n k : Int64} {size e : ℕ} (hn : n.toInt = size) (hk : k.toInt = 2 ^ e)
    (small : size ≤ 2 ^ 62) (below : 2 ^ e < size) {turns : ℕ} (enough : 62 < turns + e) :
    ∃ r, largestPowerLoop turns n k = some r ∧ r.toInt = AuditPath.split size := by
  induction turns generalizing k e with
  | zero =>
    have le : 2 ^ 62 ≤ 2 ^ e := Nat.pow_le_pow_right (by decide) (by omega)
    omega
  | succ turns ih =>
    have one : 1 ≤ size := (Nat.two_pow_pos e).trans_le below.le
    have half := toInt_half (n := n) (by omega)
    have cast : ((2 ^ e : ℕ) : ℤ) = 2 ^ e := by norm_cast
    have positive : 0 ≤ k.toInt := by
      rw [hk]
      positivity
    have bound : k.toInt < size := by
      rw [hk]
      exact_mod_cast below
    rw [largestPowerLoop]
    by_cases more : 2 * 2 ^ e < size
    · have go : k ≤ (n - 1) / 2 := by
        rw [Int64.le_iff_toInt_le, half, hn, hk]
        omega
      have doubled : (k * 2).toInt = 2 ^ (e + 1) := by
        rw [toInt_double (by omega) (by omega), hk, pow_succ, mul_comm]
      rw [if_pos go]
      exact ih doubled (by rwa [pow_succ, mul_comm]) (by omega)
    · have stop : ¬ k ≤ (n - 1) / 2 := by
        rw [Int64.le_iff_toInt_le, half, hn, hk]
        omega
      rw [if_neg stop]
      refine ⟨k, rfl, ?_⟩
      rw [hk, AuditPath.split_eq below (not_lt.mp more), cast]

/-- The largest power below a size is where its tree is split. -/
lemma largestPowerBelow_eq {n : Int64} {size : ℕ} (hn : n.toInt = size) (small : size ≤ 2 ^ 62) :
    ∃ r, largestPowerBelow n = some r ∧ r.toInt = AuditPath.split size := by
  unfold largestPowerBelow
  by_cases one : size ≤ 1
  · have le : n ≤ 1 := by
      rw [Int64.le_iff_toInt_le, hn, toInt_one]
      omega
    rw [if_pos le]
    refine ⟨1, rfl, ?_⟩
    obtain rfl | rfl : size = 0 ∨ size = 1 := by omega
    · decide
    · decide
  · have gt : ¬ n ≤ 1 := by
      rw [Int64.le_iff_toInt_le, hn, toInt_one]
      omega
    rw [if_neg gt]
    exact largestPowerLoop_eq hn (e := 0) toInt_one small (by omega) (by decide)

/-- A tree is split at the largest power of two below its size. -/
lemma split_le {size d : ℕ} (small : size ≤ 2 ^ (d + 1)) : AuditPath.split size ≤ 2 ^ d := by
  by_cases two : 2 ≤ size
  · have pow : 2 ^ Nat.log2 (size - 1) < 2 ^ (d + 1) := (AuditPath.split_lt two).trans_le small
    have exponent := (Nat.pow_lt_pow_iff_right (by decide)).mp pow
    exact Nat.pow_le_pow_right (by decide) (Nat.lt_succ_iff.mp exponent)
  · obtain rfl | rfl : size = 0 ∨ size = 1 := by omega
    · exact Nat.one_le_two_pow
    · exact Nat.one_le_two_pow

/-- The loop counts the levels below the root. -/
lemma expectedPathLoop_eq {n m count : Int64} {size index c d turns : ℕ} (hn : n.toInt = size)
    (hm : m.toInt = index) (hc : count.toInt = c) (small : size ≤ 2 ^ d) (hd : d ≤ 62)
    (room : c + d < 2 ^ 62) (enough : d < turns) :
    ∃ r, expectedPathLoop turns n m count = some r ∧ r.toInt = (c + AuditPath.depth size index : ℕ) := by
  induction turns generalizing n m count size index c d with
  | zero => omega
  | succ turns ih =>
    have big : size ≤ 2 ^ 62 := small.trans (Nat.pow_le_pow_right (by decide) hd)
    rw [expectedPathLoop]
    by_cases one : size ≤ 1
    · have stop : ¬ 1 < n := by
        rw [Int64.lt_iff_toInt_lt, hn, toInt_one]
        omega
      exact ⟨count, if_neg stop, by rw [hc, AuditPath.depth_of_le one, Nat.add_zero]⟩
    have go : 1 < n := by
      rw [Int64.lt_iff_toInt_lt, hn, toInt_one]
      omega
    -- Each turn halves the bound on the size.
    obtain ⟨d, rfl⟩ : ∃ e, d = e + 1 := by
      refine ⟨d - 1, (Nat.succ_pred_eq_of_pos (Nat.pos_of_ne_zero ?_)).symm⟩
      rintro rfl
      exact one small
    obtain ⟨k, power, hk⟩ := largestPowerBelow_eq hn big
    have lt := AuditPath.split_lt (show 2 ≤ size by omega)
    have half := AuditPath.le_two_mul_split size
    have left := split_le small
    have next : (count + 1).toInt = (c + 1 : ℕ) := by
      rw [toInt_add_one (by omega), hc]
      rfl
    rw [if_pos go, power, Option.bind_eq_bind, Option.bind_some]
    by_cases isLeft : index < AuditPath.split size
    · have less : m < k := by
        rw [Int64.lt_iff_toInt_lt, hm, hk]
        exact_mod_cast isLeft
      obtain ⟨r, counted, hr⟩ := ih hk hm next left (by omega) (by omega) (by omega)
      refine ⟨r, by rw [if_pos less, counted], ?_⟩
      rw [hr, AuditPath.depth_of_lt one isLeft]
      congr 1
      omega
    · have notLess : ¬ m < k := by
        rw [Int64.lt_iff_toInt_lt, hm, hk]
        exact_mod_cast isLeft
      have restN : (n - k).toInt = (size - AuditPath.split size : ℕ) := by
        rw [toInt_sub_of_lt (by omega) (by omega), hn, hk]
        omega
      have restM : (m - k).toInt = (index - AuditPath.split size : ℕ) := by
        rw [toInt_sub_of_lt (by omega) (by have := m.toInt_lt; omega), hm, hk]
        omega
      have right : size - AuditPath.split size ≤ 2 ^ d := by omega
      obtain ⟨r, counted, hr⟩ := ih restN restM next right (by omega) (by omega) (by omega)
      refine ⟨r, by rw [if_neg notLess, counted], ?_⟩
      rw [hr, AuditPath.depth_of_ge one isLeft]
      congr 1
      omega

/-- The climb that consumes what it is given: the siblings that are left are none. -/
lemma fold_eq {n m : Int64} {size index : ℕ} (leaf : Bytes) (siblings : List Bytes) (hn : n.toInt = size)
    (hm : m.toInt = index) (inside : index < size) (small : size ≤ 2 ^ 62) :
    ∃ r, fold H leaf siblings n m = some r ∧
      (r.bind fun r => if r.2 = [] then some r.1 else none) =
        AuditPath.climb (nodeHash H) leaf siblings size index := by
  induction siblings generalizing n m size index with
  | nil =>
    have same : n = 1 ↔ size ≤ 1 := by
      rw [← Int64.toInt_inj, hn, toInt_one]
      omega
    rw [fold, AuditPath.climb]
    by_cases one : size ≤ 1
    · rw [if_pos (same.mpr one), if_pos one]
      exact ⟨_, rfl, rfl⟩
    · rw [if_neg (mt same.mp one), if_neg one]
      exact ⟨_, rfl, rfl⟩
  | cons sibling siblings ih =>
    have same : n = 1 ↔ size ≤ 1 := by
      rw [← Int64.toInt_inj, hn, toInt_one]
      omega
    rw [fold, AuditPath.climb]
    by_cases one : size ≤ 1
    · rw [if_pos (same.mpr one), if_pos one]
      exact ⟨_, rfl, rfl⟩
    rw [if_neg (mt same.mp one), if_neg one]
    obtain ⟨k, power, hk⟩ := largestPowerBelow_eq hn small
    have lt := AuditPath.split_lt (show 2 ≤ size by omega)
    rw [power, Option.bind_eq_bind, Option.bind_some]
    -- The position is compared with the split in 64 bits, which is exact below `2 ^ 62`.
    by_cases isLeft : index < AuditPath.split size
    · have less : m < k := by
        rw [Int64.lt_iff_toInt_lt, hm, hk]
        exact_mod_cast isLeft
      obtain ⟨r, folded, climbed⟩ := ih hk hm isLeft (by omega)
      rw [if_pos less, if_pos isLeft, folded, ← climbed]
      refine ⟨_, rfl, ?_⟩
      cases r with
      | none => rfl
      | some r => by_cases rest : r.2 = [] <;> simp [rest]
    · have notLess : ¬ m < k := by
        rw [Int64.lt_iff_toInt_lt, hm, hk]
        exact_mod_cast isLeft
      have restN : (n - k).toInt = (size - AuditPath.split size : ℕ) := by
        rw [toInt_sub_of_lt (by omega) (by omega), hn, hk]
        omega
      have restM : (m - k).toInt = (index - AuditPath.split size : ℕ) := by
        rw [toInt_sub_of_lt (by omega) (by omega), hm, hk]
        omega
      obtain ⟨r, folded, climbed⟩ := ih restN restM (by omega) (by omega)
      rw [if_neg notLess, if_neg isLeft, folded, ← climbed]
      refine ⟨_, rfl, ?_⟩
      cases r with
      | none => rfl
      | some r => by_cases rest : r.2 = [] <;> simp [rest]

/-- `rootFromProof` climbs from the leaf along the path, and always returns. -/
theorem rootFromProof_eq (entry : Bytes) {index size : Int64} {m n : ℕ} (hm : index.toInt = m)
    (hn : size.toInt = n) (inside : m < n) (small : n ≤ 2 ^ 62) (path : List Bytes) :
    rootFromProof H entry index size path =
      some (AuditPath.climb (nodeHash H) (H.digest (0 :: entry)) path.reverse n m) := by
  have valid : ¬ (index < 0 ∨ size ≤ index ∨ maxTreeSize < size) := by
    rw [Int64.lt_iff_toInt_lt, Int64.le_iff_toInt_le, Int64.lt_iff_toInt_lt, hm, hn, toInt_maxTreeSize,
      Int64.toInt_zero]
    omega
  have start : (0 : Int64).toInt = (0 : ℕ) := rfl
  obtain ⟨expected, counted, he⟩ :=
    expectedPathLoop_eq hn hm start small le_rfl (by decide) (show 62 < 64 by decide)
  obtain ⟨r, folded, climbed⟩ := fold_eq H (H.digest (0 :: entry)) path.reverse hn hm inside small
  rw [rootFromProof, if_neg valid, expectedPath, counted, Option.bind_eq_bind, Option.bind_some]
  by_cases len : Int64.ofNat path.length = expected
  · rw [if_neg (not_not.mpr len), folded, ← climbed]
    rfl
  · have other : path.reverse.length ≠ AuditPath.depth n m := by
      intro same
      apply len
      have short := AuditPath.depth_le small m
      rw [List.length_reverse] at same
      rw [← Int64.toInt_inj, he, Int64.toInt_ofNat_of_lt (by omega), same, Nat.zero_add]
    have none : AuditPath.climb (nodeHash H) (H.digest (0 :: entry)) path.reverse n m = none := by
      rw [← Option.not_isSome_iff_eq_none, AuditPath.climb_isSome_iff]
      exact other
    rw [if_pos len, none]

/-- The leaf hash of an entry. -/
def entryLeaf (entry : Bytes) : Bytes := H.digest (0 :: entry)

/-- The root of the Merkle tree over entries. -/
def treeRoot (entries : List Bytes) : Bytes :=
  AuditPath.root (nodeHash H) (H.digest []) (entries.map (entryLeaf H))

/-- The audit path of the entry at `m`. -/
def auditPath (m : ℕ) (entries : List Bytes) : List Bytes :=
  AuditPath.path (nodeHash H) (H.digest []) m (entries.map (entryLeaf H))

/-- The strings that a climb from an entry hashes. -/
def climbHashed (entry : Bytes) : List Bytes → ℕ → ℕ → List Bytes
  | [], _, _ => [0 :: entry]
  | sibling :: siblings, n, m =>
    if m < AuditPath.split n then
      (1 :: ((AuditPath.climb (nodeHash H) (entryLeaf H entry) siblings (AuditPath.split n) m).getD [] ++
        sibling)) :: climbHashed entry siblings (AuditPath.split n) m
    else
      (1 :: (sibling ++ (AuditPath.climb (nodeHash H) (entryLeaf H entry) siblings (n - AuditPath.split n)
        (m - AuditPath.split n)).getD [])) ::
        climbHashed entry siblings (n - AuditPath.split n) (m - AuditPath.split n)

/-- The audit path of an entry climbs to the root. -/
lemma climb_auditPath {entries : List Bytes} {m : ℕ} {entry : Bytes} (at_ : entries[m]? = some entry) :
    AuditPath.climb (nodeHash H) (entryLeaf H entry) (auditPath H m entries).reverse entries.length m =
      some (treeRoot H entries) := by
  have leaf : (entries.map (entryLeaf H))[m]? = some (entryLeaf H entry) := by
    rw [List.getElem?_map, at_, Option.map_some]
  have climbed := AuditPath.climb_path (nodeHash H) (H.digest []) leaf
  rwa [List.length_map] at climbed

/-- A climb ends in a digest. -/
lemma length_of_climb {entry root : Bytes} {siblings : List Bytes} {n m : ℕ}
    (climbed : AuditPath.climb (nodeHash H) (entryLeaf H entry) siblings n m = some root) :
    root.length = 32 := by
  cases siblings with
  | nil =>
    rw [AuditPath.climb] at climbed
    split at climbed
    · cases climbed
      exact H.length_digest' _
    · cases climbed
  | cons sibling siblings =>
    rw [AuditPath.climb] at climbed
    split at climbed
    · cases climbed
    · split at climbed
      · obtain ⟨child, -, rfl⟩ := Option.map_eq_some_iff.mp climbed
        exact H.length_digest' _
      · obtain ⟨child, -, rfl⟩ := Option.map_eq_some_iff.mp climbed
        exact H.length_digest' _

variable {H}

/-- A root determines the entry and the siblings at a position. -/
theorem climb_pins {S : Set Bytes} (inj : Set.InjOn H.digest S) {entry entry' root : Bytes}
    {siblings siblings' : List Bytes} {n m : ℕ}
    (climbed : AuditPath.climb (nodeHash H) (entryLeaf H entry) siblings n m = some root)
    (climbed' : AuditPath.climb (nodeHash H) (entryLeaf H entry') siblings' n m = some root)
    (hashed : ∀ s ∈ climbHashed H entry siblings n m, s ∈ S)
    (hashed' : ∀ s ∈ climbHashed H entry' siblings' n m, s ∈ S) : entry = entry' ∧ siblings = siblings' := by
  induction siblings generalizing siblings' n m root with
  | nil =>
    rw [AuditPath.climb] at climbed
    split at climbed
    · next one =>
      cases siblings' with
      | nil =>
        rw [AuditPath.climb, if_pos one] at climbed'
        have same : entryLeaf H entry = entryLeaf H entry' := by
          rw [Option.some.inj climbed, Option.some.inj climbed']
        have strings := inj (hashed _ List.mem_cons_self) (hashed' _ List.mem_cons_self) same
        exact ⟨(List.cons.inj strings).2, rfl⟩
      | cons sibling' siblings' =>
        rw [AuditPath.climb, if_pos one] at climbed'
        cases climbed'
    · cases climbed
  | cons sibling siblings ih =>
    rw [AuditPath.climb] at climbed
    split at climbed
    · cases climbed
    next two =>
    cases siblings' with
    | nil =>
      rw [AuditPath.climb, if_neg two] at climbed'
      cases climbed'
    | cons sibling' siblings' =>
      rw [AuditPath.climb, if_neg two] at climbed'
      rw [climbHashed] at hashed hashed'
      -- A node hashes the child and the sibling in the order of the sides, both of 32 bytes.
      by_cases left : m < AuditPath.split n
      · rw [if_pos left] at climbed climbed' hashed hashed'
        obtain ⟨child, inner, e⟩ := Option.map_eq_some_iff.mp climbed
        obtain ⟨child', inner', e'⟩ := Option.map_eq_some_iff.mp climbed'
        rw [inner, Option.getD_some] at hashed
        rw [inner', Option.getD_some] at hashed'
        obtain ⟨top, below⟩ := List.forall_mem_cons.mp hashed
        obtain ⟨top', below'⟩ := List.forall_mem_cons.mp hashed'
        have strings := (List.cons.inj (inj top top' (e.trans e'.symm))).2
        have long := (length_of_climb H inner).trans (length_of_climb H inner').symm
        obtain ⟨rfl, rfl⟩ := List.append_inj strings long
        obtain ⟨rfl, rfl⟩ := ih inner inner' below below'
        exact ⟨rfl, rfl⟩
      · rw [if_neg left] at climbed climbed' hashed hashed'
        obtain ⟨child, inner, e⟩ := Option.map_eq_some_iff.mp climbed
        obtain ⟨child', inner', e'⟩ := Option.map_eq_some_iff.mp climbed'
        rw [inner, Option.getD_some] at hashed
        rw [inner', Option.getD_some] at hashed'
        obtain ⟨top, below⟩ := List.forall_mem_cons.mp hashed
        obtain ⟨top', below'⟩ := List.forall_mem_cons.mp hashed'
        have strings := (List.cons.inj (inj top top' (e.trans e'.symm))).2
        have long := (length_of_climb H inner).trans (length_of_climb H inner').symm
        obtain ⟨rfl, rfl⟩ := List.append_inj' strings long
        obtain ⟨rfl, rfl⟩ := ih inner inner' below below'
        exact ⟨rfl, rfl⟩

end CLL.Go
