import CLL.Go.Receipt
import CLL.Ts.CborStrict

/-!
# Receipts in TypeScript

The functions of `ts/src/receipt.ts` that check an inclusion proof and rebuild a root from it. Sizes are
bigints; a loop is given a number of turns and is `none` when it takes more. `rootFromProof_agrees` compares
them with the Go functions and with RFC 9162.
-/

namespace CLL.Ts
open CLL.Core Cbor

variable (H : HashFunction)

/-- `nodeHash`. -/
def nodeHash (left right : Bytes) : Bytes := H.digest ([1] ++ left ++ right)

/-- `MAX_TREE_SIZE`. -/
def maxTreeSize : ℤ := 2 ^ 62

/-- The loop of `largestPowerBelow`. -/
def largestPowerLoop (value : ℤ) : ℕ → ℤ → Option ℤ
  | 0, _ => none
  | turns + 1, power => if power * 2 < value then largestPowerLoop value turns (power * 2) else some power

/-- `largestPowerBelow`. -/
def largestPowerBelow (value : ℤ) : Option ℤ := largestPowerLoop value (value.toNat + 1) 1

/-- The loop of `expectedPath`. -/
def expectedPathLoop : ℕ → ℤ → ℤ → ℕ → Option ℕ
  | 0, _, _, _ => none
  | turns + 1, nodes, position, count =>
    if 1 < nodes then do
      let split ← largestPowerBelow nodes
      if position < split then expectedPathLoop turns split position (count + 1)
      else expectedPathLoop turns (nodes - split) (position - split) (count + 1)
    else some count

/-- `expectedPath`. -/
def expectedPath (size index : ℤ) : Option ℕ := expectedPathLoop (size.toNat + 1) size index 0

/-- `InclusionProof`. -/
structure InclusionProof where
  size : ℤ
  index : ℤ
  path : List Bytes

/-- `inclusionProof` behind the decoding. -/
def checkProof (size index : ℤ) (path : List Bytes) : Option (Js InclusionProof) :=
  if index < 0 ∨ size ≤ index ∨ maxTreeSize < size then
    some (syntaxError "invalid tree size or leaf index")
  else do
    let expected ← expectedPath size index
    if path.length ≠ expected then some (syntaxError "invalid inclusion proof path length")
    else some (.ok ⟨size, index, path⟩)

/-- `fold`. The last sibling of the path comes first. -/
def fold (leaf : Bytes) : List Bytes → ℤ → ℤ → Option (Js Bytes)
  | [], nodes, _ =>
    if nodes = 1 then some (.ok leaf) else some (.error (.error "undefined is not a Uint8Array"))
  | sibling :: siblings, nodes, position =>
    if nodes = 1 then some (.ok leaf)
    else do
      let split ← largestPowerBelow nodes
      if position < split then do
        let child ← fold leaf siblings split position
        some (child.map (nodeHash H · sibling))
      else do
        let child ← fold leaf siblings (nodes - split) (position - split)
        some (child.map (nodeHash H sibling))

/-- `proofRoot`. -/
def proofRoot (entry : Bytes) (proof : InclusionProof) : Option (Js Bytes) :=
  fold H (H.digest ([0] ++ entry)) proof.path.reverse proof.size proof.index

/-- The loop doubles a power of two up to the split. -/
lemma largestPowerLoop_eq {n e turns : ℕ} (below : 2 ^ e < n) (enough : n ≤ turns + e) :
    largestPowerLoop n turns ((2 ^ e : ℕ) : ℤ) = some (AuditPath.split n : ℤ) := by
  induction turns generalizing e with
  | zero =>
    have := Nat.lt_two_pow_self (n := e)
    omega
  | succ turns ih =>
    have doubled : ((2 ^ e : ℕ) : ℤ) * 2 = ((2 ^ (e + 1) : ℕ) : ℤ) := by
      rw [pow_succ]
      norm_cast
    rw [largestPowerLoop, doubled]
    by_cases more : 2 ^ (e + 1) < n
    · rw [if_pos (by exact_mod_cast more)]
      exact ih more (by omega)
    · rw [if_neg (by exact_mod_cast more), AuditPath.split_eq below (by rw [pow_succ] at more; omega)]

/-- The largest power below a size is where its tree is split. -/
lemma largestPowerBelow_eq (n : ℕ) : largestPowerBelow n = some (AuditPath.split n : ℤ) := by
  by_cases one : n ≤ 1
  · obtain rfl | rfl : n = 0 ∨ n = 1 := by omega
    · rfl
    · rfl
  · exact largestPowerLoop_eq (e := 0) (by simpa using one) (by simp)

/-- The loop counts the levels below the root. -/
lemma expectedPathLoop_eq {size index turns : ℕ} (count : ℕ) (enough : size < turns) :
    expectedPathLoop turns size index count = some (count + AuditPath.depth size index) := by
  induction turns generalizing size index count with
  | zero => omega
  | succ turns ih =>
    rw [expectedPathLoop]
    by_cases one : size ≤ 1
    · rw [if_neg (by omega), AuditPath.depth_of_le one]
      rfl
    have lt := AuditPath.split_lt (show 2 ≤ size by omega)
    have pos := AuditPath.split_pos size
    rw [if_pos (by omega), largestPowerBelow_eq, Option.bind_eq_bind, Option.bind_some]
    by_cases left : index < AuditPath.split size
    · rw [if_pos (by exact_mod_cast left), ih _ (by omega), AuditPath.depth_of_lt one left]
      congr 1
      omega
    · have right := not_lt.mp left
      rw [if_neg (by exact_mod_cast left), ← Nat.cast_sub lt.le, ← Nat.cast_sub right, ih _ (by omega),
        AuditPath.depth_of_ge one left]
      congr 1
      omega

/-- A proof is accepted when its path has a sibling for every level. -/
lemma checkProof_eq {n m : ℕ} (inside : m < n) (small : n ≤ 2 ^ 62) (path : List Bytes) :
    checkProof n m path = if path.length = AuditPath.depth n m then some (.ok ⟨n, m, path⟩)
      else some (syntaxError "invalid inclusion proof path length") := by
  have valid : ¬ ((m : ℤ) < 0 ∨ (n : ℤ) ≤ m ∨ maxTreeSize < n) := by
    rw [maxTreeSize]
    omega
  rw [checkProof, if_neg valid, expectedPath, Int.toNat_natCast, expectedPathLoop_eq 0 (Nat.lt_succ_self n),
    Option.bind_eq_bind, Option.bind_some, Nat.zero_add]
  by_cases len : path.length = AuditPath.depth n m
  · rw [if_neg (not_not.mpr len), if_pos len]
  · rw [if_pos len, if_neg len]

/-- A path that is long enough is climbed. -/
lemma fold_eq {leaf root : Bytes} {siblings : List Bytes} {n m : ℕ} (inside : m < n)
    (climbed : AuditPath.climb (Go.nodeHash H) leaf siblings n m = some root) :
    fold H leaf siblings n m = some (.ok root) := by
  induction siblings generalizing n m root with
  | nil =>
    rw [AuditPath.climb] at climbed
    split at climbed
    · next one =>
      cases climbed
      rw [fold, if_pos (by omega)]
    · cases climbed
  | cons sibling siblings ih =>
    rw [AuditPath.climb] at climbed
    split at climbed
    · cases climbed
    next one =>
    have lt := AuditPath.split_lt (show 2 ≤ n by omega)
    rw [fold, if_neg (by omega), largestPowerBelow_eq, Option.bind_eq_bind, Option.bind_some]
    split at climbed
    · next left =>
      obtain ⟨child, inner, rfl⟩ := Option.map_eq_some_iff.mp climbed
      rw [if_pos (by exact_mod_cast left), ih left inner]
      rfl
    · next left =>
      obtain ⟨child, inner, rfl⟩ := Option.map_eq_some_iff.mp climbed
      rw [if_neg (by exact_mod_cast left), ← Nat.cast_sub lt.le, ← Nat.cast_sub (not_lt.mp left),
        ih (by omega) inner]
      rfl

/-- The two languages rebuild the same root along a path that fits its position and refuse every other
path, always returning. -/
lemma rootFromProof_cases (entry : Bytes) {n m : ℕ} (inside : m < n) (small : n ≤ 2 ^ 62) (path : List Bytes) :
    (path.length = AuditPath.depth n m ∧ ∃ root,
      Go.rootFromProof H entry (.ofNat m) (.ofNat n) path = some (some root) ∧
      checkProof n m path = some (.ok ⟨n, m, path⟩) ∧ proofRoot H entry ⟨n, m, path⟩ = some (.ok root)) ∨
    path.length ≠ AuditPath.depth n m ∧
      Go.rootFromProof H entry (.ofNat m) (.ofNat n) path = some none ∧
      ∃ e, checkProof n m path = some (.error e) := by
  have rebuilt := Go.rootFromProof_eq H entry (Int64.toInt_ofNat_of_lt (by omega : m < 2 ^ 63))
    (Int64.toInt_ofNat_of_lt (by omega : n < 2 ^ 63)) inside small path
  have leads : (AuditPath.climb (Go.nodeHash H) (Go.entryLeaf H entry) path.reverse n m).isSome ↔
      path.reverse.length = AuditPath.depth n m := AuditPath.climb_isSome_iff _
  rw [List.length_reverse] at leads
  rw [rebuilt, checkProof_eq inside small]
  by_cases len : path.length = AuditPath.depth n m
  · obtain ⟨root, climbed⟩ := Option.isSome_iff_exists.mp (leads.mpr len)
    exact .inl ⟨len, root, congrArg some climbed, if_pos len, fold_eq H inside climbed⟩
  · have none := Option.not_isSome_iff_eq_none.mp (mt leads.mp len)
    exact .inr ⟨len, congrArg some none, _, if_neg len⟩

/-- Inclusion proofs: Go and TypeScript rebuild the same root, the audit path of an entry leads to the root
of its tree, and where no two of the hashed strings collide no other entry and path lead there. -/
theorem inclusionProofs :
    (∀ (entry : Bytes) (n m : ℕ) (path : List Bytes), m < n → n ≤ 2 ^ 62 →
      (path.length = AuditPath.depth n m ∧ ∃ root,
        Go.rootFromProof H entry (.ofNat m) (.ofNat n) path = some (some root) ∧
        checkProof n m path = some (.ok ⟨n, m, path⟩) ∧ proofRoot H entry ⟨n, m, path⟩ = some (.ok root)) ∨
      path.length ≠ AuditPath.depth n m ∧
        Go.rootFromProof H entry (.ofNat m) (.ofNat n) path = some none ∧
        ∃ e, checkProof n m path = some (.error e)) ∧
    (∀ (entries : List Bytes) (m : ℕ) (entry : Bytes), entries[m]? = some entry → entries.length ≤ 2 ^ 62 →
      Go.rootFromProof H entry (.ofNat m) (.ofNat entries.length) (Go.auditPath H m entries) =
        some (some (Go.treeRoot H entries))) ∧
    ∀ S : Set Bytes, Set.InjOn H.digest S → ∀ (entry entry' root : Bytes) (n m : ℕ) (path path' : List Bytes),
      m < n → n ≤ 2 ^ 62 →
      Go.rootFromProof H entry (.ofNat m) (.ofNat n) path = some (some root) →
      Go.rootFromProof H entry' (.ofNat m) (.ofNat n) path' = some (some root) →
      (∀ s ∈ Go.climbHashed H entry path.reverse n m, s ∈ S) →
      (∀ s ∈ Go.climbHashed H entry' path'.reverse n m, s ∈ S) → entry = entry' ∧ path = path' := by
  have rebuilt (entry : Bytes) {n m : ℕ} (inside : m < n) (small : n ≤ 2 ^ 62) (path : List Bytes) :=
    Go.rootFromProof_eq H entry (Int64.toInt_ofNat_of_lt (by omega : m < 2 ^ 63))
      (Int64.toInt_ofNat_of_lt (by omega : n < 2 ^ 63)) inside small path
  refine ⟨fun entry n m path inside small => rootFromProof_cases H entry inside small path, ?_, ?_⟩
  · intro entries m entry at_ small
    have inside := (List.getElem?_eq_some_iff.mp at_).1
    rw [rebuilt entry inside small]
    exact congrArg some (Go.climb_auditPath H at_)
  · intro S inj entry entry' root n m path path' inside small ok ok' hashed hashed'
    rw [rebuilt entry inside small] at ok
    rw [rebuilt entry' inside small] at ok'
    obtain ⟨same, siblings⟩ := Go.climb_pins inj (Option.some.inj ok) (Option.some.inj ok') hashed hashed'
    exact ⟨same, List.reverse_injective siblings⟩

/-- The audit path of the middle one of three entries. -/
def middlePath : List Bytes := Go.auditPath sha256Hash 1 [[1], [2], [3]]

/-- No two of the strings on the way from it to the root have one digest. -/
lemma middlePath_injOn :
    Set.InjOn sha256Hash.digest {s | s ∈ Go.climbHashed sha256Hash [2] middlePath.reverse 3 1} := by
  have distinct : ∀ a ∈ Go.climbHashed sha256Hash [2] middlePath.reverse 3 1,
      ∀ b ∈ Go.climbHashed sha256Hash [2] middlePath.reverse 3 1,
        sha256Hash.digest a = sha256Hash.digest b → a = b := by
    rw [middlePath, sha256Hash_eq]
    decide +kernel
  exact fun a ha b hb same => distinct a ha b hb same

/-- Both languages rebuild the root of the three entries from it, and only from this entry and path. -/
theorem inclusionProofs_middle :
    let root := Go.treeRoot sha256Hash [[1], [2], [3]]
    (Go.rootFromProof sha256Hash [2] (.ofNat 1) (.ofNat 3) middlePath = some (some root) ∧
      checkProof 3 1 middlePath = some (.ok ⟨3, 1, middlePath⟩) ∧
      proofRoot sha256Hash [2] ⟨3, 1, middlePath⟩ = some (.ok root)) ∧
    ∀ entry' path', Go.rootFromProof sha256Hash entry' (.ofNat 1) (.ofNat 3) path' = some (some root) →
      (∀ s ∈ Go.climbHashed sha256Hash entry' path'.reverse 3 1,
        s ∈ Go.climbHashed sha256Hash [2] middlePath.reverse 3 1) → [2] = entry' ∧ middlePath = path' := by
  obtain ⟨agree, complete, unique⟩ := inclusionProofs sha256Hash
  have led := complete [[1], [2], [3]] 1 [2] rfl (by decide)
  refine ⟨?_, fun entry' path' led' within => ?_⟩
  · rcases agree [2] 3 1 middlePath (by decide) (by decide) with ⟨-, root, go, checked, ts⟩ | ⟨-, none_, -⟩
    · obtain rfl := Option.some.inj (Option.some.inj (go.symm.trans led))
      exact ⟨go, checked, ts⟩
    · cases led.symm.trans none_
  · exact unique _ middlePath_injOn [2] entry' _ 3 1 middlePath path' (by decide) (by decide) led led'
      (fun _ mem => mem) within

end CLL.Ts
