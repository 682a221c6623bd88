import CLL.Core.Verifiers
import CLL.Ts.Proof

/-!
# The range verifier in TypeScript

`verifyRange` of `ts/src/mmr.ts`. The arguments are `bigint`s and the fields of the proof are `number`s, so
that `Number` rounds what it compares; below `2 ^ 53` it does not. What is thrown in the `try` block is an
answer of `false`. `verifyRange_eq_true` says what an accepted proof has been checked for.
-/

namespace CLL.Ts
open PostOrder CLL.Core

/-- `Number` of a non-negative `bigint`: the next double, and of two equally near the one whose last binary
digit is zero. -/
def number (n : ℕ) : ℕ :=
  if n ≤ maxSafeInteger then n
  else
    let unit := 2 ^ (Nat.log2 n - 52)
    let low := n / unit
    let rest := n % unit
    if 2 * rest < unit ∨ (2 * rest = unit ∧ low % 2 = 0) then low * unit else (low + 1) * unit

/-- `MmrRangeProof`. -/
structure MmrRangeProof where
  v : ℕ
  kind : Str
  size : ℕ
  fromIndex : ℕ
  toIndex : ℕ
  witness : List Str
deriving DecidableEq

/-- `hex`. After the test of the pattern no character is skipped. -/
def hex (x : Str) : Option Bytes :=
  if x.length = 64 ∧ ∀ c ∈ x, (48 ≤ c ∧ c ≤ 57) ∨ (97 ≤ c ∧ c ≤ 102) then fromHex x else none

variable (H : HashFunction)

/-- `reconstruct` in `verifyRange`; `none` where it throws, and the cursor is returned. -/
def reconstruct (lo hi : ℕ) (bodyDigests witnessBytes : List Bytes) (height pos leafStart cursor : ℕ) :
    Option (Bytes × ℕ) :=
  let span := 2 ^ height
  let leafEnd := leafStart + span - 1
  if leafEnd < lo ∨ leafStart > hi then do
    let w ← witnessBytes[cursor]?
    some (w, cursor + 1)
  else
    match height with
    | 0 => do
      let body ← bodyDigests[leafStart - lo]?
      some (H.digest (0 :: body), cursor)
    | height + 1 => do
      let half := 2 ^ height
      let (left, cursor) ← reconstruct lo hi bodyDigests witnessBytes height (pos - span) leafStart cursor
      let (right, cursor) ← reconstruct lo hi bodyDigests witnessBytes height (pos - 1) (leafStart + half) cursor
      some (nodeHash H pos left right, cursor)

/-- `for (const p of peaks) …` of `verifyRange`. -/
def reconstructPeaks (lo hi : ℕ) (bodyDigests witnessBytes : List Bytes) :
    List ℕ → ℕ → ℕ → Option (List Bytes × ℕ)
  | [], _, cursor => some ([], cursor)
  | p :: peaks, leafStart, cursor => do
    let h := heightAt p
    let (node, cursor) ← reconstruct H lo hi bodyDigests witnessBytes h p leafStart cursor
    let (nodes, cursor) ← reconstructPeaks lo hi bodyDigests witnessBytes peaks (leafStart + 2 ^ h) cursor
    some (node :: nodes, cursor)

/-- `verifyRange`. -/
def verifyRange (root : Bytes) (size fromIndex toIndex : ℕ) (bodyDigests : List Bytes)
    (proof : MmrRangeProof) : Bool :=
  if root.length ≠ 32 then false
  else if proof.v ≠ 1 ∨ proof.kind ≠ .lit "range" then false
  else if proof.size ≠ number size ∨ proof.fromIndex ≠ number fromIndex ∨ proof.toIndex ≠ number toIndex then
    false
  else if size ≥ maxMmrSize ∨ toIndex < fromIndex then false
  else if bodyDigests.length ≠ toIndex - fromIndex + 1 then false
  else
    match leafCount size with
    | none => false
    | some leaves =>
      if toIndex ≥ leaves then false
      else if ∃ d ∈ bodyDigests, d.length ≠ 32 then false
      else
        match proof.witness.mapM hex with
        | none => false
        | some witnessBytes =>
          let lo := number fromIndex
          let hi := number toIndex
          match reconstructPeaks H lo hi bodyDigests witnessBytes (peakPositions (number size)) 0 0 with
          | none => false
          | some (reconstructedPeaks, cursor) =>
            if cursor ≠ witnessBytes.length then false else rootFromPeaks H reconstructedPeaks == root

variable {H}

/-- A small number is exact. -/
lemma number_of_le {n : ℕ} (le : n ≤ maxSafeInteger) : number n = n := if_pos le

/-- Rounding does not lead below the safe integers. -/
lemma lt_number {n : ℕ} (lt : maxSafeInteger < n) : maxSafeInteger < number n := by
  have log : 53 ≤ Nat.log2 n := (Nat.le_log2 (by omega)).mpr (by rw [maxSafeInteger] at lt; omega)
  have top : 2 ^ Nat.log2 n ≤ n := Nat.log2_self_le (by omega)
  have split : 2 ^ Nat.log2 n = 2 ^ 52 * 2 ^ (Nat.log2 n - 52) := by
    rw [← pow_add]
    congr 1
    omega
  have low : 2 ^ 52 ≤ n / 2 ^ (Nat.log2 n - 52) := by
    rw [Nat.le_div_iff_mul_le (Nat.two_pow_pos _), ← split]
    exact top
  have unit : 2 ≤ 2 ^ (Nat.log2 n - 52) := Nat.le_self_pow (by omega) 2
  have large : 2 ^ 52 * 2 ≤ n / 2 ^ (Nat.log2 n - 52) * 2 ^ (Nat.log2 n - 52) := Nat.mul_le_mul low unit
  rw [number, if_neg (by omega)]
  dsimp only
  split
  · rw [maxSafeInteger]
    omega
  · rw [Nat.add_mul, maxSafeInteger]
    omega

/-- A safe integer is compared exactly. -/
lemma eq_of_number_eq {n m : ℕ} (le : n ≤ maxSafeInteger) (eq : number m = n) : m = n := by
  by_cases le' : m ≤ maxSafeInteger
  · rwa [number_of_le le'] at eq
  · have := lt_number (by omega : maxSafeInteger < m)
    omega

/-- A hexadecimal digit is a digit or a lower case letter. -/
lemma hexDigit_range {n : ℕ} (lt : n < 16) :
    (48 ≤ hexDigit n ∧ hexDigit n ≤ 57) ∨ (97 ≤ hexDigit n ∧ hexDigit n ≤ 102) := by
  unfold hexDigit
  split <;> omega

/-- The hexadecimal digits of a digest are read, and those of no other byte string. -/
lemma hex_toHex (b : Bytes) : hex (toHex b) = if b.length = 32 then some b else none := by
  have digits : ∀ c ∈ toHex b, (48 ≤ c ∧ c ≤ 57) ∨ (97 ≤ c ∧ c ≤ 102) := by
    intro c hc
    obtain ⟨x, -, hx⟩ := List.mem_flatMap.mp hc
    have lt := x.toNat_lt
    simp only [List.mem_cons, List.not_mem_nil, or_false] at hx
    rcases hx with rfl | rfl
    · exact hexDigit_range (by omega)
    · exact hexDigit_range (by omega)
  rw [hex, length_toHex, fromHex_toHex]
  by_cases len : b.length = 32
  · rw [if_pos ⟨by omega, digits⟩, if_pos len]
  · rw [if_neg (fun h => len (by omega)), if_neg len]

/-- Hexadecimal texts of digests are read back. -/
lemma mapM_hex_toHex {ws : List Bytes} {bs : List Bytes} :
    (ws.map toHex).mapM hex = some bs ↔ bs = ws ∧ ∀ w ∈ ws, w.length = 32 := by
  induction ws generalizing bs with
  | nil => simp [eq_comm]
  | cons w ws ih =>
    simp only [List.map_cons, List.mapM_cons, hex_toHex, Option.bind_eq_bind, Option.bind_eq_some_iff, ih,
      Option.pure_def, Option.some.injEq, List.forall_mem_cons]
    constructor
    · rintro ⟨b, read, bs', ⟨rfl, lens⟩, rfl⟩
      split at read
      · rename_i len
        cases read
        exact ⟨rfl, len, lens⟩
      · cases read
    · rintro ⟨rfl, len, lens⟩
      exact ⟨w, by rw [if_pos len], ws, ⟨rfl, lens⟩, rfl⟩

/-- The cursor walks over the labels that the subtree takes. -/
lemma reconstruct_eq {lo hi : ℕ} {bodyDigests witnessBytes : List Bytes}
    (count : bodyDigests.length = hi + 1 - lo) {h k cursor : ℕ} (le : cursor ≤ witnessBytes.length) :
    reconstruct H lo hi bodyDigests witnessBytes h (root h k) (k * 2 ^ h) cursor =
      rebuildFrom lo hi (rangeLeaf H (digestAt lo bodyDigests)) (nodeHash H) witnessBytes h k cursor := by
  induction h generalizing k cursor with
  | zero =>
    rw [reconstruct]
    simp only [outside_iff]
    by_cases outside : Outside lo hi 0 k
    · rw [if_pos outside, rebuildFrom_outside outside]
      cases witnessBytes[cursor]? <;> rfl
    · have inside : lo ≤ k ∧ k - lo < bodyDigests.length := by
        unfold Outside at outside
        omega
      rw [if_neg outside, rebuildFrom_leaf outside le]
      simp [rangeLeaf, digestAt, inside]
  | succ h ih =>
    rw [reconstruct]
    simp only [outside_iff]
    by_cases outside : Outside lo hi (h + 1) k
    · rw [if_pos outside, rebuildFrom_outside outside]
      cases witnessBytes[cursor]? <;> rfl
    · rw [if_neg outside, rebuildFrom_node outside, root_succ_sub_pow, root_succ_sub_one, start_right,
        start_left, ih le]
      refine Option.bind_congr fun left hl => ?_
      rw [ih (rebuildFrom_le hl)]
      rfl

/-- Rebuilt peaks are those of the range, with the digests looked up. -/
lemma reconstructPeaks_eq {lo hi : ℕ} {bodyDigests witnessBytes : List Bytes}
    (count : bodyDigests.length = hi + 1 - lo) {bs : List (ℕ × ℕ)} {start cursor : ℕ}
    (adjacent : Adjacent start bs) (le : cursor ≤ witnessBytes.length) :
    reconstructPeaks H lo hi bodyDigests witnessBytes (bs.map fun b => root b.1 b.2) start cursor =
      rebuildAllFrom lo hi (rangeLeaf H (digestAt lo bodyDigests)) (nodeHash H) witnessBytes bs cursor := by
  induction bs generalizing start cursor with
  | nil => rfl
  | cons b bs ih =>
    obtain ⟨here, adjacent⟩ := adjacent
    rw [← here] at adjacent
    rw [List.map_cons, reconstructPeaks, rebuildAllFrom]
    dsimp only
    rw [heightAt_root, ← here, reconstruct_eq count le]
    refine Option.bind_congr fun peak first => ?_
    rw [ih adjacent (rebuildFrom_le first)]
    rfl

/-- What an accepted range proof has been checked for. -/
structure InRange (H : HashFunction) (root : Bytes) (size fromIndex toIndex : ℕ) (bodyDigests : List Bytes)
    (proof : MmrRangeProof) (n : ℕ) (witnessBytes : List Bytes) : Prop where
  root_length : root.length = 32
  v : proof.v = 1
  kind : proof.kind = .lit "range"
  proofSize : proof.size = size
  proofFrom : proof.fromIndex = fromIndex
  proofTo : proof.toIndex = toIndex
  size : size = nodeCount n
  small : nodeCount n < maxMmrSize
  digests : ∀ d ∈ bodyDigests, d.length = 32
  nodes : proof.witness.mapM hex = some witnessBytes
  covers : Covers H n fromIndex toIndex root bodyDigests witnessBytes

/-- The verifier accepts exactly the proofs it has checked. -/
theorem verifyRange_eq_true {root : Bytes} {size fromIndex toIndex : ℕ} {bodyDigests : List Bytes}
    {proof : MmrRangeProof} :
    verifyRange H root size fromIndex toIndex bodyDigests proof = true ↔
      ∃ n witnessBytes, InRange H root size fromIndex toIndex bodyDigests proof n witnessBytes := by
  have limit : maxMmrSize ≤ maxSafeInteger := by decide
  have self_le (n : ℕ) : n ≤ nodeCount n := forestSize_strictMono.le_apply
  unfold verifyRange
  constructor
  · intro accept
    -- The tests in the order in which the source makes them.
    split at accept
    · cases accept
    rename_i len
    split at accept
    · cases accept
    rename_i head
    split at accept
    · cases accept
    rename_i same
    split at accept
    · cases accept
    rename_i ordered
    split at accept
    · cases accept
    rename_i count
    split at accept
    · cases accept
    rename_i n counted
    obtain ⟨rfl, -⟩ := leafCount_eq_some.mp counted
    split at accept
    · cases accept
    rename_i lt
    split at accept
    · cases accept
    rename_i digests
    split at accept
    · cases accept
    rename_i witnessBytes nodes
    dsimp only at accept
    split at accept
    · cases accept
    rename_i peaks cursor rebuilt
    split at accept
    · cases accept
    rename_i consumed
    simp only [not_or, not_not, not_lt, not_le, ge_iff_le] at len head same ordered count lt
    have := self_le n
    rw [nodeCount_eq] at this
    -- Numbers below the safe bound are not rounded.
    rw [number_of_le (n := toIndex) (by omega), number_of_le (n := fromIndex) (by omega),
      number_of_le (n := forestSize n) (by omega)] at same rebuilt
    rw [not_not.mp consumed, ← nodeCount_eq, peakPositions_nodeCount ordered.1, peakRoots_eq,
      reconstructPeaks_eq (by omega) (adjacent_mountains n) (Nat.zero_le _)] at rebuilt
    exact ⟨n, witnessBytes, len, head.1, head.2, same.1, same.2.1, same.2.2, rfl, ordered.1,
      fun d hd => by_contra fun bad => digests ⟨d, hd, bad⟩, nodes, ordered.2, lt, by omega, peaks,
      rebuildAllFrom_zero.mp rebuilt, beq_iff_eq.mp accept⟩
  · rintro ⟨n, witnessBytes, r⟩
    obtain ⟨le, lt, count, peaks, rebuilt, bagged⟩ := r.covers
    have small := r.small
    have complete := r.size
    have := self_le n
    have counted : leafCount size = some n := leafCount_eq_some.mpr ⟨r.size.symm, by omega⟩
    have walked : reconstructPeaks H fromIndex toIndex bodyDigests witnessBytes
        ((mountains n).map fun b => PostOrder.root b.1 b.2) 0 0 = some (peaks, witnessBytes.length) :=
      (reconstructPeaks_eq (by omega) (adjacent_mountains n) (Nat.zero_le _)).trans
        (rebuildAllFrom_zero.mpr rebuilt)
    rw [number_of_le (n := toIndex) (by omega), number_of_le (n := fromIndex) (by omega),
      number_of_le (n := size) (by omega)]
    rw [if_neg, if_neg, if_neg, if_neg, if_neg, counted]
    · dsimp only
      rw [if_neg (by omega), if_neg, r.nodes]
      · dsimp only
        rw [r.size, peakPositions_nodeCount small, peakRoots_eq, walked]
        dsimp only
        rw [if_neg (by simp), rootFromPeaks_eq, bagged, beq_self_eq_true]
      · rintro ⟨d, hd, bad⟩
        exact bad (r.digests d hd)
    · omega
    · omega
    · simp [r.proofSize, r.proofFrom, r.proofTo]
    · simp [r.v, r.kind]
    · simp [r.root_length]

end CLL.Ts
