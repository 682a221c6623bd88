import CLL.Core.Verifiers
import CLL.Go.Mmr

/-!
# The range verifier of the Go package

`VerifyRange` of `go/mmr/tree.go`. Besides the functions of `MerkleLog` it calls the library's `LeafCount`,
which is a parameter of its own. `verifyRange_eq_true` says what an accepted proof has been checked for.
-/

namespace CLL.Go
open PostOrder CLL.Core

/-- The number of leaves of a complete tree below `2 ^ 63` nodes. -/
def CountsLeaves (libraryLeafCount : ℕ → ℕ) : Prop :=
  ∀ n, nodeCount n ≤ maxSize → libraryLeafCount (nodeCount n) = n

/-- `mmr.RangeProof`. -/
structure RangeProof where
  v : ℕ
  kind : Str
  size : ℕ
  fromIndex : ℕ
  toIndex : ℕ
  witness : List Bytes
deriving DecidableEq

variable (M : MerkleLog) (libraryLeafCount : ℕ → ℕ) (H : HashFunction)

/-- `LeafCount`. -/
def leafCount (size : ℕ) : Option ℕ :=
  if validMmrSize M size = false then none else some (libraryLeafCount size)

/-- `reconstructRangeSubtree`; the cursor is returned. -/
def reconstructRangeSubtree (lo hi : ℕ) (digestByIndex : ℕ → Option Bytes) (witness : List Bytes)
    (height peak leafStart cursor : ℕ) : Option (Bytes × ℕ) :=
  let leafEnd := leafStart + 2 ^ height - 1
  if leafEnd < lo ∨ leafStart > hi then do
    let node ← witness[cursor]?
    some (node, cursor + 1)
  else
    match height with
    | 0 => do
      let body ← digestByIndex leafStart
      some (H.digest (0 :: body), cursor)
    | height + 1 => do
      let half := 2 ^ height
      let (left, cursor) ← reconstructRangeSubtree lo hi digestByIndex witness height
        (peak - 2 ^ (height + 1)) leafStart cursor
      let (right, cursor) ← reconstructRangeSubtree lo hi digestByIndex witness height (peak - 1)
        (leafStart + half) cursor
      some (interiorHash H left right peak, cursor)

/-- `for _, peak := range positions …` of `VerifyRange`. -/
def reconstructPeaks (lo hi : ℕ) (digestByIndex : ℕ → Option Bytes) (witness : List Bytes) :
    List ℕ → ℕ → ℕ → Option (List Bytes × ℕ)
  | [], _, cursor => some ([], cursor)
  | peak :: positions, leafStart, cursor => do
    let height := M.indexHeight peak
    let (node, cursor) ← reconstructRangeSubtree H lo hi digestByIndex witness height peak leafStart cursor
    let (reconstructed, cursor) ← reconstructPeaks lo hi digestByIndex witness positions
      (leafStart + 2 ^ height) cursor
    some (node :: reconstructed, cursor)

/-- `VerifyRange`. The number of leaves of the range is a `uint64` that wraps. -/
def verifyRange (root : Bytes) (size fromIndex toIndex : ℕ) (bodyDigests : List Bytes)
    (proof : RangeProof) : Bool :=
  if root.length ≠ hashSize ∨ proof.v ≠ 1 ∨ proof.kind ≠ .lit "range" then false
  else if size ≥ maxMmrSize then false
  else if proof.size ≠ size ∨ proof.fromIndex ≠ fromIndex ∨ proof.toIndex ≠ toIndex then false
  else if toIndex < fromIndex ∨ bodyDigests.length ≠ (toIndex - fromIndex + 1) % 2 ^ 64 then false
  else
    match leafCount M libraryLeafCount size with
    | none => false
    | some leaves =>
      if toIndex ≥ leaves then false
      else if ∃ digest ∈ bodyDigests, digest.length ≠ hashSize then false
      else if ∃ node ∈ proof.witness, node.length ≠ hashSize then false
      else
        let digestByIndex := fun i => if fromIndex ≤ i then bodyDigests[i - fromIndex]? else none
        match reconstructPeaks M H fromIndex toIndex digestByIndex proof.witness (peakPositions M size) 0 0 with
        | none => false
        | some (reconstructed, cursor) =>
          if cursor ≠ proof.witness.length then false else rootFromPeaks M reconstructed == root

variable {M libraryLeafCount H}

/-- The leaves of a size are counted by the library. -/
lemma leafCount_eq_some (lawful : M.Lawful H) (counts : CountsLeaves libraryLeafCount) {size n : ℕ} :
    leafCount M libraryLeafCount size = some n ↔ size ≤ maxSize ∧ size = nodeCount n := by
  unfold leafCount
  constructor
  · intro found
    split at found
    · cases found
    · rename_i valid
      obtain ⟨small, m, rfl⟩ := (validMmrSize_eq_true lawful).mp (by simpa using valid)
      rw [counts m small] at found
      cases found
      exact ⟨small, rfl⟩
  · rintro ⟨small, rfl⟩
    have valid := (validMmrSize_eq_true (M := M) lawful).mpr ⟨small, n, rfl⟩
    rw [valid, if_neg (by simp), counts n small]

/-- The cursor walks over the labels that the subtree takes. -/
lemma reconstructRangeSubtree_eq {lo hi : ℕ} {digestByIndex : ℕ → Option Bytes} {witness : List Bytes}
    (known : ∀ i, lo ≤ i → i ≤ hi → ∃ d, digestByIndex i = some d) {h k cursor : ℕ}
    (le : cursor ≤ witness.length) :
    reconstructRangeSubtree H lo hi digestByIndex witness h (root h k) (k * 2 ^ h) cursor =
      rebuildFrom lo hi (rangeLeaf H digestByIndex) (nodeHash H) witness h k cursor := by
  induction h generalizing k cursor with
  | zero =>
    rw [reconstructRangeSubtree]
    simp only [outside_iff]
    by_cases outside : Outside lo hi 0 k
    · rw [if_pos outside, rebuildFrom_outside outside]
      cases witness[cursor]? <;> rfl
    · obtain ⟨d, hd⟩ := known k (by unfold Outside at outside; omega) (by unfold Outside at outside; omega)
      rw [if_neg outside, rebuildFrom_leaf outside le]
      simp [hd, rangeLeaf]
  | succ h ih =>
    rw [reconstructRangeSubtree]
    simp only [outside_iff]
    by_cases outside : Outside lo hi (h + 1) k
    · rw [if_pos outside, rebuildFrom_outside outside]
      cases witness[cursor]? <;> rfl
    · rw [if_neg outside, rebuildFrom_node outside, root_succ_sub_pow, root_succ_sub_one, start_right,
        start_left, ih le]
      refine Option.bind_congr fun left hl => ?_
      rw [ih (rebuildFrom_le hl)]
      rfl

/-- Rebuilt peaks are those of the range, with the digests looked up. -/
lemma reconstructPeaks_eq (lawful : M.Lawful H) {lo hi : ℕ} {digestByIndex : ℕ → Option Bytes}
    {witness : List Bytes} (known : ∀ i, lo ≤ i → i ≤ hi → ∃ d, digestByIndex i = some d)
    {bs : List (ℕ × ℕ)} (small : ∀ b ∈ bs, root b.1 b.2 < maxSize) {start cursor : ℕ}
    (adjacent : Adjacent start bs) (le : cursor ≤ witness.length) :
    reconstructPeaks M H lo hi digestByIndex witness (bs.map fun b => root b.1 b.2) start cursor =
      rebuildAllFrom lo hi (rangeLeaf H digestByIndex) (nodeHash H) witness bs cursor := by
  induction bs generalizing start cursor with
  | nil => rfl
  | cons b bs ih =>
    obtain ⟨here, adjacent⟩ := adjacent
    rw [← here] at adjacent
    rw [List.map_cons, reconstructPeaks, rebuildAllFrom]
    dsimp only
    rw [lawful.indexHeight _ _ (small b List.mem_cons_self), ← here, reconstructRangeSubtree_eq known le]
    refine Option.bind_congr fun peak first => ?_
    rw [ih (fun b hb => small b (List.mem_cons_of_mem _ hb)) adjacent (rebuildFrom_le first)]
    rfl

/-- What an accepted range proof has been checked for. -/
structure InRange (H : HashFunction) (root : Bytes) (size fromIndex toIndex : ℕ) (bodyDigests : List Bytes)
    (proof : RangeProof) (n : ℕ) : Prop where
  root_length : root.length = 32
  v : proof.v = 1
  kind : proof.kind = .lit "range"
  proofSize : proof.size = size
  proofFrom : proof.fromIndex = fromIndex
  proofTo : proof.toIndex = toIndex
  size : size = nodeCount n
  small : nodeCount n < maxMmrSize
  digests : ∀ d ∈ bodyDigests, d.length = 32
  nodes : ∀ w ∈ proof.witness, w.length = 32
  covers : Covers H n fromIndex toIndex root bodyDigests proof.witness

/-- Every index of the range has its digest. -/
lemma known_digestAt {lo hi : ℕ} {bodyDigests : List Bytes} (count : bodyDigests.length = hi + 1 - lo) (i : ℕ)
    (ge : lo ≤ i) (le : i ≤ hi) : ∃ d, digestAt lo bodyDigests i = some d := by
  have inRange : i - lo < bodyDigests.length := by omega
  exact ⟨_, by rw [digestAt, if_pos ge, List.getElem?_eq_getElem inRange]⟩

/-- The number of leaves of a range inside a tree does not wrap. -/
lemma count_eq {n lo hi : ℕ} (small : nodeCount n < maxMmrSize) (lt : hi < n) (le : lo ≤ hi) :
    (hi - lo + 1) % 2 ^ 64 = hi + 1 - lo := by
  have bound : n ≤ nodeCount n := by
    rw [nodeCount_eq]
    exact forestSize_strictMono.le_apply
  have : maxMmrSize < 2 ^ 64 := by decide
  rw [Nat.mod_eq_of_lt (by omega)]
  omega

/-- The verifier accepts exactly the proofs it has checked. -/
theorem verifyRange_eq_true (lawful : M.Lawful H) (counts : CountsLeaves libraryLeafCount) {root : Bytes}
    {size fromIndex toIndex : ℕ} {bodyDigests : List Bytes} {proof : RangeProof} :
    verifyRange M libraryLeafCount H root size fromIndex toIndex bodyDigests proof = true ↔
      ∃ n, InRange H root size fromIndex toIndex bodyDigests proof n := by
  have limit : maxMmrSize ≤ maxSize := by decide
  have positions {n : ℕ} (small : nodeCount n < maxMmrSize) :
      peakPositions M (nodeCount n) = (mountains n).map fun b => PostOrder.root b.1 b.2 := by
    rw [peakPositions_eq lawful (by omega), peakRoots_eq]
  have below {n : ℕ} (small : nodeCount n < maxMmrSize) :
      ∀ b ∈ mountains n, PostOrder.root b.1 b.2 < maxSize := fun b hb =>
    Nat.lt_of_lt_of_le (mountain_complete_of_mem hb).root_lt (by rw [← nodeCount_eq]; omega)
  unfold verifyRange
  constructor
  · intro accept
    -- The tests in the order in which the source makes them.
    split at accept
    · cases accept
    rename_i head
    split at accept
    · cases accept
    rename_i small
    split at accept
    · cases accept
    rename_i same
    split at accept
    · cases accept
    rename_i sized
    split at accept
    · cases accept
    rename_i n counted
    obtain ⟨-, rfl⟩ := (leafCount_eq_some lawful counts).mp counted
    split at accept
    · cases accept
    rename_i lt
    split at accept
    · cases accept
    rename_i digests
    split at accept
    · cases accept
    rename_i nodes
    dsimp only at accept
    split at accept
    · cases accept
    rename_i reconstructed cursor rebuilt
    split at accept
    · cases accept
    rename_i consumed
    simp only [not_or, not_not, not_lt, not_le, ge_iff_le] at head small same sized lt
    rw [count_eq small lt sized.1] at sized
    rw [not_not.mp consumed, positions small] at rebuilt
    change reconstructPeaks M H _ _ (digestAt fromIndex bodyDigests) _ _ 0 0 = _ at rebuilt
    rw [reconstructPeaks_eq lawful (known_digestAt sized.2) (below small) (adjacent_mountains n)
      (Nat.zero_le _)] at rebuilt
    rw [rootFromPeaks_eq lawful, beq_iff_eq] at accept
    exact ⟨n, head.1, head.2.1, head.2.2, same.1, same.2.1, same.2.2, rfl, small,
      fun d hd => by_contra fun bad => digests ⟨d, hd, bad⟩, fun w hw => by_contra fun bad => nodes ⟨w, hw, bad⟩,
      sized.1, lt, sized.2, reconstructed, rebuildAllFrom_zero.mp rebuilt, accept⟩
  · rintro ⟨n, r⟩
    obtain ⟨le, lt, count, peaks, rebuilt, bagged⟩ := r.covers
    have small := r.small
    have counted : leafCount M libraryLeafCount size = some n :=
      (leafCount_eq_some lawful counts).mpr ⟨by rw [r.size]; omega, r.size⟩
    -- Every test passes for such a range.
    rw [if_neg, if_neg, if_neg, if_neg, counted]
    · dsimp only
      rw [if_neg (by omega), if_neg, if_neg]
      · have walked : reconstructPeaks M H fromIndex toIndex (digestAt fromIndex bodyDigests) proof.witness
            ((mountains n).map fun b => PostOrder.root b.1 b.2) 0 0 = some (peaks, proof.witness.length) :=
          (reconstructPeaks_eq lawful (known_digestAt count) (below small) (adjacent_mountains n)
            (Nat.zero_le _)).trans (rebuildAllFrom_zero.mpr rebuilt)
        rw [← positions small, ← r.size] at walked
        unfold digestAt at walked
        rw [walked]
        dsimp only
        rw [if_neg (by simp), rootFromPeaks_eq lawful, bagged, beq_self_eq_true]
      · rintro ⟨w, hw, bad⟩
        exact bad (r.nodes w hw)
      · rintro ⟨d, hd, bad⟩
        exact bad (r.digests d hd)
    · rw [count_eq small lt le]
      omega
    · simp [r.proofSize, r.proofFrom, r.proofTo]
    · rw [r.size]
      omega
    · simp [r.root_length, r.v, r.kind, hashSize]

end CLL.Go
