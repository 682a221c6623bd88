import CLL.Core.Bridge

/-!
# The consistency verifier of the Go package

`VerifyConsistency` of `go/mmr/tree.go`. The functions of `go-datatrails-merklelog/mmr` that it calls are a
parameter: `MerkleLog.Lawful` states what their documentation says of positions below `2 ^ 63`.
`verifyConsistency_eq_true` says what an accepted proof has been checked for.
-/

namespace CLL.Go
open PostOrder CLL.Core

/-- The functions called of `go-datatrails-merklelog/mmr`. -/
structure MerkleLog where
  indexHeight : ℕ → ℕ
  peaks : ℕ → List ℕ
  firstMmrSize : ℕ → ℕ
  hashPeaksRhs : List Bytes → Bytes

/-- The largest size that `validMMRSize` looks at. -/
def maxSize : ℕ := 2 ^ 63 - 1

/-- The height of a node, the peaks of the complete tree that ends with a node, the least complete size
that contains a node, and the peaks hashed from right to left. -/
structure MerkleLog.Lawful (M : MerkleLog) (H : HashFunction) : Prop where
  indexHeight : ∀ h k, root h k < maxSize → M.indexHeight (root h k) = h
  peaks : ∀ n, 0 < n → nodeCount n ≤ maxSize →
    M.peaks (nodeCount n - 1) = (mountains n).map fun b => root b.1 b.2
  firstMmrSize : ∀ i, i < maxSize → ∃ n, M.firstMmrSize i = nodeCount n ∧ i < nodeCount n ∧
    ∀ m, i < nodeCount m → nodeCount n ≤ nodeCount m
  hashPeaksRhs : ∀ ps, ps ≠ [] → M.hashPeaksRhs ps = bag H ps

/-- `mmr.ConsistencyProof`. -/
structure ConsistencyProof where
  v : ℕ
  kind : Str
  oldSize : ℕ
  newSize : ℕ
  oldPeaks : List Bytes
  witness : List (List Bytes)
  newPeaks : List Bytes

variable (M : MerkleLog) (H : HashFunction)

/-- `hashSize`. -/
def hashSize : ℕ := 32

/-- `validMMRSize`. -/
def validMmrSize (size : ℕ) : Bool :=
  if size = 0 then true
  else if size > maxSize then false
  else M.firstMmrSize (size - 1) == size

/-- `peakPositions`. -/
def peakPositions (size : ℕ) : List ℕ := if size = 0 then [] else M.peaks (size - 1)

/-- `RootFromPeaks`. -/
def rootFromPeaks (peaks : List Bytes) : Bytes :=
  if peaks.isEmpty then List.replicate hashSize 0 else M.hashPeaksRhs peaks

/-- `containingPeak`; `none` for `-1`. -/
def containingPeak (position : ℕ) : List ℕ → Option ℕ
  | [] => none
  | peak :: peaks =>
    let height := M.indexHeight peak
    let mountainSize := 2 ^ (height + 1) - 1
    let start := peak + 1 - mountainSize
    if position ≥ start ∧ position ≤ peak then some 0
    else (containingPeak position peaks).map (· + 1)

/-- `for currentHeight > 0 && currentRoot != target …` of `pathToPeak`: the steps top down and the last
root. -/
def pathToPeakLoop (target : ℕ) : ℕ → ℕ → List PathStep × ℕ
  | 0, currentRoot => ([], currentRoot)
  | currentHeight + 1, currentRoot =>
    if currentRoot = target then ([], currentRoot)
    else
      let leftSize := 2 ^ (currentHeight + 1) - 1
      let leftRoot := currentRoot - leftSize - 1
      let rightRoot := currentRoot - 1
      if target ≤ leftRoot then
        let (steps, last) := pathToPeakLoop target currentHeight leftRoot
        (⟨rightRoot, false, currentRoot⟩ :: steps, last)
      else
        let (steps, last) := pathToPeakLoop target currentHeight rightRoot
        (⟨leftRoot, true, currentRoot⟩ :: steps, last)

/-- `pathToPeak`. -/
def pathToPeak (root height target : ℕ) : Option (List PathStep) :=
  let (steps, currentRoot) := pathToPeakLoop target height root
  if currentRoot = target then some steps.reverse else none

/-- `interiorHash`. -/
def interiorHash (left right : Bytes) (position : ℕ) : Bytes :=
  H.digest (be64 (position + 1) ++ left ++ right)

/-- `for stepIndex, step := range steps …` of `VerifyConsistency`. -/
def climbSteps : Bytes → List PathStep → List Bytes → Option Bytes
  | accumulator, step :: steps, sibling :: witness =>
    if sibling.length ≠ hashSize then none
    else if step.targetIsRight then
      climbSteps (interiorHash H sibling accumulator step.parentPos) steps witness
    else climbSteps (interiorHash H accumulator sibling step.parentPos) steps witness
  | accumulator, _, _ => some accumulator

/-- The path of one old peak: the index of the new peak and the steps to it. -/
def oldPeakPath (newPositions : List ℕ) (oldPeak : ℕ) : Option (ℕ × List PathStep) := do
  let containing ← containingPeak M oldPeak newPositions
  let newPeak := newPositions.getD containing 0
  let steps ← pathToPeak newPeak (M.indexHeight newPeak) oldPeak
  some (containing, steps)

/-- `for index, oldPeak := range oldPositions …` of `VerifyConsistency`. -/
def climbOldPeaks (newPositions : List ℕ) (newPeaks : List Bytes) :
    List ℕ → List Bytes → List (List Bytes) → Bool
  | oldPeak :: oldPositions, peak :: oldPeaks, w :: witness =>
    match oldPeakPath M newPositions oldPeak with
    | none => false
    | some (containing, steps) =>
      if steps.length ≠ w.length then false
      else
        match climbSteps H peak steps w with
        | none => false
        | some accumulator =>
          accumulator == newPeaks.getD containing [] &&
            climbOldPeaks newPositions newPeaks oldPositions oldPeaks witness
  | _, _, _ => true

/-- `VerifyConsistency`. -/
def verifyConsistency (oldRoot newRoot : Bytes) (proof : ConsistencyProof) : Bool :=
  let oldPositions := peakPositions M proof.oldSize
  let newPositions := peakPositions M proof.newSize
  if oldRoot.length ≠ hashSize ∨ newRoot.length ≠ hashSize ∨ proof.v ≠ 1 ∨
      proof.kind ≠ .lit "consistency" ∨ proof.oldSize > proof.newSize ∨
      validMmrSize M proof.oldSize = false ∨ validMmrSize M proof.newSize = false then false
  else if proof.oldPeaks.length ≠ oldPositions.length ∨ proof.newPeaks.length ≠ newPositions.length ∨
      proof.witness.length ≠ oldPositions.length then false
  else if ∃ node ∈ proof.oldPeaks ++ proof.newPeaks, node.length ≠ hashSize then false
  else if rootFromPeaks M proof.oldPeaks ≠ oldRoot ∨ rootFromPeaks M proof.newPeaks ≠ newRoot then false
  else climbOldPeaks M H newPositions proof.newPeaks oldPositions proof.oldPeaks proof.witness

/-- The strings `climbOldPeaks` hashes. -/
def climbOldPeaksHashed (newPositions : List ℕ) :
    List ℕ → List Bytes → List (List Bytes) → List Bytes
  | oldPeak :: oldPositions, peak :: oldPeaks, w :: witness =>
    (match oldPeakPath M newPositions oldPeak with
      | none => []
      | some (_, steps) => (climbArgs (nodeHash H) peak steps w).map nodePreimage) ++
      climbOldPeaksHashed newPositions oldPositions oldPeaks witness
  | _, _, _ => []

/-- The strings `verifyConsistency` hashes. -/
def verifyConsistencyHashed (proof : ConsistencyProof) : List Bytes :=
  rootFromPeaksHashed H proof.oldPeaks ++ rootFromPeaksHashed H proof.newPeaks ++
    climbOldPeaksHashed M H (peakPositions M proof.newSize) (peakPositions M proof.oldSize)
      proof.oldPeaks proof.witness

variable {M H}

/-- An interior hash is a node hash. -/
lemma interiorHash_eq (left right : Bytes) (position : ℕ) :
    interiorHash H left right position = nodeHash H position left right := rfl

/-- A path is climbed step by step where its digests have 32 bytes. -/
lemma climbSteps_eq_some {acc out : Bytes} {steps : List PathStep} {w : List Bytes}
    (count : steps.length = w.length) :
    climbSteps H acc steps w = some out ↔
      (∀ s ∈ w, s.length = 32) ∧ climb (nodeHash H) acc steps w = out := by
  induction steps generalizing acc w with
  | nil =>
    obtain rfl : w = [] := List.length_eq_zero_iff.mp count.symm
    simp [climbSteps]
  | cons step steps ih =>
    cases w with
    | nil => cases count
    | cons sibling w =>
      have count : steps.length = w.length := by simpa using count
      have joined : climb (nodeHash H) acc (step :: steps) (sibling :: w) =
          climb (nodeHash H) (join (nodeHash H) step acc sibling) steps w := rfl
      rw [climbSteps, joined, List.forall_mem_cons]
      by_cases len : sibling.length = 32
      · have ok : ¬ sibling.length ≠ hashSize := not_not.mpr len
        have either : (if step.targetIsRight then
            climbSteps H (interiorHash H sibling acc step.parentPos) steps w
            else climbSteps H (interiorHash H acc sibling step.parentPos) steps w) =
            climbSteps H (join (nodeHash H) step acc sibling) steps w := by
          rw [interiorHash_eq, interiorHash_eq, join]
          split <;> rfl
        rw [if_neg ok, either, ih count]
        simp [len]
      · have bad : sibling.length ≠ hashSize := len
        rw [if_pos bad]
        simp [len]

/-- The walk to a peak collects the ascent of its block. -/
lemma pathToPeakLoop_root (h k d : ℕ) :
    pathToPeakLoop (root h k) (h + d) (root (h + d) (k / 2 ^ d)) =
      ((ascent h k d).reverse, root h k) := by
  induction d with
  | zero => cases h <;> simp [pathToPeakLoop, ascent]
  | succ d ih =>
    obtain ⟨ne, sides⟩ := descend_cases h k d
    change pathToPeakLoop (root h k) (h + d + 1) (root (h + d + 1) _) = _
    rw [ascent, List.reverse_append, pathToPeakLoop, if_neg ne]
    dsimp only
    rcases sides with ⟨le, down, step⟩ | ⟨gt, down, step⟩
    · rw [if_pos le, down, ih, step]
      rfl
    · rw [if_neg gt, down, ih, step]
      rfl

/-- The path from a block to its peak is its ascent. -/
lemma pathToPeak_root (h k d : ℕ) :
    pathToPeak (root (h + d) (k / 2 ^ d)) (h + d) (root h k) = some (ascent h k d) := by
  simp [pathToPeak, pathToPeakLoop_root]

/-- Peaks are bagged into the root. -/
lemma rootFromPeaks_eq (lawful : M.Lawful H) (ps : List Bytes) : rootFromPeaks M ps = bag H ps := by
  cases ps with
  | nil => rfl
  | cons p ps => exact lawful.hashPeaksRhs _ (by simp)

/-- A size is valid exactly where it counts the nodes of some leaves. -/
lemma validMmrSize_eq_true (lawful : M.Lawful H) {size : ℕ} :
    validMmrSize M size = true ↔ size ≤ maxSize ∧ ∃ n, size = nodeCount n := by
  unfold validMmrSize
  by_cases zero : size = 0
  · rw [if_pos zero]
    exact ⟨fun _ => ⟨by omega, 0, by simp [zero, nodeCount_eq]⟩, fun _ => rfl⟩
  · rw [if_neg zero]
    by_cases large : size > maxSize
    · rw [if_pos large]
      exact ⟨fun h => (by cases h), fun ⟨le, _⟩ => (by omega)⟩
    · obtain ⟨n, first, lt, least⟩ := lawful.firstMmrSize (size - 1) (by omega)
      rw [if_neg large, beq_iff_eq, first]
      constructor
      · intro e
        exact ⟨by omega, n, e.symm⟩
      · rintro ⟨_, m, rfl⟩
        have := least m (by omega)
        omega

/-- The peaks stand at the roots of the mountains. -/
lemma peakPositions_eq (lawful : M.Lawful H) {n : ℕ} (small : nodeCount n ≤ maxSize) :
    peakPositions M (nodeCount n) = peakRoots n n.size := by
  unfold peakPositions
  cases n with
  | zero => rfl
  | succ n =>
    have pos : nodeCount (n + 1) ≠ 0 := by
      have := forestSize_lt_succ n
      rw [nodeCount_eq]
      omega
    rw [if_neg pos, lawful.peaks (n + 1) (by omega) small, peakRoots_eq]

/-- The peak over a position is the first that reaches it. -/
lemma containingPeak_eq (lawful : M.Lawful H) {bs : List (ℕ × ℕ)}
    (small : ∀ b ∈ bs, root b.1 b.2 < maxSize) (position : ℕ) :
    containingPeak M position (bs.map fun b => root b.1 b.2) =
      findContainingPeak position (bs.map fun b => root b.1 b.2) := by
  induction bs with
  | nil => rfl
  | cons b bs ih =>
    have height := lawful.indexHeight b.1 b.2 (small b (by simp))
    rw [List.map_cons, containingPeak, findContainingPeak, height, heightAt_root,
      ih fun b hb => small b (List.mem_cons_of_mem _ hb)]

/-- The path of a complete block leads to the mountain over it. -/
lemma oldPeakPath_eq (lawful : M.Lawful H) {n h k : ℕ} (small : nodeCount n ≤ maxSize)
    (c : Complete n h k) :
    ∃ i d, findContainingPeak (root h k) (peakRoots n n.size) = some i ∧
      (mountains n)[i]? = some (h + d, k / 2 ^ d) ∧
      oldPeakPath M (peakRoots n n.size) (root h k) = some (i, ascent h k d) := by
  obtain ⟨left, right, d, split, found⟩ := findContainingPeak_root c
  have below : ∀ b ∈ mountains n, root b.1 b.2 < maxSize := fun b hb =>
    Nat.lt_of_lt_of_le (mountain_complete_of_mem hb).root_lt small
  have containing := containingPeak_eq lawful below (root h k)
  have height := lawful.indexHeight (h + d) (k / 2 ^ d)
    (below (h + d, k / 2 ^ d) (by simp [split]))
  rw [← peakRoots_eq, found] at containing
  refine ⟨left.length, d, found, by simp [split], ?_⟩
  simp only [oldPeakPath, containing, Option.bind_eq_bind, Option.bind_some,
    getD_peakRoots_split split, height, pathToPeak_root]

/-- The loop over the old peaks checks that they are bridged. -/
lemma climbOldPeaks_eq_true (lawful : M.Lawful H) {n : ℕ} (small : nodeCount n ≤ maxSize)
    {newPeaks : List Bytes} {bs : List (ℕ × ℕ)} {oldPeaks : List Bytes} {witness : List (List Bytes)}
    (complete : ∀ b ∈ bs, Complete n b.1 b.2) (old : oldPeaks.length = bs.length)
    (wit : witness.length = bs.length) :
    climbOldPeaks M H (peakRoots n n.size) newPeaks (bs.map fun b => root b.1 b.2) oldPeaks witness =
      true ↔ Bridges H n newPeaks bs oldPeaks witness := by
  induction bs generalizing oldPeaks witness with
  | nil =>
    obtain rfl : oldPeaks = [] := List.length_eq_zero_iff.mp old
    obtain rfl : witness = [] := List.length_eq_zero_iff.mp wit
    simp [climbOldPeaks, Bridges]
  | cons b bs ih =>
    cases oldPeaks with
    | nil => cases old
    | cons oldPeak oldPeaks =>
      cases witness with
      | nil => cases wit
      | cons w witness =>
        obtain ⟨h, k⟩ := b
        obtain ⟨i, d, found, top, path⟩ := oldPeakPath_eq lawful small (complete (h, k) (by simp))
        have ih := ih (fun b hb => complete b (List.mem_cons_of_mem _ hb)) (by simpa using old)
          (by simpa using wit)
        rw [List.map_cons, climbOldPeaks, Bridges, ← ih]
        dsimp only
        rw [path]
        dsimp only
        by_cases count : (ascent h k d).length = w.length
        · rw [if_neg (not_not.mpr count)]
          rw [length_ascent] at count
          subst count
          constructor
          · intro ok
            split at ok
            · cases ok
            · rename_i accumulator climbed
              obtain ⟨reached, rest⟩ := Bool.and_eq_true_iff.mp ok
              obtain ⟨len, e⟩ := (climbSteps_eq_some (length_ascent _ _ _)).mp climbed
              exact ⟨⟨i, found, top, len, e.trans (beq_iff_eq.mp reached)⟩, rest⟩
          · rintro ⟨⟨i', found', top', len, e⟩, rest⟩
            cases found.symm.trans found'
            rw [(climbSteps_eq_some (length_ascent _ _ _)).mpr ⟨len, e⟩]
            exact Bool.and_eq_true_iff.mpr ⟨beq_self_eq_true _, rest⟩
        · rw [if_pos count]
          rw [length_ascent] at count
          refine ⟨fun ok => (by cases ok), ?_⟩
          rintro ⟨⟨i', found', top', -, -⟩, -⟩
          cases found.symm.trans found'
          have e := (Prod.mk.inj (Option.some.inj (top.symm.trans top'))).1
          exact (count (by omega)).elim

/-- What an accepted consistency proof has been checked for. -/
structure Checked (H : HashFunction) (oldRoot newRoot : Bytes) (proof : ConsistencyProof) (m n : ℕ) :
    Prop where
  oldRoot_length : oldRoot.length = 32
  newRoot_length : newRoot.length = 32
  v : proof.v = 1
  kind : proof.kind = .lit "consistency"
  oldSize : proof.oldSize = nodeCount m
  newSize : proof.newSize = nodeCount n
  le : m ≤ n
  small : nodeCount n ≤ maxSize
  oldPeaks_length : proof.oldPeaks.length = (mountains m).length
  newPeaks_length : proof.newPeaks.length = (mountains n).length
  oldPeaks : ∀ p ∈ proof.oldPeaks, p.length = 32
  newPeaks : ∀ p ∈ proof.newPeaks, p.length = 32
  oldRoot_eq : bag H proof.oldPeaks = oldRoot
  newRoot_eq : bag H proof.newPeaks = newRoot
  bridges : Bridges H n proof.newPeaks (mountains m) proof.oldPeaks proof.witness

/-- There is one peak for each mountain. -/
lemma length_peakRoots (n : ℕ) : (peakRoots n n.size).length = (mountains n).length := by
  rw [peakRoots_eq, List.length_map]

/-- The verifier accepts exactly the proofs it has checked. -/
theorem verifyConsistency_eq_true (lawful : M.Lawful H) {oldRoot newRoot : Bytes}
    {proof : ConsistencyProof} :
    verifyConsistency M H oldRoot newRoot proof = true ↔
      ∃ m n, Checked H oldRoot newRoot proof m n := by
  unfold verifyConsistency
  dsimp only
  constructor
  · intro accept
    -- The tests in the order in which the source makes them.
    split at accept
    · cases accept
    · rename_i sizes
      split at accept
      · cases accept
      · rename_i counts
        split at accept
        · cases accept
        · rename_i digests
          split at accept
          · cases accept
          · rename_i roots
            simp only [not_or, not_not, not_lt, Bool.not_eq_false] at sizes counts roots
            obtain ⟨lenOld, lenNew, v, kind, le, validOld, validNew⟩ := sizes
            obtain ⟨-, m, em⟩ := (validMmrSize_eq_true lawful).mp validOld
            obtain ⟨small, n, en⟩ := (validMmrSize_eq_true lawful).mp validNew
            rw [en] at small
            rw [em, en] at le
            have smallm : nodeCount m ≤ maxSize := le.trans small
            rw [em, en, peakPositions_eq lawful smallm, peakPositions_eq lawful small] at counts
            rw [em, en, peakPositions_eq lawful smallm, peakPositions_eq lawful small,
              peakRoots_eq m] at accept
            have le : m ≤ n := forestSize_strictMono.le_iff_le.mp le
            have all : ∀ p ∈ proof.oldPeaks ++ proof.newPeaks, p.length = 32 := by
              intro p hp
              by_contra bad
              exact digests ⟨p, hp, bad⟩
            have bridges := (climbOldPeaks_eq_true lawful small
              (fun b hb => (mountain_complete_of_mem hb).mono le)
              (counts.1.trans (length_peakRoots m)) (counts.2.2.trans (length_peakRoots m))).mp accept
            rw [rootFromPeaks_eq lawful, rootFromPeaks_eq lawful] at roots
            exact ⟨m, n, lenOld, lenNew, v, kind, em, en, le, small,
              counts.1.trans (length_peakRoots m), counts.2.1.trans (length_peakRoots n),
              fun p hp => all p (List.mem_append_left _ hp),
              fun p hp => all p (List.mem_append_right _ hp), roots.1, roots.2, bridges⟩
  · rintro ⟨m, n, checked⟩
    have le := forestSize_le checked.le
    have smallm : nodeCount m ≤ maxSize := le.trans checked.small
    have positionsOld := peakPositions_eq lawful smallm
    have positionsNew := peakPositions_eq lawful checked.small
    have validOld := (validMmrSize_eq_true (M := M) lawful).mpr ⟨smallm, m, rfl⟩
    have validNew := (validMmrSize_eq_true (M := M) lawful).mpr ⟨checked.small, n, rfl⟩
    -- Every test passes for such a proof.
    rw [checked.oldSize, checked.newSize, positionsOld, positionsNew, length_peakRoots,
      length_peakRoots, validOld, validNew, if_neg, if_neg, if_neg, if_neg, peakRoots_eq m]
    · exact (climbOldPeaks_eq_true lawful checked.small
        (fun b hb => (mountain_complete_of_mem hb).mono checked.le) checked.oldPeaks_length
        checked.bridges.length_eq.2).mpr checked.bridges
    · rw [rootFromPeaks_eq lawful, rootFromPeaks_eq lawful, checked.oldRoot_eq, checked.newRoot_eq]
      simp
    · rintro ⟨p, hp, bad⟩
      cases List.mem_append.mp hp with
      | inl hp => exact bad (checked.oldPeaks p hp)
      | inr hp => exact bad (checked.newPeaks p hp)
    · rw [checked.oldPeaks_length, checked.newPeaks_length, checked.bridges.length_eq.2]
      simp
    · have ordered : ¬ nodeCount m > nodeCount n := not_lt.mpr le
      simp [checked.oldRoot_length, checked.newRoot_length, checked.v, checked.kind, ordered, hashSize]

/-- The strings hashed on the way up are those of the bridge. -/
lemma climbOldPeaksHashed_eq (lawful : M.Lawful H) {n : ℕ} (small : nodeCount n ≤ maxSize)
    {newPeaks : List Bytes} {bs : List (ℕ × ℕ)} {oldPeaks : List Bytes} {witness : List (List Bytes)}
    (complete : ∀ b ∈ bs, Complete n b.1 b.2)
    (bridges : Bridges H n newPeaks bs oldPeaks witness) :
    climbOldPeaksHashed M H (peakRoots n n.size) (bs.map fun b => root b.1 b.2) oldPeaks witness =
      bridgeHashed H bs oldPeaks witness := by
  induction bs generalizing oldPeaks witness with
  | nil => rfl
  | cons b bs ih =>
    cases oldPeaks with
    | nil => rfl
    | cons oldPeak oldPeaks =>
      cases witness with
      | nil => rfl
      | cons w witness =>
        obtain ⟨h, k⟩ := b
        obtain ⟨i, d, found, top, path⟩ := oldPeakPath_eq lawful small (complete (h, k) (by simp))
        obtain ⟨⟨i', found', top', -, -⟩, rest⟩ := bridges
        cases found.symm.trans found'
        have e := (Prod.mk.inj (Option.some.inj (top.symm.trans top'))).1
        obtain rfl : d = w.length := by omega
        rw [List.map_cons, climbOldPeaksHashed, bridgeHashed,
          ih (fun b hb => complete b (List.mem_cons_of_mem _ hb)) rest]
        dsimp only
        rw [path]

/-- A checked proof hashes the old root, the new root and the bridge. -/
lemma Checked.hashed_eq (lawful : M.Lawful H) {oldRoot newRoot : Bytes} {proof : ConsistencyProof}
    {m n : ℕ} (checked : Checked H oldRoot newRoot proof m n) :
    verifyConsistencyHashed M H proof = rootFromPeaksHashed H proof.oldPeaks ++
      rootFromPeaksHashed H proof.newPeaks ++
        bridgeHashed H (mountains m) proof.oldPeaks proof.witness := by
  have smallm : nodeCount m ≤ maxSize := (forestSize_le checked.le).trans checked.small
  rw [verifyConsistencyHashed, checked.oldSize, checked.newSize, peakPositions_eq lawful smallm,
    peakPositions_eq lawful checked.small, peakRoots_eq m,
    climbOldPeaksHashed_eq lawful checked.small
      (fun b hb => (mountain_complete_of_mem hb).mono checked.le) checked.bridges]

end CLL.Go
