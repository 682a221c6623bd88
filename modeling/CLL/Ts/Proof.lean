import CLL.Ts.Append
import CLL.Core.Bridge

/-!
# Consistency proofs in TypeScript

`MmrTree.consistencyProof` and `verifyConsistency` of `ts/src/mmr.ts`. The prover walks the parent links
that `append` and `shape` leave behind; `Linked` says where they lead. The verifier finds the same path
from the positions alone, and checks exactly that the old peaks are bridged (`verifyConsistency_eq_true`).
-/

namespace CLL.Ts
open PostOrder CLL.Core Run

/-- `meta[p]!.parent`. -/
def parentOf (metas : List Meta) (p : ℕ) : Option ℕ := metas[p]?.bind Meta.parent

/-- `m.left === p ? m.right! : m.left!` for the node `m` at position `q`. -/
def otherChild (metas : List Meta) (q p : ℕ) : ℕ :=
  (metas[q]?.bind fun m => if m.left = some p then m.right else m.left).getD 0

/-- The `while` loop of `path`. -/
def pathLoop (metas : List Meta) (nodes : List Bytes) : ℕ → ℕ → List Bytes
  | 0, _ => []
  | fuel + 1, p =>
    match parentOf metas p with
    | none => []
    | some q => nodes.getD (otherChild metas q p) [] :: pathLoop metas nodes fuel q

/-- `path`. A parent lies behind its children, so the loop makes at most as many rounds as there are nodes. -/
def path (metas : List Meta) (nodes : List Bytes) (start : ℕ) : List Bytes :=
  pathLoop metas nodes metas.length start

/-- `MmrConsistencyProof`. -/
structure MmrConsistencyProof where
  oldSize : ℕ
  newSize : ℕ
  oldPeaks : List Bytes
  witness : List (List Bytes)
  newPeaks : List Bytes
deriving DecidableEq

/-- `peakHashes`. -/
def MmrTree.peakHashes (t : MmrTree) : List Bytes := t.peaks.map fun p => t.nodes.getD p []

/-- `peakHashesAt`, where `ready` resolves. -/
def MmrTree.peakHashesAt (t : MmrTree) (size : ℕ) : Option (List Bytes) := do
  let leaves ← leafCount size
  guard (size ≤ t.nodes.length)
  some ((shape leaves).peaks.map fun p => t.nodes.getD p [])

/-- `consistencyProof`, where `ready` resolves. -/
def MmrTree.consistencyProof (t : MmrTree) (oldSize : ℕ) : Option MmrConsistencyProof := do
  let oldLeaves ← leafCount oldSize
  guard (0 < oldSize ∧ oldSize ≤ t.nodes.length)
  let oldPeaks := (shape oldLeaves).peaks
  some ⟨oldSize, t.nodes.length, oldPeaks.map fun p => t.nodes.getD p [],
    oldPeaks.map fun p => path t.metas t.nodes p, t.peakHashes⟩

/-- `while (remaining > 0) …` of `peakPositions`; `prevHeight` is `none` for infinity. -/
def peakPositionsLoop : ℕ → ℕ → ℕ → Option ℕ → List ℕ
  | 0, _, _, _ => []
  | fuel + 1, remaining, offset, prevHeight =>
    if remaining > 0 then
      let h := fitHeight remaining remaining 0
      if prevHeight.any (h ≥ ·) then []
      else
        let mountain := 2 ^ (h + 1) - 1
        (offset + mountain - 1) :: peakPositionsLoop fuel (remaining - mountain) (offset + mountain) (some h)
    else []

/-- `peakPositions`. -/
def peakPositions (size : ℕ) : List ℕ := peakPositionsLoop size size 0 none

variable (H : HashFunction)

/-- `rootFromPeaks`. -/
def rootFromPeaks (peaks : List Bytes) : Bytes :=
  match peaks.reverse with
  | [] => List.replicate 32 0
  | root :: rest => bagLoop H root rest

/-- `for (const step of steps) …` of `verifyConsistency`. -/
def climbSteps : Bytes → List PathStep → List Bytes → Option Bytes
  | v, [], _ => some v
  | _, _ :: _, [] => none
  | v, step :: steps, x :: witness =>
    if x.length ≠ 32 then none
    else if step.targetIsRight then climbSteps (nodeHash H step.parentPos x v) steps witness
    else climbSteps (nodeHash H step.parentPos v x) steps witness

/-- `for (let j = 0; j < oldPositions.length; j += 1) …` of `verifyConsistency`. -/
def climbOldPeaks (newPositions : List ℕ) (newPeaks : List Bytes) :
    List ℕ → List Bytes → List (List Bytes) → Bool
  | oldPosition :: oldPositions, oldPeak :: oldPeaks, w :: witness =>
    match findContainingPeak oldPosition newPositions with
    | none => false
    | some containing =>
      let newPeak := newPositions.getD containing 0
      let steps := locatePath newPeak (heightAt newPeak) oldPosition
      if steps.length ≠ w.length then false
      else
        climbSteps H oldPeak steps w == some (newPeaks.getD containing []) &&
          climbOldPeaks newPositions newPeaks oldPositions oldPeaks witness
  | _, _, _ => true

/-- `verifyConsistency`. -/
def verifyConsistency (oldRoot newRoot : Bytes) (proof : MmrConsistencyProof) : Bool :=
  match leafCount proof.oldSize, leafCount proof.newSize with
  | some a, some _ =>
    if a = 0 ∨ proof.oldSize > proof.newSize ∨ proof.newSize ≥ maxMmrSize ∨
        proof.witness.length ≠ proof.oldPeaks.length ∨ (∃ x ∈ proof.oldPeaks, x.length ≠ 32) ∨
        ∃ x ∈ proof.newPeaks, x.length ≠ 32 then false
    else if rootFromPeaks H proof.oldPeaks ≠ oldRoot ∨ rootFromPeaks H proof.newPeaks ≠ newRoot then false
    else
      let oldPositions := peakPositions proof.oldSize
      let newPositions := peakPositions proof.newSize
      if proof.oldPeaks.length ≠ oldPositions.length ∨ proof.newPeaks.length ≠ newPositions.length then
        false
      else climbOldPeaks H newPositions proof.newPeaks oldPositions proof.oldPeaks proof.witness
  | _, _ => false

variable {H}

/-- Every position below `len` is linked to its parent, if that lies below `len` as well. -/
def Linked (len : ℕ) (metas : List Meta) : Prop :=
  ∀ h k, root h k < len →
    parentOf metas (root h k) = if root (h + 1) (k / 2) < len then some (root (h + 1) (k / 2)) else none

/-- A new node keeps the parents of the others. -/
lemma parentOf_append_of_lt {metas : List Meta} {p : ℕ} (lt : p < metas.length) (m : Meta) :
    parentOf (metas ++ [m]) p = parentOf metas p := by
  rw [parentOf, parentOf, List.getElem?_append_left lt]

/-- A new node has no parent. -/
lemma parentOf_append_length (metas : List Meta) {p : ℕ} (eq : p = metas.length) {m : Meta}
    (none_ : m.parent = none) : parentOf (metas ++ [m]) p = none := by
  rw [parentOf, eq, List.getElem?_concat_length, Option.bind_some, none_]

/-- Setting a parent changes no other one. -/
lemma parentOf_modify (metas : List Meta) (i q p : ℕ) (lt : i < metas.length) :
    parentOf (metas.modify i fun m => { m with parent := some q }) p =
      if p = i then some q else parentOf metas p := by
  rw [parentOf, parentOf, List.getElem?_modify]
  by_cases same : p = i
  · subst same
    rw [if_pos rfl, List.getElem?_eq_getElem lt]
    simp
  · rw [if_neg same]
    cases metas[p]? <;> simp [Ne.symm same]

/-- A new leaf has no parent yet. -/
lemma Linked.pushLeaf {n : ℕ} {metas : List Meta} (linked : Linked (forestSize n) metas)
    (length : metas.length = forestSize n) : Linked (forestSize n + 1) (pushLeaf metas) := by
  have leaf : root 0 n = forestSize n := root_zero n
  intro h k lt
  have up := root_lt_root_up h k 0
  have notLeaf : root (h + 1) (k / 2) ≠ forestSize n := fun eq => by
    have := (root_injective (eq.trans leaf.symm)).1
    omega
  rw [Ts.pushLeaf]
  by_cases old : root h k < forestSize n
  · rw [parentOf_append_of_lt (length ▸ old), linked h k old]
    by_cases in_ : root (h + 1) (k / 2) < forestSize n
    · rw [if_pos in_, if_pos (by omega)]
    · rw [if_neg in_, if_neg (by omega)]
  · have eq : root h k = forestSize n := by omega
    rw [parentOf_append_length metas (eq.trans length.symm) rfl, if_neg]
    simp only [Nat.zero_add, pow_one] at up
    omega

/-- The parent is linked from its two children. -/
lemma Linked.pushParent {h k : ℕ} {metas : List Meta} (linked : Linked (root (h + 1) k) metas)
    (length : metas.length = root (h + 1) k) :
    Linked (root (h + 1) k + 1)
      (pushParent metas (root h (2 * k)) (root h (2 * k + 1)) (root (h + 1) k)) := by
  have left := root_left h k
  have right := root_right h k
  have two := pow_pos_two h
  intro h' k' lt
  have up := root_lt_root_up h' k' 0
  simp only [Nat.zero_add, pow_one] at up
  rw [Ts.pushParent, parentOf_modify _ _ _ _ (by simp [length]; omega),
    parentOf_modify _ _ _ _ (by simp [length]; omega)]
  by_cases isRight : root h' k' = root h (2 * k + 1)
  · obtain ⟨rfl, rfl⟩ := root_injective isRight
    rw [if_pos rfl, show (2 * k + 1) / 2 = k by omega, if_pos (by omega)]
  rw [if_neg isRight]
  by_cases isLeft : root h' k' = root h (2 * k)
  · obtain ⟨rfl, rfl⟩ := root_injective isLeft
    rw [if_pos rfl, show 2 * k / 2 = k by omega, if_pos (by omega)]
  rw [if_neg isLeft]
  have notParent : root (h' + 1) (k' / 2) ≠ root (h + 1) k := fun eq => by
    obtain ⟨eh, ek⟩ := root_injective eq
    obtain rfl : h' = h := by omega
    rcases Nat.mod_two_eq_zero_or_one k' with even | odd
    · exact isLeft (congrArg (root h') (by omega))
    · exact isRight (congrArg (root h') (by omega))
  by_cases old : root h' k' < root (h + 1) k
  · rw [parentOf_append_of_lt (length ▸ old), linked h' k' old]
    by_cases in_ : root (h' + 1) (k' / 2) < root (h + 1) k
    · rw [if_pos in_, if_pos (by omega)]
    · rw [if_neg in_, if_neg (by omega)]
  · have eq : root h' k' = root (h + 1) k := by omega
    rw [parentOf_append_length metas (eq.trans length.symm) rfl, if_neg (by omega)]

/-- The loop of `shape` links the blocks that the new leaf completes. -/
lemma Round.carry_linked {n j steps : ℕ} {metas : List Meta} {peaks : List ℕ}
    (r : Round n j steps metas peaks) (linked : Linked (forestSize n + 1 + j) metas) :
    Linked (forestSize (n + 1)) (Ts.carry peaks metas (forestSize n + j)).1 := by
  have stops (b : n.testBit j = false) : Linked (forestSize (n + 1)) metas := by
    rw [r.carries.forestSize_succ b, Nat.add_right_comm]
    exact linked
  induction peaks generalizing j steps metas with
  | nil =>
    have b : n.testBit j = false := by
      by_contra b
      obtain ⟨l, steps', rest, _, eq, _⟩ := r.merge (by simpa using b) 0
      cases eq
    exact stops b
  | cons l peaks ih =>
    cases b : n.testBit j with
    | false =>
      obtain ⟨ne, -, -⟩ := r.stop b
      rw [Ts.carry, if_neg (ne l (by simp))]
      exact stops b
    | true =>
      obtain ⟨l', steps', rest, rfl, eq, same, next⟩ := r.merge b metas.length
      cases eq
      have length : metas.length = forestSize n + (j + 1) := by
        rw [r.laid.length_eq]
        omega
      have up := (r.carries.succ b).root_eq
      have right := root_right j (n / 2 ^ (j + 1))
      have isRight : forestSize n + j = root j (2 * (n / 2 ^ (j + 1)) + 1) := by omega
      have made : Linked (forestSize n + 1 + (j + 1))
          (pushParent metas (root j (mountain n j)) (forestSize n + j) metas.length) := by
        rw [show forestSize n + 1 + j = root (j + 1) (n / 2 ^ (j + 1)) by omega] at linked
        rw [show forestSize n + 1 + (j + 1) = root (j + 1) (n / 2 ^ (j + 1)) + 1 by omega, isRight, length,
          ← up]
        exact linked.pushParent (length.trans up.symm)
      rw [Ts.carry, if_pos same, length]
      rw [length] at made next
      refine ih next made fun b => ?_
      rw [next.carries.forestSize_succ b, Nat.add_right_comm]
      exact made

/-- `shape` links every node to its parent. -/
theorem shape_linked (n : ℕ) : Linked (forestSize n) (shape n).metas := by
  induction n with
  | zero => exact fun h k lt => absurd lt (by simp)
  | succ n ih =>
    obtain ⟨laid, peaks, -⟩ := shape_spec n
    have done := (Round.init laid).carry_linked (ih.pushLeaf laid.length_eq)
    rw [← peaks] at done
    simp only [Nat.add_zero] at done
    simp only [shape]
    rw [laid.length_eq]
    exact done

/-- The child beside another under the same parent. -/
lemma otherChild_shape {n h k : ℕ} (lt : root (h + 1) (k / 2) < forestSize n) :
    otherChild (shape n).metas (root (h + 1) (k / 2)) (root h k) = root h (sibling k) := by
  obtain ⟨⟨height, left, right, parent⟩, found, kind⟩ :=
    Option.map_eq_some_iff.mp ((shape_spec n).1.kind_eq lt)
  rw [kindAt_root] at kind
  cases kind
  rw [otherChild, found, Option.bind_some, sibling]
  dsimp only
  rcases Nat.mod_two_eq_zero_or_one k with even | odd
  · rw [if_pos (congrArg (fun k => some (root h k)) (by omega)), if_neg (by omega)]
    exact congrArg (root h) (by omega)
  · have ne : ¬some (root h (2 * (k / 2))) = some (root h k) := fun eq => by
      have := (root_injective (Option.some.inj eq)).2
      omega
    rw [if_neg ne, if_pos odd]
    exact congrArg (root h) (by omega)

/-- The siblings of a block begin with its own. -/
lemma siblingHashes_succ (leaves : List Bytes) (h k d : ℕ) :
    siblingHashes H leaves h k (d + 1) =
      treeHash H leaves h (sibling k) :: siblingHashes H leaves (h + 1) (k / 2) d := by
  induction d with
  | zero => rw [siblingHashes, siblingLabels, pow_zero, Nat.div_one]; rfl
  | succ d ih =>
    have higher : k / 2 ^ (d + 1) = k / 2 / 2 ^ d := by rw [Nat.div_div_eq_div_mul, ← pow_succ']
    have split : siblingHashes H leaves h k (d + 1 + 1) = siblingHashes H leaves h k (d + 1) ++
        [treeHash H leaves (h + (d + 1)) (sibling (k / 2 ^ (d + 1)))] := rfl
    have split' : siblingHashes H leaves (h + 1) (k / 2) (d + 1) = siblingHashes H leaves (h + 1) (k / 2) d ++
        [treeHash H leaves (h + 1 + d) (sibling (k / 2 / 2 ^ d))] := rfl
    rw [split, split', ih, higher, Nat.add_right_comm, Nat.add_assoc h d 1]
    rfl

/-- A block below a complete one is complete. -/
lemma complete_of_above {n h k d : ℕ} (c : Complete n (h + d) (k / 2 ^ d)) : Complete n h k := by
  induction d with
  | zero => simpa using c
  | succ d ih =>
    rw [div_pow_succ] at c
    exact ih (Complete.of_parent c).1

/-- Above a mountain no block is complete. -/
lemma not_complete_above {n h k : ℕ} (top : (h, k) ∈ mountains n) : ¬Complete n (h + 1) (k / 2) := by
  obtain ⟨-, eq⟩ := mem_mountains top
  have half : k / 2 = n / 2 ^ (h + 1) := by
    have eq : k = 2 * (n / 2 ^ (h + 1)) := eq
    omega
  rw [Complete, half, not_le, Nat.mul_comm]
  exact Nat.lt_mul_div_succ n (Nat.two_pow_pos _)

/-- The parent links lead to the mountain over a block, past its true siblings. -/
lemma pathLoop_eq {leaves nodes : List Bytes} (mmr : IsMmr H leaves nodes) {h k d fuel : ℕ}
    (top : (h + d, k / 2 ^ d) ∈ mountains leaves.length) (enough : d ≤ fuel) :
    pathLoop (shape leaves.length).metas nodes fuel (root h k) = siblingHashes H leaves h k d := by
  have linked := shape_linked leaves.length
  induction d generalizing h k fuel with
  | zero =>
    have none_ : parentOf (shape leaves.length).metas (root h k) = none := by
      have top : (h, k) ∈ mountains leaves.length := by simpa using top
      rw [linked h k (mountain_complete_of_mem top).root_lt, if_neg]
      exact fun lt => not_complete_above top (complete_of_root_lt lt)
    cases fuel with
    | zero => rfl
    | succ fuel => rw [pathLoop, none_]; rfl
  | succ d ih =>
    obtain ⟨fuel, rfl⟩ : ∃ f, fuel = f + 1 := ⟨fuel - 1, by omega⟩
    have higher : k / 2 ^ (d + 1) = k / 2 / 2 ^ d := by rw [Nat.div_div_eq_div_mul, ← pow_succ']
    rw [higher, ← Nat.add_assoc, Nat.add_right_comm] at top
    have above : Complete leaves.length (h + 1) (k / 2) := complete_of_above (mountain_complete_of_mem top)
    obtain ⟨here, beside⟩ := Complete.of_parent above
    rw [pathLoop, linked h k here.root_lt, if_pos above.root_lt]
    dsimp only
    rw [otherChild_shape above.root_lt, List.getD_eq_getElem?_getD, mmr.node_eq _ _ beside,
      ih top (by omega), siblingHashes_succ]
    rfl

/-- The path of a block is the hashes of its siblings. -/
lemma path_eq {leaves nodes : List Bytes} (mmr : IsMmr H leaves nodes) {h k d : ℕ}
    (top : (h + d, k / 2 ^ d) ∈ mountains leaves.length) :
    path (shape leaves.length).metas nodes (root h k) = siblingHashes H leaves h k d := by
  refine pathLoop_eq mmr top ?_
  have lt : root (h + d) (k / 2 ^ d) < forestSize leaves.length := (mountain_complete_of_mem top).root_lt
  have pow : h + d < 2 ^ (h + d) := Nat.lt_two_pow_self
  rw [(shape_spec _).1.length_eq]
  rw [root, pow_succ] at lt
  omega

/-- The hashes of a path have 32 bytes. -/
lemma length_of_mem_path {leaves nodes : List Bytes} (mmr : IsMmr H leaves nodes)
    (len : ∀ l ∈ leaves, l.length = 32) {h k : ℕ} (c : Complete leaves.length h k) :
    ∀ x ∈ path (shape leaves.length).metas nodes (root h k), x.length = 32 := by
  obtain ⟨left, right, d, split, -⟩ := findContainingPeak_root c
  have top : (h + d, k / 2 ^ d) ∈ mountains leaves.length := by simp [split]
  rw [path_eq mmr top]
  exact length_of_mem_siblingHashes len (mountain_complete_of_mem top)

/-- The paths the prover reads bridge the blocks to the mountains. -/
lemma bridges_path {leaves nodes : List Bytes} (mmr : IsMmr H leaves nodes)
    (len : ∀ l ∈ leaves, l.length = 32) {bs : List (ℕ × ℕ)}
    (complete : ∀ b ∈ bs, Complete leaves.length b.1 b.2) :
    Bridges H leaves.length (mountainHashes H leaves leaves.length) bs
      (bs.map fun b => treeHash H leaves b.1 b.2)
      (bs.map fun b => path (shape leaves.length).metas nodes (root b.1 b.2)) := by
  induction bs with
  | nil => trivial
  | cons b bs ih =>
    obtain ⟨h, k⟩ := b
    have c := complete (h, k) List.mem_cons_self
    obtain ⟨left, right, d, split, found⟩ := findContainingPeak_root c
    have top : (h + d, k / 2 ^ d) ∈ mountains leaves.length := by simp [split]
    have siblings := path_eq mmr top
    have length : (path (shape leaves.length).metas nodes (root h k)).length = d := by
      rw [siblings, length_siblingHashes]
    refine ⟨⟨left.length, found, ?_, length_of_mem_path mmr len c, ?_⟩,
      ih fun b hb => complete b (List.mem_cons_of_mem _ hb)⟩
    · rw [length, split]
      simp
    · have climbed : climb (nodeHash H) (treeHash H leaves h k) (ascent h k d)
          (path (shape leaves.length).metas nodes (root h k)) = treeHash H leaves (h + d) (k / 2 ^ d) := by
        rw [siblings]
        exact climb_ascent _ _ h k d
      rw [length, getD_mountainHashes_split split]
      exact climbed

/-- The peaks of an earlier size. -/
lemma IsMmr.getD_peaks {leaves nodes : List Bytes} (mmr : IsMmr H leaves nodes) {m : ℕ}
    (le : m ≤ leaves.length) :
    (shape m).peaks.map (fun p => nodes.getD p []) = mountainHashes H leaves m := by
  rw [(shape_spec m).2.1, peakRoots_eq, List.map_map, mountainHashes]
  refine List.map_congr_left fun b hb => ?_
  have node := mmr.node_eq b.1 b.2 ((mountain_complete_of_mem hb).mono le)
  rw [Function.comp_apply, List.getD_eq_getElem?_getD, node]
  rfl

/-- The peaks of a tree are the hashes of its mountains. -/
lemma MmrTree.Holds.peakHashes {leaves : List Bytes} {t : MmrTree} (holds : t.Holds H leaves) :
    t.peakHashes = mountainHashes H leaves leaves.length := by
  rw [MmrTree.peakHashes, holds.2]
  exact IsMmr.getD_peaks holds.1 le_rfl

/-- The peaks at an earlier size are the hashes of its mountains. -/
lemma MmrTree.Holds.peakHashesAt {leaves : List Bytes} {t : MmrTree} (holds : t.Holds H leaves)
    (small : t.nodes.length ≤ maxSafeInteger) {m : ℕ} (le : m ≤ leaves.length) :
    t.peakHashesAt (nodeCount m) = some (mountainHashes H leaves m) := by
  have sizes : nodeCount m ≤ t.nodes.length := holds.1.length_eq ▸ forestSize_le le
  rw [MmrTree.peakHashesAt, leafCount_eq_some.mpr ⟨(nodeCount_eq m).symm, sizes.trans small⟩]
  simp only [Option.bind_eq_bind, Option.bind_some]
  rw [guard, if_pos sizes]
  exact congrArg some (IsMmr.getD_peaks holds.1 le)

/-- What the prover gives for an earlier size. -/
lemma MmrTree.Holds.consistencyProof {leaves : List Bytes} {t : MmrTree} (holds : t.Holds H leaves)
    (small : t.nodes.length ≤ maxSafeInteger) {m : ℕ} (pos : 0 < m) (le : m ≤ leaves.length) :
    t.consistencyProof (nodeCount m) = some ⟨nodeCount m, nodeCount leaves.length, mountainHashes H leaves m,
      (mountains m).map fun b => path (shape leaves.length).metas t.nodes (root b.1 b.2),
      mountainHashes H leaves leaves.length⟩ := by
  have sizes : nodeCount m ≤ t.nodes.length := holds.1.length_eq ▸ forestSize_le le
  have posSize : 0 < nodeCount m := forestSize_strictMono pos
  have peaks := holds.peakHashes
  have metas : t.metas = (shape leaves.length).metas := by rw [holds.2]; rfl
  rw [MmrTree.consistencyProof, leafCount_eq_some.mpr ⟨(nodeCount_eq m).symm, sizes.trans small⟩]
  simp only [Option.bind_eq_bind, Option.bind_some]
  rw [guard, if_pos ⟨posSize, sizes⟩, IsMmr.getD_peaks holds.1 le, peaks, metas, (shape_spec m).2.1,
    peakRoots_eq, List.map_map, holds.1.length_eq]
  rfl

/-- Peaks are bagged into the root. -/
lemma rootFromPeaks_eq (ps : List Bytes) : rootFromPeaks H ps = bag H ps := rfl

/-- Peak positions are those of Python. -/
lemma peakPositionsLoop_eq {size fuel remaining offset : ℕ} {prev : Option ℕ} {ps : List ℕ}
    (ok : peaksLoop size fuel remaining offset prev = .ok ps) :
    peakPositionsLoop fuel remaining offset prev = ps := by
  induction fuel generalizing remaining offset prev ps with
  | zero => exact Except.ok.inj ok
  | succ fuel ih =>
    rw [peaksLoop] at ok
    rw [peakPositionsLoop]
    split at ok
    · rename_i pos
      rw [if_pos pos]
      dsimp only at ok ⊢
      split at ok
      · simp at ok
      · rename_i fits
        rw [if_neg fits]
        obtain ⟨rest, rest_eq, ok⟩ := bind_eq_ok.mp ok
        rw [ih rest_eq]
        exact Except.ok.inj ok
    · rename_i zero
      rw [if_neg zero]
      exact Except.ok.inj ok

/-- The peaks of a size are the roots of its mountains. -/
lemma peakPositions_nodeCount {n : ℕ} (small : nodeCount n < maxMmrSize) :
    peakPositions (nodeCount n) = peakRoots n n.size := by
  have found := peaks_nodeCount small
  rw [peaks, if_neg (by omega)] at found
  exact peakPositionsLoop_eq found

/-- A path is climbed where its digests have 32 bytes. -/
lemma climbSteps_eq_some {v out : Bytes} {steps : List PathStep} {w : List Bytes}
    (count : steps.length = w.length) :
    climbSteps H v steps w = some out ↔
      (∀ x ∈ w, x.length = 32) ∧ climb (nodeHash H) v steps w = out := by
  induction steps generalizing v w with
  | nil =>
    obtain rfl : w = [] := List.length_eq_zero_iff.mp count.symm
    simp [climbSteps]
  | cons step steps ih =>
    cases w with
    | nil => cases count
    | cons x w =>
      have count : steps.length = w.length := by simpa using count
      have joined : climb (nodeHash H) v (step :: steps) (x :: w) =
          climb (nodeHash H) (join (nodeHash H) step v x) steps w := rfl
      rw [climbSteps, joined, List.forall_mem_cons]
      by_cases len : x.length = 32
      · have either : (if step.targetIsRight then climbSteps H (nodeHash H step.parentPos x v) steps w
            else climbSteps H (nodeHash H step.parentPos v x) steps w) =
            climbSteps H (join (nodeHash H) step v x) steps w := by
          rw [join]
          split <;> rfl
        rw [if_neg (not_not.mpr len), either, ih count]
        simp [len]
      · rw [if_pos len]
        simp [len]

/-- The loop over the old peaks checks that they are bridged. -/
lemma climbOldPeaks_eq_true {n : ℕ} {newPeaks : List Bytes} {bs : List (ℕ × ℕ)} {oldPeaks : List Bytes}
    {witness : List (List Bytes)} (complete : ∀ b ∈ bs, Complete n b.1 b.2)
    (old : oldPeaks.length = bs.length) (wit : witness.length = bs.length) :
    climbOldPeaks H (peakRoots n n.size) newPeaks (bs.map fun b => root b.1 b.2) oldPeaks witness =
      true ↔ Bridges H n newPeaks bs oldPeaks witness := by
  induction bs generalizing oldPeaks witness with
  | nil =>
    obtain rfl : oldPeaks = [] := List.length_eq_zero_iff.mp old
    obtain rfl : witness = [] := List.length_eq_zero_iff.mp wit
    simp [climbOldPeaks, Bridges]
  | cons b bs ih =>
    cases oldPeaks with
    | nil => cases old
    | cons oldPeak oldPeaks =>
      cases witness with
      | nil => cases wit
      | cons w witness =>
        obtain ⟨h, k⟩ := b
        obtain ⟨left, right, d, split, found⟩ := findContainingPeak_root (complete (h, k) List.mem_cons_self)
        have top : (mountains n)[left.length]? = some (h + d, k / 2 ^ d) := by simp [split]
        have ih := ih (fun b hb => complete b (List.mem_cons_of_mem _ hb)) (by simpa using old)
          (by simpa using wit)
        rw [List.map_cons, climbOldPeaks, Bridges, ← ih, found]
        dsimp only
        rw [getD_peakRoots_split split, heightAt_root, locatePath_root]
        by_cases count : (ascent h k d).length = w.length
        · rw [if_neg (not_not.mpr count), Bool.and_eq_true, beq_iff_eq, climbSteps_eq_some count]
          rw [length_ascent] at count
          subst count
          constructor
          · rintro ⟨⟨len, reached⟩, rest⟩
            exact ⟨⟨left.length, rfl, top, len, reached⟩, rest⟩
          · rintro ⟨⟨i, found', -, len, reached⟩, rest⟩
            cases found'
            exact ⟨⟨len, reached⟩, rest⟩
        · rw [if_pos count]
          rw [length_ascent] at count
          refine ⟨fun ok => (by cases ok), ?_⟩
          rintro ⟨⟨i, found', top', -, -⟩, -⟩
          cases found'
          have eq := (Prod.mk.inj (Option.some.inj (top.symm.trans top'))).1
          exact (count (by omega)).elim

/-- What an accepted consistency proof has been checked for. -/
structure Consistent (H : HashFunction) (oldRoot newRoot : Bytes) (proof : MmrConsistencyProof) (m n : ℕ) :
    Prop where
  pos : 0 < m
  le : m ≤ n
  small : nodeCount n < maxMmrSize
  oldSize : proof.oldSize = nodeCount m
  newSize : proof.newSize = nodeCount n
  oldPeaks_length : proof.oldPeaks.length = (mountains m).length
  newPeaks_length : proof.newPeaks.length = (mountains n).length
  oldPeaks : ∀ p ∈ proof.oldPeaks, p.length = 32
  newPeaks : ∀ p ∈ proof.newPeaks, p.length = 32
  oldRoot_eq : bag H proof.oldPeaks = oldRoot
  newRoot_eq : bag H proof.newPeaks = newRoot
  bridges : Bridges H n proof.newPeaks (mountains m) proof.oldPeaks proof.witness

/-- The verifier accepts exactly the proofs between two complete sizes whose old peaks are bridged. -/
theorem verifyConsistency_eq_true {oldRoot newRoot : Bytes} {proof : MmrConsistencyProof} :
    verifyConsistency H oldRoot newRoot proof = true ↔
      ∃ m n, Consistent H oldRoot newRoot proof m n := by
  constructor
  · intro accept
    unfold verifyConsistency at accept
    -- The tests in the order in which the source makes them.
    split at accept
    · rename_i m n old new
      split at accept
      · cases accept
      rename_i first
      split at accept
      · cases accept
      rename_i roots
      dsimp only at accept
      split at accept
      · cases accept
      rename_i counts
      simp only [not_or, not_lt, not_le, not_not, not_exists, not_and, gt_iff_lt, ge_iff_le] at first roots counts
      obtain ⟨pos, le, small, wit, oldLen, newLen⟩ := first
      obtain ⟨oldSize, -⟩ := leafCount_eq_some.mp old
      obtain ⟨newSize, -⟩ := leafCount_eq_some.mp new
      rw [← oldSize, ← newSize] at le accept counts
      rw [← newSize] at small
      have mn : m ≤ n := forestSize_strictMono.le_iff_le.mp le
      rw [← nodeCount_eq, ← nodeCount_eq, peakPositions_nodeCount small,
        peakPositions_nodeCount (Nat.lt_of_le_of_lt le small), peakRoots_eq m] at accept counts
      have oldCount : proof.oldPeaks.length = (mountains m).length := by simpa using counts.1
      have newCount : proof.newPeaks.length = (mountains n).length := by
        simpa [peakRoots_eq] using counts.2
      refine ⟨m, n, Nat.pos_of_ne_zero pos, mn, small, oldSize.symm, newSize.symm, oldCount, newCount, oldLen,
        newLen, roots.1, roots.2, ?_⟩
      exact (climbOldPeaks_eq_true (fun b hb => (mountain_complete_of_mem hb).mono mn) oldCount
        (wit.trans oldCount)).mp accept
    · cases accept
  · rintro ⟨m, n, c⟩
    have limit : maxMmrSize ≤ maxSafeInteger := by decide
    have sizes : nodeCount m ≤ nodeCount n := forestSize_le c.le
    have small := c.small
    have old : leafCount proof.oldSize = some m := leafCount_eq_some.mpr ⟨c.oldSize.symm, by rw [c.oldSize]; omega⟩
    have new : leafCount proof.newSize = some n := leafCount_eq_some.mpr ⟨c.newSize.symm, by rw [c.newSize]; omega⟩
    obtain ⟨-, wit⟩ := c.bridges.length_eq
    unfold verifyConsistency
    rw [old, new]
    dsimp only
    -- Every test passes for such a proof.
    rw [if_neg, if_neg, if_neg]
    · rw [c.oldSize, c.newSize, peakPositions_nodeCount small,
        peakPositions_nodeCount (Nat.lt_of_le_of_lt sizes small), peakRoots_eq m]
      exact (climbOldPeaks_eq_true (fun b hb => (mountain_complete_of_mem hb).mono c.le) c.oldPeaks_length
        wit).mpr c.bridges
    · rw [c.oldSize, c.newSize, peakPositions_nodeCount small,
        peakPositions_nodeCount (Nat.lt_of_le_of_lt sizes small), peakRoots_eq m, peakRoots_eq n,
        c.oldPeaks_length, c.newPeaks_length]
      simp
    · rw [rootFromPeaks_eq, rootFromPeaks_eq, c.oldRoot_eq, c.newRoot_eq]
      simp
    · have pos := c.pos
      have oldPeaks := c.oldPeaks
      have newPeaks := c.newPeaks
      rw [c.oldSize, c.newSize, c.oldPeaks_length, wit]
      rintro (zero | large | long | count | ⟨x, hx, ne⟩ | ⟨x, hx, ne⟩)
      · omega
      · omega
      · omega
      · exact count rfl
      · exact ne (oldPeaks x hx)
      · exact ne (newPeaks x hx)

/-- The verifier accepts the proof a tree gives for an earlier size, if the tree is not too large. -/
theorem MmrTree.Holds.verifyConsistency {leaves : List Bytes} {t : MmrTree} (holds : t.Holds H leaves)
    (len : ∀ l ∈ leaves, l.length = 32) {m : ℕ} (pos : 0 < m) (le : m ≤ leaves.length) :
    Ts.verifyConsistency H (bag H (mountainHashes H leaves m))
      (bag H (mountainHashes H leaves leaves.length))
      ⟨nodeCount m, nodeCount leaves.length, mountainHashes H leaves m,
        (mountains m).map fun b => path (shape leaves.length).metas t.nodes (root b.1 b.2),
        mountainHashes H leaves leaves.length⟩ = true ↔ nodeCount leaves.length < maxMmrSize := by
  rw [verifyConsistency_eq_true]
  constructor
  · rintro ⟨m', n, c⟩
    have size : nodeCount leaves.length = nodeCount n := c.newSize
    rw [size]
    exact c.small
  · intro small
    exact ⟨m, leaves.length, pos, le, small, rfl, rfl, by simp [mountainHashes], by simp [mountainHashes],
      length_of_mem_mountainHashes len le, length_of_mem_mountainHashes len le_rfl, rfl, rfl,
      bridges_path holds.1 len fun b hb => (mountain_complete_of_mem hb).mono le⟩

end CLL.Ts
