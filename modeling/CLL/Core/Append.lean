import CLL.Core.Hash

/-!
# Appending leaves

`add_leaf` of `checkpoint/core.py` over the node list of a `MemoryNodeStore`, and the invariant it
keeps. `IsMmr H leaves nodes` says that `nodes` is the numbered forest over `leaves`: as many nodes as
complete blocks, and at the position of each of them its hash `treeHash`. The loop of `add_leaf` follows
the trailing ones of the leaf count: after `j` rounds it has hashed the blocks that the new leaf completes
up to height `j`.
-/

namespace CLL.Core
open PostOrder

variable (H : HashFunction)

/-- `MemoryNodeStore.node`. -/
def node (nodes : List Bytes) (pos : ℕ) : Py Bytes :=
  match nodes[pos]? with
  | some h => .ok h
  | none => raise .indexError s!"no node at position {pos}"

/-- `while peak_idx >= 0 and height_at(existing_peaks[peak_idx]) == height: …` of `add_leaf`. The
existing peaks not yet looked at are listed from right to left. -/
def addLeafLoop (nodes : List Bytes) (leafPos : ℕ) :
    List ℕ → ℕ → Bytes → List Bytes → Py (List Bytes)
  | [], _, _, newNodes => .ok newNodes
  | leftPos :: existingPeaks, height, curHash, newNodes =>
    if heightAt leftPos = height then do
      let leftHash ← node nodes leftPos
      let parentPos := leafPos + newNodes.length
      let parentHash ← interiorHash H leftHash curHash parentPos
      addLeafLoop nodes leafPos existingPeaks (height + 1) parentHash (newNodes ++ [parentHash])
    else .ok newNodes

/-- `[] if size == 0 else peaks(size)`. -/
def existingPeaks (size : ℕ) : Py (List ℕ) := if size = 0 then .ok [] else peaks size

/-- `add_leaf`: the extended store, the position of the leaf and the nodes appended. -/
def addLeaf (nodes : List Bytes) (leaf : Bytes) : Py (List Bytes × ℕ × List Bytes) := do
  assertDigest leaf "leaf_hash"
  let size := nodes.length
  let pks ← existingPeaks size
  let newNodes ← addLeafLoop H nodes size pks.reverse 0 leaf [leaf]
  .ok (nodes ++ newNodes, size, newNodes)

/-- `add_leaf` for every leaf in turn. -/
def addLeaves (nodes : List Bytes) : List Bytes → Py (List Bytes)
  | [] => .ok nodes
  | leaf :: leaves => do
    let (nodes, _, _) ← addLeaf H nodes leaf
    addLeaves nodes leaves

/-- Leaves are added one list after the other. -/
lemma addLeaves_append (nodes leaves more : List Bytes) :
    addLeaves H nodes (leaves ++ more) =
      addLeaves H nodes leaves >>= fun nodes => addLeaves H nodes more := by
  induction leaves generalizing nodes with
  | nil => rfl
  | cons leaf leaves ih =>
    simp only [List.cons_append, addLeaves, ih, bind_assoc]

/-- The hash of block `(h, k)` over the leaf hashes `leaves`. -/
def treeHash (leaves : List Bytes) (h k : ℕ) : Bytes :=
  label (fun i => leaves.getD i []) (nodeHash H) h k

/-- `nodes` is the MMR of the leaf hashes `leaves`. -/
structure IsMmr (leaves nodes : List Bytes) : Prop where
  length_eq : nodes.length = nodeCount leaves.length
  node_eq : ∀ h k, Complete leaves.length h k → nodes[root h k]? = some (treeHash H leaves h k)

/-- The empty store is the tree of no leaves. -/
lemma isMmr_nil : IsMmr H [] [] where
  length_eq := by simp [nodeCount_eq]
  node_eq h k c := by
    have := Nat.two_pow_pos h
    simp only [Complete, List.length_nil] at c
    nlinarith

/-- The tree over one leaf is the leaf. -/
lemma treeHash_zero {leaves : List Bytes} {k : ℕ} (lt : k < leaves.length) :
    treeHash H leaves 0 k = leaves[k] := by
  simp [treeHash, lt]

/-- The tree over a block hashes its halves under its position. -/
lemma treeHash_succ (leaves : List Bytes) (h k : ℕ) :
    treeHash H leaves (h + 1) k = nodeHash H (root (h + 1) k)
      (treeHash H leaves h (2 * k)) (treeHash H leaves h (2 * k + 1)) := rfl

/-- The tree over a complete block is a digest. -/
lemma length_treeHash {leaves : List Bytes} (len : ∀ l ∈ leaves, l.length = 32) {h k : ℕ}
    (c : Complete leaves.length h k) : (treeHash H leaves h k).length = 32 := by
  cases h with
  | zero =>
    have lt : k < leaves.length := by simpa [Complete] using c
    rw [treeHash_zero H lt]
    exact len _ (List.getElem_mem lt)
  | succ h => exact length_nodeHash H _ _ _

/-- Later leaves do not change the hash of a complete block. -/
lemma treeHash_append {leaves : List Bytes} (later : List Bytes) {h k : ℕ}
    (c : Complete leaves.length h k) :
    treeHash H (leaves ++ later) h k = treeHash H leaves h k := by
  apply label_congr _ _ c
  intro i lt
  simp [List.getElem?_append_left lt]

/-- Later leaves do not change the tree over a complete block. -/
lemma treeHash_take {leaves : List Bytes} {m h k : ℕ} (le : m ≤ leaves.length)
    (c : Complete m h k) : treeHash H (leaves.take m) h k = treeHash H leaves h k := by
  conv_rhs => rw [← List.take_append_drop m leaves]
  rw [treeHash_append]
  rwa [List.length_take, Nat.min_eq_left le]

variable {H}

/-- A complete block is read as its hash. -/
lemma IsMmr.node_ok {leaves nodes : List Bytes} (mmr : IsMmr H leaves nodes) {h k : ℕ}
    (c : Complete leaves.length h k) : node nodes (root h k) = .ok (treeHash H leaves h k) := by
  simp [node, mmr.node_eq h k c]

/-- Below `MAX_MMR_SIZE` every position fits in eight bytes. -/
lemma root_lt_of_carries {n j : ℕ} (c : Carries n j) (small : nodeCount n < maxMmrSize) :
    root j (n / 2 ^ j) + 1 < 2 ^ 64 := by
  have lt := c.complete.root_lt
  have le : ones n ≤ n := ones_le n
  have le' : ones (n + 1) ≤ n + 1 := ones_le (n + 1)
  simp only [nodeCount_eq, maxMmrSize, forestSize] at *
  omega

/-- The existing peaks from right to left that the loop has not looked at after `j` rounds. -/
def leftPeaks (n j steps : ℕ) : List ℕ :=
  ((List.range' j steps).filter fun h => n.testBit h).map fun h => root h (mountain n h)

/-- The peaks from the right are the mountains from the left. -/
lemma reverse_peakRoots (n H : ℕ) : (peakRoots n H).reverse = leftPeaks n 0 H := by
  simp [peakRoots, leftPeaks, heights, List.range_eq_range', List.map_reverse]

/-- From round `j` on the loop hashes every block that leaf `n` still completes. -/
lemma addLeafLoop_eq {leaves nodes : List Bytes} (mmr : IsMmr H leaves nodes) {leaf : Bytes}
    (len : ∀ l ∈ leaves, l.length = 32) (hleaf : leaf.length = 32)
    (small : nodeCount leaves.length < maxMmrSize) {j steps : ℕ}
    (bits : leaves.length < 2 ^ (j + steps)) (c : Carries leaves.length j) :
    ∃ t, leaves.length.testBit t = false ∧ Carries leaves.length t ∧
      addLeafLoop H nodes nodes.length (leftPeaks leaves.length j steps) j
          (treeHash H (leaves ++ [leaf]) j (leaves.length / 2 ^ j))
          ((List.range (j + 1)).map fun i =>
            treeHash H (leaves ++ [leaf]) i (leaves.length / 2 ^ i)) =
        .ok ((List.range (t + 1)).map fun i =>
          treeHash H (leaves ++ [leaf]) i (leaves.length / 2 ^ i)) := by
  have len' : ∀ l ∈ leaves ++ [leaf], l.length = 32 := by
    intro l hl
    cases List.mem_append.mp hl with
    | inl hl => exact len l hl
    | inr hl => rwa [List.mem_singleton.mp hl]
  have total : (leaves ++ [leaf]).length = leaves.length + 1 := by simp
  -- On the number of peaks left to look at; the carry keeps the new hashes in order.
  induction steps generalizing j with
  | zero => exact ⟨j, Nat.testBit_lt_two_pow bits, c, rfl⟩
  | succ steps ih =>
    cases b : leaves.length.testBit j with
    | true =>
      have c' := c.succ b
      have bits' : leaves.length < 2 ^ (j + 1 + steps) := by
        rwa [show j + 1 + steps = j + (steps + 1) by omega]
      obtain ⟨t, bt, ct, eq⟩ := ih bits' c'
      refine ⟨t, bt, ct, ?_⟩
      have hl := length_treeHash H len (mountain_complete b)
      have hr := length_treeHash H len' (by rw [total]; exact c.complete)
      have pos : nodes.length + (j + 1) = root (j + 1) (leaves.length / 2 ^ (j + 1)) := by
        rw [c'.root_eq, mmr.length_eq, nodeCount_eq]
      have lt := root_lt_of_carries c' small
      have parent : treeHash H (leaves ++ [leaf]) (j + 1) (leaves.length / 2 ^ (j + 1)) =
          nodeHash H (root (j + 1) (leaves.length / 2 ^ (j + 1)))
            (treeHash H leaves j (mountain leaves.length j))
            (treeHash H (leaves ++ [leaf]) j (leaves.length / 2 ^ j)) := by
        rw [treeHash_succ, div_eq_of_testBit b, mountain]
        rw [← mountain, treeHash_append H _ (mountain_complete b)]
      have peaks : leftPeaks leaves.length j (steps + 1) =
          root j (mountain leaves.length j) :: leftPeaks leaves.length (j + 1) steps := by
        simp [leftPeaks, List.range'_succ, b]
      rw [peaks, addLeafLoop, if_pos (heightAt_root _ _), mmr.node_ok (mountain_complete b), ok_bind]
      simp only [List.length_map, List.length_range]
      rw [pos, interiorHash_eq H hl hr lt, ok_bind, ← parent, ← eq, List.range_succ (n := j + 1)]
      simp
    | false =>
      refine ⟨j, b, c, ?_⟩
      have peaks : leftPeaks leaves.length j (steps + 1) =
          leftPeaks leaves.length (j + 1) steps := by
        simp [leftPeaks, List.range'_succ, b]
      rw [peaks]
      cases e : leftPeaks leaves.length (j + 1) steps with
      | nil => rfl
      | cons p ps =>
        have mem : p ∈ leftPeaks leaves.length (j + 1) steps := by simp [e]
        simp only [leftPeaks, List.mem_map, List.mem_filter, List.mem_range'_1] at mem
        obtain ⟨h, ⟨⟨le, _⟩, _⟩, rfl⟩ := mem
        rw [addLeafLoop, if_neg (by rw [heightAt_root]; omega)]

/-- Appending one leaf extends the MMR by the nodes of the blocks it completes. -/
theorem IsMmr.addLeaf {leaves nodes : List Bytes} (mmr : IsMmr H leaves nodes) {leaf : Bytes}
    (len : ∀ l ∈ leaves, l.length = 32) (hleaf : leaf.length = 32)
    (small : nodeCount leaves.length < maxMmrSize) :
    ∃ newNodes, addLeaf H nodes leaf = .ok (nodes ++ newNodes, nodes.length, newNodes) ∧
      IsMmr H (leaves ++ [leaf]) (nodes ++ newNodes) := by
  have total : (leaves ++ [leaf]).length = leaves.length + 1 := by simp
  have existing : existingPeaks nodes.length =
      .ok (peakRoots leaves.length leaves.length.size) := by
    unfold existingPeaks
    split
    · rename_i empty
      rw [mmr.length_eq, nodeCount_eq] at empty
      have : leaves.length = 0 := forestSize_injective (by simpa using empty)
      simp [this, peakRoots]
    · rw [mmr.length_eq, peaks_nodeCount small]
  obtain ⟨t, bt, ct, eq⟩ := addLeafLoop_eq mmr len hleaf small (j := 0)
    (by rw [Nat.zero_add]; exact Nat.lt_size_self _) (carries_zero _)
  have first : treeHash H (leaves ++ [leaf]) 0 (leaves.length / 2 ^ 0) = leaf := by
    rw [pow_zero, Nat.div_one, treeHash_zero H (by simp)]
    simp
  have firsts : ((List.range (0 + 1)).map fun i =>
      treeHash H (leaves ++ [leaf]) i (leaves.length / 2 ^ i)) = [leaf] := by
    simpa using first
  rw [firsts, first] at eq
  refine ⟨(List.range (t + 1)).map fun i =>
    treeHash H (leaves ++ [leaf]) i (leaves.length / 2 ^ i), ?_, ?_⟩
  · have ok : assertDigest leaf "leaf_hash" = .ok () := assertDigest_eq_ok.mpr hleaf
    unfold Core.addLeaf
    simp only [ok, ok_bind, existing, reverse_peakRoots]
    rw [eq, ok_bind]
  · constructor
    · rw [total, nodeCount_eq, ct.forestSize_succ bt]
      simp [mmr.length_eq, nodeCount_eq]
      omega
    · intro h k c
      rw [total] at c
      -- A complete block is an old one, or one of those that the new leaf completes.
      cases c.of_succ with
      | inl old =>
        have lt : root h k < nodes.length := by rw [mmr.length_eq]; exact old.root_lt
        rw [List.getElem?_append_left lt, mmr.node_eq h k old, treeHash_append H _ old]
      | inr new =>
        obtain ⟨rfl, ch⟩ := new
        have le := ch.le_of_not_testBit bt
        have pos := ch.root_eq
        rw [List.getElem?_append_right (by rw [mmr.length_eq, nodeCount_eq]; omega), pos,
          mmr.length_eq, nodeCount_eq, Nat.add_sub_cancel_left, List.getElem?_map,
          List.getElem?_range (by omega)]
        rfl

/-- Building the store keeps the invariant. -/
lemma IsMmr.addLeaves {leaves nodes : List Bytes} (mmr : IsMmr H leaves nodes)
    (len : ∀ l ∈ leaves, l.length = 32) {more nodes' : List Bytes}
    (hmore : ∀ l ∈ more, l.length = 32) (ok : addLeaves H nodes more = .ok nodes') :
    IsMmr H (leaves ++ more) nodes' ∧ nodes <+: nodes' := by
  induction more generalizing leaves nodes with
  | nil =>
    cases ok
    simpa using mmr
  | cons leaf more ih =>
    obtain ⟨r, hr, ok⟩ := bind_eq_ok.mp ok
    have hleaf : leaf.length = 32 := hmore leaf (by simp)
    have small : nodeCount leaves.length < maxMmrSize := by
      obtain ⟨_, _, hr⟩ := bind_eq_ok.mp hr
      obtain ⟨ps, hp, _⟩ := bind_eq_ok.mp hr
      unfold existingPeaks at hp
      split at hp
      · rename_i empty
        rw [← mmr.length_eq, empty]
        decide
      · rw [← mmr.length_eq]
        exact (peaks_eq_ok hp).1
    obtain ⟨newNodes, eq, mmr'⟩ := mmr.addLeaf len hleaf small
    rw [eq] at hr
    cases hr
    have len' : ∀ l ∈ leaves ++ [leaf], l.length = 32 := by
      intro l hl
      cases List.mem_append.mp hl with
      | inl hl => exact len l hl
      | inr hl => rwa [List.mem_singleton.mp hl]
    obtain ⟨mmr'', pre⟩ := ih mmr' len' (fun l hl => hmore l (by simp [hl])) ok
    refine ⟨by simpa using mmr'', ?_⟩
    exact (List.prefix_append nodes newNodes).trans pre

/-- Leaves that stay below `MAX_MMR_SIZE` are all accepted. -/
lemma IsMmr.addLeaves_ok {leaves nodes : List Bytes} (mmr : IsMmr H leaves nodes)
    (len : ∀ l ∈ leaves, l.length = 32) {more : List Bytes} (hmore : ∀ l ∈ more, l.length = 32)
    (small : nodeCount (leaves ++ more).length < maxMmrSize) :
    ∃ nodes', Core.addLeaves H nodes more = .ok nodes' := by
  induction more generalizing leaves nodes with
  | nil => exact ⟨nodes, rfl⟩
  | cons leaf more ih =>
    have hleaf : leaf.length = 32 := hmore leaf (by simp)
    have le : nodeCount leaves.length ≤ nodeCount (leaves ++ leaf :: more).length :=
      forestSize_le (by simp)
    obtain ⟨newNodes, eq, mmr'⟩ := mmr.addLeaf len hleaf (by omega)
    have len' : ∀ l ∈ leaves ++ [leaf], l.length = 32 := by
      intro l hl
      cases List.mem_append.mp hl with
      | inl hl => exact len l hl
      | inr hl => rwa [List.mem_singleton.mp hl]
    obtain ⟨nodes', ok⟩ := ih mmr' len' (fun l hl => hmore l (by simp [hl])) (by simpa using small)
    refine ⟨nodes', ?_⟩
    rw [Core.addLeaves, eq]
    exact ok

end CLL.Core
