import CLL.Core.Inclusion

/-!
# A root pins the leaves under it

Two stores with one root at one size have the same leaves up to that size. The peaks are pinned by the bag,
and the hash of a block pins the leaves of the block, one level after the other.
-/

namespace CLL.Core
open PostOrder

variable {H : HashFunction} {S : Set Bytes}

/-- The hash of a block pins the digests under it. -/
lemma treeHash_pins (inj : Set.InjOn H.digest S) {digestsA digestsB : List Digest}
    {nodesA nodesB : List Bytes} (mmrA : IsMmr H (leaves H digestsA) nodesA)
    (mmrB : IsMmr H (leaves H digestsB) nodesB) (inA : ∀ s ∈ storeHashed digestsA nodesA, s ∈ S)
    (inB : ∀ s ∈ storeHashed digestsB nodesB, s ∈ S) {h k : ℕ} (cA : Complete digestsA.length h k)
    (cB : Complete digestsB.length h k)
    (same : treeHash H (leaves H digestsA) h k = treeHash H (leaves H digestsB) h k) {i : ℕ}
    (ge : k * 2 ^ h ≤ i) (lt : i < (k + 1) * 2 ^ h) : digestsA[i]? = digestsB[i]? := by
  have lenA := length_of_mem_leaves H digestsA
  have lenB := length_of_mem_leaves H digestsB
  induction h generalizing k with
  | zero =>
    obtain rfl : i = k := by omega
    have hA : i < digestsA.length := by simpa [Complete] using cA
    have hB : i < digestsB.length := by simpa [Complete] using cB
    rw [treeHash_zero H (by rwa [length_leaves]), treeHash_zero H (by rwa [length_leaves])] at same
    simp only [leaves, List.getElem_map] at same
    have memA : 0 :: digestsA[i].1 ∈ S := inA _ (List.mem_append_left _
      (List.mem_map.mpr ⟨_, List.getElem_mem hA, rfl⟩))
    have memB : 0 :: digestsB[i].1 ∈ S := inB _ (List.mem_append_left _
      (List.mem_map.mpr ⟨_, List.getElem_mem hB, rfl⟩))
    have digest := (List.cons.inj (inj memA memB same)).2
    rw [List.getElem?_eq_getElem hA, List.getElem?_eq_getElem hB, Subtype.ext digest]
  | succ h ih =>
    have cA' : Complete (leaves H digestsA).length (h + 1) k := by rwa [length_leaves]
    have cB' : Complete (leaves H digestsB).length (h + 1) k := by rwa [length_leaves]
    rw [treeHash_succ, treeHash_succ] at same
    obtain ⟨left, right⟩ := nodeHash_pins inj _ _ _ _ _
      ⟨inA _ (List.mem_append_right _ (mem_interiorHashed mmrA cA')),
        length_treeHash H lenA cA'.left, length_treeHash H lenA cA'.right⟩
      ⟨inB _ (List.mem_append_right _ (mem_interiorHashed mmrB cB')),
        length_treeHash H lenB cB'.left, length_treeHash H lenB cB'.right⟩ same
    by_cases half : i < (2 * k + 1) * 2 ^ h
    · refine ih cA.left cB.left left ?_ half
      rw [Nat.mul_assoc, Nat.mul_left_comm, ← pow_succ']
      exact ge
    · refine ih cA.right cB.right right (by omega) ?_
      have double : (2 * k + 1 + 1) * 2 ^ h = (k + 1) * 2 ^ (h + 1) := by ring
      rw [double]
      exact lt

/-- Two stores with one root at one size have the same leaves up to that size. -/
theorem rootAt_pins (inj : Set.InjOn H.digest S) {digestsA digestsB : List Digest}
    {nodesA nodesB : List Bytes} (buildA : addDigests H [] digestsA = .ok nodesA)
    (buildB : addDigests H [] digestsB = .ok nodesB) {m : ℕ} (leA : m ≤ digestsA.length)
    (leB : m ≤ digestsB.length) {root : Bytes}
    (rootA : rootAt H nodesA (nodeCount m) = .ok root)
    (rootB : rootAt H nodesB (nodeCount m) = .ok root)
    (inA : ∀ s ∈ storeHashed digestsA nodesA, s ∈ S)
    (inB : ∀ s ∈ storeHashed digestsB nodesB, s ∈ S)
    (inRootA : ∀ s ∈ rootAtHashed H nodesA (nodeCount m), s ∈ S)
    (inRootB : ∀ s ∈ rootAtHashed H nodesB (nodeCount m), s ∈ S) :
    digestsA.take m = digestsB.take m := by
  have mmrA := IsMmr.of_addDigests buildA
  have mmrB := IsMmr.of_addDigests buildB
  have lenA := length_of_mem_leaves H digestsA
  have lenB := length_of_mem_leaves H digestsB
  have leA' : m ≤ (leaves H digestsA).length := by rwa [length_leaves]
  have leB' : m ≤ (leaves H digestsB).length := by rwa [length_leaves]
  have small : nodeCount m < maxMmrSize := by
    obtain ⟨hashes, hh, -⟩ := bind_eq_ok.mp rootA
    obtain ⟨pks, hp, -⟩ := bind_eq_ok.mp hh
    exact (peaks_eq_ok hp).1
  rw [mmrA.rootAt lenA leA' small] at rootA
  rw [mmrB.rootAt lenB leB' small] at rootB
  rw [mmrA.rootAtHashed leA' small] at inRootA
  rw [mmrB.rootAtHashed leB' small] at inRootB
  have bags := (Except.ok.inj rootA).trans (Except.ok.inj rootB).symm
  have peaks := bag_pins inj (by simp [mountainHashes]) (length_of_mem_mountainHashes lenA leA')
    (length_of_mem_mountainHashes lenB leB') inRootA inRootB bags
  apply List.ext_getElem?
  intro i
  by_cases lt : i < m
  · obtain ⟨before, after, h, split, -⟩ := exists_mountain lt
    have mem : (h, i / 2 ^ h) ∈ mountains m := by rw [split]; simp
    have complete : Complete m h (i / 2 ^ h) := mountain_complete_of_mem mem
    have hashes := List.map_inj_left.mp peaks _ mem
    have pos := Nat.two_pow_pos h
    rw [List.getElem?_take_of_lt lt, List.getElem?_take_of_lt lt]
    refine treeHash_pins inj mmrA mmrB inA inB (complete.mono leA) (complete.mono leB) hashes
      (Nat.div_mul_le_self i _) ?_
    exact Nat.lt_mul_of_div_lt (Nat.lt_succ_self _) pos
  · rw [List.getElem?_take_eq_none (Nat.not_lt.mp lt), List.getElem?_take_eq_none (Nat.not_lt.mp lt)]

end CLL.Core
