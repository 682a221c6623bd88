import CLL.Core.Path
import CLL.Lib.Cbor
import Mathlib.Data.Nat.BitIndices

/-!
# Stores and roots

A store built by `add_leaf` from body digests, its root at every size, and the byte strings hashed on the
way. `addLeaves_invariant` describes the store after every prefix of the appends in the terms of the
code's own position functions. `IsMmr.climb_pins` is what the verifiers of proofs rest on: a path that
reaches a true node started at the true node and used the true siblings.
-/

namespace CLL.Core
open PostOrder

variable (H : HashFunction)

/-- `add_leaf(nodes, leaf_hash(d))` for every body digest in turn. -/
def addDigests (nodes : List Bytes) : List Digest → Py (List Bytes)
  | [] => .ok nodes
  | d :: digests => do
    let leaf ← leafHash H d.1
    let (nodes, _, _) ← addLeaf H nodes leaf
    addDigests nodes digests

/-- `[nodes.node(p) for p in peaks(size)]`. -/
def peakHashes (nodes : List Bytes) (size : ℕ) : Py (List Bytes) := do
  let pks ← peaks size
  pks.mapM (node nodes)

/-- `root_from_peaks([nodes.node(p) for p in peaks(size)])`. -/
def rootAt (nodes : List Bytes) (size : ℕ) : Py Bytes := do
  let hashes ← peakHashes nodes size
  rootFromPeaks H hashes

/-- The strings `rootAt` hashes. -/
def rootAtHashed (nodes : List Bytes) (size : ℕ) : List Bytes :=
  match peakHashes nodes size with
  | .ok hashes => rootFromPeaksHashed H hashes
  | .error _ => []

/-- The strings hashed for the interior nodes of a store. -/
def interiorHashed (nodes : List Bytes) : List Bytes :=
  (List.range nodes.length).filterMap fun p => do
    let h := heightAt p
    guard (h ≠ 0)
    let left ← nodes[p - 2 ^ h]?
    let right ← nodes[p - 1]?
    some (nodePreimage (p, left, right))

/-- The strings hashed to build `nodes` from `digests`. -/
def storeHashed (digests : List Digest) (nodes : List Bytes) : List Bytes :=
  digests.map (fun d => 0 :: d.1) ++ interiorHashed nodes

/-- The leaf hashes of body digests. -/
def leaves (digests : List Digest) : List Bytes := digests.map fun d => H.digest (0 :: d.1)

/-- Every digest is a leaf. -/
@[simp] lemma length_leaves (digests : List Digest) : (leaves H digests).length = digests.length := by
  simp [leaves]

/-- The leaves are digests. -/
lemma length_of_mem_leaves (digests : List Digest) : ∀ l ∈ leaves H digests, l.length = 32 := by
  intro l hl
  obtain ⟨d, _, rfl⟩ := List.mem_map.mp hl
  exact H.length_digest _

/-- The first leaves are those of the first digests. -/
lemma leaves_take (digests : List Digest) (m : ℕ) :
    leaves H (digests.take m) = (leaves H digests).take m := by
  simp [leaves]

/-- Adding digests is adding their leaves. -/
lemma addDigests_eq (nodes : List Bytes) (digests : List Digest) :
    addDigests H nodes digests = addLeaves H nodes (leaves H digests) := by
  induction digests generalizing nodes with
  | nil => rfl
  | cons d digests ih =>
    simp only [addDigests, leafHash_eq H d.2, ok_bind, ih]
    rfl

/-- The hashes of the mountains of the first `m` leaves. -/
def mountainHashes (leaves : List Bytes) (m : ℕ) : List Bytes :=
  (mountains m).map fun b => treeHash H leaves b.1 b.2

variable {H}

/-- Whatever is built is a tree. -/
lemma IsMmr.of_addDigests {digests : List Digest} {nodes : List Bytes}
    (build : addDigests H [] digests = .ok nodes) : IsMmr H (leaves H digests) nodes := by
  rw [addDigests_eq] at build
  have mmr := (isMmr_nil H).addLeaves (by simp) (length_of_mem_leaves H digests) build
  simpa using mmr.1

/-- A mountain is complete. -/
lemma mountain_complete_of_mem {n : ℕ} {b : ℕ × ℕ} (hb : b ∈ mountains n) :
    Complete n b.1 b.2 := by
  obtain ⟨bit, e⟩ := mem_mountains hb
  rw [e]
  exact mountain_complete bit

/-- Reading complete blocks out of a store. -/
lemma IsMmr.nodes_ok {leaves nodes : List Bytes} (mmr : IsMmr H leaves nodes) {bs : List (ℕ × ℕ)}
    (complete : ∀ b ∈ bs, Complete leaves.length b.1 b.2) :
    (bs.map fun b => root b.1 b.2).mapM (node nodes) =
      .ok (bs.map fun b => treeHash H leaves b.1 b.2) := by
  induction bs with
  | nil => rfl
  | cons b bs ih =>
    have ih := ih fun c hc => complete c (by simp [hc])
    rw [List.map_cons, List.mapM_cons, mmr.node_ok (complete b (by simp)), ok_bind, ih]
    rfl

/-- Reading the peaks of any earlier size out of a store. -/
lemma IsMmr.peakHashes {leaves nodes : List Bytes} (mmr : IsMmr H leaves nodes) {m : ℕ}
    (le : m ≤ leaves.length) (small : nodeCount m < maxMmrSize) :
    peakHashes nodes (nodeCount m) = .ok (mountainHashes H leaves m) := by
  rw [Core.peakHashes, peaks_nodeCount small, ok_bind, peakRoots_eq, mountainHashes]
  exact mmr.nodes_ok fun b hb => (mountain_complete_of_mem hb).mono le

/-- The hashes of the mountains are digests. -/
lemma length_of_mem_mountainHashes {leaves : List Bytes} (len : ∀ l ∈ leaves, l.length = 32) {m : ℕ}
    (le : m ≤ leaves.length) : ∀ p ∈ mountainHashes H leaves m, p.length = 32 := by
  intro p hp
  obtain ⟨b, hb, rfl⟩ := List.mem_map.mp hp
  exact length_treeHash H len ((mountain_complete_of_mem hb).mono le)

/-- The root of the first `m` leaves, read out of any later store. -/
lemma IsMmr.rootAt {leaves nodes : List Bytes} (mmr : IsMmr H leaves nodes)
    (len : ∀ l ∈ leaves, l.length = 32) {m : ℕ} (le : m ≤ leaves.length)
    (small : nodeCount m < maxMmrSize) :
    rootAt H nodes (nodeCount m) = .ok (bag H (mountainHashes H leaves m)) := by
  rw [Core.rootAt, mmr.peakHashes le small, ok_bind,
    rootFromPeaks_eq H (length_of_mem_mountainHashes len le)]

/-- The strings hashed for a root are those for its peaks. -/
lemma IsMmr.rootAtHashed {leaves nodes : List Bytes} (mmr : IsMmr H leaves nodes) {m : ℕ}
    (le : m ≤ leaves.length) (small : nodeCount m < maxMmrSize) :
    rootAtHashed H nodes (nodeCount m) = rootFromPeaksHashed H (mountainHashes H leaves m) := by
  rw [Core.rootAtHashed, mmr.peakHashes le small]

/-- Later leaves do not change the mountains. -/
lemma mountainHashes_take {leaves : List Bytes} {m : ℕ} (le : m ≤ leaves.length) :
    mountainHashes H (leaves.take m) m = mountainHashes H leaves m := by
  apply List.map_congr_left
  intro b hb
  exact treeHash_take H le (mountain_complete_of_mem hb)

/-- The store when it held the first `m` leaves, and the root committed then. -/
lemma exists_older {digests : List Digest} {m : ℕ} (le : m ≤ digests.length)
    (small : nodeCount m < maxMmrSize) :
    ∃ older, addDigests H [] (digests.take m) = .ok older ∧
      rootAt H older (nodeCount m) = .ok (bag H (mountainHashes H (leaves H digests) m)) := by
  have len := length_of_mem_leaves H (digests.take m)
  have count : (leaves H (digests.take m)).length = m := by simp [le]
  obtain ⟨older, ok⟩ := (isMmr_nil H).addLeaves_ok (by simp) len
    (by rwa [List.nil_append, count])
  rw [← addDigests_eq] at ok
  refine ⟨older, ok, ?_⟩
  rw [(IsMmr.of_addDigests ok).rootAt len count.ge small, leaves_take,
    mountainHashes_take (by rwa [length_leaves])]

/-- A store begins with the nodes it had after the first `m` leaves. -/
lemma older_prefix {digests : List Digest} {nodes older : List Bytes} {m : ℕ}
    (build : addDigests H [] digests = .ok nodes)
    (then_ : addDigests H [] (digests.take m) = .ok older) : older <+: nodes := by
  have mmr := IsMmr.of_addDigests then_
  rw [addDigests_eq] at build then_
  have split : leaves H digests = leaves H (digests.take m) ++ leaves H (digests.drop m) := by
    rw [leaves, leaves, leaves, ← List.map_append, List.take_append_drop]
  rw [split, addLeaves_append, then_, ok_bind] at build
  exact (mmr.addLeaves (length_of_mem_leaves H _) (length_of_mem_leaves H _) build).2

/-- What the earlier store hashed, the store has hashed. -/
lemma storeHashed_older {digests : List Digest} {nodes older : List Bytes} {m : ℕ}
    (build : addDigests H [] digests = .ok nodes)
    (then_ : addDigests H [] (digests.take m) = .ok older) :
    ∀ s ∈ storeHashed (digests.take m) older, s ∈ storeHashed digests nodes := by
  obtain ⟨more, rfl⟩ := older_prefix build then_
  intro s mem
  rw [storeHashed, List.mem_append] at mem ⊢
  cases mem with
  | inl mem =>
    left
    obtain ⟨d, hd, rfl⟩ := List.mem_map.mp mem
    exact List.mem_map.mpr ⟨d, List.mem_of_mem_take hd, rfl⟩
  | inr mem =>
    right
    obtain ⟨p, hp, some_⟩ := List.mem_filterMap.mp mem
    have lt := List.mem_range.mp hp
    have left : (older ++ more)[p - 2 ^ heightAt p]? = older[p - 2 ^ heightAt p]? :=
      List.getElem?_append_left (Nat.lt_of_le_of_lt (Nat.sub_le _ _) lt)
    have right : (older ++ more)[p - 1]? = older[p - 1]? := List.getElem?_append_left (by omega)
    refine List.mem_filterMap.mpr ⟨p, List.mem_range.mpr (by simp; omega), ?_⟩
    dsimp only at some_ ⊢
    rwa [left, right]

/-- The digits of `n` are the bit indices of Mathlib. -/
lemma heights_eq_bitIndices (n : ℕ) : heights n n.size = n.bitIndices := by
  have sorted : (heights n n.size).SortedLT :=
    (List.sortedLT_range n.size).pairwise.filter _ |>.sortedLT
  apply sorted.eq_of_mem_iff Nat.bitIndices_sorted
  intro h
  rw [mem_heights, Nat.mem_bitIndices]
  constructor
  · exact fun m => m.2
  · intro bit
    refine ⟨?_, bit⟩
    by_contra le
    have small := (Nat.lt_size_self n).trans_le (Nat.pow_le_pow_right two_pos (not_lt.mp le))
    rw [Nat.testBit_lt_two_pow small] at bit
    cases bit

/-- The mountain of a digit ends the prefix of leaves that the digit counts off. -/
lemma root_mountain {n h : ℕ} (bit : n.testBit h = true) :
    nodeCount (n / 2 ^ h * 2 ^ h) - 1 = root h (mountain n h) := by
  rw [prefix_of_testBit bit, nodeCount_eq, mountain, ← root_add_one_of_even]
  rfl

/-- The peaks of `node_count(n)` end the prefixes of leaves that the digits of `n` count off. -/
lemma peaks_bitIndices {n : ℕ} (small : nodeCount n < maxMmrSize) :
    peaks (nodeCount n) =
      .ok (n.bitIndices.reverse.map fun h => nodeCount (n / 2 ^ h * 2 ^ h) - 1) := by
  rw [peaks_nodeCount small, peakRoots, heights_eq_bitIndices]
  congr 1
  apply List.map_congr_left
  intro h hh
  exact (root_mountain (Nat.mem_bitIndices.mp (List.mem_reverse.mp hh))).symm

/-- Every node of a store is a leaf or the hash of the two nodes below it. -/
lemma IsMmr.node_spec {leaves nodes : List Bytes} (mmr : IsMmr H leaves nodes)
    (len : ∀ l ∈ leaves, l.length = 32) (small : nodeCount leaves.length < maxMmrSize) {p : ℕ}
    (lt : p < nodeCount leaves.length) :
    (heightAt p = 0 → ∃ i, ∃ h : i < leaves.length, p = nodeCount i ∧ nodes[p]? = some leaves[i]) ∧
    (heightAt p ≠ 0 → ∃ left right parent, nodes[p - 2 ^ heightAt p]? = some left ∧
      nodes[p - 1]? = some right ∧ interiorHash H left right p = .ok parent ∧
      nodes[p]? = some parent) := by
  obtain ⟨h, k, c, rfl⟩ := exists_root lt
  rw [heightAt_root]
  cases h with
  | zero =>
    refine ⟨fun _ => ?_, fun ne => absurd rfl ne⟩
    have lt : k < leaves.length := by simpa [Complete] using c
    refine ⟨k, lt, root_zero k, ?_⟩
    rw [mmr.node_eq 0 k c, treeHash_zero H lt]
  | succ h =>
    refine ⟨fun e => absurd e (Nat.succ_ne_zero h), fun _ => ?_⟩
    have left := root_left h k
    have right := root_right h k
    have fits : root (h + 1) k + 1 < 2 ^ 64 := by
      simp only [maxMmrSize] at small
      omega
    have hl := length_treeHash H len c.left
    have hr := length_treeHash H len c.right
    refine ⟨_, _, _, ?_, ?_, interiorHash_eq H hl hr fits, ?_⟩
    · rw [show root (h + 1) k - 2 ^ (h + 1) = root h (2 * k) by omega]
      exact mmr.node_eq h (2 * k) c.left
    · rw [show root (h + 1) k - 1 = root h (2 * k + 1) by omega]
      exact mmr.node_eq h (2 * k + 1) c.right
    · exact mmr.node_eq (h + 1) k c

variable (H) in
/-- Appending leaves one by one to an empty store: what the store holds after `k` appends, and that the
next append succeeds and only adds nodes. -/
theorem addLeaves_invariant (leaves : List Digest) (small : nodeCount leaves.length < maxMmrSize)
    (k : ℕ) (le : k ≤ leaves.length) :
    ∃ nodes, addLeaves H [] ((leaves.take k).map (·.1)) = .ok nodes ∧
      nodes.length = nodeCount k ∧
      (∀ lt : k < leaves.length, ∃ newNodes,
        addLeaf H nodes leaves[k].1 = .ok (nodes ++ newNodes, nodeCount k, newNodes) ∧
        addLeaves H [] ((leaves.take (k + 1)).map (·.1)) = .ok (nodes ++ newNodes)) ∧
      (∀ p < nodeCount k,
        (heightAt p = 0 → ∃ i, ∃ lt : i < leaves.length, i < k ∧ p = nodeCount i ∧
          nodes[p]? = some leaves[i].1) ∧
        (heightAt p ≠ 0 → ∃ left right parent, nodes[p - 2 ^ heightAt p]? = some left ∧
          nodes[p - 1]? = some right ∧ interiorHash H left right p = .ok parent ∧
          nodes[p]? = some parent)) ∧
      peaks (nodeCount k) =
        .ok (k.bitIndices.reverse.map fun h => nodeCount (k / 2 ^ h * 2 ^ h) - 1) ∧
      (∀ h ∈ k.bitIndices, heightAt (nodeCount (k / 2 ^ h * 2 ^ h) - 1) = h) := by
  have len (j : ℕ) : ∀ l ∈ (leaves.take j).map (·.1), l.length = 32 := by
    intro l hl
    obtain ⟨d, _, rfl⟩ := List.mem_map.mp hl
    exact d.2
  have count : ((leaves.take k).map (·.1)).length = k := by simp [le]
  have smallk : nodeCount k < maxMmrSize := Nat.lt_of_le_of_lt (forestSize_le le) small
  obtain ⟨nodes, ok⟩ := (isMmr_nil H).addLeaves_ok (by simp) (len k) (by rwa [List.nil_append, count])
  obtain ⟨mmr, _⟩ := (isMmr_nil H).addLeaves (by simp) (len k) ok
  rw [List.nil_append] at mmr
  have size : nodes.length = nodeCount k := by rw [mmr.length_eq, count]
  refine ⟨nodes, ok, size, ?_, ?_, peaks_bitIndices smallk, ?_⟩
  · intro lt
    obtain ⟨newNodes, eq, _⟩ := mmr.addLeaf (len k) leaves[k].2 (by rwa [count])
    rw [size] at eq
    refine ⟨newNodes, eq, ?_⟩
    rw [List.take_succ_eq_append_getElem lt, List.map_append, addLeaves_append, ok, ok_bind]
    simp [addLeaves, eq]
  · intro p lt
    rw [← count] at lt
    obtain ⟨leaf, inner⟩ := mmr.node_spec (len k) (by rwa [count]) lt
    refine ⟨fun zero => ?_, inner⟩
    obtain ⟨i, hi, e, eq⟩ := leaf zero
    rw [count] at hi
    exact ⟨i, by omega, hi, e, by simpa using eq⟩
  · intro h hh
    rw [root_mountain (Nat.mem_bitIndices.mp hh), heightAt_root]

/-- Three body digests. -/
def sampleDigests : List Digest :=
  [⟨List.replicate 32 1, rfl⟩, ⟨List.replicate 32 2, rfl⟩, ⟨List.replicate 32 3, rfl⟩]

/-- Three leaves make four nodes. -/
theorem addLeaves_invariant_sample :
    ∃ nodes, addLeaves sha256Hash [] (sampleDigests.map (·.1)) = .ok nodes ∧ nodes.length = 4 := by
  obtain ⟨nodes, ok, count, -⟩ :=
    addLeaves_invariant sha256Hash sampleDigests (by decide) 3 (by decide)
  exact ⟨nodes, ok, count⟩

/-- The nodes of three sample leaves. -/
lemma addDigests_sample : addDigests sha256Hash [] sampleDigests = .ok
    [Cbor.bigEndian 32 0xdcffe786ded16d283c663846ad0c4ff26558fccde36ca9d30b2ea19eade9fc0e,
      Cbor.bigEndian 32 0xcba8c596120bdb69debbd923d92cba948bde7c7d06a465a1bb7d98d3116038fa,
      Cbor.bigEndian 32 0x510704c5a7336a3796cf4e418f3bac9004ac6a7fa735c3a952ab626435e32b1b,
      Cbor.bigEndian 32 0xacaa04663a8547a2f70c60cc18f9378796b13c4f9a08f70d6adae662365b30c6] := by
  rw [sha256Hash_eq]
  decide +kernel

/-- They are stored. -/
lemma sampleNodes_ok : (addDigests sha256Hash [] sampleDigests).toBool = true := by
  rw [addDigests_sample]
  rfl

/-- The store of the sample digests, under SHA-256. -/
def sampleNodes : List Bytes := (addDigests sha256Hash [] sampleDigests).val sampleNodes_ok

/-- The sample store is built of the sample digests. -/
lemma sampleNodes_eq : addDigests sha256Hash [] sampleDigests = .ok sampleNodes :=
  Py.eq_ok_val sampleNodes_ok

/-- The sample store as the kernel computes with it. -/
lemma sampleNodes_bytes : sampleNodes =
    [Cbor.bigEndian 32 0xdcffe786ded16d283c663846ad0c4ff26558fccde36ca9d30b2ea19eade9fc0e,
      Cbor.bigEndian 32 0xcba8c596120bdb69debbd923d92cba948bde7c7d06a465a1bb7d98d3116038fa,
      Cbor.bigEndian 32 0x510704c5a7336a3796cf4e418f3bac9004ac6a7fa735c3a952ab626435e32b1b,
      Cbor.bigEndian 32 0xacaa04663a8547a2f70c60cc18f9378796b13c4f9a08f70d6adae662365b30c6] :=
  Except.ok.inj (sampleNodes_eq.symm.trans addDigests_sample)

/-- Its root. -/
lemma rootAt_sample : rootAt sha256Hash sampleNodes (nodeCount sampleDigests.length) = .ok
    (Cbor.bigEndian 32 0x6964a87adf0cf9279e81f08d5d77481d3825c179df0397587aca0262d8df68d9) := by
  rw [sha256Hash_eq, sampleNodes_bytes]
  decide +kernel

/-- It has a root. -/
lemma sampleRoot_ok : (rootAt sha256Hash sampleNodes (nodeCount sampleDigests.length)).toBool = true := by
  rw [rootAt_sample]
  rfl

/-- The root of that store. -/
def sampleRoot : Bytes := (rootAt sha256Hash sampleNodes (nodeCount sampleDigests.length)).val sampleRoot_ok

/-- The sample root is that of the sample store. -/
lemma sampleRoot_eq :
    rootAt sha256Hash sampleNodes (nodeCount sampleDigests.length) = .ok sampleRoot :=
  Py.eq_ok_val sampleRoot_ok

/-- The sample root as the kernel computes with it. -/
lemma sampleRoot_bytes : sampleRoot =
    Cbor.bigEndian 32 0x6964a87adf0cf9279e81f08d5d77481d3825c179df0397587aca0262d8df68d9 :=
  Except.ok.inj (sampleRoot_eq.symm.trans rootAt_sample)

/-- A hash without a collision in a finite list of strings. -/
lemma injOn_lists {H : HashFunction} {xs ys zs : List Bytes}
    (inj : ∀ m ∈ xs ++ (ys ++ zs), ∀ n ∈ xs ++ (ys ++ zs), H.digest m = H.digest n → m = n) :
    Set.InjOn H.digest {m | m ∈ xs ∨ m ∈ ys ∨ m ∈ zs} := by
  intro m hm n hn eq
  exact inj m (by simpa using hm) n (by simpa using hn) eq

/-- The true siblings on the way from block `(h, k)` to the block `d` levels above it. -/
def siblingHashes (H : HashFunction) (leaves : List Bytes) (h k d : ℕ) : List Bytes :=
  siblingLabels (fun i => leaves.getD i []) (nodeHash H) h k d

/-- A path has one sibling for each level. -/
@[simp] lemma length_siblingHashes (leaves : List Bytes) (h k d : ℕ) :
    (siblingHashes H leaves h k d).length = d := length_siblingLabels _ _ _ _ _

/-- The string of a complete block is among those hashed for the store. -/
lemma mem_interiorHashed {leaves nodes : List Bytes} (mmr : IsMmr H leaves nodes) {h k : ℕ}
    (c : Complete leaves.length (h + 1) k) :
    nodePreimage (root (h + 1) k, treeHash H leaves h (2 * k), treeHash H leaves h (2 * k + 1)) ∈
      interiorHashed nodes := by
  have left := root_left h k
  have right := root_right h k
  have lt : root (h + 1) k < nodes.length := by
    rw [mmr.length_eq]
    exact c.root_lt
  refine List.mem_filterMap.mpr ⟨root (h + 1) k, List.mem_range.mpr lt, ?_⟩
  rw [heightAt_root]
  dsimp only
  rw [show root (h + 1) k - 2 ^ (h + 1) = root h (2 * k) by omega,
    show root (h + 1) k - 1 = root h (2 * k + 1) by omega, mmr.node_eq h (2 * k) c.left,
    mmr.node_eq h (2 * k + 1) c.right]
  rfl

/-- A join has 32 bytes. -/
lemma length_join {step : PathStep} (acc sib : Bytes) :
    (join (nodeHash H) step acc sib).length = 32 := by
  unfold join
  split
  · exact length_nodeHash H _ _ _
  · exact length_nodeHash H _ _ _

/-- A climb ends at a digest. -/
lemma length_climb {acc : Bytes} (hacc : acc.length = 32) (path : List PathStep)
    (sibs : List Bytes) : (climb (nodeHash H) acc path sibs).length = 32 := by
  induction path generalizing acc sibs with
  | nil => exact hacc
  | cons step path ih =>
    cases sibs with
    | nil => exact hacc
    | cons sib sibs => exact ih (length_join acc sib) sibs

/-- Everything hashed along a path of digests is a pair of digests. -/
lemma length_of_mem_climbArgs {acc : Bytes} {path : List PathStep} {sibs : List Bytes}
    (hacc : acc.length = 32) (hsibs : ∀ s ∈ sibs, s.length = 32) {t : ℕ × Bytes × Bytes}
    (ht : t ∈ climbArgs (nodeHash H) acc path sibs) : t.2.1.length = 32 ∧ t.2.2.length = 32 := by
  induction path generalizing acc sibs with
  | nil => cases ht
  | cons step path ih =>
    cases sibs with
    | nil => cases ht
    | cons sib sibs =>
      have hsib := hsibs sib (by simp)
      cases ht with
      | head =>
        split
        · exact ⟨hsib, hacc⟩
        · exact ⟨hacc, hsib⟩
      | tail _ ht => exact ih (length_join acc sib) (fun s hs => hsibs s (by simp [hs])) ht

/-- A path of digests that reaches a true node starts at the true node below it and uses the true
siblings. -/
theorem IsMmr.climb_pins {leaves nodes : List Bytes} (mmr : IsMmr H leaves nodes)
    (len : ∀ l ∈ leaves, l.length = 32) {S : Set Bytes} (inj : Set.InjOn H.digest S)
    (tree : ∀ m ∈ interiorHashed nodes, m ∈ S) {h k d : ℕ} {acc : Bytes} {sibs : List Bytes}
    (hacc : acc.length = 32) (hsibs : ∀ s ∈ sibs, s.length = 32) (count : sibs.length = d)
    (path : ∀ t ∈ climbArgs (nodeHash H) acc (ascent h k d) sibs, nodePreimage t ∈ S)
    (c : Complete leaves.length (h + d) (k / 2 ^ d))
    (eq : climb (nodeHash H) acc (ascent h k d) sibs = treeHash H leaves (h + d) (k / 2 ^ d)) :
    acc = treeHash H leaves h k ∧ sibs = siblingHashes H leaves h k d := by
  refine PostOrder.climb_pins _ (nodeHash_pins inj) count ?_ ?_ c eq
  · intro h k c
    exact ⟨tree _ (mem_interiorHashed mmr c), length_treeHash H len c.left,
      length_treeHash H len c.right⟩
  · intro t ht
    exact ⟨path t ht, length_of_mem_climbArgs hacc hsibs ht⟩

/-- The nodes at the sibling positions of a path are the true siblings. -/
lemma IsMmr.siblings_ok {leaves nodes : List Bytes} (mmr : IsMmr H leaves nodes) {h k d : ℕ}
    (c : Complete leaves.length (h + d) (k / 2 ^ d)) :
    (ascent h k d).mapM (fun step => node nodes step.siblingPos) =
      .ok (siblingHashes H leaves h k d) := by
  induction d with
  | zero => rfl
  | succ d ih =>
    rw [div_pow_succ] at c
    obtain ⟨here, beside⟩ := Complete.of_parent (h := h + d) c
    rw [ascent, List.mapM_append, ih here, ok_bind]
    simp [stepUp, mmr.node_ok beside, siblingHashes, siblingLabels, treeHash]

/-- The siblings are digests. -/
lemma length_of_mem_siblingHashes {leaves : List Bytes} (len : ∀ l ∈ leaves, l.length = 32)
    {h k d : ℕ} (c : Complete leaves.length (h + d) (k / 2 ^ d)) :
    ∀ b ∈ siblingHashes H leaves h k d, b.length = 32 := by
  induction d with
  | zero => simp [siblingHashes, siblingLabels]
  | succ d ih =>
    rw [div_pow_succ] at c
    obtain ⟨here, beside⟩ := Complete.of_parent (h := h + d) c
    intro b hb
    rw [siblingHashes, siblingLabels, List.mem_append, List.mem_singleton] at hb
    cases hb with
    | inl hb => exact ih here b hb
    | inr hb =>
      rw [hb]
      exact length_treeHash H len beside

end CLL.Core
