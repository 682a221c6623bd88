import CLL.Core.Range

/-!
# Ranges at the end of a log

A root commits the hashes of the peaks but not the size of the log. `suffix_cases` says what a range that
ends with the last leaf of its own size establishes against the root of another size: the sizes agree, or
the range is one leaf only, and it is the last leaf under the root. Only a leaf can stand at another
position, because an interior hash commits its own.
-/

namespace CLL.Core
open PostOrder

variable {H : HashFunction}

/-- `out` is the hash of block `(h, k)`, made by hashing a string of `S`. -/
def BlockHash (H : HashFunction) (S : Set Bytes) (h k : ℕ) (out : Bytes) : Prop :=
  match h with
  | 0 => ∃ d, d.length = 32 ∧ 0 :: d ∈ S ∧ out = H.digest (0 :: d)
  | h + 1 => ∃ left right, left.length = 32 ∧ right.length = 32 ∧
      nodePreimage (root (h + 1) k, left, right) ∈ S ∧ out = nodeHash H (root (h + 1) k) left right

/-- Eight bytes tell numbers below `2 ^ 64` apart. -/
lemma be64_injective {m n : ℕ} (hm : m < 2 ^ 64) (hn : n < 2 ^ 64) (e : be64 m = be64 n) : m = n := by
  have value {k : ℕ} (lt : k < 2 ^ 64) : (be64 k).foldl (fun acc b => acc * 256 + b.toNat) 0 = k := by
    simp only [be64, List.foldl_cons, List.foldl_nil, UInt8.toNat_ofNat', Nat.reducePow]
    omega
  rw [← value hm, e, value hn]

/-- The string of a node has 72 bytes. -/
lemma length_nodePreimage {p : ℕ} {left right : Bytes} (hl : left.length = 32)
    (hr : right.length = 32) : (nodePreimage (p, left, right)).length = 72 := by
  simp [nodePreimage, be64, hl, hr]

variable {S : Set Bytes} (inj : Set.InjOn H.digest S)
include inj

/-- Bagging is told apart from a block by the length of what is hashed. -/
lemma BlockHash.ne_bagged {h k : ℕ} {out s : Bytes} (block : BlockHash H S h k out) (hs : s ∈ S)
    (len : s.length = 64) : out ≠ H.digest s := by
  rintro rfl
  cases h with
  | zero =>
    obtain ⟨d, hd, mem, e⟩ := block
    have := congrArg List.length (inj hs mem e)
    rw [List.length_cons, hd, len] at this
    omega
  | succ h =>
    obtain ⟨left, right, hl, hr, mem, e⟩ := block
    have := congrArg List.length (inj hs mem e)
    rw [length_nodePreimage hl hr, len] at this
    omega

/-- One hash is that of two leaves or of one block. -/
lemma BlockHash.unique {h k h' k' : ℕ} {out : Bytes} (block : BlockHash H S h k out)
    (block' : BlockHash H S h' k' out) (small : root h k + 1 < 2 ^ 64)
    (small' : root h' k' + 1 < 2 ^ 64) : h = 0 ∧ h' = 0 ∨ h = h' ∧ k = k' := by
  cases h with
  | zero =>
    obtain ⟨d, hd, mem, rfl⟩ := block
    cases h' with
    | zero => exact .inl ⟨rfl, rfl⟩
    | succ h' =>
      obtain ⟨left, right, hl, hr, mem', e⟩ := block'
      have := congrArg List.length (inj mem mem' e)
      rw [length_nodePreimage hl hr, List.length_cons, hd] at this
      omega
  | succ h =>
    obtain ⟨left, right, hl, hr, mem, rfl⟩ := block
    cases h' with
    | zero =>
      obtain ⟨d, hd, mem', e⟩ := block'
      have := congrArg List.length (inj mem mem' e)
      rw [length_nodePreimage hl hr, List.length_cons, hd] at this
      omega
    | succ h' =>
      obtain ⟨left', right', hl', hr', mem', e⟩ := block'
      have same := inj mem mem' e
      simp only [nodePreimage, List.append_assoc] at same
      have position := be64_injective small small' (List.append_inj same rfl).1
      exact .inr (root_injective (Nat.succ_injective position))

/-- Two bags of peaks that end in blocks have equally many peaks. -/
lemma bagLoop_count {h k h' k' : ℕ} {right right' : Bytes} {hashes hashes' : List Bytes}
    (block : BlockHash H S h k right) (block' : BlockHash H S h' k' right')
    (len : ∀ p ∈ right :: hashes, p.length = 32) (len' : ∀ p ∈ right' :: hashes', p.length = 32)
    (sub : ∀ m ∈ bagLoopHashed H right hashes, m ∈ S)
    (sub' : ∀ m ∈ bagLoopHashed H right' hashes', m ∈ S)
    (eq : bagLoop H right hashes = bagLoop H right' hashes') : hashes.length = hashes'.length := by
  induction hashes using List.reverseRecOn generalizing hashes' with
  | nil =>
    cases hashes' using List.reverseRecOn with
    | nil => rfl
    | append_singleton hashes' left' =>
      rw [bagLoopHashed_append] at sub'
      rw [bagLoop_append] at eq
      have lens : (bagLoop H right' hashes' ++ left').length = 64 := by
        rw [List.length_append, length_bagLoop H _ (len' right' (by simp)), len' left' (by simp)]
      exact absurd eq (block.ne_bagged inj (sub' _ (by simp)) lens)
  | append_singleton hashes left ih =>
    rw [bagLoopHashed_append] at sub
    have lens : (bagLoop H right hashes ++ left).length = 64 := by
      rw [List.length_append, length_bagLoop H _ (len right (by simp)), len left (by simp)]
    cases hashes' using List.reverseRecOn with
    | nil =>
      rw [bagLoop_append] at eq
      exact absurd eq.symm (block'.ne_bagged inj (sub _ (by simp)) lens)
    | append_singleton hashes' left' =>
      rw [bagLoopHashed_append] at sub'
      rw [bagLoop_append, bagLoop_append] at eq
      have eq := inj (sub _ (by simp)) (sub' _ (by simp)) eq
      have hl : (bagLoop H right hashes).length = (bagLoop H right' hashes').length := by
        rw [length_bagLoop H _ (len right (by simp)), length_bagLoop H _ (len' right' (by simp))]
      obtain ⟨ebag, -⟩ := List.append_inj eq hl
      have count := ih (fun p hp => len p (by rcases List.mem_cons.mp hp with h | h <;> simp [h]))
        (fun p hp => len' p (by rcases List.mem_cons.mp hp with h | h <;> simp [h]))
        (fun m hm => sub m (by simp [hm])) (fun m hm => sub' m (by simp [hm])) ebag
      simp [count]

/-- Peaks that bag to one root and end in blocks are the same peaks. -/
lemma bag_pins_of_blocks {h k h' k' : ℕ} {ps qs : List Bytes} {p q : Bytes}
    (block : BlockHash H S h k p) (block' : BlockHash H S h' k' q)
    (len : ∀ r ∈ ps ++ [p], r.length = 32) (len' : ∀ r ∈ qs ++ [q], r.length = 32)
    (sub : ∀ m ∈ rootFromPeaksHashed H (ps ++ [p]), m ∈ S)
    (sub' : ∀ m ∈ rootFromPeaksHashed H (qs ++ [q]), m ∈ S)
    (eq : bag H (ps ++ [p]) = bag H (qs ++ [q])) : ps ++ [p] = qs ++ [q] := by
  have bags := eq
  have subs := sub
  have subs' := sub'
  simp only [bag, List.reverse_append, List.reverse_cons, List.reverse_nil, List.nil_append,
    List.cons_append] at bags
  simp only [rootFromPeaksHashed, List.reverse_append, List.reverse_cons, List.reverse_nil,
    List.nil_append, List.cons_append] at subs subs'
  have count := bagLoop_count inj block block'
    (fun r hr => len r (by simpa [or_comm] using hr)) (fun r hr => len' r (by simpa [or_comm] using hr))
    subs subs' bags
  exact bag_pins inj (by simpa using count) len len' sub sub' eq

omit inj

/-- The last blocks of adjacent ones are adjacent. -/
lemma adjacent_append {start : ℕ} {bs more : List (ℕ × ℕ)} (adjacent : Adjacent start (bs ++ more)) :
    ∃ s, Adjacent s more := by
  induction bs generalizing start with
  | nil => exact ⟨start, adjacent⟩
  | cons b bs ih => exact ih adjacent.2

/-- The last mountain ends with the last leaf. -/
lemma mountains_last {m : ℕ} (pos : 0 < m) :
    ∃ left h k, mountains m = left ++ [(h, k)] ∧ (k + 1) * 2 ^ h = m := by
  obtain ⟨left, right, h, e, -⟩ := exists_mountain (show m - 1 < m by omega)
  have complete : ((m - 1) / 2 ^ h + 1) * 2 ^ h ≤ m :=
    mountain_complete_of_mem (b := (h, (m - 1) / 2 ^ h)) (by simp [e])
  have hblock := Nat.div_add_mod (m - 1) (2 ^ h)
  have hmod := Nat.mod_lt (m - 1) (Nat.two_pow_pos h)
  rw [Nat.mul_comm] at hblock
  have ends : ((m - 1) / 2 ^ h + 1) * 2 ^ h = m := by
    rw [Nat.add_mul] at complete ⊢
    omega
  have adjacent := adjacent_mountains m
  rw [e] at adjacent
  obtain ⟨s, here, adjacent⟩ := adjacent_append adjacent
  cases right with
  | nil => exact ⟨left, h, _, e, ends⟩
  | cons b right =>
    have own : (b.2 + 1) * 2 ^ b.1 ≤ m := mountain_complete_of_mem (n := m) (by simp [e])
    have begins := adjacent.1
    dsimp only at here begins
    have positive := Nat.two_pow_pos b.1
    rw [Nat.add_mul] at own ends
    omega

/-- Before a last mountain of one leaf there is a mountain of more, or nothing. -/
lemma mountains_before_last {m : ℕ} {left : List (ℕ × ℕ)} {b : ℕ × ℕ}
    (e : mountains m = left ++ [b, (0, m - 1)]) : b.1 ≠ 0 ∧ (b.2 + 1) * 2 ^ b.1 = m - 1 := by
  have adjacent := adjacent_mountains m
  rw [e] at adjacent
  obtain ⟨s, here, next, -⟩ := adjacent_append adjacent
  dsimp only at next
  have ends : (b.2 + 1) * 2 ^ b.1 = m - 1 := by
    rw [Nat.add_mul, here]
    omega
  refine ⟨fun zero => ?_, ends⟩
  have h1 := (mem_mountains (n := m) (b := b) (by simp [e])).2
  have h2 := (mem_mountains (n := m) (b := (0, m - 1)) (by simp [e])).2
  dsimp only at h2
  rw [zero] at h1 ends
  rw [pow_zero, mul_one] at ends
  omega

/-- A block that the range reaches is rebuilt by hashing. -/
lemma reconstructRangeSubtree_block {lo hi : ℕ} {bodyDigests : ℕ → Option Bytes} {witness : List Bytes}
    (digests : ∀ w ∈ witness, w.length = 32) {h k cursor cursor' : ℕ} {out : Bytes}
    (reached : ¬Outside lo hi h k)
    (ok : reconstructRangeSubtree H lo hi bodyDigests witness h (root h k) (k * 2 ^ h) cursor =
      .ok (out, cursor'))
    (inLeaves : ∀ i d, lo ≤ i → i ≤ hi → bodyDigests i = some d → 0 :: d ∈ S)
    (inRun : ∀ s ∈ reconstructHashed H lo hi bodyDigests witness h (root h k) (k * 2 ^ h) cursor,
      s ∈ S) :
    BlockHash H S h k out ∧ (h = 0 → ∃ d, bodyDigests k = some d ∧ out = H.digest (0 :: d)) := by
  cases h with
  | zero =>
    rw [reconstructRangeSubtree] at ok
    simp only [outside_iff, if_neg reached] at ok
    split at ok
    · simp at ok
    · rename_i d hd
      obtain ⟨leaf, hleaf, ok⟩ := bind_eq_ok.mp ok
      obtain ⟨_, len, hleaf⟩ := bind_eq_ok.mp hleaf
      cases hleaf
      cases ok
      have hd : bodyDigests k = some d := by simpa using hd
      unfold Outside at reached
      exact ⟨⟨d, assertDigest_eq_ok.mp len, inLeaves k d (by omega) (by omega) hd, rfl⟩,
        fun _ => ⟨d, hd, rfl⟩⟩
  | succ h =>
    obtain ⟨rebuilt, hashed⟩ := reconstructRangeSubtree_eq_ok ok
    obtain ⟨-, -, lens⟩ := forall_rebuild (P := fun p : Bytes => p.length = 32)
      (fun _ _ _ => H.length_digest _) (length_nodeHash H)
      (fun w hw => digests w (List.mem_of_mem_drop hw)) rebuilt
    obtain ⟨left, ws, right, -, -, e, used⟩ := rebuild_succ_eq_some reached rebuilt
    have top : (root (h + 1) k, left, right) ∈ rebuildArgs lo hi (rangeLeaf H bodyDigests) (nodeHash H)
        (h + 1) k (witness.drop cursor) := by
      rw [used]
      exact List.mem_append_right _ (List.mem_singleton_self _)
    obtain ⟨hl, hr⟩ := lens _ top
    exact ⟨⟨left, right, hl, hr, inRun _ (hashed _ top), e⟩, fun zero => by cases zero⟩

/-- The peak of a mountain that the range reaches. -/
lemma reconstructPeaks_block {lo hi : ℕ} {bodyDigests : ℕ → Option Bytes} {witness : List Bytes}
    (digests : ∀ w ∈ witness, w.length = 32) {left right : List (ℕ × ℕ)} {b : ℕ × ℕ}
    {start cursor cursor' : ℕ} (adjacent : Adjacent start (left ++ b :: right))
    (reached : ¬Outside lo hi b.1 b.2) {out : List Bytes}
    (ok : reconstructPeaks H lo hi bodyDigests witness
      ((left ++ b :: right).map fun b => root b.1 b.2) start cursor = .ok (out, cursor'))
    (inLeaves : ∀ i d, lo ≤ i → i ≤ hi → bodyDigests i = some d → 0 :: d ∈ S)
    (inRun : ∀ s ∈ reconstructPeaksHashed H lo hi bodyDigests witness
      ((left ++ b :: right).map fun b => root b.1 b.2) start cursor, s ∈ S) :
    ∃ out₁ p out₂, out = out₁ ++ p :: out₂ ∧ out₁.length = left.length ∧ BlockHash H S b.1 b.2 p ∧
      (b.1 = 0 → ∃ d, bodyDigests b.2 = some d ∧ p = H.digest (0 :: d)) := by
  induction left generalizing start cursor out with
  | nil =>
    obtain ⟨here, -⟩ := adjacent
    simp only [List.nil_append, List.map_cons, reconstructPeaks, heightAt_root, ← here] at ok
    simp only [List.nil_append, List.map_cons, reconstructPeaksHashed, heightAt_root, ← here] at inRun
    obtain ⟨⟨peak, c⟩, hpeak, ok⟩ := bind_eq_ok.mp ok
    obtain ⟨⟨peaks, c'⟩, -, ok⟩ := bind_eq_ok.mp ok
    cases ok
    exact ⟨[], peak, peaks, rfl, rfl, reconstructRangeSubtree_block digests reached hpeak inLeaves
      fun s hs => inRun s (List.mem_append_left _ hs)⟩
  | cons a left ih =>
    obtain ⟨here, adjacent⟩ := adjacent
    simp only [List.cons_append, List.map_cons, reconstructPeaks, heightAt_root] at ok
    simp only [List.cons_append, List.map_cons, reconstructPeaksHashed, heightAt_root] at inRun
    obtain ⟨⟨peak, c⟩, hpeak, ok⟩ := bind_eq_ok.mp ok
    obtain ⟨⟨peaks, c'⟩, hpeaks, ok⟩ := bind_eq_ok.mp ok
    cases ok
    rw [hpeak] at inRun
    obtain ⟨out₁, p, out₂, e, count, block, leaf⟩ := ih adjacent hpeaks
      fun s hs => inRun s (List.mem_append_right _ hs)
    exact ⟨peak :: out₁, p, out₂, by rw [e]; rfl, by simp [count], block, leaf⟩

/-- A block of a store is made by hashing. -/
lemma blockHash_treeHash {digests : List Digest} {nodes : List Bytes}
    (mmr : IsMmr H (leaves H digests) nodes) (inStore : ∀ s ∈ storeHashed digests nodes, s ∈ S)
    {h k : ℕ} (c : Complete digests.length h k) :
    BlockHash H S h k (treeHash H (leaves H digests) h k) := by
  have c' : Complete (leaves H digests).length h k := by rwa [length_leaves]
  cases h with
  | zero =>
    have lt : k < digests.length := by simpa [Complete] using c
    refine ⟨digests[k].1, digests[k].2, inStore _ (List.mem_append_left _ ?_), ?_⟩
    · exact List.mem_map.mpr ⟨_, List.getElem_mem lt, rfl⟩
    · rw [treeHash_zero H (by rwa [length_leaves])]
      simp [leaves]
  | succ h =>
    have len := length_of_mem_leaves H digests
    exact ⟨_, _, length_treeHash H len c'.left, length_treeHash H len c'.right,
      inStore _ (List.mem_append_right _ (mem_interiorHashed mmr c')), treeHash_succ H _ h k⟩

/-- The hash of a leaf of a store. -/
lemma treeHash_leaf {digests : List Digest} {k : ℕ} (lt : k < digests.length) :
    treeHash H (leaves H digests) 0 k = H.digest (0 :: digests[k].1) := by
  rw [treeHash_zero H (by rwa [length_leaves])]
  simp [leaves]

/-- A range that ends with the last leaf of `m` leaves, accepted against the root of `n` leaves. -/
theorem suffix_cases {digests : List Digest} {nodes : List Bytes}
    (mmr : IsMmr H (leaves H digests) nodes) (inj : Set.InjOn H.digest S)
    (inStore : ∀ s ∈ storeHashed digests nodes, s ∈ S) {n : ℕ} (pos : 0 < n)
    (le : n ≤ digests.length) (small : nodeCount n < maxMmrSize)
    (inRoot : ∀ s ∈ rootFromPeaksHashed H (mountainHashes H (leaves H digests) n), s ∈ S)
    {x : RangeInput} {m : ℕ} (order : x.lo ≤ x.hi) (ends : x.hi + 1 = m)
    (small' : nodeCount m < maxMmrSize) (hpks : x.pks = peakRoots m m.size)
    (hroot : x.root = bag H (mountainHashes H (leaves H digests) n))
    (hlen : x.bodyDigests.length = x.hi + 1 - x.lo) (hwitness : ∀ w ∈ x.witness, w.length = 32)
    (inLeaves : ∀ d ∈ x.bodyDigests, 0 :: d ∈ S)
    (inRun : ∀ s ∈ reconstructPeaksHashed H x.lo x.hi x.digestByIndex x.witness x.pks 0 0, s ∈ S)
    {peaks : List Bytes} {cursor : ℕ}
    (ok : reconstructPeaks H x.lo x.hi x.digestByIndex x.witness x.pks 0 0 = .ok (peaks, cursor))
    (inPeaks : ∀ s ∈ rootFromPeaksHashed H peaks, s ∈ S)
    (computed : rootFromPeaks H peaks = .ok x.root) :
    m = n ∨ x.lo = x.hi ∧ x.bodyDigests = [digests[n - 1].1] := by
  have len := length_of_mem_leaves H digests
  have le' : n ≤ (leaves H digests).length := by rwa [length_leaves]
  have fits {n h k : ℕ} (c : Complete n h k) (small : nodeCount n < maxMmrSize) :
      root h k + 1 < 2 ^ 64 := by
    have := c.root_lt
    rw [nodeCount_eq] at small
    simp only [maxMmrSize] at small
    omega
  have inDigests : ∀ i d, x.lo ≤ i → i ≤ x.hi → x.digestByIndex i = some d → 0 :: d ∈ S := by
    intro i d ge _ hd
    rw [RangeInput.digestByIndex, if_pos ge] at hd
    exact inLeaves d (List.mem_of_getElem? hd)
  -- The last mountain of either size is made by hashing.
  obtain ⟨left, h, k, em, endm⟩ := mountains_last (show 0 < m by omega)
  obtain ⟨left', h', k', en, endn⟩ := mountains_last pos
  have cm : Complete m h k := endm.le
  have cn : Complete n h' k' := endn.le
  have adjacent := adjacent_mountains m
  obtain ⟨count, lens⟩ := length_reconstructPeaks hwitness adjacent (by rw [← peakRoots_eq, ← hpks]; exact ok)
  rw [rootFromPeaks_eq H lens, hroot] at computed
  have computed := Except.ok.inj computed
  rw [hpks, peakRoots_eq, em] at ok inRun
  rw [em] at adjacent count
  -- The range ends in that mountain, so it is rebuilt, not taken from the witness.
  have reached : ¬Outside x.lo x.hi h k := by
    have := Nat.two_pow_pos h
    rw [Nat.add_mul] at endm
    unfold Outside
    rw [Nat.add_mul]
    omega
  obtain ⟨out₁, p, out₂, rfl, count₁, block, leaf⟩ :=
    reconstructPeaks_block hwitness adjacent reached ok inDigests inRun
  obtain rfl : out₂ = [] := by
    rw [List.length_append, List.length_append, List.length_cons, List.length_singleton, count₁] at count
    exact List.eq_nil_of_length_eq_zero (by omega)
  have block' := blockHash_treeHash mmr inStore (cn.mono le)
  have true_ : mountainHashes H (leaves H digests) n =
      left'.map (fun b => treeHash H (leaves H digests) b.1 b.2) ++
        [treeHash H (leaves H digests) h' k'] := by
    rw [mountainHashes, en, List.map_append]
    rfl
  have lens' := length_of_mem_mountainHashes (H := H) len le'
  rw [true_] at inRoot computed lens'
  -- Both bags have one root, so their last peaks are one block hash.
  have same := bag_pins_of_blocks inj block block' lens lens' inPeaks inRoot computed
  obtain ⟨init, last⟩ := List.append_inj' same rfl
  have last : p = treeHash H (leaves H digests) h' k' := (List.cons.inj last).1
  rw [last] at block
  rcases block.unique inj block' (fits cm small') (fits cn small) with ⟨rfl, rfl⟩ | ⟨rfl, rfl⟩
  -- A leaf commits no position: only its body is known to be the last one.
  · rw [pow_zero, mul_one] at endm endn
    obtain rfl : k = x.hi := by omega
    have lt : k' < digests.length := by omega
    obtain ⟨d, hd, e⟩ := leaf rfl
    rw [last, treeHash_leaf lt] at e
    have mem : 0 :: digests[k'].1 ∈ S :=
      inStore _ (List.mem_append_left _ (List.mem_map.mpr ⟨_, List.getElem_mem lt, rfl⟩))
    have body : digests[k'].1 = d :=
      (List.cons.inj (inj mem (inDigests _ d order le_rfl hd) e)).2
    by_cases single : x.lo = x.hi
    · right
      refine ⟨single, ?_⟩
      have index : n - 1 = k' := by omega
      rw [RangeInput.digestByIndex, if_pos order, single, Nat.sub_self] at hd
      rw [single, Nat.add_sub_cancel_left] at hlen
      simp only [index, body]
      cases b : x.bodyDigests with
      | nil => rw [b] at hd; cases hd
      | cons a bs =>
        rw [b] at hd hlen
        cases bs with
        | nil => rw [Option.some.inj hd]
        | cons _ _ => cases hlen
    · -- The mountain before the last leaf is reached as well, and it commits its position.
      left
      have lengths : left'.length = left.length := by
        rw [← count₁, init, List.length_map]
      cases left using List.reverseRecOn with
      | nil =>
        have zero : x.hi * 2 ^ 0 = 0 := adjacent.1
        omega
      | append_singleton left b =>
        cases left' using List.reverseRecOn with
        | nil =>
          rw [List.length_append, List.length_singleton] at lengths
          cases lengths
        | append_singleton left' b' =>
          rw [List.append_assoc, List.singleton_append] at em en adjacent ok inRun
          have splitm : mountains m = left ++ [b, (0, m - 1)] := by
            rw [em, ← endm, Nat.add_sub_cancel]
          have splitn : mountains n = left' ++ [b', (0, n - 1)] := by
            rw [en, ← endn, Nat.add_sub_cancel]
          obtain ⟨tall, endb⟩ := mountains_before_last splitm
          obtain ⟨tall', endb'⟩ := mountains_before_last splitn
          have reached : ¬Outside x.lo x.hi b.1 b.2 := by
            have := Nat.two_pow_pos b.1
            have endb := endb
            rw [Nat.add_mul] at endb
            unfold Outside
            rw [Nat.add_mul]
            omega
          obtain ⟨out₃, q, out₄, e₂, count₂, blockb, -⟩ :=
            reconstructPeaks_block hwitness adjacent reached ok inDigests inRun
          have cb : Complete m b.1 b.2 := by
            unfold Complete
            omega
          have cb' : Complete n b'.1 b'.2 := by
            unfold Complete
            omega
          have blockb' := blockHash_treeHash mmr inStore (cb'.mono le)
          simp only [List.length_append, List.length_singleton] at lengths
          rw [init, List.map_append, List.append_assoc] at e₂
          obtain ⟨-, next⟩ := List.append_inj e₂ (by rw [List.length_map, count₂]; omega)
          have next : treeHash H (leaves H digests) b'.1 b'.2 = q := (List.cons.inj next).1
          rw [← next] at blockb
          rcases blockb.unique inj blockb' (fits cb small') (fits cb' small) with ⟨zero, -⟩ | ⟨h1, h2⟩
          · exact absurd zero tall
          · rw [h1, h2, endb'] at endb
            omega
  · exact .inl (endm.symm.trans endn)

end CLL.Core
