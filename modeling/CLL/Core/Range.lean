import CLL.Core.Inclusion
import CLL.Lib.Range

/-!
# Range proofs

`range_proof` and `verify_range` of `checkpoint/core.py`. The prover walks every mountain and keeps the
hashes of the maximal blocks outside the range (`outs` of `CLL.PostOrder`). The verifier rebuilds every
peak from the leaves of the range and these hashes (`rebuild`).

`verifyRange_exact`: against the root of a store nothing is accepted but the leaves of the range, in
order, with the hashes the prover generates. Hashes are compared after `bytes.fromhex`, which also reads
capital digits and skips whitespace, so the strings of the witness are not pinned themselves.
-/

namespace CLL.Core
open PostOrder

variable (H : HashFunction)

/-- `RangeProof`. -/
structure RangeProof where
  v : ℤ
  kind : Str
  size : ℤ
  fromIndex : ℤ
  toIndex : ℤ
  witness : List Str

/-- A `RangeProof` as the object a verifier receives, around an arbitrary witness. -/
def rangeProofObj (size fromIndex toIndex : ℤ) (witness : Obj) : Obj :=
  .inst .rangeProof [
    ("v", .int 1),
    ("kind", .str (.lit "range")),
    ("size", .int size),
    ("from_index", .int fromIndex),
    ("to_index", .int toIndex),
    ("witness", witness)]

/-- `_range_witnesses`, which appends to `out`. -/
def rangeWitnesses (reader : List Bytes) (lo hi height pos leafStart : ℕ) (out : List Bytes) :
    Py (List Bytes) :=
  let leafEnd := leafStart + 2 ^ height - 1
  if leafEnd < lo ∨ leafStart > hi then do
    let w ← node reader pos
    .ok (out ++ [w])
  else if leafStart ≥ lo ∧ leafEnd ≤ hi then .ok out
  else
    match height with
    | 0 => raise .valueError "negative shift count"
    | height + 1 => do
      let half := 2 ^ height
      let out ← rangeWitnesses reader lo hi height (pos - 2 ^ (height + 1)) leafStart out
      rangeWitnesses reader lo hi height (pos - 1) (leafStart + half) out

/-- `for p in pks: …` of `range_proof`. -/
def rangeWitnessesLoop (reader : List Bytes) (lo hi : ℕ) :
    List ℕ → ℕ → List Bytes → Py (List Bytes)
  | [], _, out => .ok out
  | p :: pks, leafStart, out => do
    let h := heightAt p
    let out ← rangeWitnesses reader lo hi h p leafStart out
    rangeWitnessesLoop reader lo hi pks (leafStart + 2 ^ h) out

/-- `range_proof`. -/
def rangeProof (reader : List Bytes) (fromIndex toIndex size : ℤ) : Py RangeProof := do
  require (fromIndex ≤ toIndex) .invalidArgument s!"invalid range [{fromIndex}, {toIndex}]"
  require (0 ≤ fromIndex) .invalidArgument s!"from_index must be >= 0: {fromIndex}"
  let lc ← leafCountObj (.int size)
  require (toIndex < lc) .invalidArgument
    s!"to_index {toIndex} out of range for size {size} ({lc} leaves)"
  let readerSize := reader.length
  require (size ≤ readerSize) .integrity
    s!"reader size {readerSize} is smaller than requested size {size}"
  let pks ← peaksObj (.int size)
  let out ← rangeWitnessesLoop reader fromIndex.toNat toIndex.toNat pks 0 []
  .ok ⟨1, .lit "range", size, fromIndex, toIndex, out.map toHex⟩

/-- `_reconstruct_range_subtree`: the hash of the subtree and the next value of the cursor. -/
def reconstructRangeSubtree (lo hi : ℕ) (bodyDigests : ℕ → Option Bytes) (witness : List Bytes)
    (height pos leafStart cursor : ℕ) : Py (Bytes × ℕ) :=
  let leafEnd := leafStart + 2 ^ height - 1
  if leafEnd < lo ∨ leafStart > hi then
    match witness[cursor]? with
    | none => raise .integrity "range proof witness exhausted"
    | some w => .ok (w, cursor + 1)
  else
    match height with
    | 0 =>
      match bodyDigests leafStart with
      | none => raise .keyError s!"{leafStart}"
      | some d => do
        let h ← leafHash H d
        .ok (h, cursor)
    | height + 1 => do
      let half := 2 ^ height
      let (left, cursor) ← reconstructRangeSubtree lo hi bodyDigests witness height
        (pos - 2 ^ (height + 1)) leafStart cursor
      let (right, cursor) ← reconstructRangeSubtree lo hi bodyDigests witness height (pos - 1)
        (leafStart + half) cursor
      let h ← interiorHash H left right pos
      .ok (h, cursor)

/-- `for p in pks: …` of `verify_range`. -/
def reconstructPeaks (lo hi : ℕ) (bodyDigests : ℕ → Option Bytes) (witness : List Bytes) :
    List ℕ → ℕ → ℕ → Py (List Bytes × ℕ)
  | [], _, cursor => .ok ([], cursor)
  | p :: pks, leafStart, cursor => do
    let h := heightAt p
    let (peak, cursor) ← reconstructRangeSubtree H lo hi bodyDigests witness h p leafStart cursor
    let (peaks, cursor) ← reconstructPeaks lo hi bodyDigests witness pks (leafStart + 2 ^ h) cursor
    .ok (peak :: peaks, cursor)

/-- What `verify_range` hashes once its checks have passed. -/
structure RangeInput where
  root : Bytes
  lo : ℕ
  hi : ℕ
  bodyDigests : List Bytes
  witness : List Bytes
  pks : List ℕ

/-- `{from_index + i: d for i, d in enumerate(body_digests)}`. -/
def RangeInput.digestByIndex (x : RangeInput) (i : ℕ) : Option Bytes :=
  if x.lo ≤ i then x.bodyDigests[i - x.lo]? else none

/-- The checks of `verify_range`. -/
def checkRange (root size fromIndex toIndex bodyDigests proof : Obj) : Py RangeInput := do
  let root ← assertDigestObj root "root"
  ensure (proof.eq .none = false)
  ensure ((← proof.attr "v").eq (.int 1))
  ensure ((← proof.attr "kind").eq (.str (.lit "range")))
  ensure ((← proof.attr "size").eq size)
  ensure ((← proof.attr "from_index").eq fromIndex)
  ensure ((← proof.attr "to_index").eq toIndex)
  let s ← need size.int?
  ensure (0 ≤ s ∧ s < maxMmrSize)
  let lo ← need fromIndex.int?
  let hi ← need toIndex.int?
  ensure (0 ≤ lo ∧ lo ≤ hi)
  let witness ← need (← proof.attr "witness").seq?
  let bodyDigests ← need bodyDigests.seq?
  ensure (bodyDigests.length = hi - lo + 1)
  let lc ← leafCountObj size
  ensure (hi < lc)
  let bodyDigests ← bodyDigests.mapM fun d => assertDigestObj d "body_digest"
  let witness ← parseDigests witness
  let pks ← peaksObj size
  .ok ⟨root, lo.toNat, hi.toNat, bodyDigests, witness, pks⟩

/-- `verify_range`. -/
def verifyRange (root size fromIndex toIndex bodyDigests proof : Obj) : Bool :=
  verdict do
    let x ← checkRange root size fromIndex toIndex bodyDigests proof
    let (reconstructedPeaks, cursor) ←
      reconstructPeaks H x.lo x.hi x.digestByIndex x.witness x.pks 0 0
    ensure (cursor = x.witness.length)
    let computedRoot ← rootFromPeaks H reconstructedPeaks
    .ok (computedRoot == x.root)

/-- The strings `reconstructRangeSubtree` hashes for interior nodes. -/
def reconstructHashed (lo hi : ℕ) (bodyDigests : ℕ → Option Bytes) (witness : List Bytes)
    (height pos leafStart cursor : ℕ) : List Bytes :=
  let leafEnd := leafStart + 2 ^ height - 1
  if leafEnd < lo ∨ leafStart > hi then []
  else
    match height with
    | 0 => []
    | height + 1 =>
      let half := 2 ^ height
      match reconstructRangeSubtree H lo hi bodyDigests witness height (pos - 2 ^ (height + 1))
        leafStart cursor with
      | .error _ => []
      | .ok (left, cursor') =>
        reconstructHashed lo hi bodyDigests witness height (pos - 2 ^ (height + 1)) leafStart
            cursor ++
          reconstructHashed lo hi bodyDigests witness height (pos - 1) (leafStart + half)
            cursor' ++
          match reconstructRangeSubtree H lo hi bodyDigests witness height (pos - 1)
            (leafStart + half) cursor' with
          | .error _ => []
          | .ok (right, _) => [nodePreimage (pos, left, right)]

/-- The strings `reconstructPeaks` hashes for interior nodes. -/
def reconstructPeaksHashed (lo hi : ℕ) (bodyDigests : ℕ → Option Bytes) (witness : List Bytes) :
    List ℕ → ℕ → ℕ → List Bytes
  | [], _, _ => []
  | p :: pks, leafStart, cursor =>
    let h := heightAt p
    reconstructHashed H lo hi bodyDigests witness h p leafStart cursor ++
      match reconstructRangeSubtree H lo hi bodyDigests witness h p leafStart cursor with
      | .error _ => []
      | .ok (_, cursor) =>
        reconstructPeaksHashed lo hi bodyDigests witness pks (leafStart + 2 ^ h) cursor

/-- The strings `verifyRange` hashes. -/
def verifyRangeHashed (root size fromIndex toIndex bodyDigests proof : Obj) : List Bytes :=
  match checkRange root size fromIndex toIndex bodyDigests proof with
  | .error _ => []
  | .ok x =>
    x.bodyDigests.map (fun d => 0 :: d) ++
      reconstructPeaksHashed H x.lo x.hi x.digestByIndex x.witness x.pks 0 0 ++
      match reconstructPeaks H x.lo x.hi x.digestByIndex x.witness x.pks 0 0 with
      | .error _ => []
      | .ok (peaks, _) => rootFromPeaksHashed H peaks

/-- A block is outside the range. -/
lemma outside_iff (lo hi h k : ℕ) :
    (k * 2 ^ h + 2 ^ h - 1 < lo ∨ k * 2 ^ h > hi) ↔ Outside lo hi h k := by
  have pos := Nat.two_pow_pos h
  rw [Outside, Nat.add_mul]
  omega

/-- The left child of a root. -/
lemma root_succ_sub_pow (h k : ℕ) : root (h + 1) k - 2 ^ (h + 1) = root h (2 * k) := by
  rw [← root_left]
  exact Nat.add_sub_cancel _ _

/-- The right child of a root. -/
lemma root_succ_sub_one (h k : ℕ) : root (h + 1) k - 1 = root h (2 * k + 1) := by
  rw [← root_right]
  exact Nat.add_sub_cancel _ _

/-- The left half begins where the block does. -/
lemma start_left (h k : ℕ) : k * 2 ^ (h + 1) = 2 * k * 2 ^ h := by ring

/-- The right half begins after the left one. -/
lemma start_right (h k : ℕ) : k * 2 ^ (h + 1) + 2 ^ h = (2 * k + 1) * 2 ^ h := by ring

variable {H}

/-- The prover keeps the hashes of the blocks outside the range. -/
lemma rangeWitnesses_eq {leaves nodes : List Bytes} (mmr : IsMmr H leaves nodes) (lo hi : ℕ)
    {h k : ℕ} (c : Complete leaves.length h k) (out : List Bytes) :
    rangeWitnesses nodes lo hi h (root h k) (k * 2 ^ h) out =
      .ok (out ++ (outs lo hi h k).map fun b => treeHash H leaves b.1 b.2) := by
  induction h generalizing k out with
  | zero =>
    rw [rangeWitnesses, outs]
    simp only [outside_iff]
    split
    · rw [mmr.node_ok c, ok_bind]
      rfl
    · rename_i inside
      unfold Outside at inside
      rw [if_pos (by omega)]
      simp
  | succ h ih =>
    rw [rangeWitnesses]
    simp only [outside_iff]
    split
    · rename_i outside
      rw [outs, if_pos outside, mmr.node_ok c, ok_bind]
      rfl
    · rename_i outside
      split
      · rename_i inside
        have pos := Nat.two_pow_pos (h + 1)
        rw [outs_eq_nil inside.1 (by rw [Nat.add_mul]; omega)]
        simp
      · rw [outs, if_neg outside, root_succ_sub_pow, root_succ_sub_one, start_right, start_left,
          ih c.left, ok_bind, ih c.right, List.map_append, List.append_assoc]

/-- The leaf hash the verifier has for index `i`. -/
def rangeLeaf (H : HashFunction) (bodyDigests : ℕ → Option Bytes) (i : ℕ) : Bytes :=
  H.digest (0 :: (bodyDigests i).getD [])

/-- What the verifier rebuilds, and what it hashes for it. -/
lemma reconstructRangeSubtree_eq_ok {lo hi : ℕ} {bodyDigests : ℕ → Option Bytes}
    {witness : List Bytes} {h k cursor cursor' : ℕ} {out : Bytes}
    (ok : reconstructRangeSubtree H lo hi bodyDigests witness h (root h k) (k * 2 ^ h) cursor =
      .ok (out, cursor')) :
    rebuild lo hi (rangeLeaf H bodyDigests) (nodeHash H) h k
        (witness.drop cursor) = some (out, witness.drop cursor') ∧
      ∀ t ∈ rebuildArgs lo hi (rangeLeaf H bodyDigests) (nodeHash H) h k
          (witness.drop cursor),
        nodePreimage t ∈
          reconstructHashed H lo hi bodyDigests witness h (root h k) (k * 2 ^ h) cursor := by
  induction h generalizing k cursor cursor' out with
  | zero =>
    rw [reconstructRangeSubtree] at ok
    simp only [outside_iff] at ok
    rw [rebuild]
    split at ok
    · rename_i outside
      rw [if_pos outside]
      split at ok
      · simp at ok
      · rename_i w hw
        cases ok
        rw [takeOne_drop, hw]
        exact ⟨rfl, by simp [rebuildArgs]⟩
    · rename_i outside
      rw [if_neg outside]
      split at ok
      · simp at ok
      · rename_i d hd
        obtain ⟨leaf, hleaf, ok⟩ := bind_eq_ok.mp ok
        obtain ⟨_, _, hleaf⟩ := bind_eq_ok.mp hleaf
        cases hleaf
        cases ok
        have hd : bodyDigests k = some d := by simpa using hd
        exact ⟨by simp [rangeLeaf, hd], by simp [rebuildArgs]⟩
  | succ h ih =>
    rw [reconstructRangeSubtree] at ok
    rw [reconstructHashed]
    simp only [outside_iff] at ok ⊢
    split at ok
    · rename_i outside
      rw [rebuild, rebuildArgs, if_pos outside, if_pos outside]
      split at ok
      · simp at ok
      · rename_i w hw
        cases ok
        rw [takeOne_drop, hw]
        exact ⟨rfl, by simp⟩
    · rename_i outside
      rw [root_succ_sub_pow, root_succ_sub_one, start_right, start_left] at ok ⊢
      -- The left half is rebuilt first, and the right one goes on at its cursor.
      obtain ⟨⟨left, c1⟩, hl, ok⟩ := bind_eq_ok.mp ok
      obtain ⟨⟨right, c2⟩, hr, ok⟩ := bind_eq_ok.mp ok
      obtain ⟨hash, hh, ok⟩ := bind_eq_ok.mp ok
      cases ok
      have eh := interiorHash_eq_ok H hh
      obtain ⟨bl, al⟩ := ih hl
      obtain ⟨br, ar⟩ := ih hr
      refine ⟨?_, ?_⟩
      · rw [rebuild, if_neg outside, bl]
        simp only [Option.bind_eq_bind, Option.bind_some]
        rw [br, eh]
        rfl
      · rw [if_neg outside, hl]
        dsimp only
        rw [hr, rebuildArgs, if_neg outside, bl]
        dsimp only
        rw [br]
        intro t ht
        simp only [List.mem_append, List.mem_singleton] at ht ⊢
        rcases ht with (ht | ht) | rfl
        · exact .inl (.inl (al t ht))
        · exact .inl (.inr (ar t ht))
        · exact .inr rfl

/-- The peaks a verifier rebuilds are digests, one for every mountain. -/
lemma length_reconstructPeaks {lo hi : ℕ} {bodyDigests : ℕ → Option Bytes} {witness : List Bytes}
    (digests : ∀ w ∈ witness, w.length = 32) {bs : List (ℕ × ℕ)} {start cursor cursor' : ℕ}
    (adjacent : Adjacent start bs) {out : List Bytes}
    (ok : reconstructPeaks H lo hi bodyDigests witness (bs.map fun b => root b.1 b.2) start cursor =
      .ok (out, cursor')) :
    out.length = bs.length ∧ ∀ p ∈ out, p.length = 32 := by
  induction bs generalizing start cursor out with
  | nil =>
    cases ok
    simp
  | cons b bs ih =>
    obtain ⟨here, adjacent⟩ := adjacent
    simp only [List.map_cons, reconstructPeaks, heightAt_root, ← here] at ok
    obtain ⟨⟨peak, c⟩, hpeak, ok⟩ := bind_eq_ok.mp ok
    obtain ⟨⟨peaks, c'⟩, hpeaks, ok⟩ := bind_eq_ok.mp ok
    cases ok
    obtain ⟨rebuilt, -⟩ := reconstructRangeSubtree_eq_ok hpeak
    obtain ⟨len, -, -⟩ := forall_rebuild (P := fun p : Bytes => p.length = 32)
      (fun _ _ _ => H.length_digest _) (length_nodeHash H)
      (fun w hw => digests w (List.mem_of_mem_drop hw)) rebuilt
    rw [← here] at adjacent
    obtain ⟨count, lens⟩ := ih adjacent hpeaks
    refine ⟨by simp [count], fun p hp => ?_⟩
    cases hp with
    | head => exact len
    | tail _ hp => exact lens p hp

/-- Rebuilding the true peaks forces the witness consumed and the digests of the range. -/
lemma reconstructPeaks_pins {leaves nodes : List Bytes} (mmr : IsMmr H leaves nodes)
    (len : ∀ l ∈ leaves, l.length = 32) {S : Set Bytes} (inj : Set.InjOn H.digest S)
    (tree : ∀ m ∈ interiorHashed nodes, m ∈ S) {lo hi : ℕ} {bodyDigests : ℕ → Option Bytes}
    {witness : List Bytes} (digests : ∀ w ∈ witness, w.length = 32) {bs : List (ℕ × ℕ)}
    {start cursor cursor' : ℕ} (adjacent : Adjacent start bs)
    (complete : ∀ b ∈ bs, Complete leaves.length b.1 b.2)
    (run : ∀ m ∈ reconstructPeaksHashed H lo hi bodyDigests witness
      (bs.map fun b => root b.1 b.2) start cursor, m ∈ S)
    (ok : reconstructPeaks H lo hi bodyDigests witness (bs.map fun b => root b.1 b.2) start cursor =
      .ok (bs.map fun b => treeHash H leaves b.1 b.2, cursor')) :
    witness.drop cursor = (bs.flatMap fun b => outs lo hi b.1 b.2).map
        (fun b => treeHash H leaves b.1 b.2) ++ witness.drop cursor' ∧
      ∀ b ∈ bs, ∀ i, lo ≤ i → i ≤ hi → b.2 * 2 ^ b.1 ≤ i → i < (b.2 + 1) * 2 ^ b.1 →
        rangeLeaf H bodyDigests i = leaves.getD i [] := by
  induction bs generalizing start cursor with
  | nil =>
    cases ok
    simp
  | cons b bs ih =>
    obtain ⟨here, adjacent⟩ := adjacent
    rw [← here] at adjacent
    simp only [List.map_cons, reconstructPeaks, heightAt_root, ← here] at ok
    simp only [List.map_cons, reconstructPeaksHashed, heightAt_root, ← here] at run
    obtain ⟨⟨peak, c⟩, hpeak, ok⟩ := bind_eq_ok.mp ok
    obtain ⟨⟨peaks, c'⟩, hpeaks, ok⟩ := bind_eq_ok.mp ok
    rw [hpeak] at run
    obtain ⟨e, rfl⟩ := Prod.mk.inj (Except.ok.inj ok)
    obtain ⟨epeak, rfl⟩ := List.cons.inj e
    obtain ⟨rebuilt, hashed⟩ := reconstructRangeSubtree_eq_ok hpeak
    obtain ⟨-, -, lens⟩ := forall_rebuild (P := fun p : Bytes => p.length = 32)
      (fun _ _ _ => H.length_digest _) (length_nodeHash H)
      (fun w hw => digests w (List.mem_of_mem_drop hw)) rebuilt
    have used : ∀ t ∈ rebuildArgs lo hi (rangeLeaf H bodyDigests) (nodeHash H) b.1 b.2
        (witness.drop cursor), nodePreimage t ∈ S ∧ t.2.1.length = 32 ∧ t.2.2.length = 32 :=
      fun t ht => ⟨run _ (List.mem_append_left _ (hashed t ht)), lens t ht⟩
    -- The first mountain pins its witnesses and leaves, the induction the others.
    obtain ⟨consumed, agree⟩ := rebuild_pins (nodeHash_pins inj)
      (fun h k c => ⟨tree _ (mem_interiorHashed mmr c), length_treeHash H len c.left,
        length_treeHash H len c.right⟩)
      (complete b List.mem_cons_self) used rebuilt epeak
    obtain ⟨rest, agrees⟩ := ih adjacent (fun b hb => complete b (List.mem_cons_of_mem _ hb))
      (fun m hm => run m (List.mem_append_right _ hm)) hpeaks
    refine ⟨?_, fun b' hb' => ?_⟩
    · rw [consumed, rest, List.flatMap_cons, List.map_append, List.append_assoc]
      rfl
    · cases hb' with
      | head => exact agree
      | tail _ hb' => exact agrees b' hb'

/-- The hashes the prover collects over all mountains. -/
lemma rangeWitnessesLoop_eq {leaves nodes : List Bytes} (mmr : IsMmr H leaves nodes) (lo hi : ℕ)
    {bs : List (ℕ × ℕ)} {start : ℕ} (adjacent : Adjacent start bs)
    (complete : ∀ b ∈ bs, Complete leaves.length b.1 b.2) (out : List Bytes) :
    rangeWitnessesLoop nodes lo hi (bs.map fun b => root b.1 b.2) start out =
      .ok (out ++ (bs.flatMap fun b => outs lo hi b.1 b.2).map fun b =>
        treeHash H leaves b.1 b.2) := by
  induction bs generalizing start out with
  | nil => simp [rangeWitnessesLoop]
  | cons b bs ih =>
    obtain ⟨here, adjacent⟩ := adjacent
    rw [← here] at adjacent
    simp only [List.map_cons, rangeWitnessesLoop, heightAt_root, ← here]
    rw [rangeWitnesses_eq mmr lo hi (complete b List.mem_cons_self), ok_bind,
      ih adjacent fun b hb => complete b (List.mem_cons_of_mem _ hb)]
    rw [List.flatMap_cons, List.map_append, List.append_assoc]

/-- Where the abstract walk succeeds, so does the verifier's. -/
lemma reconstructRangeSubtree_eq {lo hi : ℕ} {bodyDigests : ℕ → Option Bytes}
    {witness : List Bytes}
    (known : ∀ i, lo ≤ i → i ≤ hi → ∃ d, bodyDigests i = some d ∧ d.length = 32)
    (digests : ∀ w ∈ witness, w.length = 32) {n h k cursor : ℕ} (c : Complete n h k)
    (small : nodeCount n < maxMmrSize) {out : Bytes} {rest : List Bytes}
    (rebuilt : rebuild lo hi (rangeLeaf H bodyDigests) (nodeHash H) h k (witness.drop cursor) =
      some (out, rest)) :
    ∃ cursor', reconstructRangeSubtree H lo hi bodyDigests witness h (root h k) (k * 2 ^ h)
        cursor = .ok (out, cursor') ∧ witness.drop cursor' = rest ∧
      (cursor ≤ witness.length → cursor' ≤ witness.length) := by
  have takeWitness {cursor : ℕ} {out : Bytes} {rest : List Bytes}
      (taken : takeOne (witness.drop cursor) = some (out, rest)) :
      ∃ cursor', (match witness[cursor]? with
          | none => raise .integrity "range proof witness exhausted"
          | some w => .ok (w, cursor + 1)) = .ok (out, cursor') ∧ witness.drop cursor' = rest ∧
        (cursor ≤ witness.length → cursor' ≤ witness.length) := by
    rw [takeOne_drop] at taken
    cases e : witness[cursor]? with
    | none =>
      rw [e] at taken
      cases taken
    | some w =>
      rw [e] at taken
      cases taken
      obtain ⟨lt, -⟩ := List.getElem?_eq_some_iff.mp e
      exact ⟨cursor + 1, rfl, rfl, fun _ => lt⟩
  induction h generalizing k cursor out rest with
  | zero =>
    rw [reconstructRangeSubtree]
    simp only [outside_iff]
    by_cases outside : Outside lo hi 0 k
    · rw [rebuild, if_pos outside] at rebuilt
      rw [if_pos outside]
      exact takeWitness rebuilt
    · rw [rebuild, if_neg outside] at rebuilt
      rw [if_neg outside]
      cases rebuilt
      unfold Outside at outside
      obtain ⟨d, hd, len⟩ := known k (by omega) (by omega)
      refine ⟨cursor, ?_, rfl, id⟩
      simp [leafHash_eq H len, rangeLeaf, hd]
  | succ h ih =>
    rw [reconstructRangeSubtree]
    simp only [outside_iff]
    by_cases outside : Outside lo hi (h + 1) k
    · rw [rebuild, if_pos outside] at rebuilt
      rw [if_pos outside]
      exact takeWitness rebuilt
    · rw [if_neg outside, root_succ_sub_pow, root_succ_sub_one, start_right, start_left]
      obtain ⟨left, ws', right, hl, hr, eout, -⟩ := rebuild_succ_eq_some outside rebuilt
      -- The left half is rebuilt first, and the right one goes on at its cursor.
      obtain ⟨c1, okl, e1, b1⟩ := ih c.left hl
      rw [← e1] at hr
      obtain ⟨c2, okr, e2, b2⟩ := ih c.right hr
      have hleaf : ∀ i, lo ≤ i → i ≤ hi → (rangeLeaf H bodyDigests i).length = 32 :=
        fun _ _ _ => H.length_digest _
      obtain ⟨lenl, -, -⟩ := forall_rebuild (P := fun p : Bytes => p.length = 32) hleaf
        (length_nodeHash H) (fun w hw => digests w (List.mem_of_mem_drop hw)) hl
      obtain ⟨lenr, -, -⟩ := forall_rebuild (P := fun p : Bytes => p.length = 32) hleaf
        (length_nodeHash H) (fun w hw => digests w (List.mem_of_mem_drop hw)) hr
      have lt := c.root_lt
      have fits : root (h + 1) k + 1 < 2 ^ 64 := by
        simp only [nodeCount_eq, maxMmrSize] at small
        omega
      refine ⟨c2, ?_, e2, fun le => b2 (b1 le)⟩
      rw [okl, ok_bind]
      dsimp only
      rw [okr, ok_bind]
      dsimp only
      rw [interiorHash_eq H lenl lenr fits, ok_bind, eout]

/-- The true witness and the true digests rebuild the true peaks. -/
lemma reconstructPeaks_eq {leaves : List Bytes} {lo hi : ℕ} {bodyDigests : ℕ → Option Bytes}
    {witness : List Bytes}
    (known : ∀ i, lo ≤ i → i ≤ hi → ∃ d, bodyDigests i = some d ∧ d.length = 32)
    (agree : ∀ i, lo ≤ i → i ≤ hi → rangeLeaf H bodyDigests i = leaves.getD i [])
    (digests : ∀ w ∈ witness, w.length = 32) {n : ℕ} (small : nodeCount n < maxMmrSize)
    {bs : List (ℕ × ℕ)} {start cursor : ℕ} (adjacent : Adjacent start bs)
    (complete : ∀ b ∈ bs, Complete n b.1 b.2) {rest : List Bytes}
    (eq : witness.drop cursor = (bs.flatMap fun b => outs lo hi b.1 b.2).map
      (fun b => treeHash H leaves b.1 b.2) ++ rest) :
    ∃ cursor', reconstructPeaks H lo hi bodyDigests witness (bs.map fun b => root b.1 b.2) start
        cursor = .ok (bs.map fun b => treeHash H leaves b.1 b.2, cursor') ∧
      witness.drop cursor' = rest ∧ (cursor ≤ witness.length → cursor' ≤ witness.length) := by
  induction bs generalizing start cursor with
  | nil => exact ⟨cursor, rfl, eq, id⟩
  | cons b bs ih =>
    obtain ⟨here, adjacent⟩ := adjacent
    rw [← here] at adjacent
    rw [List.flatMap_cons, List.map_append, List.append_assoc] at eq
    have rebuilt : rebuild lo hi (rangeLeaf H bodyDigests) (nodeHash H) b.1 b.2
        (witness.drop cursor) = some (treeHash H leaves b.1 b.2, (bs.flatMap fun b =>
          outs lo hi b.1 b.2).map (fun b => treeHash H leaves b.1 b.2) ++ rest) := by
      rw [eq]
      exact rebuild_outs _ fun i h1 h2 _ _ => agree i h1 h2
    obtain ⟨c1, ok1, e1, b1⟩ :=
      reconstructRangeSubtree_eq known digests (complete b List.mem_cons_self) small rebuilt
    obtain ⟨c2, ok2, e2, b2⟩ := ih adjacent (fun b hb => complete b (List.mem_cons_of_mem _ hb)) e1
    refine ⟨c2, ?_, e2, fun le => b2 (b1 le)⟩
    simp only [List.map_cons, reconstructPeaks, heightAt_root, ← here]
    rw [ok1, ok_bind]
    dsimp only
    rw [ok2, ok_bind]

/-- The body digests are checked one by one. -/
lemma assertDigests_eq_ok {ds : List Obj} {bs : List Bytes} :
    (ds.mapM fun d => assertDigestObj d "body_digest") = .ok bs ↔
      ds.map Obj.digest? = bs.map some ∧ ∀ b ∈ bs, b.length = 32 := by
  induction ds generalizing bs with
  | nil =>
    cases bs with
    | nil => simp
    | cons b bs => simp
  | cons d ds ih =>
    simp only [List.mapM_cons, bind_eq_ok, assertDigestObj_eq_ok, ih, List.map_cons, pure_eq_ok]
    constructor
    · rintro ⟨b, ⟨hd, len⟩, bs', ⟨eq, lens⟩, e⟩
      cases e
      refine ⟨by rw [hd, eq]; rfl, fun c hc => ?_⟩
      cases hc with
      | head => exact len
      | tail _ hc => exact lens c hc
    · rintro ⟨eq, lens⟩
      cases bs with
      | nil => cases eq
      | cons b bs =>
        obtain ⟨hd, eq⟩ := List.cons.inj eq
        exact ⟨b, ⟨hd, lens b List.mem_cons_self⟩, bs,
          ⟨eq, fun c hc => lens c (List.mem_cons_of_mem _ hc)⟩, rfl⟩

/-- What passes the checks for a given size and range. -/
lemma checkRange_eq_ok {m lo hi : ℕ} (small : nodeCount m < maxMmrSize) (le : lo ≤ hi)
    (lt : hi < m) {root : Bytes} (hroot : root.length = 32) {bodyDigests witness : Obj}
    {x : RangeInput} :
    checkRange (.bytes root) (.int (nodeCount m)) (.int lo) (.int hi) bodyDigests
        (rangeProofObj (nodeCount m) lo hi witness) = .ok x ↔
      ∃ ds ws bs hs, bodyDigests.seq? = some ds ∧ witness.seq? = some ws ∧
        ds.length = hi + 1 - lo ∧ ds.map Obj.digest? = bs.map some ∧ (∀ b ∈ bs, b.length = 32) ∧
        parseDigests ws = .ok hs ∧ x = ⟨root, lo, hi, bs, hs, peakRoots m m.size⟩ := by
  have hcount : leafCountObj (.int (nodeCount m)) = .ok m := leafCount_nodeCount small
  have size : (0 : ℤ) ≤ nodeCount m ∧ (nodeCount m : ℤ) < maxMmrSize := by omega
  have range : (0 : ℤ) ≤ lo ∧ (lo : ℤ) ≤ hi := by omega
  have inside : (hi : ℤ) < m := by omega
  simp only [checkRange, bind_eq_ok, ensure_eq_ok, need_eq_ok, assertDigestObj_eq_ok,
    assertDigests_eq_ok, exists_const]
  constructor
  · rintro ⟨r, ⟨hr, -⟩, -, v, -, -, kind, -, -, psize, -, -, pfrom, -, -, pto, -, -, s, hs, -, ok⟩
    obtain ⟨a, ha, b, hb, -, w, hw, ws, hws, ds, hds, len, n, hn, -, bs, ⟨eq, lens⟩, ok⟩ := ok
    obtain ⟨hs, hhs, pks, hpks, e⟩ := ok
    cases hr
    cases ha
    cases hb
    cases hw
    rw [peaksObj_nodeCount small] at hpks
    cases hpks
    cases e
    exact ⟨ds, ws, bs, hs, hds, hws, by omega, eq, lens, hhs, rfl⟩
  · rintro ⟨ds, ws, bs, hs, hds, hws, len, eq, lens, hhs, rfl⟩
    refine ⟨root, ⟨rfl, hroot⟩, rfl, ?_⟩
    refine ⟨_, rfl, Obj.eq_int _ _, _, rfl, by simp, _, rfl, by simp, _, rfl, by simp, _, rfl,
      by simp, ?_⟩
    refine ⟨_, rfl, size, _, rfl, _, rfl, range, _, rfl, _, hws, _, hds, by omega, ?_⟩
    exact ⟨m, hcount, inside, bs, ⟨eq, lens⟩, hs, hhs, _, peaksObj_nodeCount small, rfl⟩

/-- The leaves of a range. -/
def rangeOf (digests : List Digest) (lo hi : ℕ) : List Bytes :=
  ((digests.drop lo).take (hi + 1 - lo)).map (·.1)

/-- The digests of a range are as many as it is long. -/
lemma length_rangeOf {digests : List Digest} {lo hi : ℕ} (lt : hi < digests.length) :
    (rangeOf digests lo hi).length = hi + 1 - lo := by
  simp only [rangeOf, List.length_map, List.length_take, List.length_drop]
  omega

/-- A digest of a range in its place. -/
lemma getElem?_rangeOf (digests : List Digest) {lo hi i : ℕ} (ge : lo ≤ i) (le : i ≤ hi) :
    (rangeOf digests lo hi)[i - lo]? = digests[i]?.map (·.1) := by
  rw [rangeOf, List.getElem?_map, List.getElem?_take_of_lt (by omega), List.getElem?_drop,
    Nat.add_sub_cancel' ge]

/-- The hashes the prover generates for a range of the first `m` leaves. -/
def honestWitness (H : HashFunction) (leaves : List Bytes) (m lo hi : ℕ) : List Bytes :=
  ((mountains m).flatMap fun b => outs lo hi b.1 b.2).map fun b => treeHash H leaves b.1 b.2

/-- The honest witness consists of digests. -/
lemma length_of_mem_honestWitness {leaves : List Bytes} (len : ∀ l ∈ leaves, l.length = 32)
    {m lo hi : ℕ} (le : m ≤ leaves.length) :
    ∀ w ∈ honestWitness H leaves m lo hi, w.length = 32 := by
  intro w hw
  obtain ⟨b, hb, rfl⟩ := List.mem_map.mp hw
  obtain ⟨t, ht, hb⟩ := List.mem_flatMap.mp hb
  exact length_treeHash H len (mem_outs ((mountain_complete_of_mem ht).mono le) hb)

/-- The honest proof is what is generated. -/
lemma rangeProof_eq {leaves nodes : List Bytes} (mmr : IsMmr H leaves nodes) {m lo hi : ℕ}
    (le : m ≤ leaves.length) (small : nodeCount m < maxMmrSize) (hlo : lo ≤ hi) (hhi : hi < m) :
    rangeProof nodes lo hi (nodeCount m) = .ok ⟨1, .lit "range", nodeCount m, lo, hi,
      (honestWitness H leaves m lo hi).map toHex⟩ := by
  have order : (lo : ℤ) ≤ hi := by omega
  have nonneg : (0 : ℤ) ≤ lo := by omega
  have inside : (hi : ℤ) < m := by omega
  have hcount : leafCountObj (.int (nodeCount m)) = .ok m := leafCount_nodeCount small
  have reader : (nodeCount m : ℤ) ≤ nodes.length := by
    rw [mmr.length_eq]
    exact_mod_cast forestSize_le le
  have loop := rangeWitnessesLoop_eq mmr lo hi (adjacent_mountains m)
    (fun b hb => (mountain_complete_of_mem hb).mono le) []
  rw [← peakRoots_eq] at loop
  rw [rangeProof, require_of order, ok_bind, require_of nonneg, ok_bind, hcount, ok_bind,
    require_of inside, ok_bind]
  dsimp only
  rw [require_of reader, ok_bind, peaksObj_nodeCount small, ok_bind, Int.toNat_natCast,
    Int.toNat_natCast, loop, ok_bind]
  rfl

/-- Accepting pins the hashes and the digests. -/
lemma verifyRange_sound {digests : List Digest} {nodes : List Bytes}
    (mmr : IsMmr H (leaves H digests) nodes) {S : Set Bytes} (inj : Set.InjOn H.digest S)
    (inStore : ∀ s ∈ storeHashed digests nodes, s ∈ S) {m : ℕ} (le : m ≤ digests.length)
    (inRoot : ∀ s ∈ rootFromPeaksHashed H (mountainHashes H (leaves H digests) m), s ∈ S)
    {x : RangeInput} (hhi : x.hi < m) (hpks : x.pks = peakRoots m m.size)
    (hroot : x.root = bag H (mountainHashes H (leaves H digests) m))
    (hlen : x.bodyDigests.length = x.hi + 1 - x.lo) (hwitness : ∀ w ∈ x.witness, w.length = 32)
    (inLeaves : ∀ d ∈ x.bodyDigests, 0 :: d ∈ S)
    (inRun : ∀ s ∈ reconstructPeaksHashed H x.lo x.hi x.digestByIndex x.witness x.pks 0 0, s ∈ S)
    {peaks : List Bytes} {cursor : ℕ}
    (ok : reconstructPeaks H x.lo x.hi x.digestByIndex x.witness x.pks 0 0 = .ok (peaks, cursor))
    (consumed : cursor = x.witness.length)
    (inPeaks : ∀ s ∈ rootFromPeaksHashed H peaks, s ∈ S)
    (computed : rootFromPeaks H peaks = .ok x.root) :
    x.witness = honestWitness H (leaves H digests) m x.lo x.hi ∧
      x.bodyDigests = rangeOf digests x.lo x.hi := by
  have len := length_of_mem_leaves H digests
  have le' : m ≤ (leaves H digests).length := by rwa [length_leaves]
  have adjacent := adjacent_mountains m
  rw [hpks, peakRoots_eq] at ok inRun
  obtain ⟨count, lens⟩ := length_reconstructPeaks hwitness adjacent ok
  -- The peaks rebuilt are as many as the true ones, so they are the true ones.
  rw [rootFromPeaks_eq H lens, hroot] at computed
  have same : peaks = mountainHashes H (leaves H digests) m :=
    bag_pins inj (by rw [count, mountainHashes, List.length_map]) lens
      (length_of_mem_mountainHashes len le') inPeaks inRoot (Except.ok.inj computed)
  rw [same] at ok
  obtain ⟨eq, agree⟩ := reconstructPeaks_pins mmr len inj
    (fun s hs => inStore s (List.mem_append_right _ hs)) hwitness adjacent
    (fun b hb => (mountain_complete_of_mem hb).mono le') inRun ok
  refine ⟨by simpa [consumed, honestWitness] using eq, ?_⟩
  have lt : x.hi < digests.length := by omega
  apply List.ext_getElem?
  intro j
  by_cases inside : j < x.hi + 1 - x.lo
  · -- Every index of the range lies under some mountain.
    obtain ⟨left, right, d, em, -⟩ := exists_mountain (show x.lo + j < m by omega)
    have hblock := Nat.div_add_mod (x.lo + j) (2 ^ d)
    have hmod := Nat.mod_lt (x.lo + j) (Nat.two_pow_pos d)
    rw [Nat.mul_comm] at hblock
    have above : x.lo + j < ((x.lo + j) / 2 ^ d + 1) * 2 ^ d := by
      rw [Nat.add_mul]
      omega
    have leaf := agree (d, (x.lo + j) / 2 ^ d) (by simp [em]) (x.lo + j) (by omega) (by omega)
      (by dsimp only; omega) above
    have hj : j < x.bodyDigests.length := by omega
    have own : x.digestByIndex (x.lo + j) = some x.bodyDigests[j] := by
      simp [RangeInput.digestByIndex, hj]
    have hi : x.lo + j < digests.length := by omega
    have true_ : (leaves H digests).getD (x.lo + j) [] = H.digest (0 :: digests[x.lo + j].1) := by
      simp [leaves, hi]
    rw [rangeLeaf, own, true_] at leaf
    have same := inj (inLeaves _ (List.getElem_mem hj))
      (inStore _ (List.mem_append_left _ (List.mem_map.mpr ⟨_, List.getElem_mem hi, rfl⟩))) leaf
    have range := getElem?_rangeOf digests (Nat.le_add_right x.lo j) (show x.lo + j ≤ x.hi by omega)
    rw [Nat.add_sub_cancel_left] at range
    rw [range, List.getElem?_eq_getElem hj, List.getElem?_eq_getElem hi]
    exact congrArg some (List.cons.inj same).2
  · rw [List.getElem?_eq_none (by omega),
      List.getElem?_eq_none (by rw [length_rangeOf lt]; omega)]

/-- The generated hashes and the leaves of the range are accepted. -/
lemma verifyRange_complete {digests : List Digest} {m : ℕ} (le : m ≤ digests.length)
    (small : nodeCount m < maxMmrSize) {x : RangeInput} (hhi : x.hi < m)
    (hpks : x.pks = peakRoots m m.size)
    (hwitness : x.witness = honestWitness H (leaves H digests) m x.lo x.hi)
    (hbody : x.bodyDigests = rangeOf digests x.lo x.hi) :
    reconstructPeaks H x.lo x.hi x.digestByIndex x.witness x.pks 0 0 =
      .ok (mountainHashes H (leaves H digests) m, x.witness.length) := by
  have len := length_of_mem_leaves H digests
  have le' : m ≤ (leaves H digests).length := by rwa [length_leaves]
  have lt : x.hi < digests.length := by omega
  have own {i : ℕ} (ge : x.lo ≤ i) (le : i ≤ x.hi) (hi : i < digests.length) :
      x.digestByIndex i = some digests[i].1 := by
    rw [RangeInput.digestByIndex, if_pos ge, hbody, getElem?_rangeOf digests ge le,
      List.getElem?_eq_getElem hi]
    rfl
  have lens : ∀ w ∈ x.witness, w.length = 32 := by
    rw [hwitness]
    exact length_of_mem_honestWitness len le'
  have agree : ∀ i, x.lo ≤ i → i ≤ x.hi →
      rangeLeaf H x.digestByIndex i = (leaves H digests).getD i [] := by
    intro i h1 h2
    have hi : i < digests.length := by omega
    simp [rangeLeaf, own h1 h2 hi, leaves, hi]
  have known : ∀ i, x.lo ≤ i → i ≤ x.hi → ∃ d, x.digestByIndex i = some d ∧ d.length = 32 := by
    intro i h1 h2
    have hi : i < digests.length := by omega
    exact ⟨_, own h1 h2 hi, digests[i].2⟩
  have start : x.witness.drop 0 = honestWitness H (leaves H digests) m x.lo x.hi ++ [] := by
    rw [List.append_nil, List.drop_zero, hwitness]
  obtain ⟨cursor, ok, rest, bound⟩ := reconstructPeaks_eq
    known agree lens small (adjacent_mountains m)
    (fun b hb => mountain_complete_of_mem hb) start
  have exhausted : x.witness.length ≤ cursor := List.drop_eq_nil_iff.mp rest
  have all : cursor = x.witness.length := Nat.le_antisymm (bound (Nat.zero_le _)) exhausted
  rw [hpks, peakRoots_eq, ok, all]
  rfl

/-- The leaves of a range are accepted with the generated hashes. -/
lemma verifyRange_honest {digests : List Digest} {m lo hi : ℕ} (le : m ≤ digests.length)
    (small : nodeCount m < maxMmrSize) (hlo : lo ≤ hi) (hhi : hi < m) {bodyDigests witness : Obj}
    {ds ws : List Obj} (hds : bodyDigests.seq? = some ds)
    (eq : ds.map Obj.digest? = (rangeOf digests lo hi).map some) (hws : witness.seq? = some ws)
    (hhs : parseDigests ws = .ok (honestWitness H (leaves H digests) m lo hi)) :
    verifyRange H (.bytes (bag H (mountainHashes H (leaves H digests) m))) (.int (nodeCount m)) (.int lo)
      (.int hi) bodyDigests (rangeProofObj (nodeCount m) lo hi witness) = true := by
  have len := length_of_mem_leaves H digests
  have le' : m ≤ (leaves H digests).length := by rwa [length_leaves]
  have hroot := length_bag H (length_of_mem_mountainHashes (H := H) len le')
  have lt : hi < digests.length := by omega
  have hlen : ds.length = hi + 1 - lo := by
    have := congrArg List.length eq
    simpa [length_rangeOf lt] using this
  have dbs : ∀ b ∈ rangeOf digests lo hi, b.length = 32 := by
    intro b hb
    obtain ⟨d, -, rfl⟩ := List.mem_map.mp hb
    exact d.2
  have checked := (checkRange_eq_ok small hlo hhi hroot).mpr
    ⟨ds, ws, _, _, hds, hws, hlen, eq, dbs, hhs, rfl⟩
  have rebuilt := verifyRange_complete (H := H) le small
    (x := ⟨bag H (mountainHashes H (leaves H digests) m), lo, hi, rangeOf digests lo hi,
      honestWitness H (leaves H digests) m lo hi, peakRoots m m.size⟩) hhi rfl rfl rfl
  rw [verifyRange, verdict_eq_true, checked, ok_bind]
  dsimp only at rebuilt ⊢
  rw [rebuilt, ok_bind]
  dsimp only
  rw [ensure_of rfl, ok_bind, rootFromPeaks_eq H (length_of_mem_mountainHashes len le'), ok_bind]
  simp

/-- A verifier accepts for a range of a store exactly the leaves of the range, in order, with the hashes
that `range_proof` generates over the store. -/
theorem verifyRange_exact {digests : List Digest} {nodes older : List Bytes} {m lo hi : ℕ}
    {root : Bytes} (build : addDigests H [] digests = .ok nodes) (le : m ≤ digests.length)
    (then_ : addDigests H [] (digests.take m) = .ok older)
    (committed : rootAt H older (nodeCount m) = .ok root) (hlo : lo ≤ hi) (hhi : hi < m)
    (bodyDigests witness : Obj)
    (inj : Set.InjOn H.digest {s | s ∈ storeHashed digests nodes ∨
      s ∈ rootAtHashed H older (nodeCount m) ∨
      s ∈ verifyRangeHashed H (.bytes root) (.int (nodeCount m)) (.int lo) (.int hi) bodyDigests
        (rangeProofObj (nodeCount m) lo hi witness)}) :
    ∃ proof, rangeProof nodes lo hi (nodeCount m) = .ok proof ∧
      (verifyRange H (.bytes root) (.int (nodeCount m)) (.int lo) (.int hi) bodyDigests
          (rangeProofObj (nodeCount m) lo hi witness) = true ↔
        (∃ ds, bodyDigests.seq? = some ds ∧
          ds.map Obj.digest? = (rangeOf digests lo hi).map some) ∧
        ∃ ws, witness.seq? = some ws ∧
          parseDigests ws = parseDigests (proof.witness.map .str)) := by
  have mmr := IsMmr.of_addDigests build
  have len := length_of_mem_leaves H digests
  have le' : m ≤ (leaves H digests).length := by rwa [length_leaves]
  have small : nodeCount m < maxMmrSize := by
    obtain ⟨hashes, hh, -⟩ := bind_eq_ok.mp committed
    obtain ⟨pks, hp, -⟩ := bind_eq_ok.mp hh
    exact (peaks_eq_ok hp).1
  have count : (leaves H (digests.take m)).length = m := by simp [le]
  have mmr' := IsMmr.of_addDigests then_
  rw [mmr'.rootAt (length_of_mem_leaves H _) count.ge small, leaves_take,
    mountainHashes_take le'] at committed
  rw [mmr'.rootAtHashed count.ge small, leaves_take, mountainHashes_take le'] at inj
  cases committed
  have hroot := length_bag H (length_of_mem_mountainHashes (H := H) len le')
  have lens : ∀ w ∈ honestWitness H (leaves H digests) m lo hi, w.length = 32 :=
    length_of_mem_honestWitness len le'
  refine ⟨_, rangeProof_eq mmr le' small hlo hhi, ?_⟩
  dsimp only
  rw [parseDigests_toHex lens]
  constructor
  · intro accept
    obtain ⟨x, hx, ok⟩ := bind_eq_ok.mp (verdict_eq_true.mp accept)
    obtain ⟨⟨peaks, cursor⟩, hpeaks, ok⟩ := bind_eq_ok.mp ok
    obtain ⟨_, hcursor, ok⟩ := bind_eq_ok.mp ok
    obtain ⟨computed, hcomputed, ok⟩ := bind_eq_ok.mp ok
    have e : computed = x.root := by simpa using ok
    simp only [verifyRangeHashed, hx, hpeaks] at inj
    obtain ⟨ds, ws, bs, hs, hds, hws, hlen, eq, dbs, hhs, rfl⟩ :=
      (checkRange_eq_ok small hlo hhi hroot).mp hx
    have lenb : bs.length = hi + 1 - lo := by
      have := congrArg List.length eq
      simp only [List.length_map] at this
      omega
    -- Soundness makes both lists the true ones, whatever objects stand for them.
    obtain ⟨ew, eb⟩ := verifyRange_sound mmr inj (fun s hs => .inl hs) le (fun s hs => .inr (.inl hs))
      (x := ⟨bag H (mountainHashes H (leaves H digests) m), lo, hi, bs, hs, peakRoots m m.size⟩)
      hhi rfl rfl lenb (parseDigests_eq_ok hhs).2
      (fun d hd => .inr (.inr (List.mem_append_left _ (List.mem_append_left _
        (List.mem_map_of_mem hd)))))
      (fun s hs => .inr (.inr (List.mem_append_left _ (List.mem_append_right _ hs)))) hpeaks
      (ensure_eq_ok.mp hcursor) (fun s hs => .inr (.inr (List.mem_append_right _ hs)))
      (by rw [hcomputed, e])
    dsimp only at ew eb
    exact ⟨⟨ds, hds, by rw [eq, eb]⟩, ws, hws, by rw [hhs, ew]⟩
  · rintro ⟨⟨ds, hds, eq⟩, ws, hws, hhs⟩
    exact verifyRange_honest le small hlo hhi hds eq hws hhs

/-- A range proof of the sample log is generated. -/
lemma sampleRange_ok : (rangeProof sampleNodes 1 2 (nodeCount 3)).toBool = true := by
  rw [sampleNodes_bytes]
  decide +kernel

/-- The proof of the last two sample digests. -/
def sampleRange : RangeProof := (rangeProof sampleNodes 1 2 (nodeCount 3)).val sampleRange_ok

/-- It is accepted for the last two leaves. -/
theorem verifyRange_exact_sample :
    ∃ proof, rangeProof sampleNodes (1 : ℕ) (2 : ℕ) (nodeCount 3) = .ok proof ∧
      (verifyRange sha256Hash (.bytes sampleRoot) (.int (nodeCount 3)) (.int (1 : ℕ)) (.int (2 : ℕ))
          (.list [.bytes (List.replicate 32 2), .bytes (List.replicate 32 3)])
          (rangeProofObj (nodeCount 3) (1 : ℕ) (2 : ℕ) (.tuple (sampleRange.witness.map .str))) =
            true ↔
        (∃ ds, (Obj.list [.bytes (List.replicate 32 2), .bytes (List.replicate 32 3)]).seq? =
            some ds ∧ ds.map Obj.digest? = (rangeOf sampleDigests 1 2).map some) ∧
        ∃ ws, (Obj.tuple (sampleRange.witness.map .str)).seq? = some ws ∧
          parseDigests ws = parseDigests (proof.witness.map .str)) := by
  refine verifyRange_exact (m := 3) sampleNodes_eq (by decide) sampleNodes_eq sampleRoot_eq
    (by decide) (by decide) _ _ (injOn_lists ?_)
  simp only [sampleRange, sampleNodes_bytes, sampleRoot_bytes, sha256Hash_eq]
  decide +kernel

/-- The same hex digits in capitals. -/
def capitals (s : Str) : Str := s.map fun c => if 97 ≤ c then c - 32 else c

/-- A witness that is not the generated list, and is accepted all the same. -/
theorem verifyRange_capitals :
    rangeProof sampleNodes 1 2 (nodeCount 3) = .ok sampleRange ∧
      sampleRange.witness.map capitals ≠ sampleRange.witness ∧
      verifyRange sha256Hash (.bytes sampleRoot) (.int (nodeCount 3)) (.int 1) (.int 2)
        (.list [.bytes (List.replicate 32 2), .bytes (List.replicate 32 3)])
        (rangeProofObj (nodeCount 3) 1 2
          (.tuple ((sampleRange.witness.map capitals).map .str))) = true ∧
      Set.InjOn sha256Hash.digest {s | s ∈ storeHashed sampleDigests sampleNodes ∨
        s ∈ rootAtHashed sha256Hash sampleNodes (nodeCount 3) ∨
        s ∈ verifyRangeHashed sha256Hash (.bytes sampleRoot) (.int (nodeCount 3)) (.int 1) (.int 2)
          (.list [.bytes (List.replicate 32 2), .bytes (List.replicate 32 3)])
          (rangeProofObj (nodeCount 3) 1 2
            (.tuple ((sampleRange.witness.map capitals).map .str)))} := by
  refine ⟨Py.eq_ok_val sampleRange_ok, ?_, ?_, injOn_lists ?_⟩
  · simp only [sampleRange, sampleNodes_bytes]
    decide +kernel
  · simp only [sampleRange, sampleNodes_bytes, sampleRoot_bytes, sha256Hash_eq]
    decide +kernel
  · simp only [sampleRange, sampleNodes_bytes, sampleRoot_bytes, sha256Hash_eq]
    decide +kernel

end CLL.Core
