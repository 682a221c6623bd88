import CLL.Ts.Proof

/-!
# Inclusion proofs in TypeScript

`MmrTree.inclusionProof` and `verifyInclusionValue` of `ts/src/mmr.ts`, and `append` where each call waits
for the one before. A proof is the siblings up to the peak of the leaf, then the root of the peaks on its
right if there are any, then the peaks on its left from the nearest one on. The prover reads the peak off the
parent links, the verifier computes it from the leaf index.

`inclusionValues`: what the prover gives is accepted, and nothing else is accepted at that index.
-/

namespace CLL.Ts
open PostOrder CLL.Core Run

variable (H : HashFunction)

/-- A call is resumed until it has settled. -/
def settle : ℕ → MmrTree → Call → MmrTree × Call
  | 0, t, call => (t, call)
  | fuel + 1, t, call =>
    if call.isSettled then (t, call)
    else
      let (t, call) := resume H true t call
      settle fuel t call

/-- `await tree.append(value)`, where `ready` resolves. Every parent that is pushed takes a peak away. -/
def MmrTree.append (t : MmrTree) (value : Bytes) : MmrTree × Call :=
  settle H (t.peaks.length + 2) t (.ready value)

/-- `for (const value of values) await tree.append(value)`, where the caller catches what is thrown. -/
def MmrTree.appendAll (t : MmrTree) (values : List Bytes) : MmrTree :=
  values.foldl (fun t value => (t.append H value).1) t

/-- `new MmrTree(hash)`. -/
def MmrTree.empty : MmrTree := .ofShape [] 0

/-- The values that `append` does not reject. -/
def appended (values : List Bytes) : List Bytes := values.filter fun value => value.length = 32

/-- The length of an array is below `2 ** 32`. -/
def maxArrayLength : ℕ := 2 ^ 32 - 1

/-- `while (this.meta[position]!.parent !== undefined) …` of `inclusionProof`. -/
def topLoop (metas : List Meta) : ℕ → ℕ → ℕ
  | 0, p => p
  | fuel + 1, p =>
    match parentOf metas p with
    | none => p
    | some q => topLoop metas fuel q

/-- `MmrTree.root`, where `ready` resolves. -/
def MmrTree.root (t : MmrTree) : Bytes := rootFromPeaks H t.peakHashes

/-- `if (right.length !== 0) proof.push(await rootFromPeaks(this.hash, right))`. -/
def compress (right : List Bytes) : List Bytes := if right.isEmpty then [] else [rootFromPeaks H right]

/-- `MmrTree.inclusionProof`, where `ready` resolves; `indexOf` gives -1 for `none`. -/
def MmrTree.inclusionProof (t : MmrTree) (leafIndex : ℤ) : Option (List Bytes) := do
  guard (0 ≤ leafIndex)
  let leaf ← t.leafPositions[leafIndex.toNat]?
  let proof := path t.metas t.nodes leaf
  let position := topLoop t.metas t.metas.length leaf
  let peakIndex := t.peaks.idxOf? position
  let right := (t.peaks.drop (peakIndex.elim 0 (· + 1))).map fun p => t.nodes.getD p []
  let left := (t.peaks.take (peakIndex.getD 0)).reverse.map fun p => t.nodes.getD p []
  some (proof ++ compress H right ++ left)

/-- `for (const step of steps) …` of `verifyInclusionValue`; `proof` lists the items from `i` on. -/
def foldSteps : Bytes → List PathStep → List Bytes → Option (Bytes × List Bytes)
  | v, [], proof => some (v, proof)
  | _, _ :: _, [] => none
  | v, step :: steps, x :: proof =>
    if step.targetIsRight then foldSteps (nodeHash H step.parentPos x v) steps proof
    else foldSteps (nodeHash H step.parentPos v x) steps proof

/-- `if (peakIndex < peaks.length - 1) …`. -/
def foldRight (more : Bool) (v : Bytes) (proof : List Bytes) : Option (Bytes × List Bytes) :=
  if more then
    match proof with
    | [] => none
    | right :: proof => some (H.digest (right ++ v), proof)
  else some (v, proof)

/-- `for (let left = peakIndex - 1; left >= 0; left -= 1) …`. -/
def foldLeft : ℕ → Bytes → List Bytes → Option (Bytes × List Bytes)
  | 0, v, proof => some (v, proof)
  | _ + 1, _, [] => none
  | left + 1, v, item :: proof => foldLeft left (H.digest (v ++ item)) proof

/-- The part of `verifyInclusionValue` behind its checks: the hash it arrives at and the items it has not
used. -/
def foldInclusion (size leafIndex : ℕ) (value : Bytes) (proof : List Bytes) :
    Option (Bytes × List Bytes) := do
  let peaks := peakPositions size
  let leafPos := nodeCount leafIndex
  let peakIndex ← findContainingPeak leafPos peaks
  let peakPos := peaks.getD peakIndex 0
  let steps := locatePath peakPos (heightAt peakPos) leafPos
  let (v, proof) ← foldSteps H (H.digest (0 :: value)) steps proof
  let (v, proof) ← foldRight H (peakIndex < peaks.length - 1) v proof
  foldLeft H peakIndex v proof

/-- `verifyInclusionValue`. -/
def verifyInclusionValue (root : Bytes) (size leafIndex : ℤ) (value : Bytes) (proof : List Bytes) : Bool :=
  if size < 0 then false
  else
    match leafCount size.toNat with
    | none => false
    | some leaves =>
      if root.length ≠ 32 ∨ value.length ≠ 32 ∨ size ≥ maxMmrSize ∨ leafIndex < 0 ∨ leafIndex ≥ leaves ∨
          ∃ x ∈ proof, x.length ≠ 32 then false
      else
        match foldInclusion H size.toNat leafIndex.toNat value proof with
        | none => false
        | some (v, rest) => rest.isEmpty && v == root

/-- The strings hashed to append the values to a new tree. -/
def appendHashed (values : List Bytes) (t : MmrTree) : List Bytes :=
  (appended values).map (fun value => 0 :: value) ++ interiorHashed t.nodes

/-- The strings hashed behind the path. -/
def foldPeaksHashed (more : Bool) (v : Bytes) (proof : List Bytes) : List Bytes :=
  if more then
    match proof with
    | [] => []
    | right :: proof => bagLoopHashed H right (v :: proof)
  else bagLoopHashed H v proof

/-- The strings `foldInclusion` hashes. -/
def foldInclusionHashed (size leafIndex : ℕ) (value : Bytes) (proof : List Bytes) : List Bytes :=
  let peaks := peakPositions size
  let leafPos := nodeCount leafIndex
  match findContainingPeak leafPos peaks with
  | none => []
  | some peakIndex =>
    let peakPos := peaks.getD peakIndex 0
    let steps := locatePath peakPos (heightAt peakPos) leafPos
    let leaf := H.digest (0 :: value)
    (0 :: value) :: (climbArgs (nodeHash H) leaf steps proof).map nodePreimage ++
      foldPeaksHashed H (peakIndex < peaks.length - 1) (climb (nodeHash H) leaf steps proof)
        (proof.drop steps.length)

variable {H}

/-- At the head of its loop an append settles or takes a peak away. -/
lemma loopHead_peaks (t : MmrTree) (p : ℕ) :
    (loopHead H t p).2.isSettled = true ∨ (loopHead H t p).1.peaks.length < t.peaks.length := by
  rw [loopHead]
  cases last : t.peaks.getLast? with
  | none => exact .inl rfl
  | some l =>
    have pos : 0 < t.peaks.length := List.length_pos_iff.mpr fun nil => by simp [nil] at last
    dsimp only
    split
    · exact .inr (by simp [pos])
    · exact .inl rfl

/-- The tree of a pending call has the peaks of its leaves and the carry. -/
lemma Pending.peaks {leaves : List Bytes} {leaf : Bytes} {t : MmrTree} {call : Call}
    (pending : Pending (H := H) leaves leaf t call) :
    (Ts.resume H true t call).2.isSettled = true ∨
      (Ts.resume H true t call).1.peaks.length < t.peaks.length := by
  cases pending with
  | leaf _ => exact loopHead_peaks _ _
  | parent _ _ _ => exact loopHead_peaks _ _

/-- A pending call is not settled. -/
lemma Pending.not_settled {leaves : List Bytes} {leaf : Bytes} {t : MmrTree} {call : Call}
    (pending : Pending (H := H) leaves leaf t call) : call.isSettled = false := by
  cases pending with
  | leaf _ => rfl
  | parent _ _ _ => rfl

/-- A settled call stays. -/
lemma settle_of_settled {fuel : ℕ} {t : MmrTree} {call : Call} (settled : call.isSettled = true) :
    settle H fuel t call = (t, call) := by
  cases fuel with
  | zero => rfl
  | succ fuel => exact if_pos settled

/-- An append that is alone at work settles when its leaf has been appended. -/
lemma Pending.settle {leaves : List Bytes} {leaf : Bytes} {fuel : ℕ} {t : MmrTree} {call : Call}
    (pending : Pending (H := H) leaves leaf t call) (enough : t.peaks.length < fuel) :
    (settle H fuel t call).1.Holds H (leaves ++ [leaf]) ∧
      (settle H fuel t call).2 = .resolved (nodeCount (leaves.length + 1)) := by
  induction fuel generalizing t call with
  | zero => exact absurd enough (Nat.not_lt_zero _)
  | succ fuel ih =>
    rw [Ts.settle, if_neg (by simp [pending.not_settled])]
    dsimp only
    rcases pending.resume true with next | ⟨holds, resolved⟩
    · rcases pending.peaks with settled | fewer
      · exact absurd (settled.symm.trans next.not_settled) (by simp)
      · exact ih next (by omega)
    · rw [resolved, settle_of_settled rfl]
      exact ⟨holds, rfl⟩

/-- A value is appended to the tree of the leaves. -/
lemma MmrTree.Holds.append {leaves : List Bytes} {t : MmrTree} (holds : t.Holds H leaves) {value : Bytes}
    (len : value.length = 32) : (t.append H value).1.Holds H (leaves ++ [H.digest (0 :: value)]) ∧
      (t.append H value).2 = .resolved (nodeCount (leaves.length + 1)) := by
  have started : resume H true t (.ready value) = (t, .leaf t.nodes.length (H.digest (0 :: value))) :=
    if_pos ⟨rfl, len⟩
  have pending : Pending (H := H) leaves (H.digest (0 :: value)) t
      (.leaf t.nodes.length (H.digest (0 :: value))) := .leaf holds
  have next := pending.settle (Nat.lt_succ_self t.peaks.length)
  rw [MmrTree.append, settle, if_neg (by simp [Call.isSettled]), started]
  exact next

/-- A value of another length changes nothing. -/
lemma MmrTree.append_of_length_ne (t : MmrTree) {value : Bytes} (len : value.length ≠ 32) :
    t.append H value = (t, .rejected) := by
  have refused : resume H true t (.ready value) = (t, .rejected) := if_neg fun both => len both.2
  rw [MmrTree.append, settle, if_neg (by simp [Call.isSettled]), refused]
  exact settle_of_settled rfl

/-- The appends leave the tree of the values that are not rejected. -/
lemma MmrTree.Holds.appendAll {leaves values : List Bytes} {t : MmrTree} (holds : t.Holds H leaves) :
    (t.appendAll H values).Holds H (leaves ++ (appended values).map fun value => H.digest (0 :: value)) := by
  induction values generalizing leaves t with
  | nil => exact (List.append_nil leaves).symm ▸ holds
  | cons value values ih =>
    by_cases len : value.length = 32
    · have both := ih (holds.append len).1
      rw [List.append_assoc] at both
      have kept : appended (value :: values) = value :: appended values := by simp [appended, len]
      rw [kept]
      exact both
    · have dropped : appended (value :: values) = appended values := by simp [appended, len]
      have same : t.appendAll H (value :: values) = t.appendAll H values := by
        rw [MmrTree.appendAll, List.foldl_cons, t.append_of_length_ne len]
        rfl
      rw [dropped, same]
      exact ih holds

/-- The empty tree holds no leaves. -/
lemma empty_holds : MmrTree.empty.Holds H [] := ⟨isMmr_nil _, rfl⟩

/-- The leaves of a new tree to which the values have been appended. -/
def valueLeaves (H : HashFunction) (values : List Bytes) : List Bytes :=
  (appended values).map fun value => H.digest (0 :: value)

/-- The tree of appended values holds their leaves. -/
lemma appendAll_holds (values : List Bytes) :
    (MmrTree.empty.appendAll H values).Holds H (valueLeaves H values) := empty_holds.appendAll

/-- The top of a block is the root of its mountain. -/
lemma topLoop_eq {n h k d fuel : ℕ} (top : (h + d, k / 2 ^ d) ∈ mountains n) (enough : d ≤ fuel) :
    topLoop (shape n).metas fuel (root h k) = root (h + d) (k / 2 ^ d) := by
  have linked := shape_linked n
  induction d generalizing h k fuel with
  | zero =>
    have top : (h, k) ∈ mountains n := by simpa using top
    have none_ : parentOf (shape n).metas (root h k) = none := by
      rw [linked h k (mountain_complete_of_mem top).root_lt, if_neg]
      exact fun lt => not_complete_above top (complete_of_root_lt lt)
    rw [pow_zero, Nat.div_one]
    cases fuel with
    | zero => rfl
    | succ fuel =>
      rw [topLoop, none_]
      rfl
  | succ d ih =>
    obtain ⟨fuel, rfl⟩ : ∃ f, fuel = f + 1 := ⟨fuel - 1, by omega⟩
    have higher : k / 2 ^ (d + 1) = k / 2 / 2 ^ d := by rw [Nat.div_div_eq_div_mul, ← pow_succ']
    rw [higher, ← Nat.add_assoc, Nat.add_right_comm] at top
    have above : Complete n (h + 1) (k / 2) := complete_of_above (mountain_complete_of_mem top)
    obtain ⟨here, -⟩ := Complete.of_parent above
    rw [topLoop, linked h k here.root_lt, if_pos above.root_lt]
    dsimp only
    rw [ih top (by omega), higher, Nat.add_right_comm, Nat.add_assoc]

/-- The peaks lie at different positions. -/
lemma nodup_peakRoots (n : ℕ) : (peakRoots n n.size).Nodup := by
  rw [peakRoots_eq, mountains, List.map_map]
  refine List.Nodup.map_on ?_ (List.nodup_reverse.mpr (List.nodup_range.filter _))
  intro h _ h' _ same
  exact (root_injective same).1

/-- `indexOf` finds a peak where it stands. -/
lemma idxOf?_peakRoots {n : ℕ} {left right : List (ℕ × ℕ)} {b : ℕ × ℕ}
    (split : mountains n = left ++ b :: right) :
    (peakRoots n n.size).idxOf? (root b.1 b.2) = some left.length := by
  have nodup := nodup_peakRoots n
  rw [List.idxOf?_eq_some_iff]
  have lt : left.length < (peakRoots n n.size).length := by rw [length_peakRoots_split split]; omega
  have here : (peakRoots n n.size)[left.length] = root b.1 b.2 := by simp [peakRoots_eq, split]
  refine ⟨lt, here, fun j before same => ?_⟩
  have both := (List.Nodup.getElem_inj_iff nodup).mp (same.trans here.symm)
  omega

/-- Complete blocks read out of the tree. -/
lemma IsMmr.getD_blocks {leaves nodes : List Bytes} (mmr : IsMmr H leaves nodes) {bs : List (ℕ × ℕ)}
    (complete : ∀ b ∈ bs, Complete leaves.length b.1 b.2) :
    (bs.map fun b => root b.1 b.2).map (fun p => nodes.getD p []) =
      bs.map fun b => treeHash H leaves b.1 b.2 := by
  rw [List.map_map]
  refine List.map_congr_left fun b hb => ?_
  rw [Function.comp_apply, List.getD_eq_getElem?_getD, mmr.node_eq b.1 b.2 (complete b hb)]
  rfl

/-- The proof of leaf `i` under the mountain `(d, i / 2 ^ d)` between the others. -/
def honestProof (H : HashFunction) (leaves : List Bytes) (i d : ℕ) (left right : List (ℕ × ℕ)) :
    List Bytes :=
  siblingHashes H leaves 0 i d ++ compress H (right.map fun b => treeHash H leaves b.1 b.2) ++
    (left.map fun b => treeHash H leaves b.1 b.2).reverse

/-- An inclusion proof is its path, the peaks to the right in one and those to the left. -/
lemma inclusionProof_of_holds {leaves : List Bytes} {t : MmrTree} (holds : t.Holds H leaves)
    {i d : ℕ} (lt : i < leaves.length) {left right : List (ℕ × ℕ)}
    (split : mountains leaves.length = left ++ (d, i / 2 ^ d) :: right) :
    t.inclusionProof H i = some (honestProof H leaves i d left right) := by
  obtain ⟨laid, peaks_eq, leaves_eq⟩ := shape_spec leaves.length
  have metas : t.metas = (shape leaves.length).metas := congrArg MmrTree.metas holds.2
  have peaks : t.peaks = peakRoots leaves.length leaves.length.size :=
    (congrArg MmrTree.peaks holds.2).trans peaks_eq
  have positions : t.leafPositions = (List.range leaves.length).map forestSize :=
    (congrArg MmrTree.leafPositions holds.2).trans leaves_eq
  have leaf : t.leafPositions[i]? = some (root 0 i) := by
    rw [positions, List.getElem?_map, List.getElem?_range lt, root_zero]
    rfl
  have complete : ∀ b ∈ mountains leaves.length, Complete leaves.length b.1 b.2 := fun b hb =>
    mountain_complete_of_mem hb
  have top : (0 + d, i / 2 ^ d) ∈ mountains leaves.length := by simp [split]
  have siblings : path t.metas t.nodes (root 0 i) = siblingHashes H leaves 0 i d := by
    rw [metas]
    exact path_eq holds.1 top
  have reached : topLoop t.metas t.metas.length (root 0 i) = root d (i / 2 ^ d) := by
    have lt : root (0 + d) (i / 2 ^ d) < forestSize leaves.length := (complete _ top).root_lt
    have pow : d < 2 ^ d := Nat.lt_two_pow_self
    have enough : d ≤ t.metas.length := by
      rw [metas, laid.length_eq]
      rw [Nat.zero_add, root, pow_succ] at lt
      omega
    rw [metas] at enough ⊢
    rw [topLoop_eq top enough, Nat.zero_add]
  have rights := IsMmr.getD_blocks holds.1 fun b (hb : b ∈ right) =>
    complete b (by simp [split, hb])
  have lefts := IsMmr.getD_blocks holds.1 fun b (hb : b ∈ left) =>
    complete b (by simp [split, hb])
  have found : t.peaks.idxOf? (root d (i / 2 ^ d)) = some left.length := peaks ▸ idxOf?_peakRoots split
  rw [MmrTree.inclusionProof, guard, if_pos (Int.natCast_nonneg i), Int.toNat_natCast, leaf]
  simp only [Option.bind_eq_bind, Option.bind_some, Option.pure_def]
  rw [reached, found, siblings, Option.elim_some, Option.getD_some, peaks, drop_peakRoots_split split,
    take_peakRoots_split split, rights, List.map_reverse, lefts, honestProof]

/-- The peaks on the left are joined last. -/
lemma bag_append (ls : List Bytes) (p : Bytes) (ps : List Bytes) :
    bag H (ls ++ p :: ps) = bagLoop H (bag H (p :: ps)) ls.reverse ∧
      rootFromPeaksHashed H (ls ++ p :: ps) =
        rootFromPeaksHashed H (p :: ps) ++ bagLoopHashed H (bag H (p :: ps)) ls.reverse := by
  have joined (x : Bytes) (xs ys : List Bytes) :
      bagLoop H x (xs ++ ys) = bagLoop H (bagLoop H x xs) ys ∧
        bagLoopHashed H x (xs ++ ys) = bagLoopHashed H x xs ++ bagLoopHashed H (bagLoop H x xs) ys := by
    induction xs generalizing x with
    | nil => exact ⟨rfl, rfl⟩
    | cons y xs ih =>
      obtain ⟨one, two⟩ := ih (H.digest (x ++ y))
      exact ⟨one, congrArg ((x ++ y) :: ·) two⟩
  rw [bag, rootFromPeaksHashed, bag, rootFromPeaksHashed, List.reverse_append]
  cases e : (p :: ps).reverse with
  | nil => simp at e
  | cons x xs => exact joined x xs ls.reverse

/-- The peaks on the right stand for their root. -/
lemma bag_compress (p : Bytes) (ps : List Bytes) : bag H (p :: compress H ps) = bag H (p :: ps) ∧
    ∀ m ∈ rootFromPeaksHashed H (p :: compress H ps), m ∈ rootFromPeaksHashed H (p :: ps) := by
  cases ps with
  | nil => exact ⟨rfl, fun m hm => hm⟩
  | cons q qs =>
    obtain ⟨bagged, hashed⟩ := bag_append (H := H) [p] q qs
    have compressed : compress H (q :: qs) = [bag H (q :: qs)] := rfl
    rw [List.singleton_append] at bagged hashed
    rw [compressed, bagged, hashed]
    exact ⟨rfl, fun m hm => List.mem_append_right _ hm⟩

/-- Compressing the peaks on the right keeps the root. -/
lemma bag_append_compress (ls : List Bytes) (p : Bytes) (ps : List Bytes) :
    bag H (ls ++ p :: compress H ps) = bag H (ls ++ p :: ps) ∧
      ∀ m ∈ rootFromPeaksHashed H (ls ++ p :: compress H ps), m ∈ rootFromPeaksHashed H (ls ++ p :: ps) := by
  obtain ⟨same, sub⟩ := bag_compress (H := H) p ps
  rw [(bag_append _ _ _).1, (bag_append _ _ _).1, (bag_append _ _ _).2, (bag_append _ _ _).2, same]
  refine ⟨rfl, fun m hm => ?_⟩
  rcases List.mem_append.mp hm with hm | hm
  · exact List.mem_append_left _ (sub m hm)
  · exact List.mem_append_right _ hm

/-- Compressed peaks have 32 bytes. -/
lemma length_of_mem_compress {ps : List Bytes} (len : ∀ x ∈ ps, x.length = 32) :
    ∀ x ∈ compress H ps, x.length = 32 := by
  intro x hx
  cases ps with
  | nil => cases hx
  | cons q qs =>
    obtain rfl : x = bag H (q :: qs) := List.mem_singleton.mp hx
    exact length_bag H len

/-- The path of a proof is folded by climbing. -/
lemma foldSteps_eq_some {v out : Bytes} {steps : List PathStep} {proof rest : List Bytes} :
    foldSteps H v steps proof = some (out, rest) ↔
      ∃ w, w.length = steps.length ∧ proof = w ++ rest ∧ climb (nodeHash H) v steps w = out := by
  induction steps generalizing v proof with
  | nil =>
    rw [foldSteps]
    constructor
    · intro eq
      cases eq
      exact ⟨[], rfl, rfl, rfl⟩
    · rintro ⟨w, none_, rfl, rfl⟩
      obtain rfl : w = [] := List.length_eq_zero_iff.mp none_
      rfl
  | cons step steps ih =>
    cases proof with
    | nil =>
      rw [foldSteps]
      constructor
      · intro eq
        cases eq
      · rintro ⟨w, count, eq, -⟩
        obtain ⟨rfl, -⟩ := List.append_eq_nil_iff.mp eq.symm
        cases count
    | cons x proof =>
      have either : foldSteps H v (step :: steps) (x :: proof) =
          foldSteps H (join (nodeHash H) step v x) steps proof := by
        rw [foldSteps, join]
        split
        · rfl
        · rfl
      rw [either, ih]
      constructor
      · rintro ⟨w, count, rfl, reached⟩
        exact ⟨x :: w, congrArg (· + 1) count, rfl, reached⟩
      · rintro ⟨w, count, eq, reached⟩
        cases w with
        | nil => cases count
        | cons y w =>
          obtain ⟨rfl, rfl⟩ := List.cons.inj eq
          exact ⟨w, Nat.succ.inj count, rfl, reached⟩

/-- The peaks on the right are folded in one. -/
lemma foldRight_eq_some {more : Bool} {v out : Bytes} {proof rest : List Bytes} :
    foldRight H more v proof = some (out, rest) ↔
      ∃ r, r.length = more.toNat ∧ proof = r ++ rest ∧ bag H (v :: r) = out := by
  cases more with
  | false =>
    constructor
    · intro eq
      cases eq
      exact ⟨[], rfl, rfl, rfl⟩
    · rintro ⟨r, none_, rfl, rfl⟩
      obtain rfl : r = [] := List.length_eq_zero_iff.mp none_
      rfl
  | true =>
    constructor
    · intro eq
      cases proof with
      | nil => cases eq
      | cons right proof =>
        cases eq
        exact ⟨[right], rfl, rfl, rfl⟩
    · rintro ⟨r, one, rfl, rfl⟩
      obtain ⟨right, rfl⟩ := List.length_eq_one_iff.mp one
      rfl

/-- The peaks on the left are folded one by one. -/
lemma foldLeft_eq_some {k : ℕ} {v out : Bytes} {proof rest : List Bytes} :
    foldLeft H k v proof = some (out, rest) ↔
      ∃ l, l.length = k ∧ proof = l ++ rest ∧ bagLoop H v l = out := by
  induction k generalizing v proof with
  | zero =>
    constructor
    · intro eq
      cases eq
      exact ⟨[], rfl, rfl, rfl⟩
    · rintro ⟨l, none_, rfl, rfl⟩
      obtain rfl : l = [] := List.length_eq_zero_iff.mp none_
      rfl
  | succ k ih =>
    cases proof with
    | nil =>
      constructor
      · intro eq
        cases eq
      · rintro ⟨l, count, eq, -⟩
        obtain ⟨rfl, -⟩ := List.append_eq_nil_iff.mp eq.symm
        cases count
    | cons item proof =>
      rw [foldLeft, ih]
      constructor
      · rintro ⟨l, count, rfl, reached⟩
        exact ⟨item :: l, congrArg (· + 1) count, rfl, reached⟩
      · rintro ⟨l, count, eq, reached⟩
        cases l with
        | nil => cases count
        | cons y l =>
          obtain ⟨rfl, rfl⟩ := List.cons.inj eq
          exact ⟨l, Nat.succ.inj count, rfl, reached⟩

/-- A proof of the shape that the size and the index fix: the path, at most one root of the peaks on the
right, and the peaks on the left. -/
structure Shaped (left right : List (ℕ × ℕ)) (d : ℕ) (w r l : List Bytes) : Prop where
  path : w.length = d
  right : r.length = (!right.isEmpty).toNat
  left : l.length = left.length

section Fold

variable {n i d : ℕ} {left right : List (ℕ × ℕ)} {value : Bytes}

/-- What the verifier computes from the size and the index. -/
lemma geometry (small : nodeCount n < maxMmrSize) (split : mountains n = left ++ (d, i / 2 ^ d) :: right)
    (found : findContainingPeak (root 0 i) (peakRoots n n.size) = some left.length) :
    findContainingPeak (nodeCount i) (peakPositions (nodeCount n)) = some left.length ∧
      locatePath ((peakPositions (nodeCount n)).getD left.length 0)
        (heightAt ((peakPositions (nodeCount n)).getD left.length 0)) (nodeCount i) = ascent 0 i d ∧
      decide (left.length < (peakPositions (nodeCount n)).length - 1) = !right.isEmpty := by
  have position : nodeCount i = root 0 i := (nodeCount_eq i).trans (root_zero i).symm
  have steps : locatePath (root d (i / 2 ^ d)) d (root 0 i) = ascent 0 i d := by
    simpa using locatePath_root 0 i d
  rw [peakPositions_nodeCount small, position, getD_peakRoots_split split, heightAt_root,
    length_peakRoots_split split]
  refine ⟨found, steps, ?_⟩
  cases right with
  | nil => simp
  | cons b right => simp

/-- The verifier takes a proof of the right shape apart and bags its path among the peaks. -/
lemma foldInclusion_eq_some (small : nodeCount n < maxMmrSize)
    (split : mountains n = left ++ (d, i / 2 ^ d) :: right)
    (found : findContainingPeak (root 0 i) (peakRoots n n.size) = some left.length)
    {proof : List Bytes} {out : Bytes} :
    foldInclusion H (nodeCount n) i value proof = some (out, []) ↔
      ∃ w r l, Shaped left right d w r l ∧ proof = w ++ (r ++ l) ∧
        bag H (l.reverse ++ climb (nodeHash H) (H.digest (0 :: value)) (ascent 0 i d) w :: r) = out := by
  obtain ⟨peak, steps, more⟩ := geometry small split found
  rw [foldInclusion, peak]
  simp only [Option.bind_eq_bind, Option.bind_some, steps, more]
  constructor
  · intro eq
    obtain ⟨⟨v, rest⟩, first, eq⟩ := Option.bind_eq_some_iff.mp eq
    obtain ⟨⟨v', rest'⟩, second, third⟩ := Option.bind_eq_some_iff.mp eq
    obtain ⟨w, countw, rfl, rfl⟩ := foldSteps_eq_some.mp first
    obtain ⟨r, countr, rfl, rfl⟩ := foldRight_eq_some.mp second
    obtain ⟨l, countl, rfl, reached⟩ := foldLeft_eq_some.mp third
    rw [length_ascent] at countw
    refine ⟨w, r, l, ⟨countw, countr, countl⟩, by rw [List.append_nil], ?_⟩
    rw [(bag_append _ _ _).1, List.reverse_reverse]
    exact reached
  · rintro ⟨w, r, l, shaped, rfl, reached⟩
    rw [(bag_append _ _ _).1, List.reverse_reverse] at reached
    have count : w.length = (ascent 0 i d).length := shaped.path.trans (length_ascent 0 i d).symm
    refine Option.bind_eq_some_iff.mpr ⟨_, foldSteps_eq_some.mpr ⟨w, count, rfl, rfl⟩, ?_⟩
    refine Option.bind_eq_some_iff.mpr ⟨_, foldRight_eq_some.mpr ⟨r, shaped.right, rfl, rfl⟩, ?_⟩
    exact foldLeft_eq_some.mpr ⟨l, shaped.left, (List.append_nil l).symm, reached⟩

/-- Items behind the path play no part in it. -/
lemma climb_append_rest (v : Bytes) {steps : List PathStep} {w : List Bytes} (count : steps.length = w.length)
    (rest : List Bytes) : climb (nodeHash H) v steps (w ++ rest) = climb (nodeHash H) v steps w ∧
      climbArgs (nodeHash H) v steps (w ++ rest) = climbArgs (nodeHash H) v steps w := by
  induction steps generalizing v w with
  | nil =>
    obtain rfl : w = [] := List.length_eq_zero_iff.mp count.symm
    exact ⟨by simp, rfl⟩
  | cons step steps ih =>
    cases w with
    | nil => cases count
    | cons x w =>
      obtain ⟨one, two⟩ := ih (join (nodeHash H) step v x) (Nat.succ.inj count)
      exact ⟨one, congrArg (_ :: ·) two⟩

/-- The strings that a folded proof hashes are those of its path and peaks. -/
lemma foldInclusionHashed_eq (small : nodeCount n < maxMmrSize)
    (split : mountains n = left ++ (d, i / 2 ^ d) :: right)
    (found : findContainingPeak (root 0 i) (peakRoots n n.size) = some left.length)
    {w r l : List Bytes} (shaped : Shaped left right d w r l) :
    foldInclusionHashed H (nodeCount n) i value (w ++ (r ++ l)) =
      (0 :: value) :: (climbArgs (nodeHash H) (H.digest (0 :: value)) (ascent 0 i d) w).map nodePreimage ++
        rootFromPeaksHashed H
          (l.reverse ++ climb (nodeHash H) (H.digest (0 :: value)) (ascent 0 i d) w :: r) := by
  obtain ⟨peak, steps, more⟩ := geometry small split found
  have count : (ascent 0 i d).length = w.length := (length_ascent 0 i d).trans shaped.path.symm
  obtain ⟨climbed, args⟩ := climb_append_rest (H := H) (H.digest (0 :: value)) count (r ++ l)
  rw [foldInclusionHashed, peak]
  simp only [steps, more]
  rw [climbed, args, count, List.drop_left, (bag_append _ _ _).2, List.reverse_reverse]
  congr 1
  have countr := shaped.right
  cases right with
  | nil =>
    obtain rfl : r = [] := List.length_eq_zero_iff.mp countr
    rfl
  | cons b right =>
    obtain ⟨x, rfl⟩ := List.length_eq_one_iff.mp countr
    rfl

end Fold

/-- What the checks in front of the fold let through. -/
lemma verifyInclusionValue_eq_true {root : Bytes} {size leafIndex : ℤ} {value : Bytes} {proof : List Bytes} :
    verifyInclusionValue H root size leafIndex value proof = true ↔
      ∃ n i : ℕ, size = nodeCount n ∧ nodeCount n < maxMmrSize ∧ leafIndex = i ∧ i < n ∧ root.length = 32 ∧
        value.length = 32 ∧ (∀ x ∈ proof, x.length = 32) ∧
        foldInclusion H (nodeCount n) i value proof = some (root, []) := by
  have limit : maxMmrSize ≤ maxSafeInteger := by decide
  constructor
  · intro accept
    unfold verifyInclusionValue at accept
    split at accept
    · cases accept
    rename_i nonneg
    split at accept
    · cases accept
    rename_i n count
    split at accept
    · cases accept
    rename_i checks
    simp only [not_or, not_lt, not_le, not_not, not_exists, not_and, ge_iff_le] at checks
    obtain ⟨lenRoot, lenValue, small, first, lt, len⟩ := checks
    split at accept
    · cases accept
    rename_i v rest folded
    obtain ⟨used, same⟩ := Bool.and_eq_true_iff.mp accept
    obtain rfl : rest = [] := List.isEmpty_iff.mp used
    obtain rfl : v = root := beq_iff_eq.mp same
    have size_eq : size.toNat = nodeCount n := ((leafCount_eq_some.mp count).1.symm).trans (nodeCount_eq n).symm
    rw [size_eq] at folded
    exact ⟨n, leafIndex.toNat, by omega, by omega, by omega, by omega, lenRoot, lenValue, len, folded⟩
  · rintro ⟨n, i, rfl, small, rfl, lt, lenRoot, lenValue, len, folded⟩
    have count : leafCount (nodeCount n) = some n := leafCount_eq_some.mpr ⟨(nodeCount_eq n).symm, by omega⟩
    rw [verifyInclusionValue, if_neg (by omega), Int.toNat_natCast, count]
    dsimp only
    rw [if_neg, Int.toNat_natCast, folded]
    · simp
    · rintro (short | short | large | negative | behind | ⟨x, hx, short⟩)
      · exact short lenRoot
      · exact short lenValue
      · omega
      · omega
      · omega
      · exact short (len x hx)

/-- What holds of all peaks holds of those on each side. -/
lemma forall_mem_middle {P : Bytes → Prop} {ls rs : List Bytes} {p : Bytes}
    (all : ∀ x ∈ ls ++ p :: rs, P x) : (∀ x ∈ ls, P x) ∧ P p ∧ ∀ x ∈ rs, P x :=
  ⟨fun x hx => all x (List.mem_append_left _ hx), all p (List.mem_append_right _ List.mem_cons_self),
    fun x hx => all x (List.mem_append_right _ (List.mem_cons_of_mem _ hx))⟩

section Agreement

variable {leaves : List Bytes} {t : MmrTree}

/-- What the prover gives has the shape that the verifier takes apart. -/
lemma shaped_honest (leaves : List Bytes) (i d : ℕ) (left right : List (ℕ × ℕ)) :
    Shaped left right d (siblingHashes H leaves 0 i d)
      (compress H (right.map fun b => treeHash H leaves b.1 b.2))
      (left.map fun b => treeHash H leaves b.1 b.2).reverse := by
  refine ⟨length_siblingHashes _ _ _ _, ?_, by simp⟩
  cases right with
  | nil => rfl
  | cons b right => rfl

/-- The root of the tree bags the mountains. -/
lemma MmrTree.Holds.root_eq (holds : t.Holds H leaves) :
    t.root H = bag H (mountainHashes H leaves leaves.length) := by
  rw [MmrTree.root, holds.peakHashes, rootFromPeaks_eq]

/-- The proof of a leaf of the tree is accepted for every value under the leaf. -/
lemma MmrTree.Holds.inclusionProof_accepted (holds : t.Holds H leaves)
    (len : ∀ l ∈ leaves, l.length = 32) (small : nodeCount leaves.length < maxMmrSize) {i : ℕ}
    {value : Bytes} (lenValue : value.length = 32) (leaf : leaves[i]? = some (H.digest (0 :: value))) :
    ∃ proof, t.inclusionProof H i = some proof ∧
      verifyInclusionValue H (t.root H) t.nodes.length i value proof = true := by
  obtain ⟨lt, here⟩ := List.getElem?_eq_some_iff.mp leaf
  obtain ⟨left, right, d, split, found⟩ := exists_mountain lt
  have complete : ∀ b ∈ mountains leaves.length, Complete leaves.length b.1 b.2 := fun b hb =>
    mountain_complete_of_mem hb
  have top : Complete leaves.length (0 + d) (i / 2 ^ d) := by
    rw [Nat.zero_add]
    exact complete (d, i / 2 ^ d) (by simp [split])
  have lenPeaks := length_of_mem_mountainHashes (H := H) len le_rfl
  rw [mountainHashes, split, List.map_append, List.map_cons] at lenPeaks
  obtain ⟨lenLefts, -, lenRights⟩ := forall_mem_middle lenPeaks
  have digests : ∀ x ∈ honestProof H leaves i d left right, x.length = 32 := by
    intro x hx
    rcases List.mem_append.mp hx with hx | hx
    · rcases List.mem_append.mp hx with hx | hx
      · exact length_of_mem_siblingHashes len top x hx
      · exact length_of_mem_compress lenRights x hx
    · exact lenLefts x (List.mem_reverse.mp hx)
  refine ⟨_, inclusionProof_of_holds holds lt split, verifyInclusionValue_eq_true.mpr
    ⟨leaves.length, i, by rw [holds.1.length_eq], small, rfl, lt, ?_, lenValue, digests, ?_⟩⟩
  · rw [holds.root_eq]
    exact length_bag H (length_of_mem_mountainHashes len le_rfl)
  · rw [foldInclusion_eq_some small split found]
    refine ⟨_, _, _, shaped_honest leaves i d left right, List.append_assoc _ _ _, ?_⟩
    have start : H.digest (0 :: value) = treeHash H leaves 0 i := by rw [treeHash_zero H lt, here]
    have climbed : climb (nodeHash H) (treeHash H leaves 0 i) (ascent 0 i d) (siblingHashes H leaves 0 i d) =
        treeHash H leaves (0 + d) (i / 2 ^ d) := climb_ascent _ _ 0 i d
    rw [start, climbed, List.reverse_reverse, Nat.zero_add, (bag_append_compress _ _ _).1, holds.root_eq,
      mountainHashes, split, List.map_append, List.map_cons]

/-- An accepted proof reaches the leaf of the tree at its index, if the hash has no collision among the
strings of the tree, of its root and of the verifier. -/
lemma MmrTree.Holds.verifyInclusionValue_pins (holds : t.Holds H leaves)
    (len : ∀ l ∈ leaves, l.length = 32) {leafIndex : ℤ} {value : Bytes} {proof : List Bytes} {S : Set Bytes}
    (inj : Set.InjOn H.digest S) (inTree : ∀ s ∈ interiorHashed t.nodes, s ∈ S)
    (inRoot : ∀ s ∈ rootFromPeaksHashed H t.peakHashes, s ∈ S)
    (inVerify : ∀ s ∈ foldInclusionHashed H t.nodes.length leafIndex.toNat value proof, s ∈ S)
    (accept : verifyInclusionValue H (t.root H) t.nodes.length leafIndex value proof = true) :
    ∃ i : ℕ, leafIndex = i ∧ leaves[i]? = some (H.digest (0 :: value)) ∧ 0 :: value ∈ S := by
  obtain ⟨n, i, size, small, rfl, lt, -, -, digests, folded⟩ := verifyInclusionValue_eq_true.mp accept
  have nodes : t.nodes.length = nodeCount n := Int.ofNat_inj.mp size
  obtain rfl : leaves.length = n := by
    have same := holds.1.length_eq.symm.trans nodes
    rw [nodeCount_eq, nodeCount_eq] at same
    exact forestSize_injective same
  obtain ⟨left, right, d, split, found⟩ := exists_mountain lt
  obtain ⟨w, r, l, shaped, rfl, bagged⟩ := (foldInclusion_eq_some small split found).mp folded
  rw [nodes, Int.toNat_natCast, foldInclusionHashed_eq small split found shaped] at inVerify
  have top : Complete leaves.length (0 + d) (i / 2 ^ d) := by
    rw [Nat.zero_add]
    exact mountain_complete_of_mem (b := (d, i / 2 ^ d)) (by simp [split])
  have start : (H.digest (0 :: value)).length = 32 := H.length_digest _
  have lenPath : ∀ x ∈ w, x.length = 32 := fun x hx => digests x (List.mem_append_left _ hx)
  have lenRest : ∀ x ∈ r ++ l, x.length = 32 := fun x hx => digests x (List.mem_append_right _ hx)
  have lenPeaks := length_of_mem_mountainHashes (H := H) len le_rfl
  have peaks := holds.peakHashes
  rw [mountainHashes, split, List.map_append, List.map_cons] at lenPeaks peaks
  obtain ⟨lenLefts, lenTop, lenRights⟩ := forall_mem_middle lenPeaks
  have honest := shaped_honest (H := H) leaves i d left right
  obtain ⟨joined, sub⟩ := bag_append_compress (H := H) (left.map fun b => treeHash H leaves b.1 b.2)
    (treeHash H leaves d (i / 2 ^ d)) (right.map fun b => treeHash H leaves b.1 b.2)
  -- With the peaks on the right joined, as many peaks are bagged here as there.
  rw [MmrTree.root, rootFromPeaks_eq, peaks, ← joined] at bagged
  rw [peaks] at inRoot
  have same := bag_pins inj (by simp [shaped.left, shaped.right, honest.right]) ?_ ?_
    (fun m hm => inVerify m (List.mem_append_right _ hm)) (fun m hm => inRoot m (sub m hm)) bagged
  · obtain ⟨-, same⟩ := List.append_inj same (by simp [shaped.left])
    obtain ⟨reached, -⟩ := List.cons.inj same
    obtain ⟨bottom, -⟩ := holds.1.climb_pins len inj inTree start lenPath shaped.path
      (fun s hs => inVerify _ (List.mem_append_left _ (List.mem_cons_of_mem _ (List.mem_map_of_mem hs))))
      top (by rw [Nat.zero_add]; exact reached)
    rw [treeHash_zero H lt] at bottom
    exact ⟨i, rfl, by rw [bottom, List.getElem?_eq_getElem lt],
      inVerify _ (List.mem_append_left _ List.mem_cons_self)⟩
  · intro x hx
    rcases List.mem_append.mp hx with hx | hx
    · exact lenRest x (List.mem_append_right _ (List.mem_reverse.mp hx))
    · rcases List.mem_cons.mp hx with rfl | hx
      · exact length_climb start (ascent 0 i d) w
      · exact lenRest x (List.mem_append_left _ hx)
  · intro x hx
    rcases List.mem_append.mp hx with hx | hx
    · exact lenLefts x hx
    · rcases List.mem_cons.mp hx with rfl | hx
      · exact lenTop
      · exact length_of_mem_compress lenRights x hx

end Agreement

/-- On a new tree to which values have been appended one after another, the proof of every leaf is accepted
for the value appended there, and no proof is accepted for another value at its index, as long as the hash
has no collision among the strings hashed. -/
theorem inclusionValues (H : HashFunction) (values : List Bytes)
    (fits : nodeCount (appended values).length ≤ maxArrayLength) :
    (∀ (i : ℕ) (value : Bytes), (appended values)[i]? = some value →
      ∃ proof, (MmrTree.empty.appendAll H values).inclusionProof H i = some proof ∧
        verifyInclusionValue H ((MmrTree.empty.appendAll H values).root H)
          (MmrTree.empty.appendAll H values).nodes.length i value proof = true) ∧
    ∀ (leafIndex : ℤ) (value : Bytes) (proof : List Bytes),
      Set.InjOn H.digest {s | s ∈ appendHashed values (MmrTree.empty.appendAll H values) ∨
        s ∈ rootFromPeaksHashed H (MmrTree.empty.appendAll H values).peakHashes ∨
        s ∈ foldInclusionHashed H (MmrTree.empty.appendAll H values).nodes.length leafIndex.toNat value
          proof} →
      verifyInclusionValue H ((MmrTree.empty.appendAll H values).root H)
        (MmrTree.empty.appendAll H values).nodes.length leafIndex value proof = true →
      ∃ i : ℕ, leafIndex = i ∧ (appended values)[i]? = some value := by
  have holds := appendAll_holds (H := H) values
  have count : (valueLeaves H values).length = (appended values).length := List.length_map _
  have len : ∀ l ∈ valueLeaves H values, l.length = 32 := by
    intro l hl
    obtain ⟨value, -, rfl⟩ := List.mem_map.mp hl
    exact H.length_digest _
  have small : nodeCount (valueLeaves H values).length < maxMmrSize := by
    rw [count]
    exact Nat.lt_of_le_of_lt fits (by decide)
  constructor
  · intro i value here
    have lenValue : value.length = 32 := by
      have kept := (List.mem_filter.mp (List.mem_of_getElem? here)).2
      exact of_decide_eq_true kept
    refine holds.inclusionProof_accepted len small lenValue ?_
    rw [valueLeaves, List.getElem?_map, here]
    rfl
  · intro leafIndex value proof inj accept
    obtain ⟨i, index, leaf, inS⟩ := holds.verifyInclusionValue_pins len inj
      (fun s hs => .inl (List.mem_append_right _ hs)) (fun s hs => .inr (.inl hs))
      (fun s hs => .inr (.inr hs)) accept
    rw [valueLeaves, List.getElem?_map] at leaf
    obtain ⟨own, here, same⟩ := Option.map_eq_some_iff.mp leaf
    have inOwn : 0 :: own ∈ appendHashed values (MmrTree.empty.appendAll H values) :=
      List.mem_append_left _ (List.mem_map_of_mem (List.mem_of_getElem? here))
    obtain ⟨-, rfl⟩ := List.cons.inj (inj (.inl inOwn) inS same)
    exact ⟨i, index, here⟩

/-- The hashes of the two leaves and of their parent. -/
def sampleHashes (H : HashFunction) : List Bytes :=
  let a := H.digest (0 :: List.replicate 32 1)
  let b := H.digest (0 :: List.replicate 32 2)
  [a, b, nodeHash H 2 a b]

/-- The strings hashed for them. -/
def sampleStrings (H : HashFunction) : List Bytes :=
  let a := 0 :: List.replicate 32 1
  let b := 0 :: List.replicate 32 2
  [a, b, nodePreimage (2, H.digest a, H.digest b)]

/-- The peak of the sample tree. -/
lemma peakHashes_sample :
    (MmrTree.empty.appendAll H sampleValues).peakHashes = [(sampleHashes H).getD 2 []] := rfl

/-- The proof of the sample leaf. -/
lemma inclusionProof_sample : (MmrTree.empty.appendAll H sampleValues).inclusionProof H 1 =
    some [(sampleHashes H).getD 0 []] := rfl

/-- What the sample tree hashes. -/
lemma appendHashed_sample :
    appendHashed sampleValues (MmrTree.empty.appendAll H sampleValues) = sampleStrings H := rfl

/-- The hashes under SHA-256: they are the first nodes of the sample store. -/
lemma sampleHashes_bytes : sampleHashes sha256Hash = sampleNodes.take 3 := by
  have mmr := IsMmr.of_addDigests sampleNodes_eq
  have one : sampleNodes[0]? = some (treeHash sha256Hash (leaves sha256Hash sampleDigests) 0 0) :=
    mmr.node_eq 0 0 (by simp [Complete, sampleDigests])
  have two : sampleNodes[1]? = some (treeHash sha256Hash (leaves sha256Hash sampleDigests) 0 1) :=
    mmr.node_eq 0 1 (by simp [Complete, sampleDigests])
  have three : sampleNodes[2]? = some (treeHash sha256Hash (leaves sha256Hash sampleDigests) 1 0) :=
    mmr.node_eq 1 0 (by simp [Complete, sampleDigests])
  rw [sampleNodes_bytes] at one two three ⊢
  rw [List.take, Option.some.inj one, List.take, Option.some.inj two, List.take, Option.some.inj three]
  rfl

/-- The digest has no collision on what the sample tree hashes. -/
lemma injOn_sampleStrings : Set.InjOn sha256Hash.digest {s | s ∈ sampleStrings sha256Hash} := by
  have apart : ((sampleStrings sha256Hash).map sha256Hash.digest).Nodup := by
    have hashes : (sampleStrings sha256Hash).map sha256Hash.digest = sampleHashes sha256Hash := rfl
    rw [hashes, sampleHashes_bytes, sampleNodes_bytes]
    decide
  exact fun a ha b hb same => List.inj_on_of_nodup_map apart ha hb same

/-- The second value of the sample tree is proved. -/
theorem inclusionValues_sample :
    ∃ i : ℕ, (1 : ℤ) = i ∧ (appended sampleValues)[i]? = some (List.replicate 32 2) := by
  obtain ⟨complete, sound⟩ := inclusionValues sha256Hash sampleValues (by decide)
  obtain ⟨proof, given, accept⟩ := complete 1 (List.replicate 32 2) rfl
  obtain rfl := Option.some.inj (inclusionProof_sample.symm.trans given)
  refine sound 1 (List.replicate 32 2) _ (injOn_sampleStrings.mono ?_) accept
  rintro s (hs | hs | hs)
  · exact appendHashed_sample ▸ hs
  · rw [peakHashes_sample] at hs
    exact absurd hs List.not_mem_nil
  · have here : s ∈ [0 :: List.replicate 32 2, (sampleStrings sha256Hash).getD 2 []] := hs
    rcases List.mem_cons.mp here with rfl | hs
    · exact List.mem_cons_of_mem _ List.mem_cons_self
    · obtain rfl := List.mem_singleton.mp hs
      exact List.mem_cons_of_mem _ (List.mem_cons_of_mem _ List.mem_cons_self)

end CLL.Ts
