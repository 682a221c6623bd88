import CLL.Core.Store

/-!
# Inclusion proofs

`inclusion_proof` and `verify_inclusion` of `checkpoint/core.py`. The verifier is a total function of
arbitrary arguments. Its checks come first (`checkInclusion`), then it hashes: it folds the path from the
leaf to its peak and bags the result among the other peaks.

`verifyInclusion_complete`: the proof read out of a store at any earlier size is accepted against the
root of that size. `verifyInclusion_sound`: against the root of a store nothing is accepted but its own
leaves at their own indices, as long as the hash has no collision among the strings hashed.
-/

namespace CLL.Core
open PostOrder

variable (H : HashFunction)

/-- `InclusionProof`. -/
structure InclusionProof where
  v : ℤ
  kind : Str
  size : ℤ
  leafIndex : ℤ
  witness : List Str
  peaksLeft : List Str
  peaksRight : List Str

/-- The proof as the object a verifier receives. -/
def InclusionProof.toObj (proof : InclusionProof) : Obj :=
  .inst .inclusionProof [
    ("v", .int proof.v),
    ("kind", .str proof.kind),
    ("size", .int proof.size),
    ("leaf_index", .int proof.leafIndex),
    ("witness", .tuple (proof.witness.map .str)),
    ("peaks_left", .tuple (proof.peaksLeft.map .str)),
    ("peaks_right", .tuple (proof.peaksRight.map .str))]

/-- `inclusion_proof`. -/
def inclusionProof (reader : List Bytes) (leafIndex size : ℤ) : Py InclusionProof := do
  let lc ← leafCountObj (.int size)
  require (0 ≤ leafIndex ∧ leafIndex < lc) .invalidArgument s!"leaf_index out of range: {leafIndex}"
  let readerSize := reader.length
  require (size ≤ readerSize) .integrity
    s!"reader size {readerSize} is smaller than requested size {size}"
  let leafPos ← leafIndexToPosObj (.int leafIndex)
  let pks ← peaksObj (.int size)
  match findContainingPeak leafPos pks with
  | none => raise .integrity s!"leaf position {leafPos} not found under any peak"
  | some peakIdx => do
    let peakPos := pks.getD peakIdx 0
    let peakHeight := heightAt peakPos
    let path := locatePath peakPos peakHeight leafPos
    let witness ← path.mapM fun step => node reader step.siblingPos
    let peaksLeft ← (pks.take peakIdx).mapM (node reader)
    let peaksRight ← (pks.drop (peakIdx + 1)).mapM (node reader)
    .ok ⟨1, .lit "inclusion", size, leafIndex, witness.map toHex, peaksLeft.map toHex,
      peaksRight.map toHex⟩

/-- What `verify_inclusion` hashes once its checks have passed. -/
structure InclusionInput where
  root : Bytes
  bodyDigest : Bytes
  path : List PathStep
  witness : List Bytes
  peaksLeft : List Bytes
  peaksRight : List Bytes

/-- The checks of `verify_inclusion`. -/
def checkInclusion (root size leafIndex bodyDigest proof : Obj) : Py InclusionInput := do
  let root ← assertDigestObj root "root"
  let bodyDigest ← assertDigestObj bodyDigest "body_digest"
  ensure (proof.eq .none = false)
  ensure ((← proof.attr "v").eq (.int 1))
  ensure ((← proof.attr "kind").eq (.str (.lit "inclusion")))
  ensure ((← proof.attr "size").eq size)
  ensure ((← proof.attr "leaf_index").eq leafIndex)
  let s ← need size.intLike?
  ensure (0 ≤ s ∧ s < maxMmrSize)
  let i ← need leafIndex.intLike?
  ensure (0 ≤ i)
  let witness ← need (← proof.attr "witness").seq?
  let peaksLeft ← need (← proof.attr "peaks_left").seq?
  let peaksRight ← need (← proof.attr "peaks_right").seq?
  let lc ← leafCountObj size
  ensure (i < lc)
  let leafPos ← leafIndexToPosObj leafIndex
  let pks ← peaksObj size
  let peakIdx ← need (findContainingPeak leafPos pks)
  let peakPos := pks.getD peakIdx 0
  let peakHeight := heightAt peakPos
  let path := locatePath peakPos peakHeight leafPos
  ensure (witness.length = path.length)
  ensure (peaksLeft.length = peakIdx)
  ensure (peaksRight.length = pks.length - peakIdx - 1)
  let witness ← parseDigests witness
  let peaksLeft ← parseDigests peaksLeft
  let peaksRight ← parseDigests peaksRight
  .ok ⟨root, bodyDigest, path, witness, peaksLeft, peaksRight⟩

/-- The hash of the parent a step arrives at. -/
def foldStep (acc : Bytes) (step : PathStep) (sib : Bytes) : Py Bytes :=
  if step.targetIsRight then interiorHash H sib acc step.parentPos
  else interiorHash H acc sib step.parentPos

/-- `for step, sib in zip(path, siblings): acc = …`. -/
def foldPath (acc : Bytes) : List PathStep → List Bytes → Py Bytes
  | step :: path, sib :: siblings => do
    let acc ← foldStep H acc step sib
    foldPath acc path siblings
  | _, _ => .ok acc

/-- `verify_inclusion`. -/
def verifyInclusion (root size leafIndex bodyDigest proof : Obj) : Bool :=
  verdict do
    let x ← checkInclusion root size leafIndex bodyDigest proof
    let acc ← leafHash H x.bodyDigest
    let acc ← foldPath H acc x.path x.witness
    let computedRoot ← rootFromPeaks H (x.peaksLeft ++ acc :: x.peaksRight)
    .ok (computedRoot == x.root)

/-- The strings `verifyInclusion` hashes. -/
def verifyInclusionHashed (root size leafIndex bodyDigest proof : Obj) : List Bytes :=
  match checkInclusion root size leafIndex bodyDigest proof with
  | .error _ => []
  | .ok x =>
    let leaf := H.digest (0 :: x.bodyDigest)
    (0 :: x.bodyDigest) :: (climbArgs (nodeHash H) leaf x.path x.witness).map nodePreimage ++
      rootFromPeaksHashed H
        (x.peaksLeft ++ climb (nodeHash H) leaf x.path x.witness :: x.peaksRight)

/-- What is known of the inputs the checks let through. -/
structure InclusionInput.Checked (x : InclusionInput) (n i : ℕ) (left right : List (ℕ × ℕ))
    (d : ℕ) : Prop where
  mountains_eq : mountains n = left ++ (d, i / 2 ^ d) :: right
  path_eq : x.path = ascent 0 i d
  length_bodyDigest : x.bodyDigest.length = 32
  length_witness : x.witness.length = d
  length_peaksLeft : x.peaksLeft.length = left.length
  length_peaksRight : x.peaksRight.length = right.length
  digest_witness : ∀ b ∈ x.witness, b.length = 32
  digest_peaksLeft : ∀ b ∈ x.peaksLeft, b.length = 32
  digest_peaksRight : ∀ b ∈ x.peaksRight, b.length = 32

/-- The checks fix the size, the index and the shape of everything hashed. -/
lemma checkInclusion_eq_ok {root size leafIndex bodyDigest proof : Obj} {x : InclusionInput}
    (ok : checkInclusion root size leafIndex bodyDigest proof = .ok x) :
    root.digest? = some x.root ∧ bodyDigest.digest? = some x.bodyDigest ∧
    ∃ n i : ℕ, size = .int (nodeCount n) ∧ nodeCount n < maxMmrSize ∧ leafIndex = .int i ∧ i < n ∧
      ∃ left right d, x.Checked n i left right d := by
  simp only [checkInclusion, bind_eq_ok, ensure_eq_ok, need_eq_ok, assertDigestObj_eq_ok,
    exists_const] at ok
  obtain ⟨r, ⟨hr, -⟩, b, ⟨hb, lenb⟩, -, ok⟩ := ok
  obtain ⟨v, -, -, kind, -, -, psize, -, -, pindex, -, -, ok⟩ := ok
  obtain ⟨s, -, -, j, hj, -, w, -, ws, -, l, -, ls, -, r', -, rs, -, ok⟩ := ok
  obtain ⟨n, hn, lt, pos, hpos, pks, hpks, peakIdx, found, lenw, lenl, lenr, ok⟩ := ok
  obtain ⟨ws', hws, ls', hls, rs', hrs, e⟩ := ok
  cases e
  refine ⟨hr, hb, ?_⟩
  obtain ⟨small, rfl⟩ := leafCountObj_eq_ok hn
  obtain ⟨i, rfl, rfl⟩ := leafIndexToPosObj_eq_ok hpos
  cases hj
  rw [peaksObj_nodeCount small] at hpks
  cases hpks
  have lt : i < n := Int.ofNat_lt.mp lt
  have c : Complete n 0 i := by simpa [Complete] using lt
  obtain ⟨left, right, d, em, found'⟩ := findContainingPeak_root c
  rw [found] at found'
  cases found'
  rw [Nat.zero_add] at em
  have peak : (peakRoots n n.size).getD left.length 0 = PostOrder.root d (i / 2 ^ d) := by
    simp [peakRoots_eq, em]
  have epath : locatePath (PostOrder.root d (i / 2 ^ d)) d (PostOrder.root 0 i) = ascent 0 i d := by
    simpa using locatePath_root 0 i d
  rw [peak, heightAt_root, epath] at lenw
  have count : (peakRoots n n.size).length = left.length + right.length + 1 := by
    simp [peakRoots_eq, em]
    omega
  obtain ⟨eqw, dw⟩ := parseDigests_eq_ok hws
  obtain ⟨eql, dl⟩ := parseDigests_eq_ok hls
  obtain ⟨eqr, dr⟩ := parseDigests_eq_ok hrs
  refine ⟨n, i, rfl, small, rfl, lt, left, right, d, em, ?_, lenb, ?_, ?_, ?_, dw, dl, dr⟩
  · rw [peak, heightAt_root, epath]
  · rw [eqw, lenw, length_ascent]
  · rw [eql, lenl]
  · rw [eqr, lenr, count]
    omega

/-- One step up joins the two hashes. -/
lemma foldStep_eq_ok {acc out sib : Bytes} {step : PathStep}
    (ok : foldStep H acc step sib = .ok out) : out = join (nodeHash H) step acc sib := by
  unfold foldStep at ok
  unfold join
  cases e : step.targetIsRight with
  | true =>
    rw [e] at ok
    exact interiorHash_eq_ok H ok
  | false =>
    rw [e] at ok
    exact interiorHash_eq_ok H ok

/-- A folded path is the climb along it. -/
lemma foldPath_eq_ok {acc out : Bytes} {path : List PathStep} {siblings : List Bytes}
    (ok : foldPath H acc path siblings = .ok out) :
    out = climb (nodeHash H) acc path siblings := by
  induction path generalizing acc siblings with
  | nil =>
    cases ok
    rfl
  | cons step path ih =>
    cases siblings with
    | nil =>
      cases ok
      rfl
    | cons sib siblings =>
      obtain ⟨acc', h, ok⟩ := bind_eq_ok.mp ok
      rw [ih ok, foldStep_eq_ok H h]
      rfl

variable {H}

/-- What an accepted inclusion proof passes. -/
lemma verifyInclusion_eq_true {root size leafIndex bodyDigest proof : Obj}
    (accept : verifyInclusion H root size leafIndex bodyDigest proof = true) :
    ∃ x, checkInclusion root size leafIndex bodyDigest proof = .ok x ∧
      rootFromPeaks H (x.peaksLeft ++
        climb (nodeHash H) (H.digest (0 :: x.bodyDigest)) x.path x.witness :: x.peaksRight) =
        .ok x.root := by
  obtain ⟨x, hx, ok⟩ := bind_eq_ok.mp (verdict_eq_true.mp accept)
  obtain ⟨leaf, hleaf, ok⟩ := bind_eq_ok.mp ok
  obtain ⟨acc, hacc, ok⟩ := bind_eq_ok.mp ok
  obtain ⟨computed, hroot, ok⟩ := bind_eq_ok.mp ok
  have eleaf : leaf = H.digest (0 :: x.bodyDigest) := by
    obtain ⟨_, _, hleaf⟩ := bind_eq_ok.mp hleaf
    cases hleaf
    rfl
  have e : computed = x.root := by simpa using ok
  refine ⟨x, hx, ?_⟩
  rw [← e, ← hroot, foldPath_eq_ok H hacc, eleaf]

/-- An accepted proof against the root of a store is for one of its leaves, if the hash has no collisions
among the strings of the store, of its root and of the verifier. -/
lemma verifyInclusion_certifies {digests : List Digest} {nodes : List Bytes} {root : Bytes}
    (build : addDigests H [] digests = .ok nodes)
    (committed : rootAt H nodes (nodeCount digests.length) = .ok root)
    {leafIndex bodyDigest proof : Obj} {S : Set Bytes} (inj : Set.InjOn H.digest S)
    (inStore : ∀ s ∈ storeHashed digests nodes, s ∈ S)
    (inRoot : ∀ s ∈ rootAtHashed H nodes (nodeCount digests.length), s ∈ S)
    (inVerify : ∀ s ∈ verifyInclusionHashed H (.bytes root) (.int (nodeCount digests.length)) leafIndex
      bodyDigest proof, s ∈ S)
    (accept : verifyInclusion H (.bytes root) (.int (nodeCount digests.length)) leafIndex
      bodyDigest proof = true) :
    ∃ i : ℕ, ∃ lt : i < digests.length,
      leafIndex = .int i ∧ bodyDigest.digest? = some digests[i].1 := by
  obtain ⟨x, hx, computed⟩ := verifyInclusion_eq_true accept
  obtain ⟨hroot, hbody, n, i, size, small, rfl, lt, left, right, d, c⟩ := checkInclusion_eq_ok hx
  obtain rfl : digests.length = n := by
    simpa using forestSize_injective (Int.ofNat_inj.mp (Obj.int.inj size))
  refine ⟨i, lt, rfl, ?_⟩
  have mmr := IsMmr.of_addDigests build
  have len := length_of_mem_leaves H digests
  have count : (leaves H digests).length = digests.length := length_leaves H digests
  have le : digests.length ≤ (leaves H digests).length := count.ge
  cases hroot
  rw [mmr.rootAt len le small] at committed
  rw [mmr.rootAtHashed le small] at inRoot
  simp only [verifyInclusionHashed, hx, c.path_eq] at inVerify
  rw [c.path_eq] at computed
  have hleaf : (H.digest (0 :: x.bodyDigest)).length = 32 := H.length_digest _
  have inRun : 0 :: x.bodyDigest ∈ S ∧
      (∀ t ∈ climbArgs (nodeHash H) (H.digest (0 :: x.bodyDigest)) (ascent 0 i d) x.witness,
        nodePreimage t ∈ S) ∧
      ∀ m ∈ rootFromPeaksHashed H (x.peaksLeft ++
        climb (nodeHash H) (H.digest (0 :: x.bodyDigest)) (ascent 0 i d) x.witness ::
          x.peaksRight), m ∈ S := by
    refine ⟨inVerify _ ?_, fun t ht => inVerify _ ?_, fun m hm => inVerify _ ?_⟩
    · exact List.mem_cons_self
    · exact List.mem_append_left _ (List.mem_cons_of_mem _ (List.mem_map_of_mem ht))
    · exact List.mem_append_right _ hm
  obtain ⟨inLeaf, inPath, inPeaks⟩ := inRun
  -- The peaks bagged are as many as the true ones, so they are the true ones.
  have hpeaks : ∀ p ∈ x.peaksLeft ++
      climb (nodeHash H) (H.digest (0 :: x.bodyDigest)) (ascent 0 i d) x.witness :: x.peaksRight,
      p.length = 32 := by
    intro p hp
    simp only [List.mem_append, List.mem_cons] at hp
    rcases hp with hp | rfl | hp
    · exact c.digest_peaksLeft p hp
    · exact length_climb hleaf (ascent 0 i d) x.witness
    · exact c.digest_peaksRight p hp
  have hmountains : mountainHashes H (leaves H digests) digests.length =
      left.map (fun b => treeHash H (leaves H digests) b.1 b.2) ++
        treeHash H (leaves H digests) d (i / 2 ^ d) ::
          right.map (fun b => treeHash H (leaves H digests) b.1 b.2) := by
    rw [mountainHashes, c.mountains_eq]
    simp
  rw [rootFromPeaks_eq H hpeaks, ← committed] at computed
  have same := bag_pins inj (by simp [hmountains, c.length_peaksLeft, c.length_peaksRight]) hpeaks
    (length_of_mem_mountainHashes len le) inPeaks inRoot (Except.ok.inj computed)
  rw [hmountains] at same
  obtain ⟨-, same⟩ := List.append_inj same (by simp [c.length_peaksLeft])
  obtain ⟨top, -⟩ := List.cons.inj same
  -- The path reaches a true peak, so it starts at a true leaf.
  have mem : (d, i / 2 ^ d) ∈ mountains digests.length := by simp [c.mountains_eq]
  have complete : Complete (leaves H digests).length (0 + d) (i / 2 ^ d) := by
    rw [count, Nat.zero_add]
    exact mountain_complete_of_mem mem
  rw [← Nat.zero_add d] at top
  obtain ⟨bottom, -⟩ := mmr.climb_pins len inj
    (fun m hm => inStore m (List.mem_append_right _ hm)) hleaf c.digest_witness c.length_witness
    (by simpa using inPath) complete (by simpa using top)
  have own : leaves H digests = digests.map fun d => H.digest (0 :: d.1) := rfl
  rw [treeHash_zero H (by rw [count]; exact lt)] at bottom
  simp only [own, List.getElem_map] at bottom
  have inOwn : 0 :: digests[i].1 ∈ S := inStore _
    (List.mem_append_left _ (List.mem_map.mpr ⟨digests[i], List.getElem_mem lt, rfl⟩))
  have same := inj inLeaf inOwn bottom
  rw [hbody, (List.cons.inj same).2]

/-- Against the root of a store only its own leaves verify, each at its own index: for every object a
caller may pass as leaf index, body digest and proof. -/
theorem verifyInclusion_sound {digests : List Digest} {nodes : List Bytes} {root : Bytes}
    (build : addDigests H [] digests = .ok nodes)
    (committed : rootAt H nodes (nodeCount digests.length) = .ok root)
    (leafIndex bodyDigest proof : Obj)
    (inj : Set.InjOn H.digest {m | m ∈ storeHashed digests nodes ∨
      m ∈ rootAtHashed H nodes (nodeCount digests.length) ∨
      m ∈ verifyInclusionHashed H (.bytes root) (.int (nodeCount digests.length)) leafIndex
        bodyDigest proof})
    (accept : verifyInclusion H (.bytes root) (.int (nodeCount digests.length)) leafIndex
      bodyDigest proof = true) :
    ∃ i : ℕ, ∃ lt : i < digests.length,
      leafIndex = .int i ∧ bodyDigest.digest? = some digests[i].1 := by
  refine verifyInclusion_certifies build committed inj ?_ ?_ ?_ accept
  · exact fun s hs => .inl hs
  · exact fun s hs => .inr (.inl hs)
  · exact fun s hs => .inr (.inr hs)

/-- An inclusion proof of the sample log is generated. -/
lemma sampleInclusion_ok : (inclusionProof sampleNodes 1 (nodeCount 3)).toBool = true := by
  rw [sampleNodes_bytes]
  decide +kernel

/-- The proof of the second sample digest. -/
def sampleInclusion : Obj :=
  ((inclusionProof sampleNodes 1 (nodeCount 3)).val sampleInclusion_ok).toObj

/-- It shows the leaf of the sample log. -/
theorem verifyInclusion_sound_sample :
    ∃ i : ℕ, ∃ lt : i < sampleDigests.length, Obj.int 1 = .int i ∧
      (Obj.bytes (List.replicate 32 2)).digest? = some sampleDigests[i].1 := by
  refine verifyInclusion_sound sampleNodes_eq sampleRoot_eq (.int 1) (.bytes (List.replicate 32 2))
    sampleInclusion (injOn_lists ?_) ?_
  · simp only [sampleInclusion, sampleNodes_bytes, sampleRoot_bytes, sha256Hash_eq]
    decide +kernel
  · simp only [sampleInclusion, sampleNodes_bytes, sampleRoot_bytes, sha256Hash_eq]
    decide +kernel

/-- The proof of leaf `i` in the forest whose mountains are `left ++ (d, i / 2 ^ d) :: right`. -/
def honestInclusion (H : HashFunction) (leaves : List Bytes) (m i d : ℕ)
    (left right : List (ℕ × ℕ)) : InclusionProof where
  v := 1
  kind := .lit "inclusion"
  size := nodeCount m
  leafIndex := i
  witness := (siblingHashes H leaves 0 i d).map toHex
  peaksLeft := (left.map fun b => treeHash H leaves b.1 b.2).map toHex
  peaksRight := (right.map fun b => treeHash H leaves b.1 b.2).map toHex

/-- The mountain that leaf `i` of `m` leaves lies under. -/
lemma exists_mountain {m i : ℕ} (lt : i < m) :
    ∃ left right d, mountains m = left ++ (d, i / 2 ^ d) :: right ∧
      findContainingPeak (root 0 i) (peakRoots m m.size) = some left.length := by
  have c : Complete m 0 i := by simpa [Complete] using lt
  obtain ⟨left, right, d, em, found⟩ := findContainingPeak_root c
  rw [Nat.zero_add] at em
  exact ⟨left, right, d, em, found⟩

/-- The honest proof is what is generated. -/
lemma inclusionProof_eq {leaves nodes : List Bytes} (mmr : IsMmr H leaves nodes) {m i : ℕ}
    (le : m ≤ leaves.length) (small : nodeCount m < maxMmrSize) (lt : i < m)
    {left right : List (ℕ × ℕ)} {d : ℕ} (em : mountains m = left ++ (d, i / 2 ^ d) :: right)
    (found : findContainingPeak (root 0 i) (peakRoots m m.size) = some left.length) :
    inclusionProof nodes i (nodeCount m) = .ok (honestInclusion H leaves m i d left right) := by
  have complete : ∀ b ∈ mountains m, Complete leaves.length b.1 b.2 := fun b hb =>
    (mountain_complete_of_mem hb).mono le
  rw [em] at complete
  have reader : (nodeCount m : ℤ) ≤ nodes.length := by
    rw [mmr.length_eq]
    exact_mod_cast forestSize_le le
  have range : (0 : ℤ) ≤ i ∧ (i : ℤ) < m := by omega
  have hpath : locatePath (root d (i / 2 ^ d)) d (root 0 i) = ascent 0 i d := by
    simpa using locatePath_root 0 i d
  have hsiblings : (ascent 0 i d).mapM (fun step => node nodes step.siblingPos) =
      .ok (siblingHashes H leaves 0 i d) :=
    mmr.siblings_ok (by simpa using complete _ (List.mem_append_right _ List.mem_cons_self))
  have hleft := mmr.nodes_ok fun b hb => complete b (List.mem_append_left _ hb)
  have hright := mmr.nodes_ok fun b hb =>
    complete b (List.mem_append_right _ (List.mem_cons_of_mem _ hb))
  have hcount : leafCountObj (.int (nodeCount m)) = .ok m := leafCount_nodeCount small
  have hpos : leafIndexToPosObj (.int i) = .ok (root 0 i) := leafIndexToPos_of_lt lt small
  rw [inclusionProof, hcount, ok_bind, require_of range, ok_bind]
  dsimp only
  rw [require_of reader, ok_bind, hpos, ok_bind, peaksObj_nodeCount small, ok_bind, found]
  dsimp only
  rw [getD_peakRoots_split em, heightAt_root, hpath, hsiblings, ok_bind, take_peakRoots_split em,
    hleft, ok_bind, drop_peakRoots_split em, hright, ok_bind]
  rfl

/-- What the checks make of that proof. -/
def honestInput (H : HashFunction) (leaves : List Bytes) (root bodyDigest : Bytes) (i d : ℕ)
    (left right : List (ℕ × ℕ)) : InclusionInput where
  root := root
  bodyDigest := bodyDigest
  path := ascent 0 i d
  witness := siblingHashes H leaves 0 i d
  peaksLeft := left.map fun b => treeHash H leaves b.1 b.2
  peaksRight := right.map fun b => treeHash H leaves b.1 b.2

/-- The honest proof passes the checks. -/
lemma checkInclusion_honest {leaves : List Bytes} (len : ∀ l ∈ leaves, l.length = 32) {m i : ℕ}
    (le : m ≤ leaves.length) (small : nodeCount m < maxMmrSize) (lt : i < m)
    {left right : List (ℕ × ℕ)} {d : ℕ} (em : mountains m = left ++ (d, i / 2 ^ d) :: right)
    (found : findContainingPeak (PostOrder.root 0 i) (peakRoots m m.size) = some left.length)
    {root bodyDigest : Bytes} (hroot : root.length = 32) (hbody : bodyDigest.length = 32) :
    checkInclusion (.bytes root) (.int (nodeCount m)) (.int i) (.bytes bodyDigest)
      (honestInclusion H leaves m i d left right).toObj =
        .ok (honestInput H leaves root bodyDigest i d left right) := by
  have hpath : locatePath (PostOrder.root d (i / 2 ^ d)) d (PostOrder.root 0 i) = ascent 0 i d := by
    simpa using locatePath_root 0 i d
  have hcount : leafCountObj (.int (nodeCount m)) = .ok m := leafCount_nodeCount small
  have hpos : leafIndexToPosObj (.int i) = .ok (PostOrder.root 0 i) := leafIndexToPos_of_lt lt small
  have count : (peakRoots m m.size).length - left.length - 1 = right.length := by
    rw [length_peakRoots_split em]
    omega
  have nonneg : (0 : ℤ) ≤ i := Int.natCast_nonneg i
  have size : (0 : ℤ) ≤ nodeCount m ∧ (nodeCount m : ℤ) < maxMmrSize := by omega
  have complete : ∀ b ∈ mountains m, Complete leaves.length b.1 b.2 := fun b hb =>
    (mountain_complete_of_mem hb).mono le
  rw [em] at complete
  have hsiblings : ∀ b ∈ siblingHashes H leaves 0 i d, b.length = 32 :=
    length_of_mem_siblingHashes len
      (by simpa using complete _ (List.mem_append_right _ List.mem_cons_self))
  have hleft : ∀ p ∈ left.map fun b => treeHash H leaves b.1 b.2, p.length = 32 := by
    intro p hp
    obtain ⟨b, hb, rfl⟩ := List.mem_map.mp hp
    exact length_treeHash H len (complete b (List.mem_append_left _ hb))
  have hright : ∀ p ∈ right.map fun b => treeHash H leaves b.1 b.2, p.length = 32 := by
    intro p hp
    obtain ⟨b, hb, rfl⟩ := List.mem_map.mp hp
    exact length_treeHash H len (complete b (List.mem_append_right _ (List.mem_cons_of_mem _ hb)))
  have pw := parseDigests_toHex hsiblings
  have pl := parseDigests_toHex hleft
  have pr := parseDigests_toHex hright
  simp only [checkInclusion, bind_eq_ok, ensure_eq_ok, need_eq_ok, assertDigestObj_eq_ok,
    exists_const]
  refine ⟨root, ⟨rfl, hroot⟩, bodyDigest, ⟨rfl, hbody⟩, rfl, ?_⟩
  refine ⟨_, rfl, Obj.eq_int _ _, _, rfl, by simp [honestInclusion], ?_⟩
  refine ⟨_, rfl, by simp [honestInclusion], _, rfl, by simp [honestInclusion], ?_⟩
  refine ⟨_, rfl, size, _, rfl, nonneg, ?_⟩
  refine ⟨_, rfl, _, rfl, _, rfl, _, rfl, _, rfl, _, rfl, ?_⟩
  refine ⟨_, hcount, Int.ofNat_lt.mpr lt, _, hpos, _, peaksObj_nodeCount small, _, found, ?_⟩
  rw [getD_peakRoots_split em, heightAt_root, hpath, count]
  refine ⟨by simp [honestInclusion], by simp [honestInclusion], by simp [honestInclusion], ?_⟩
  exact ⟨_, pw, _, pl, _, pr, rfl⟩

variable (H) in
/-- Digests along a path within the limits are folded. -/
lemma foldPath_eq {acc : Bytes} {path : List PathStep} {siblings : List Bytes}
    (hacc : acc.length = 32) (hsiblings : ∀ s ∈ siblings, s.length = 32)
    (fits : ∀ step ∈ path, step.parentPos + 1 < 2 ^ 64) :
    foldPath H acc path siblings = .ok (climb (nodeHash H) acc path siblings) := by
  induction path generalizing acc siblings with
  | nil => rfl
  | cons step path ih =>
    cases siblings with
    | nil => rfl
    | cons sib siblings =>
      have hsib := hsiblings sib (by simp)
      have hstep : foldStep H acc step sib = .ok (join (nodeHash H) step acc sib) := by
        unfold foldStep join
        cases step.targetIsRight with
        | true => exact interiorHash_eq H hsib hacc (fits step (by simp))
        | false => exact interiorHash_eq H hacc hsib (fits step (by simp))
      rw [foldPath, hstep, ok_bind]
      exact ih (length_join acc sib) (fun s hs => hsiblings s (by simp [hs]))
        (fun s hs => fits s (by simp [hs]))

/-- The positions on a path to a complete block below `MAX_MMR_SIZE` fit in eight bytes. -/
lemma ascent_fits {n h k d : ℕ} (c : Complete n (h + d) (k / 2 ^ d))
    (small : nodeCount n < maxMmrSize) : ∀ step ∈ ascent h k d, step.parentPos + 1 < 2 ^ 64 := by
  intro step hstep
  obtain ⟨j, lt, rfl⟩ := mem_ascent hstep
  obtain ⟨r, rfl⟩ := Nat.exists_eq_add_of_lt lt
  have below := (root_mem_span (h + j + 1) (k / 2 ^ j / 2) r).2
  rw [← div_pow_succ, Nat.div_div_eq_div_mul, ← pow_add] at below
  have e1 : h + j + 1 + r = h + (j + r + 1) := by omega
  have e2 : j + 1 + r = j + r + 1 := by omega
  rw [e1, e2] at below
  have top : root (h + (j + r + 1)) (k / 2 ^ (j + r + 1)) < nodeCount n := c.root_lt
  simp only [stepUp, maxMmrSize] at *
  rw [← div_pow_succ]
  omega

/-- The proof read out of a store at any earlier size is accepted against the bagged peaks of that size. -/
lemma inclusionProof_accepted {digests : List Digest} {nodes : List Bytes}
    (build : addDigests H [] digests = .ok nodes) {m i : ℕ} (le : m ≤ digests.length)
    (small : nodeCount m < maxMmrSize) (lt : i < m) :
    ∃ proof, inclusionProof nodes i (nodeCount m) = .ok proof ∧
      verifyInclusion H (.bytes (bag H (mountainHashes H (leaves H digests) m))) (.int (nodeCount m))
        (.int i) (.bytes digests[i].1) proof.toObj = true := by
  have mmr := IsMmr.of_addDigests build
  have len := length_of_mem_leaves H digests
  have le' : m ≤ (leaves H digests).length := by rwa [length_leaves]
  obtain ⟨left, right, d, em, found⟩ := exists_mountain lt
  have hroot := length_bag H (length_of_mem_mountainHashes (H := H) len le')
  refine ⟨_, inclusionProof_eq mmr le' small lt em found, ?_⟩
  have checked := checkInclusion_honest (H := H) len le' small lt em found hroot digests[i].2
  have mem : (d, i / 2 ^ d) ∈ mountains m := by simp [em]
  have complete : Complete m (0 + d) (i / 2 ^ d) := by
    rw [Nat.zero_add]
    exact mountain_complete_of_mem mem
  have hleaf : (H.digest (0 :: digests[i].1)).length = 32 := H.length_digest _
  have hsiblings := length_of_mem_siblingHashes (H := H) len (complete.mono le')
  have fold := foldPath_eq H hleaf hsiblings (ascent_fits complete small)
  have start : H.digest (0 :: digests[i].1) = treeHash H (leaves H digests) 0 i := by
    rw [treeHash_zero H (by rw [length_leaves]; omega)]
    simp [leaves]
  have top : climb (nodeHash H) (H.digest (0 :: digests[i].1)) (ascent 0 i d)
      (siblingHashes H (leaves H digests) 0 i d) =
        treeHash H (leaves H digests) (0 + d) (i / 2 ^ d) := by
    rw [start]
    exact climb_ascent _ _ 0 i d
  have all : mountainHashes H (leaves H digests) m =
      left.map (fun b => treeHash H (leaves H digests) b.1 b.2) ++
        treeHash H (leaves H digests) (0 + d) (i / 2 ^ d) ::
          right.map (fun b => treeHash H (leaves H digests) b.1 b.2) := by
    rw [mountainHashes, em, Nat.zero_add]
    simp
  rw [verifyInclusion, verdict_eq_true, checked, ok_bind]
  simp only [honestInput]
  rw [leafHash_eq H digests[i].2, ok_bind, fold, ok_bind, top, ← all,
    rootFromPeaks_eq H (length_of_mem_mountainHashes len le'), ok_bind]
  simp

/-- The proof read out of a store at any earlier size is accepted against the root that was committed
when the store had that size. -/
theorem verifyInclusion_complete {digests : List Digest} {nodes : List Bytes}
    (build : addDigests H [] digests = .ok nodes) {m i : ℕ} (le : m ≤ digests.length)
    (small : nodeCount m < maxMmrSize) (lt : i < m) :
    ∃ proof older root, inclusionProof nodes i (nodeCount m) = .ok proof ∧
      addDigests H [] (digests.take m) = .ok older ∧ rootAt H older (nodeCount m) = .ok root ∧
      verifyInclusion H (.bytes root) (.int (nodeCount m)) (.int i) (.bytes digests[i].1)
        proof.toObj = true := by
  obtain ⟨older, then_, committed⟩ := exists_older (H := H) le small
  obtain ⟨proof, made, accepted⟩ := inclusionProof_accepted build le small lt
  exact ⟨proof, older, _, made, then_, committed, accepted⟩

/-- The proof at two leaves is accepted. -/
theorem verifyInclusion_complete_sample :
    ∃ proof older root, inclusionProof sampleNodes 1 (nodeCount 2) = .ok proof ∧
      addDigests sha256Hash [] (sampleDigests.take 2) = .ok older ∧
      rootAt sha256Hash older (nodeCount 2) = .ok root ∧
      verifyInclusion sha256Hash (.bytes root) (.int (nodeCount 2)) (.int 1)
        (.bytes (List.replicate 32 2)) proof.toObj = true :=
  verifyInclusion_complete sampleNodes_eq (by decide) (by decide) (by decide)

end CLL.Core
