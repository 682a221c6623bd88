import CLL.Core.Inclusion

/-!
# Consistency proofs

`consistency_proof` and `verify_consistency` of `checkpoint/core.py`: every peak of the old tree climbs
to a peak of the new one. `verifyConsistency_complete` says that the proof between any two sizes of a
store is accepted. `verifyConsistency_sound` says that a tree certified as a predecessor of a store is
that store at an earlier size.
-/

namespace CLL.Core
open PostOrder

variable (H : HashFunction)

/-- `ConsistencyProof`. -/
structure ConsistencyProof where
  v : ℤ
  kind : Str
  sizeA : ℤ
  sizeB : ℤ
  oldPeaks : List Str
  witness : List (List Str)
  newPeaks : List Str

/-- The proof as the object a verifier receives. -/
def ConsistencyProof.toObj (proof : ConsistencyProof) : Obj :=
  .inst .consistencyProof [
    ("v", .int proof.v),
    ("kind", .str proof.kind),
    ("size_a", .int proof.sizeA),
    ("size_b", .int proof.sizeB),
    ("old_peaks", .tuple (proof.oldPeaks.map .str)),
    ("witness", .tuple (proof.witness.map fun w => .tuple (w.map .str))),
    ("new_peaks", .tuple (proof.newPeaks.map .str))]

/-- One round of `for p in old_peak_positions: …` of `consistency_proof`: the old peak and the siblings
on its way up. -/
def oldPeakProof (reader : List Bytes) (newPeakPositions : List ℕ) (p : ℕ) :
    Py (Str × List Str) := do
  let h ← node reader p
  match findContainingPeak p newPeakPositions with
  | none => raise .integrity s!"old peak at position {p} not found in new MMR"
  | some containingIdx => do
    let newPeakPos := newPeakPositions.getD containingIdx 0
    let newPeakHeight := heightAt newPeakPos
    let path := locatePath newPeakPos newPeakHeight p
    let w ← path.mapM fun step => node reader step.siblingPos
    .ok (toHex h, w.map toHex)

/-- `consistency_proof`. -/
def consistencyProof (reader : List Bytes) (sizeA sizeB : ℤ) : Py ConsistencyProof := do
  require (0 ≤ sizeA) .invalidArgument s!"invalid size_a: {sizeA}"
  require (sizeA ≤ sizeB) .invalidArgument
    s!"invalid size_b: {sizeB} (must be >= size_a={sizeA})"
  let readerSize := reader.length
  require (sizeB ≤ readerSize) .integrity
    s!"reader size {readerSize} is smaller than requested size_b {sizeB}"
  let oldPeakPositions ← peaksObj (.int sizeA)
  let newPeakPositions ← peaksObj (.int sizeB)
  let rounds ← oldPeakPositions.mapM (oldPeakProof reader newPeakPositions)
  let newPeaks ← newPeakPositions.mapM (node reader)
  .ok ⟨1, .lit "consistency", sizeA, sizeB, rounds.map (·.1), rounds.map (·.2),
    newPeaks.map toHex⟩

/-- What `verify_consistency` hashes once its first checks have passed. -/
structure ConsistencyInput where
  rootA : Bytes
  rootB : Bytes
  oldPeakPositions : List ℕ
  newPeakPositions : List ℕ
  oldPeaks : List Bytes
  newPeaks : List Bytes
  witness : List Obj

/-- The checks of `verify_consistency` up to the parsing of the peaks. -/
def checkConsistency (rootA sizeA rootB sizeB proof : Obj) : Py ConsistencyInput := do
  let rootA ← assertDigestObj rootA "root_a"
  let rootB ← assertDigestObj rootB "root_b"
  ensure (proof.eq .none = false)
  ensure ((← proof.attr "v").eq (.int 1))
  ensure ((← proof.attr "kind").eq (.str (.lit "consistency")))
  ensure ((← proof.attr "size_a").eq sizeA)
  ensure ((← proof.attr "size_b").eq sizeB)
  let a ← need sizeA.intLike?
  ensure (0 ≤ a)
  let b ← need sizeB.intLike?
  ensure (a ≤ b)
  let oldPeaks ← need (← proof.attr "old_peaks").seq?
  let newPeaks ← need (← proof.attr "new_peaks").seq?
  let witness ← need (← proof.attr "witness").seq?
  let oldPeakPositions ← peaksObj sizeA
  let newPeakPositions ← peaksObj sizeB
  ensure (oldPeaks.length = oldPeakPositions.length)
  ensure (newPeaks.length = newPeakPositions.length)
  ensure (witness.length = oldPeakPositions.length)
  let oldPeaks ← parseDigests oldPeaks
  let newPeaks ← parseDigests newPeaks
  .ok ⟨rootA, rootB, oldPeakPositions, newPeakPositions, oldPeaks, newPeaks, witness⟩

/-- The path of the old peak at `p`, and the index of the new peak it leads to. -/
def oldPeakPath (newPeakPositions : List ℕ) (p : ℕ) (w : Obj) :
    Py (ℕ × List PathStep × List Bytes) := do
  let containingIdx ← need (findContainingPeak p newPeakPositions)
  let newPeakPos := newPeakPositions.getD containingIdx 0
  let newPeakHeight := heightAt newPeakPos
  let path := locatePath newPeakPos newPeakHeight p
  let ws ← need w.seq?
  ensure (ws.length = path.length)
  let wBytes ← parseDigests ws
  .ok (containingIdx, path, wBytes)

/-- `for i, p in enumerate(old_peak_positions): …` of `verify_consistency`. -/
def climbOldPeaks (newPeakPositions : List ℕ) (newPeaks : List Bytes) :
    List ℕ → List Bytes → List Obj → Py Unit
  | p :: ps, oldPeak :: oldPeaks, w :: witness => do
    let (containingIdx, path, wBytes) ← oldPeakPath newPeakPositions p w
    let acc ← foldPath H oldPeak path wBytes
    ensure (acc = newPeaks.getD containingIdx [])
    climbOldPeaks newPeakPositions newPeaks ps oldPeaks witness
  | _, _, _ => .ok ()

/-- `verify_consistency`. -/
def verifyConsistency (rootA sizeA rootB sizeB proof : Obj) : Bool :=
  verdict do
    let x ← checkConsistency rootA sizeA rootB sizeB proof
    let computedRootA ← rootFromPeaks H x.oldPeaks
    ensure (computedRootA = x.rootA)
    let computedRootB ← rootFromPeaks H x.newPeaks
    ensure (computedRootB = x.rootB)
    climbOldPeaks H x.newPeakPositions x.newPeaks x.oldPeakPositions x.oldPeaks x.witness
    .ok true

/-- The strings `climbOldPeaks` hashes. -/
def climbOldPeaksHashed (newPeakPositions : List ℕ) :
    List ℕ → List Bytes → List Obj → List Bytes
  | p :: ps, oldPeak :: oldPeaks, w :: witness =>
    (match oldPeakPath newPeakPositions p w with
      | .error _ => []
      | .ok (_, path, wBytes) =>
        (climbArgs (nodeHash H) oldPeak path wBytes).map nodePreimage) ++
      climbOldPeaksHashed newPeakPositions ps oldPeaks witness
  | _, _, _ => []

/-- The strings `verifyConsistency` hashes. -/
def verifyConsistencyHashed (rootA sizeA rootB sizeB proof : Obj) : List Bytes :=
  match checkConsistency rootA sizeA rootB sizeB proof with
  | .error _ => []
  | .ok x =>
    rootFromPeaksHashed H x.oldPeaks ++ rootFromPeaksHashed H x.newPeaks ++
      climbOldPeaksHashed H x.newPeakPositions x.oldPeakPositions x.oldPeaks x.witness

/-- The first checks fix both sizes and the number of peaks on either side. -/
lemma checkConsistency_eq_ok {rootA sizeA rootB sizeB proof : Obj} {x : ConsistencyInput}
    (ok : checkConsistency rootA sizeA rootB sizeB proof = .ok x) :
    rootA.digest? = some x.rootA ∧ rootB.digest? = some x.rootB ∧
    ∃ m n : ℕ, sizeA = .int (nodeCount m) ∧ sizeB = .int (nodeCount n) ∧ m ≤ n ∧
      nodeCount n < maxMmrSize ∧ x.oldPeakPositions = peakRoots m m.size ∧
      x.newPeakPositions = peakRoots n n.size ∧ x.oldPeaks.length = (mountains m).length ∧
      x.newPeaks.length = (mountains n).length ∧ x.witness.length = (mountains m).length ∧
      (∀ b ∈ x.oldPeaks, b.length = 32) ∧ ∀ b ∈ x.newPeaks, b.length = 32 := by
  simp only [checkConsistency, bind_eq_ok, ensure_eq_ok, need_eq_ok, assertDigestObj_eq_ok,
    exists_const] at ok
  obtain ⟨ra, ⟨ha, -⟩, rb, ⟨hb, -⟩, -, ok⟩ := ok
  obtain ⟨v, -, -, kind, -, -, psizeA, -, -, psizeB, -, -, ok⟩ := ok
  obtain ⟨a, ea, -, b, eb, le, o, -, os, -, n', -, ns, -, w, -, ws, -, ok⟩ := ok
  obtain ⟨old, hold, new, hnew, lenold, lennew, lenw, os', hos, ns', hns, e⟩ := ok
  cases e
  refine ⟨ha, hb, ?_⟩
  obtain ⟨m, smallm, rfl, rfl⟩ := peaksObj_eq_ok hold
  obtain ⟨n, smalln, rfl, rfl⟩ := peaksObj_eq_ok hnew
  cases ea
  cases eb
  have le : m ≤ n := forestSize_strictMono.le_iff_le.mp (Int.ofNat_le.mp le)
  obtain ⟨eqo, dold⟩ := parseDigests_eq_ok hos
  obtain ⟨eqn, dnew⟩ := parseDigests_eq_ok hns
  rw [peakRoots_eq, List.length_map] at lenold lennew lenw
  exact ⟨m, n, rfl, rfl, le, smalln, rfl, rfl, eqo.trans lenold, eqn.trans lennew, lenw, dold, dnew⟩

/-- The path of an old peak that lies in the new forest climbs to the mountain over it. -/
lemma oldPeakPath_eq_ok {n h k : ℕ} (c : Complete n h k) {w : Obj}
    {found : ℕ × List PathStep × List Bytes}
    (ok : oldPeakPath (peakRoots n n.size) (root h k) w = .ok found) :
    ∃ left right d, mountains n = left ++ (h + d, k / 2 ^ d) :: right ∧ found.1 = left.length ∧
      found.2.1 = ascent h k d ∧ found.2.2.length = d ∧ ∀ b ∈ found.2.2, b.length = 32 := by
  obtain ⟨left, right, d, em, e⟩ := findContainingPeak_root c
  simp only [oldPeakPath, e, need_some, ok_bind, getD_peakRoots_split em, heightAt_root,
    locatePath_root, bind_eq_ok, ensure_eq_ok, need_eq_ok, exists_const] at ok
  obtain ⟨ws, -, lenw, ws', hws, e⟩ := ok
  cases e
  obtain ⟨eqw, dw⟩ := parseDigests_eq_ok hws
  exact ⟨left, right, d, em, rfl, rfl, by rw [eqw, lenw, length_ascent], dw⟩

/-- The hash of a mountain in its place. -/
lemma getD_mountainHashes_split {H : HashFunction} {leaves : List Bytes} {n : ℕ}
    {left right : List (ℕ × ℕ)} {b : ℕ × ℕ} (split : mountains n = left ++ b :: right) :
    (mountainHashes H leaves n).getD left.length [] = treeHash H leaves b.1 b.2 := by
  simp [mountainHashes, split]

variable {H}

/-- Old peaks that climb to the true new peaks are true nodes of the new tree. -/
lemma climbOldPeaks_pins {leaves nodes : List Bytes} (mmr : IsMmr H leaves nodes)
    (len : ∀ l ∈ leaves, l.length = 32) {S : Set Bytes} (inj : Set.InjOn H.digest S)
    (tree : ∀ m ∈ interiorHashed nodes, m ∈ S) {bs : List (ℕ × ℕ)} {oldPeaks : List Bytes}
    {witness : List Obj} (complete : ∀ b ∈ bs, Complete leaves.length b.1 b.2)
    (lenold : oldPeaks.length = bs.length) (lenw : witness.length = bs.length)
    (digests : ∀ b ∈ oldPeaks, b.length = 32)
    (run : ∀ m ∈ climbOldPeaksHashed H (peakRoots leaves.length leaves.length.size)
      (bs.map fun b => root b.1 b.2) oldPeaks witness, m ∈ S) {u : Unit}
    (ok : climbOldPeaks H (peakRoots leaves.length leaves.length.size)
      (mountainHashes H leaves leaves.length) (bs.map fun b => root b.1 b.2) oldPeaks witness =
        .ok u) :
    oldPeaks = bs.map fun b => treeHash H leaves b.1 b.2 := by
  induction bs generalizing oldPeaks witness with
  | nil => simpa using lenold
  | cons b bs ih =>
    cases oldPeaks with
    | nil => cases lenold
    | cons oldPeak oldPeaks =>
      cases witness with
      | nil => cases lenw
      | cons w witness =>
        obtain ⟨found, hfound, ok⟩ := bind_eq_ok.mp ok
        obtain ⟨acc, hacc, ok⟩ := bind_eq_ok.mp ok
        obtain ⟨_, hpeak, ok⟩ := bind_eq_ok.mp ok
        have c := complete b List.mem_cons_self
        obtain ⟨left, right, d, em, e1, e2, hd, hw⟩ := oldPeakPath_eq_ok c hfound
        simp only [List.map_cons, climbOldPeaksHashed, hfound, List.mem_append] at run
        have rest := ih (fun b hb => complete b (List.mem_cons_of_mem _ hb)) (by simpa using lenold)
          (by simpa using lenw) (fun b hb => digests b (List.mem_cons_of_mem _ hb))
          (fun m hm => run m (.inr hm)) ok
        have mem : (b.1 + d, b.2 / 2 ^ d) ∈ mountains leaves.length := by simp [em]
        have reached := ensure_eq_ok.mp hpeak
        rw [e1, getD_mountainHashes_split em, foldPath_eq_ok H hacc, e2] at reached
        have path : ∀ t ∈ climbArgs (nodeHash H) oldPeak (ascent b.1 b.2 d) found.2.2,
            nodePreimage t ∈ S := by
          intro t ht
          rw [← e2] at ht
          exact run _ (.inl (List.mem_map_of_mem ht))
        obtain ⟨start, -⟩ := mmr.climb_pins len inj tree (digests oldPeak List.mem_cons_self) hw hd
          path (mountain_complete_of_mem mem) reached
        rw [List.map_cons, start, rest]

variable (H) in
/-- An accepted proof is between complete sizes. -/
lemma verifyConsistency_sizes {rootA sizeA rootB sizeB proof : Obj}
    (accept : verifyConsistency H rootA sizeA rootB sizeB proof = true) :
    ∃ m n : ℕ, sizeA = .int (nodeCount m) ∧ sizeB = .int (nodeCount n) ∧ m ≤ n ∧
      nodeCount n < maxMmrSize := by
  obtain ⟨x, hx, -⟩ := bind_eq_ok.mp (verdict_eq_true.mp accept)
  obtain ⟨-, -, m, n, eA, eB, le, small, -⟩ := checkConsistency_eq_ok hx
  exact ⟨m, n, eA, eB, le, small⟩

variable (H) in
/-- An accepted old root is a digest. -/
lemma verifyConsistency_length {rootA : Bytes} {sizeA rootB sizeB proof : Obj}
    (accept : verifyConsistency H (.bytes rootA) sizeA rootB sizeB proof = true) :
    rootA.length = 32 := by
  obtain ⟨x, hx, ok⟩ := bind_eq_ok.mp (verdict_eq_true.mp accept)
  obtain ⟨computedA, hA, ok⟩ := bind_eq_ok.mp ok
  obtain ⟨_, eA, -⟩ := bind_eq_ok.mp ok
  obtain ⟨ha, -, m, n, -, -, -, -, -, -, -, -, -, dold, -⟩ := checkConsistency_eq_ok hx
  cases ha
  rw [rootFromPeaks_eq H dold] at hA
  rw [← ensure_eq_ok.mp eA, ← Except.ok.inj hA]
  exact length_bag H dold

/-- A root that is certified as the predecessor of a store's root bags the peaks of the first leaves of
that store. -/
lemma verifyConsistency_certifies {digests : List Digest} {nodes : List Bytes} {rootB : Bytes}
    (build : addDigests H [] digests = .ok nodes)
    (committed : bag H (mountainHashes H (leaves H digests) digests.length) = rootB)
    {rootA sizeA proof : Obj} {S : Set Bytes} (inj : Set.InjOn H.digest S)
    (inStore : ∀ m ∈ storeHashed digests nodes, m ∈ S)
    (inRoot : ∀ m ∈ rootFromPeaksHashed H (mountainHashes H (leaves H digests) digests.length), m ∈ S)
    (inVerify : ∀ m ∈ verifyConsistencyHashed H rootA sizeA (.bytes rootB)
      (.int (nodeCount digests.length)) proof, m ∈ S)
    (accept : verifyConsistency H rootA sizeA (.bytes rootB) (.int (nodeCount digests.length))
      proof = true) :
    ∃ m ≤ digests.length, sizeA = .int (nodeCount m) ∧ nodeCount m < maxMmrSize ∧
      rootA.digest? = some (bag H (mountainHashes H (leaves H digests) m)) := by
  obtain ⟨x, hx, ok⟩ := bind_eq_ok.mp (verdict_eq_true.mp accept)
  obtain ⟨computedA, hA, ok⟩ := bind_eq_ok.mp ok
  obtain ⟨_, eA, ok⟩ := bind_eq_ok.mp ok
  obtain ⟨computedB, hB, ok⟩ := bind_eq_ok.mp ok
  obtain ⟨_, eB, ok⟩ := bind_eq_ok.mp ok
  obtain ⟨_, climbs, -⟩ := bind_eq_ok.mp ok
  have eA := ensure_eq_ok.mp eA
  have eB := ensure_eq_ok.mp eB
  obtain ⟨ha, hb, m, n, rfl, size, le, small, eold, enew, lenold, lennew, lenw, dold, dnew⟩ :=
    checkConsistency_eq_ok hx
  obtain rfl : digests.length = n := by
    simpa using forestSize_injective (Int.ofNat_inj.mp (Obj.int.inj size))
  have smallm : nodeCount m < maxMmrSize := Nat.lt_of_le_of_lt (forestSize_le le) small
  have mmr := IsMmr.of_addDigests build
  have len := length_of_mem_leaves H digests
  have count : (leaves H digests).length = digests.length := length_leaves H digests
  cases hb
  simp only [verifyConsistencyHashed, hx] at inVerify
  have inPeaks : ∀ m ∈ rootFromPeaksHashed H x.newPeaks, m ∈ S := fun m hm =>
    inVerify m (List.mem_append_left _ (List.mem_append_right _ hm))
  have inRun : ∀ m ∈ climbOldPeaksHashed H x.newPeakPositions x.oldPeakPositions x.oldPeaks
      x.witness, m ∈ S := fun m hm => inVerify m (List.mem_append_right _ hm)
  -- The new peaks are as many as the true ones, so they are the true ones.
  rw [rootFromPeaks_eq H dnew] at hB
  have same : x.newPeaks = mountainHashes H (leaves H digests) digests.length := by
    apply bag_pins inj _ dnew (length_of_mem_mountainHashes len count.ge) inPeaks inRoot
    · rw [Except.ok.inj hB, eB, committed]
    · rw [lennew, mountainHashes, List.length_map]
  -- Every old peak climbs to one of them, so the old peaks are true as well.
  have complete : ∀ b ∈ mountains m, Complete (leaves H digests).length b.1 b.2 := fun b hb =>
    (mountain_complete_of_mem hb).mono (by rwa [count])
  rw [eold, enew, ← count, peakRoots_eq m] at inRun
  rw [eold, enew, same, ← count, peakRoots_eq m] at climbs
  have old := climbOldPeaks_pins mmr len inj (fun m hm => inStore m (List.mem_append_right _ hm))
    complete lenold lenw dold inRun climbs
  refine ⟨m, le, rfl, smallm, ?_⟩
  rw [rootFromPeaks_eq H dold, old] at hA
  rw [ha, ← eA, ← Except.ok.inj hA, mountainHashes]

/-- A root that is certified as the predecessor of a store's root is the root of the first leaves of that
store: for every object a caller may pass as the old root, the old size and the proof. -/
theorem verifyConsistency_sound {digests : List Digest} {nodes : List Bytes} {rootB : Bytes}
    (build : addDigests H [] digests = .ok nodes)
    (committed : rootAt H nodes (nodeCount digests.length) = .ok rootB)
    (rootA sizeA proof : Obj)
    (inj : Set.InjOn H.digest {m | m ∈ storeHashed digests nodes ∨
      m ∈ rootAtHashed H nodes (nodeCount digests.length) ∨
      m ∈ verifyConsistencyHashed H rootA sizeA (.bytes rootB) (.int (nodeCount digests.length))
        proof})
    (accept : verifyConsistency H rootA sizeA (.bytes rootB) (.int (nodeCount digests.length))
      proof = true) :
    ∃ m ≤ digests.length, sizeA = .int (nodeCount m) ∧
      nodeCount m ≤ nodeCount digests.length ∧
      ∃ older root, addDigests H [] (digests.take m) = .ok older ∧
        rootAt H older (nodeCount m) = .ok root ∧ rootA.digest? = some root ∧
        (m = 0 → root = List.replicate digestLen 0) := by
  obtain ⟨_, n, -, size, -, small⟩ := verifyConsistency_sizes H accept
  obtain rfl : digests.length = n := by
    simpa using forestSize_injective (Int.ofNat_inj.mp (Obj.int.inj size))
  have mmr := IsMmr.of_addDigests build
  have len := length_of_mem_leaves H digests
  have count : (leaves H digests).length = digests.length := length_leaves H digests
  rw [mmr.rootAt len count.ge small] at committed
  rw [mmr.rootAtHashed count.ge small] at inj
  obtain ⟨m, le, rfl, smallm, root⟩ := verifyConsistency_certifies build (Except.ok.inj committed) inj
    (fun m hm => .inl hm) (fun m hm => .inr (.inl hm)) (fun m hm => .inr (.inr hm)) accept
  obtain ⟨older, then_, committedA⟩ := exists_older (H := H) le smallm
  refine ⟨m, le, rfl, forestSize_le le, older, _, then_, committedA, root, ?_⟩
  rintro rfl
  simp [mountainHashes, mountains, bag]

/-- A consistency proof of the sample log is generated. -/
lemma sampleConsistency_ok :
    (consistencyProof sampleNodes (nodeCount 1) (nodeCount 3)).toBool = true := by
  rw [sampleNodes_bytes]
  decide +kernel

/-- The proof from the first sample digest to all three. -/
def sampleConsistency : Obj :=
  ((consistencyProof sampleNodes (nodeCount 1) (nodeCount 3)).val sampleConsistency_ok).toObj

/-- It shows that an earlier sample log is extended. -/
theorem verifyConsistency_sound_sample :
    ∃ m ≤ sampleDigests.length, Obj.int (nodeCount 1) = .int (nodeCount m) ∧
      nodeCount m ≤ nodeCount sampleDigests.length ∧
      ∃ older root, addDigests sha256Hash [] (sampleDigests.take m) = .ok older ∧
        rootAt sha256Hash older (nodeCount m) = .ok root ∧
        (Obj.bytes (sha256Hash.digest (0 :: List.replicate 32 1))).digest? = some root ∧
        (m = 0 → root = List.replicate digestLen 0) := by
  refine verifyConsistency_sound sampleNodes_eq sampleRoot_eq
    (.bytes (sha256Hash.digest (0 :: List.replicate 32 1))) (.int (nodeCount 1)) sampleConsistency
    (injOn_lists ?_) ?_
  · simp only [sampleConsistency, sampleNodes_bytes, sampleRoot_bytes, sha256Hash_eq]
    decide +kernel
  · simp only [sampleConsistency, sampleNodes_bytes, sampleRoot_bytes, sha256Hash_eq]
    decide +kernel

/-- One old peak: what the prover reads for it is what the verifier climbs with. -/
lemma oldPeak_complete {leaves nodes : List Bytes} (mmr : IsMmr H leaves nodes)
    (len : ∀ l ∈ leaves, l.length = 32) {n h k : ℕ} (le : n ≤ leaves.length)
    (small : nodeCount n < maxMmrSize) (c : Complete n h k) :
    ∃ ws found, oldPeakProof nodes (peakRoots n n.size) (root h k) =
        .ok (toHex (treeHash H leaves h k), ws) ∧
      oldPeakPath (peakRoots n n.size) (root h k) (.tuple (ws.map .str)) = .ok found ∧
      foldPath H (treeHash H leaves h k) found.2.1 found.2.2 =
        .ok ((mountainHashes H leaves n).getD found.1 []) := by
  obtain ⟨left, right, d, em, e⟩ := findContainingPeak_root c
  have mem : (h + d, k / 2 ^ d) ∈ mountains n := by simp [em]
  have top : Complete n (h + d) (k / 2 ^ d) := mountain_complete_of_mem mem
  have hsiblings := length_of_mem_siblingHashes (H := H) len (top.mono le)
  refine ⟨(siblingHashes H leaves h k d).map toHex,
    (left.length, ascent h k d, siblingHashes H leaves h k d), ?_, ?_, ?_⟩
  · rw [oldPeakProof, mmr.node_ok (c.mono le), ok_bind, e]
    dsimp only
    rw [getD_peakRoots_split em, heightAt_root, locatePath_root, mmr.siblings_ok (top.mono le)]
    rfl
  · simp only [oldPeakPath, e, need_some, ok_bind, getD_peakRoots_split em, heightAt_root,
      locatePath_root, bind_eq_ok, ensure_eq_ok, need_eq_ok, exists_const]
    exact ⟨_, rfl, by simp, _, parseDigests_toHex hsiblings, rfl⟩
  · rw [getD_mountainHashes_split em]
    have hleaf := length_treeHash H len (c.mono le)
    rw [foldPath_eq H hleaf hsiblings (ascent_fits top small)]
    exact congrArg Except.ok (climb_ascent _ _ h k d)

/-- All old peaks. -/
lemma oldPeaks_complete {leaves nodes : List Bytes} (mmr : IsMmr H leaves nodes)
    (len : ∀ l ∈ leaves, l.length = 32) {n : ℕ} (le : n ≤ leaves.length)
    (small : nodeCount n < maxMmrSize) {bs : List (ℕ × ℕ)} (complete : ∀ b ∈ bs, Complete n b.1 b.2) :
    ∃ rounds, (bs.map fun b => root b.1 b.2).mapM (oldPeakProof nodes (peakRoots n n.size)) =
        .ok rounds ∧
      rounds.map (·.1) = (bs.map fun b => treeHash H leaves b.1 b.2).map toHex ∧
      climbOldPeaks H (peakRoots n n.size) (mountainHashes H leaves n)
        (bs.map fun b => root b.1 b.2) (bs.map fun b => treeHash H leaves b.1 b.2)
        ((rounds.map (·.2)).map fun w => .tuple (w.map .str)) = .ok () := by
  induction bs with
  | nil => exact ⟨[], rfl, rfl, rfl⟩
  | cons b bs ih =>
    obtain ⟨rounds, hrounds, hfirst, hclimb⟩ := ih fun c hc => complete c (List.mem_cons_of_mem _ hc)
    obtain ⟨ws, found, hproof, hpath, hfold⟩ :=
      oldPeak_complete mmr len le small (complete b List.mem_cons_self)
    refine ⟨(toHex (treeHash H leaves b.1 b.2), ws) :: rounds, ?_, ?_, ?_⟩
    · rw [List.map_cons, List.mapM_cons, hproof, ok_bind, hrounds]
      rfl
    · rw [List.map_cons, List.map_cons, List.map_cons, hfirst]
    · simp only [List.map_cons, climbOldPeaks]
      rw [hpath, ok_bind, hfold, ok_bind, ensure_of rfl, ok_bind]
      exact hclimb

/-- A well-formed proof passes the first checks. -/
lemma checkConsistency_eq {a b : ℕ} (hab : a ≤ b) (small : nodeCount b < maxMmrSize)
    {rootA rootB : Bytes} (hA : rootA.length = 32) (hB : rootB.length = 32)
    {oldPeaks newPeaks : List Bytes} {witness : List (List Str)}
    (dold : ∀ p ∈ oldPeaks, p.length = 32) (dnew : ∀ p ∈ newPeaks, p.length = 32)
    (lenold : oldPeaks.length = (mountains a).length)
    (lennew : newPeaks.length = (mountains b).length)
    (lenw : witness.length = (mountains a).length) :
    checkConsistency (.bytes rootA) (.int (nodeCount a)) (.bytes rootB) (.int (nodeCount b))
      (ConsistencyProof.toObj ⟨1, .lit "consistency", nodeCount a, nodeCount b,
        oldPeaks.map toHex, witness, newPeaks.map toHex⟩) =
      .ok ⟨rootA, rootB, peakRoots a a.size, peakRoots b b.size, oldPeaks, newPeaks,
        witness.map fun w => .tuple (w.map .str)⟩ := by
  have smalla : nodeCount a < maxMmrSize := Nat.lt_of_le_of_lt (forestSize_le hab) small
  have sizes : (nodeCount a : ℤ) ≤ nodeCount b := Int.ofNat_le.mpr (forestSize_le hab)
  have nonneg : (0 : ℤ) ≤ nodeCount a := Int.natCast_nonneg _
  have po := parseDigests_toHex dold
  have pn := parseDigests_toHex dnew
  simp only [checkConsistency, bind_eq_ok, ensure_eq_ok, need_eq_ok, assertDigestObj_eq_ok,
    exists_const]
  refine ⟨rootA, ⟨rfl, hA⟩, rootB, ⟨rfl, hB⟩, rfl, ?_⟩
  refine ⟨_, rfl, Obj.eq_int _ _, _, rfl, by simp, _, rfl, by simp, _, rfl, by simp, ?_⟩
  refine ⟨_, rfl, nonneg, _, rfl, sizes, _, rfl, _, rfl, _, rfl, _, rfl, _, rfl, _, rfl, ?_⟩
  refine ⟨_, peaksObj_nodeCount smalla, _, peaksObj_nodeCount small, ?_⟩
  rw [peakRoots_eq a, peakRoots_eq b]
  exact ⟨by simp [lenold], by simp [lennew], by simp [lenw], _, po, _, pn, rfl⟩

/-- The proof between two sizes of a store is accepted against the bagged peaks of these sizes. -/
lemma consistencyProof_accepted {digests : List Digest} {nodes : List Bytes}
    (build : addDigests H [] digests = .ok nodes) {a b : ℕ} (hab : a ≤ b)
    (hb : b ≤ digests.length) (small : nodeCount b < maxMmrSize) :
    ∃ proof, consistencyProof nodes (nodeCount a) (nodeCount b) = .ok proof ∧
      verifyConsistency H (.bytes (bag H (mountainHashes H (leaves H digests) a))) (.int (nodeCount a))
        (.bytes (bag H (mountainHashes H (leaves H digests) b))) (.int (nodeCount b))
        proof.toObj = true := by
  have mmr := IsMmr.of_addDigests build
  have len := length_of_mem_leaves H digests
  have le : b ≤ (leaves H digests).length := by rwa [length_leaves]
  have smalla : nodeCount a < maxMmrSize := Nat.lt_of_le_of_lt (forestSize_le hab) small
  have dold := length_of_mem_mountainHashes (H := H) len (hab.trans le)
  have dnew := length_of_mem_mountainHashes (H := H) len le
  obtain ⟨rounds, hrounds, hfirst, hclimb⟩ := oldPeaks_complete mmr len le small
    fun c hc => (mountain_complete_of_mem hc).mono hab
  rw [← peakRoots_eq] at hrounds hclimb
  rw [← mountainHashes] at hfirst hclimb
  have count : rounds.length = (mountains a).length := by
    simpa [mountainHashes] using congrArg List.length hfirst
  refine ⟨⟨1, .lit "consistency", nodeCount a, nodeCount b,
    (mountainHashes H (leaves H digests) a).map toHex, rounds.map (·.2),
    (mountainHashes H (leaves H digests) b).map toHex⟩, ?_, ?_⟩
  · have nonneg : (0 : ℤ) ≤ nodeCount a := Int.natCast_nonneg _
    have sizes : (nodeCount a : ℤ) ≤ nodeCount b := Int.ofNat_le.mpr (forestSize_le hab)
    have reader : (nodeCount b : ℤ) ≤ nodes.length := by
      rw [mmr.length_eq]
      exact_mod_cast forestSize_le le
    have hnew := mmr.peakHashes le small
    rw [peakHashes, peaks_nodeCount small, ok_bind] at hnew
    rw [consistencyProof, require_of nonneg, ok_bind, require_of sizes, ok_bind]
    dsimp only
    rw [require_of reader, ok_bind, peaksObj_nodeCount smalla, ok_bind, peaksObj_nodeCount small,
      ok_bind, hrounds, ok_bind, hnew, ok_bind, hfirst]
  · have checked := checkConsistency_eq hab small (length_bag H dold) (length_bag H dnew) dold dnew
      (by simp [mountainHashes]) (by simp [mountainHashes])
      (show (rounds.map (·.2)).length = (mountains a).length by simpa using count)
    rw [verifyConsistency, verdict_eq_true, checked, ok_bind]
    dsimp only
    rw [rootFromPeaks_eq H dold, ok_bind, ensure_of rfl, ok_bind, rootFromPeaks_eq H dnew, ok_bind,
      ensure_of rfl, ok_bind, hclimb, ok_bind]

/-- The proof between two sizes of a store is accepted against the roots committed at these sizes. -/
theorem verifyConsistency_complete {digests : List Digest} {nodes : List Bytes}
    (build : addDigests H [] digests = .ok nodes) {a b : ℕ} (hab : a ≤ b)
    (hb : b ≤ digests.length) (small : nodeCount b < maxMmrSize) :
    ∃ proof olderA olderB rootA rootB,
      consistencyProof nodes (nodeCount a) (nodeCount b) = .ok proof ∧
      addDigests H [] (digests.take a) = .ok olderA ∧
      rootAt H olderA (nodeCount a) = .ok rootA ∧
      addDigests H [] (digests.take b) = .ok olderB ∧
      rootAt H olderB (nodeCount b) = .ok rootB ∧
      verifyConsistency H (.bytes rootA) (.int (nodeCount a)) (.bytes rootB) (.int (nodeCount b))
        proof.toObj = true := by
  have smalla : nodeCount a < maxMmrSize := Nat.lt_of_le_of_lt (forestSize_le hab) small
  obtain ⟨proof, hproof, accept⟩ := consistencyProof_accepted build hab hb small
  obtain ⟨olderA, thenA, committedA⟩ := exists_older (H := H) (hab.trans hb) smalla
  obtain ⟨olderB, thenB, committedB⟩ := exists_older (H := H) hb small
  exact ⟨proof, olderA, olderB, _, _, hproof, thenA, committedA, thenB, committedB, accept⟩

/-- The proof from one leaf to two is accepted. -/
theorem verifyConsistency_complete_sample :
    ∃ proof olderA olderB rootA rootB,
      consistencyProof sampleNodes (nodeCount 1) (nodeCount 2) = .ok proof ∧
      addDigests sha256Hash [] (sampleDigests.take 1) = .ok olderA ∧
      rootAt sha256Hash olderA (nodeCount 1) = .ok rootA ∧
      addDigests sha256Hash [] (sampleDigests.take 2) = .ok olderB ∧
      rootAt sha256Hash olderB (nodeCount 2) = .ok rootB ∧
      verifyConsistency sha256Hash (.bytes rootA) (.int (nodeCount 1)) (.bytes rootB)
        (.int (nodeCount 2)) proof.toObj = true :=
  verifyConsistency_complete sampleNodes_eq (by decide) (by decide) (by decide)

end CLL.Core
