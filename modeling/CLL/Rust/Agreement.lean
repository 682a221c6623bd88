import CLL.Rust.Verifiers

/-!
# Agreement of the Rust and the Python verifiers

`verifiers_agree` says for which arguments each of the three verifiers gives the same answer in both
languages: unless whitespace stands in a digest string of a proof that proves what it says.
-/

namespace CLL.Rust
open PostOrder
open CLL.Core (HashFunction Digest nodeCount maxMmrSize parseDigest Includes Extends Covers)

variable (H : HashFunction)

/-- The proof in Python. -/
def InclusionProof.toPython (p : InclusionProof) : Core.InclusionProof where
  v := p.v.toNat
  kind := p.kind.1
  size := p.size.toNat
  leafIndex := p.leafIndex.toNat
  witness := p.witness.map (·.1)
  peaksLeft := p.peaksLeft.map (·.1)
  peaksRight := p.peaksRight.map (·.1)

/-- The digest strings of the proof. -/
def InclusionProof.digests (p : InclusionProof) : List Text := p.witness ++ p.peaksLeft ++ p.peaksRight

/-- The proof is about the arguments, and the digests that `bytes.fromhex` reads in it prove them. -/
def InclusionProof.Proves (p : InclusionProof) (root : Digest) (size leafIndex : UInt64)
    (bodyDigest : Digest) : Prop :=
  p.v = 1 ∧ p.kind.1 = .lit "inclusion" ∧ p.size = size ∧ p.leafIndex = leafIndex ∧
    ∃ n w l r, size.toNat = nodeCount n ∧ nodeCount n < maxMmrSize ∧
      (p.witness.map (·.1)).mapM parseDigest = some w ∧
      (p.peaksLeft.map (·.1)).mapM parseDigest = some l ∧
      (p.peaksRight.map (·.1)).mapM parseDigest = some r ∧
      Includes H n leafIndex.toNat root.1 bodyDigest.1 w l r

/-- The proof in Python. -/
def ConsistencyProof.toPython (p : ConsistencyProof) : Core.ConsistencyProof where
  v := p.v.toNat
  kind := p.kind.1
  sizeA := p.sizeA.toNat
  sizeB := p.sizeB.toNat
  oldPeaks := p.oldPeaks.map (·.1)
  witness := p.witness.map fun w => w.map (·.1)
  newPeaks := p.newPeaks.map (·.1)

/-- The digest strings of the proof. -/
def ConsistencyProof.digests (p : ConsistencyProof) : List Text := p.oldPeaks ++ p.witness.flatten ++ p.newPeaks

/-- The proof is about the arguments, and the digests that `bytes.fromhex` reads in it prove them. -/
def ConsistencyProof.Proves (p : ConsistencyProof) (rootA : Digest) (sizeA : UInt64) (rootB : Digest)
    (sizeB : UInt64) : Prop :=
  p.v = 1 ∧ p.kind.1 = .lit "consistency" ∧ p.sizeA = sizeA ∧ p.sizeB = sizeB ∧
    ∃ m n old witness new, sizeA.toNat = nodeCount m ∧ sizeB.toNat = nodeCount n ∧ nodeCount n < maxMmrSize ∧
      (p.oldPeaks.map (·.1)).mapM parseDigest = some old ∧
      (p.witness.map fun w => w.map (·.1)).mapM (fun w => w.mapM parseDigest) = some witness ∧
      (p.newPeaks.map (·.1)).mapM parseDigest = some new ∧
      Extends H m n rootA.1 rootB.1 old witness new

/-- The proof in Python. -/
def RangeProof.toPython (p : RangeProof) : Core.RangeProof where
  v := p.v.toNat
  kind := p.kind.1
  size := p.size.toNat
  fromIndex := p.fromIndex.toNat
  toIndex := p.toIndex.toNat
  witness := p.witness.map (·.1)

/-- The proof is about the arguments, and the digests that `bytes.fromhex` reads in it prove them. -/
def RangeProof.Proves (p : RangeProof) (root : Digest) (size fromIndex toIndex : UInt64)
    (bodyDigests : List Digest) : Prop :=
  p.v = 1 ∧ p.kind.1 = .lit "range" ∧ p.size = size ∧ p.fromIndex = fromIndex ∧ p.toIndex = toIndex ∧
    ∃ n w, size.toNat = nodeCount n ∧ nodeCount n < maxMmrSize ∧
      (p.witness.map (·.1)).mapM parseDigest = some w ∧
      Covers H n fromIndex.toNat toIndex.toNat root.1 (bodyDigests.map (·.1)) w

variable {H}

/-- Version one is the same number in both languages. -/
lemma version_eq {v : UInt32} : ((v.toNat : ℕ) : ℤ) = 1 ↔ v = 1 := by
  rw [← UInt32.toNat_inj]
  exact Int.ofNat_inj

/-- Sizes are equal in both languages together. -/
lemma size_eq {a b : UInt64} : ((a.toNat : ℕ) : ℤ) = b.toNat ↔ a = b := by
  rw [Int.ofNat_inj, UInt64.toNat_inj]

/-- Python accepts an inclusion proof exactly where it proves the leaf. -/
lemma python_verifyInclusion {root bodyDigest : Digest} {size i : UInt64} {p : InclusionProof} :
    Core.verifyInclusion H (.bytes root.1) (.int size.toNat) (.int i.toNat) (.bytes bodyDigest.1)
        p.toPython.toObj = true ↔ p.Proves H root size i bodyDigest := by
  rw [Core.verifyInclusion_iff root.2 bodyDigest.2]
  simp only [InclusionProof.toPython, version_eq, size_eq]
  rfl

/-- Rust accepts it exactly where its digests have no space, too. -/
lemma rust_verifyInclusion {root bodyDigest : Digest} {size i : UInt64} {p : InclusionProof} :
    verifyInclusion H root size i bodyDigest p = true ↔
      (∀ s ∈ p.digests, Tight s) ∧ p.Proves H root size i bodyDigest := by
  simp only [verifyInclusion_iff, mapM_parseDigestHex, InclusionProof.Proves, InclusionProof.digests,
    List.forall_mem_append]
  tauto

/-- Python accepts a consistency proof exactly where it proves the extension. -/
lemma python_verifyConsistency {rootA rootB : Digest} {sizeA sizeB : UInt64} {p : ConsistencyProof} :
    Core.verifyConsistency H (.bytes rootA.1) (.int sizeA.toNat) (.bytes rootB.1) (.int sizeB.toNat)
        p.toPython.toObj = true ↔ p.Proves H rootA sizeA rootB sizeB := by
  rw [Core.verifyConsistency_iff rootA.2 rootB.2]
  simp only [ConsistencyProof.toPython, version_eq, size_eq]
  rfl

/-- Rust accepts it exactly where its digests have no space, too. -/
lemma rust_verifyConsistency {rootA rootB : Digest} {sizeA sizeB : UInt64} {p : ConsistencyProof} :
    verifyConsistency H rootA sizeA rootB sizeB p = true ↔
      (∀ s ∈ p.digests, Tight s) ∧ p.Proves H rootA sizeA rootB sizeB := by
  have flatten : (∀ s ∈ p.witness.flatten, Tight s) ↔ ∀ w ∈ p.witness, ∀ s ∈ w, Tight s := by
    simp only [List.mem_flatten, forall_exists_index, and_imp]
    exact ⟨fun h w hw s hs => h s w hw hs, fun h s w hw hs => h w hw s hs⟩
  simp only [verifyConsistency_iff, mapM_parseDigestHex, mapM_mapM_parseDigestHex, ConsistencyProof.Proves,
    ConsistencyProof.digests, List.forall_mem_append, flatten]
  tauto

/-- Python accepts a range proof exactly where it proves the range. -/
lemma python_verifyRange {root : Digest} {bodyDigests : List Digest} {size lo hi : UInt64} {p : RangeProof} :
    Core.verifyRange H (.bytes root.1) (.int size.toNat) (.int lo.toNat) (.int hi.toNat)
        (.list (bodyDigests.map fun d => .bytes d.1)) p.toPython.toObj = true ↔
      p.Proves H root size lo hi bodyDigests := by
  have digests : ∀ d ∈ bodyDigests.map (·.1), d.length = 32 := by
    intro d hd
    obtain ⟨d, -, rfl⟩ := List.mem_map.mp hd
    exact d.2
  have e : (bodyDigests.map fun d => Obj.bytes d.1) = (bodyDigests.map (·.1)).map Obj.bytes := by
    rw [List.map_map]
    rfl
  rw [e, Core.verifyRange_iff root.2 digests]
  simp only [RangeProof.toPython, version_eq, size_eq]
  rfl

/-- Rust accepts it exactly where its witnesses have no space, too. -/
lemma rust_verifyRange {root : Digest} {bodyDigests : List Digest} {size lo hi : UInt64} {p : RangeProof} :
    verifyRange H root size lo hi bodyDigests p = true ↔
      (∀ s ∈ p.witness, Tight s) ∧ p.Proves H root size lo hi bodyDigests := by
  simp only [verifyRange_iff, mapM_parseDigestHex, RangeProof.Proves]
  tauto

/-- One answer implies the other, and a condition makes up the difference. -/
lemma answers_eq_iff {rust python : Bool} {tight proves : Prop} (hpython : python = true ↔ proves)
    (hrust : rust = true ↔ tight ∧ proves) : rust = python ↔ tight ∨ ¬ proves := by
  rw [Bool.eq_iff_iff, hrust, hpython]
  tauto

/-- The two verifiers of each kind give the same answer, but for whitespace in the digests of a proof that
proves what it says. -/
theorem verifiers_agree (H : HashFunction) :
    (∀ root size leafIndex bodyDigest (p : InclusionProof),
      verifyInclusion H root size leafIndex bodyDigest p =
          Core.verifyInclusion H (.bytes root.1) (.int size.toNat) (.int leafIndex.toNat)
            (.bytes bodyDigest.1) p.toPython.toObj ↔
        (∀ s ∈ p.digests, Tight s) ∨ ¬ p.Proves H root size leafIndex bodyDigest) ∧
      (∀ rootA sizeA rootB sizeB (p : ConsistencyProof),
        verifyConsistency H rootA sizeA rootB sizeB p =
            Core.verifyConsistency H (.bytes rootA.1) (.int sizeA.toNat) (.bytes rootB.1)
              (.int sizeB.toNat) p.toPython.toObj ↔
          (∀ s ∈ p.digests, Tight s) ∨ ¬ p.Proves H rootA sizeA rootB sizeB) ∧
      ∀ root size fromIndex toIndex bodyDigests (p : RangeProof),
        verifyRange H root size fromIndex toIndex bodyDigests p =
            Core.verifyRange H (.bytes root.1) (.int size.toNat) (.int fromIndex.toNat)
              (.int toIndex.toNat) (.list (bodyDigests.map fun d => .bytes d.1)) p.toPython.toObj ↔
          (∀ s ∈ p.witness, Tight s) ∨ ¬ p.Proves H root size fromIndex toIndex bodyDigests := by
  refine ⟨fun _ _ _ _ _ => ?_, fun _ _ _ _ _ => ?_, fun _ _ _ _ _ _ => ?_⟩
  · exact answers_eq_iff python_verifyInclusion rust_verifyInclusion
  · exact answers_eq_iff python_verifyConsistency rust_verifyConsistency
  · exact answers_eq_iff python_verifyRange rust_verifyRange

/-- A digest of zeros. -/
def zeroDigest : Digest := ⟨List.replicate 32 0, by decide⟩

/-- The digest in hexadecimal, behind a space. -/
def spacedDigest : Text := ⟨32 :: List.replicate 64 48, by decide⟩

/-- A tree of one leaf extends the empty tree. -/
def spacedProof : ConsistencyProof where
  v := 1
  kind := ⟨.lit "consistency", by decide⟩
  sizeA := 0
  sizeB := 1
  oldPeaks := []
  witness := []
  newPeaks := [spacedDigest]

/-- Python accepts a proof with a space that Rust refuses. -/
theorem spacedProof_split :
    verifyConsistency Core.sha256Hash zeroDigest 0 zeroDigest 1 spacedProof = false ∧
      Core.verifyConsistency Core.sha256Hash (.bytes zeroDigest.1) (.int (0 : UInt64).toNat)
        (.bytes zeroDigest.1) (.int (1 : UInt64).toNat) spacedProof.toPython.toObj = true := by
  decide +kernel

end CLL.Rust
