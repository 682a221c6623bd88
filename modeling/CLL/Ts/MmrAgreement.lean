import CLL.Go.Range
import CLL.Go.Reference
import CLL.Ts.Range

/-!
# The Go and the TypeScript verifiers of an MMR

Range proofs mean the same in both languages. Consistency proofs do not at two ends of the sizes:
`verifyConsistency` in TypeScript takes a leaf count of zero for a count that is missing, and
`VerifyConsistency` in Go does not look at the limit that `VerifyRange` beside it enforces.
`mmrVerifiers_agree_iff` says that these are all differences.
-/

namespace CLL.Ts
open PostOrder CLL.Core

/-- The consistency proof as Go holds it. -/
def MmrConsistencyProof.toGo (p : MmrConsistencyProof) : Go.ConsistencyProof :=
  ⟨1, .lit "consistency", p.oldSize, p.newSize, p.oldPeaks, p.witness, p.newPeaks⟩

/-- The range proof as TypeScript holds it. -/
def MmrRangeProof.ofGo (p : Go.RangeProof) : MmrRangeProof :=
  ⟨number p.v, p.kind, number p.size, number p.fromIndex, number p.toIndex, p.witness.map toHex⟩

variable {M : Go.MerkleLog} {libraryLeafCount : ℕ → ℕ} {H : HashFunction}

/-- Go and TypeScript verify the same range proofs. -/
lemma verifyRange_ofGo (lawful : M.Lawful H) (counts : Go.CountsLeaves libraryLeafCount) (root : Bytes)
    (size fromIndex toIndex : ℕ) (bodyDigests : List Bytes) (p : Go.RangeProof) :
    Go.verifyRange M libraryLeafCount H root size fromIndex toIndex bodyDigests p =
      verifyRange H root size fromIndex toIndex bodyDigests (.ofGo p) := by
  have limit : maxMmrSize ≤ maxSafeInteger := by decide
  have self_le (n : ℕ) : n ≤ nodeCount n := forestSize_strictMono.le_apply
  rw [Bool.eq_iff_iff, Go.verifyRange_eq_true lawful counts, verifyRange_eq_true]
  constructor
  · rintro ⟨n, r⟩
    have ⟨le, lt, _⟩ := r.covers
    have small := r.small
    have size_eq := r.size
    have := self_le n
    refine ⟨n, p.witness, r.root_length, ?_, r.kind, ?_, ?_, ?_, r.size, small, r.digests,
      mapM_hex_toHex.mpr ⟨rfl, r.nodes⟩, r.covers⟩
    · exact (congrArg number r.v).trans (number_of_le (by decide))
    · exact (congrArg number r.proofSize).trans (number_of_le (by omega))
    · exact (congrArg number r.proofFrom).trans (number_of_le (by omega))
    · exact (congrArg number r.proofTo).trans (number_of_le (by omega))
  · rintro ⟨n, bs, r⟩
    obtain ⟨rfl, nodes⟩ := mapM_hex_toHex.mp r.nodes
    have ⟨le, lt, _⟩ := r.covers
    have small := r.small
    have size_eq := r.size
    have := self_le n
    refine ⟨n, r.root_length, ?_, r.kind, ?_, ?_, ?_, r.size, small, r.digests, nodes, r.covers⟩
    · exact eq_of_number_eq (by decide) r.v
    · exact eq_of_number_eq (by omega) r.proofSize
    · exact eq_of_number_eq (by omega) r.proofFrom
    · exact eq_of_number_eq (by omega) r.proofTo

/-- Digests lead from the peaks of one complete tree to those of another, and both bag to their roots. -/
def Proves (H : HashFunction) (oldRoot newRoot : Bytes) (p : MmrConsistencyProof) : Prop :=
  ∃ m n, p.oldSize = nodeCount m ∧ p.newSize = nodeCount n ∧ nodeCount n < 2 ^ 63 ∧
    (∀ x ∈ p.oldPeaks, x.length = 32) ∧ (∀ x ∈ p.newPeaks, x.length = 32) ∧
    Extends H m n oldRoot newRoot p.oldPeaks p.witness p.newPeaks

/-- Go accepts a consistency proof exactly where it proves the extension. -/
lemma goVerifyConsistency_eq_true (lawful : M.Lawful H) {oldRoot newRoot : Bytes}
    {p : MmrConsistencyProof} :
    Go.verifyConsistency M H oldRoot newRoot p.toGo = true ↔ Proves H oldRoot newRoot p := by
  rw [Go.verifyConsistency_eq_true lawful]
  constructor
  · rintro ⟨m, n, c⟩
    exact ⟨m, n, c.oldSize, c.newSize, Nat.lt_of_le_of_lt c.small (by decide), c.oldPeaks, c.newPeaks, c.le,
      c.newPeaks_length, c.oldRoot_eq, c.newRoot_eq, c.bridges⟩
  · rintro ⟨m, n, oldSize, newSize, small, oldPeaks, newPeaks, e⟩
    have oldLength : oldRoot.length = 32 := by
      rw [← e.rootA_eq]
      exact length_bag H oldPeaks
    have newLength : newRoot.length = 32 := by
      rw [← e.rootB_eq]
      exact length_bag H newPeaks
    exact ⟨m, n, oldLength, newLength, rfl, rfl, oldSize, newSize, e.le, Nat.le_sub_one_of_lt small,
      e.bridges.length_eq.1, e.newPeaks_length, oldPeaks, newPeaks, e.rootA_eq, e.rootB_eq, e.bridges⟩

/-- TypeScript accepts the same, but for the two ends. -/
lemma verifyConsistency_eq_true_iff {oldRoot newRoot : Bytes} {p : MmrConsistencyProof} :
    verifyConsistency H oldRoot newRoot p = true ↔
      0 < p.oldSize ∧ p.newSize < 2 ^ 50 ∧ Proves H oldRoot newRoot p := by
  have limit : maxMmrSize = 2 ^ 50 := rfl
  rw [verifyConsistency_eq_true]
  constructor
  · rintro ⟨m, n, c⟩
    have small := c.small
    have pos : 0 < nodeCount m := forestSize_strictMono c.pos
    exact ⟨by rwa [c.oldSize], by rwa [c.newSize, ← limit], m, n, c.oldSize, c.newSize, by omega, c.oldPeaks,
      c.newPeaks, c.le, c.newPeaks_length, c.oldRoot_eq, c.newRoot_eq, c.bridges⟩
  · rintro ⟨pos, small, m, n, oldSize, newSize, -, oldPeaks, newPeaks, e⟩
    have posm : 0 < m := by
      by_contra zero
      obtain rfl : m = 0 := by omega
      rw [oldSize] at pos
      exact absurd pos (by decide)
    rw [newSize, ← limit] at small
    exact ⟨m, n, posm, e.le, small, oldSize, newSize, e.bridges.length_eq.1, e.newPeaks_length, oldPeaks,
      newPeaks, e.rootA_eq, e.rootB_eq, e.bridges⟩

/-- Both languages give the same answer to every range proof, and to a consistency proof exactly if the old
tree has a leaf and the new one less than `2 ^ 50` nodes, or nothing is proved. -/
theorem mmrVerifiers_agree_iff (lawful : M.Lawful H) (counts : Go.CountsLeaves libraryLeafCount) :
    (∀ root size fromIndex toIndex bodyDigests (p : Go.RangeProof),
      Go.verifyRange M libraryLeafCount H root size fromIndex toIndex bodyDigests p =
        verifyRange H root size fromIndex toIndex bodyDigests (.ofGo p)) ∧
    ∀ oldRoot newRoot (p : MmrConsistencyProof),
      Go.verifyConsistency M H oldRoot newRoot p.toGo = verifyConsistency H oldRoot newRoot p ↔
        (0 < p.oldSize ∧ p.newSize < 2 ^ 50) ∨ ¬Proves H oldRoot newRoot p := by
  refine ⟨verifyRange_ofGo lawful counts, fun oldRoot newRoot p => ?_⟩
  rw [Bool.eq_iff_iff, goVerifyConsistency_eq_true lawful, verifyConsistency_eq_true_iff]
  constructor
  · intro same
    by_cases proves : Proves H oldRoot newRoot p
    · exact .inl ⟨(same.mp proves).1, (same.mp proves).2.1⟩
    · exact .inr proves
  · rintro (⟨pos, small⟩ | proves)
    · exact ⟨fun proves => ⟨pos, small, proves⟩, fun accepted => accepted.2.2⟩
    · exact ⟨fun proved => absurd proved proves, fun accepted => absurd accepted.2.2 proves⟩

/-- The proof from the first leaf of the sample log to all three, whose path is one node. -/
def sampleExtension : MmrConsistencyProof :=
  ⟨1, 4, sampleNodes.take 1, [(sampleNodes.drop 1).take 1], sampleNodes.drop 2⟩

/-- The range proof of its last two leaves. -/
def sampleLast : Go.RangeProof := ⟨1, .lit "range", 4, 1, 2, sampleNodes.take 1⟩

/-- TypeScript accepts both. -/
lemma sampleProofs_accepted :
    verifyConsistency sha256Hash (sampleNodes.getD 0 []) sampleRoot sampleExtension = true ∧
      verifyRange sha256Hash sampleRoot 4 1 2 [List.replicate 32 2, List.replicate 32 3] (.ofGo sampleLast) =
        true := by
  simp only [sampleExtension, sampleLast, sampleNodes_bytes, sampleRoot_bytes, sha256Hash_eq]
  decide +kernel

/-- Both languages accept them. -/
theorem mmrVerifiers_agree_iff_sample :
    Go.verifyConsistency (Go.referenceMerkleLog sha256Hash) sha256Hash (sampleNodes.getD 0 []) sampleRoot
        sampleExtension.toGo = true ∧
      Go.verifyRange (Go.referenceMerkleLog sha256Hash) Go.leavesIn sha256Hash sampleRoot 4 1 2
        [List.replicate 32 2, List.replicate 32 3] sampleLast = true := by
  obtain ⟨ranges, extensions⟩ := mmrVerifiers_agree_iff (M := Go.referenceMerkleLog sha256Hash) (H := sha256Hash)
    (Go.referenceMerkleLog_lawful sha256Hash) (fun n _ => Go.leavesIn_forestSize n)
  exact ⟨((extensions _ _ _).mpr (.inl (by decide))).trans sampleProofs_accepted.1,
    (ranges _ _ _ _ _ _).trans sampleProofs_accepted.2⟩

/-- A digest. -/
def sampleDigest : Bytes := List.replicate 32 7

/-- The tree of one leaf after the empty tree. -/
def sampleFromEmpty : MmrConsistencyProof := ⟨0, 1, [], [], [sampleDigest]⟩

/-- The empty tree extends to a tree of one leaf in Go only. -/
theorem mmrVerifiers_differ_at_zero :
    Go.verifyConsistency (Go.referenceMerkleLog sha256Hash) sha256Hash (List.replicate 32 0) sampleDigest
        sampleFromEmpty.toGo = true ∧
      verifyConsistency sha256Hash (List.replicate 32 0) sampleDigest sampleFromEmpty = false := by
  constructor
  · refine (goVerifyConsistency_eq_true (Go.referenceMerkleLog_lawful sha256Hash)).mpr
      ⟨0, 1, by decide, by decide, by decide, by decide, by decide, by decide, by decide, rfl, rfl, ?_⟩
    have none_ : mountains 0 = [] := by decide
    rw [none_]
    trivial
  · rw [Bool.eq_false_iff]
    intro accepted
    exact absurd (verifyConsistency_eq_true_iff.mp accepted).1 (by decide)

end CLL.Ts
