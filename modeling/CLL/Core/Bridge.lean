import CLL.Core.Consistency

/-!
# What a consistency verifier checks

The verifiers of the four languages read consistency proofs in different forms and check them in different
orders. `Bridges` is what they have in common: every old peak climbs, by its own witness, to the new peak
over it. `Bridges.pins` says that the old peaks of such a proof are true nodes when its new peaks are true.
-/

namespace CLL.Core
open PostOrder

variable (H : HashFunction)

/-- Every block of the old tree climbs, from its peak and by its witness, to a peak of the tree of `n`
leaves. -/
def Bridges (n : ℕ) (newPeaks : List Bytes) :
    List (ℕ × ℕ) → List Bytes → List (List Bytes) → Prop
  | [], [], [] => True
  | (h, k) :: bs, oldPeak :: oldPeaks, w :: witness =>
    (∃ i, findContainingPeak (root h k) (peakRoots n n.size) = some i ∧
      (mountains n)[i]? = some (h + w.length, k / 2 ^ w.length) ∧
      (∀ sibling ∈ w, sibling.length = 32) ∧
      climb (nodeHash H) oldPeak (ascent h k w.length) w = newPeaks.getD i []) ∧
      Bridges n newPeaks bs oldPeaks witness
  | _, _, _ => False

/-- The strings hashed on the way up. -/
def bridgeHashed : List (ℕ × ℕ) → List Bytes → List (List Bytes) → List Bytes
  | (h, k) :: bs, oldPeak :: oldPeaks, w :: witness =>
    (climbArgs (nodeHash H) oldPeak (ascent h k w.length) w).map nodePreimage ++
      bridgeHashed bs oldPeaks witness
  | _, _, _ => []

variable {H}

/-- A bridge has one old peak and one path for each block. -/
lemma Bridges.length_eq {n : ℕ} {newPeaks : List Bytes} {bs : List (ℕ × ℕ)} {oldPeaks : List Bytes}
    {witness : List (List Bytes)} (bridges : Bridges H n newPeaks bs oldPeaks witness) :
    oldPeaks.length = bs.length ∧ witness.length = bs.length := by
  induction bs generalizing oldPeaks witness with
  | nil =>
    cases oldPeaks <;> cases witness <;> first | exact ⟨rfl, rfl⟩ | exact bridges.elim
  | cons b bs ih =>
    cases oldPeaks <;> cases witness <;> try exact bridges.elim
    obtain ⟨old, wit⟩ := ih bridges.2
    exact ⟨congrArg (· + 1) old, congrArg (· + 1) wit⟩

/-- Old peaks that climb to the true new peaks are true nodes of the new tree. -/
theorem Bridges.pins {leaves nodes : List Bytes} (mmr : IsMmr H leaves nodes)
    (len : ∀ l ∈ leaves, l.length = 32) {n : ℕ} (le : n ≤ leaves.length) {S : Set Bytes}
    (inj : Set.InjOn H.digest S) (tree : ∀ m ∈ interiorHashed nodes, m ∈ S) {bs : List (ℕ × ℕ)} {oldPeaks : List Bytes}
    {witness : List (List Bytes)} (digests : ∀ b ∈ oldPeaks, b.length = 32)
    (run : ∀ m ∈ bridgeHashed H bs oldPeaks witness, m ∈ S)
    (bridges : Bridges H n (mountainHashes H leaves n) bs oldPeaks witness) :
    oldPeaks = bs.map fun b => treeHash H leaves b.1 b.2 := by
  induction bs generalizing oldPeaks witness with
  | nil => exact List.length_eq_zero_iff.mp bridges.length_eq.1
  | cons b bs ih =>
    cases oldPeaks with
    | nil => exact bridges.elim
    | cons oldPeak oldPeaks =>
      cases witness with
      | nil => exact bridges.elim
      | cons w witness =>
        obtain ⟨h, k⟩ := b
        obtain ⟨⟨i, -, top, hw, reached⟩, rest⟩ := bridges
        simp only [bridgeHashed, List.mem_append] at run
        have later := ih (fun b hb => digests b (List.mem_cons_of_mem _ hb))
          (fun m hm => run m (.inr hm)) rest
        have mem : (h + w.length, k / 2 ^ w.length) ∈ mountains n := List.mem_of_getElem? top
        have peak : (mountainHashes H leaves n).getD i [] =
            treeHash H leaves (h + w.length) (k / 2 ^ w.length) := by
          simp [mountainHashes, top]
        rw [peak] at reached
        obtain ⟨start, -⟩ := mmr.climb_pins len inj tree (digests oldPeak List.mem_cons_self) hw rfl
          (fun t ht => run _ (.inl (List.mem_map_of_mem ht)))
          ((mountain_complete_of_mem mem).mono le) reached
        rw [List.map_cons, start, later]

end CLL.Core
