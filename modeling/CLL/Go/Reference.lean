import CLL.Checkpoint.Signer
import CLL.Go.Checkpoint

/-!
# Packages that do what the Go code expects

`referenceMerkleLog` finds sizes and peaks by counting leaves, `referencePackages` reads and writes the
deterministic encoding and nothing else.
-/

namespace CLL.Go
open PostOrder CLL.Core
open CLL.Checkpoint (label envelope envelopeParts)

/-- The leaves that `size` nodes hold completely. -/
def leavesIn (size : ℕ) : ℕ := Nat.findGreatest (fun n => forestSize n ≤ size) size

/-- The leaves of a forest are counted back from its size. -/
lemma leavesIn_forestSize (n : ℕ) : leavesIn (forestSize n) = n := by
  apply le_antisymm
  · have held : forestSize (leavesIn (forestSize n)) ≤ forestSize n :=
      Nat.findGreatest_spec (P := fun m => forestSize m ≤ forestSize n) (Nat.zero_le _) (by simp)
    exact forestSize_strictMono.le_iff_le.mp held
  · exact Nat.le_findGreatest (le_forestSize n) le_rfl

def referenceMerkleLog (H : HashFunction) : MerkleLog where
  indexHeight := heightAt
  peaks i := (mountains (leavesIn (i + 1))).map fun b => root b.1 b.2
  firstMmrSize i := nodeCount (leavesIn i + 1)
  hashPeaksRhs := bag H

/-- The reference library is lawful. -/
theorem referenceMerkleLog_lawful (H : HashFunction) : (referenceMerkleLog H).Lawful H where
  indexHeight h k _ := heightAt_root h k
  peaks n pos _ := by
    have large := le_forestSize n
    have back : nodeCount n - 1 + 1 = forestSize n := by
      rw [nodeCount_eq]
      omega
    simp only [referenceMerkleLog]
    rw [back, leavesIn_forestSize]
  firstMmrSize i _ := by
    have held : forestSize (leavesIn i) ≤ i :=
      Nat.findGreatest_spec (P := fun m => forestSize m ≤ i) (Nat.zero_le _) (by simp)
    refine ⟨leavesIn i + 1, rfl, ?_, fun m lt => ?_⟩
    · by_contra le
      have le : forestSize (leavesIn i + 1) ≤ i := by
        rw [nodeCount_eq] at le
        omega
      have more : leavesIn i + 1 ≤ leavesIn i :=
        Nat.le_findGreatest ((le_forestSize _).trans le) le
      omega
    · have lt : leavesIn i < m := forestSize_strictMono.lt_iff_lt.mp (held.trans_lt lt)
      exact forestSize_le lt
  hashPeaksRhs _ _ := rfl

/-- A slice of bytes. -/
def ofBytes : Slice UInt8 → Cbor
  | none => .null
  | some b => .bytes b

def toBytes? : Cbor → Option (Slice UInt8)
  | .null => some none
  | .bytes b => some (some b)
  | _ => none

/-- A slice of values. -/
def ofSlice {α : Type} (f : α → Cbor) : Slice α → Cbor
  | none => .null
  | some xs => .array (xs.map f)

def toSlice? {α : Type} (f : Cbor → Option α) : Cbor → Option (Slice α)
  | .null => some none
  | .array xs => (xs.mapM f).map some
  | _ => none

def toUint? : Cbor → Option ℕ
  | .int n => if 0 ≤ n then some n.toNat else none
  | _ => none

def WireConsistencyProof.toCbor (p : WireConsistencyProof) : Cbor :=
  .map [
    (label "size_a", .int p.sizeA),
    (label "size_b", .int p.sizeB),
    (label "old_peaks", ofSlice ofBytes p.oldPeaks),
    (label "witness", ofSlice (ofSlice ofBytes) p.witness),
    (label "new_peaks", ofSlice ofBytes p.newPeaks)]

/-- The fields of the claims; the last two are left out of a statement that has none. -/
def WireClaims.fields (w : WireClaims) : List (Cbor × Cbor) :=
  [(label "kind", .str w.kind),
    (label "log_size", .int w.logSize),
    (label "commitment", ofBytes w.commitment),
    (label "prev_size", .int w.prevSize),
    (label "prev_commitment", ofBytes w.prevCommitment),
    (label "issued_at", .str w.issuedAt)] ++
  (w.cadence.toList.map fun n => (label "cadence", .int n)) ++
  w.consistencyProof.toList.map fun p => (label "consistency_proof", p.toCbor)

def readProof : Cbor → Option WireConsistencyProof
  | .map fields => do
    let sizeA ← (Cbor.get? fields (label "size_a")).bind toUint?
    let sizeB ← (Cbor.get? fields (label "size_b")).bind toUint?
    let oldPeaks ← (Cbor.get? fields (label "old_peaks")).bind (toSlice? toBytes?)
    let witness ← (Cbor.get? fields (label "witness")).bind (toSlice? (toSlice? toBytes?))
    let newPeaks ← (Cbor.get? fields (label "new_peaks")).bind (toSlice? toBytes?)
    some ⟨sizeA, sizeB, oldPeaks, witness, newPeaks⟩
  | _ => none

def readClaims : Cbor → Option WireClaims
  | .map fields => do
    let kind ← asString (Cbor.get? fields (label "kind"))
    let logSize ← (Cbor.get? fields (label "log_size")).bind toUint?
    let commitment ← (Cbor.get? fields (label "commitment")).bind toBytes?
    let prevSize ← (Cbor.get? fields (label "prev_size")).bind toUint?
    let prevCommitment ← (Cbor.get? fields (label "prev_commitment")).bind toBytes?
    let issuedAt ← asString (Cbor.get? fields (label "issued_at"))
    let cadence := (Cbor.get? fields (label "cadence")).bind toUint?
    let proof := (Cbor.get? fields (label "consistency_proof")).bind readProof
    some ⟨kind, logSize, commitment, prevSize, prevCommitment, issuedAt, cadence, proof⟩
  | _ => none

def readPeaks : Cbor → Option (List Bytes)
  | .array xs => xs.mapM fun x => asBytes (some x)
  | _ => none

def readSign1 (data : Bytes) : Option Sign1Message := do
  let (protectedBstr, payload, signature) ← (Cbor.read data).bind envelopeParts
  let fields ← protectedCwtClaims (Cbor.read protectedBstr)
  some ⟨protectedBstr, fields, [], payload, signature⟩

/-- Packages that read and write the deterministic encoding, with a given check of signatures. -/
def referencePackages (H : HashFunction) (verify : Bytes → Bytes → Bytes → Bool) : Packages where
  unmarshalSign1 := readSign1
  marshalSign1 m := some (envelope m.rawProtected m.payload m.signature).encode
  toBeSigned m := some (CLL.Checkpoint.sigStructure m.rawProtected m.payload).encode
  unmarshalClaims data := (Cbor.read data).bind readClaims
  marshalClaims w := Cbor.write (.map w.fields)
  unmarshalPeaks data := (Cbor.read data).bind readPeaks
  marshalPeaks peaks := Cbor.write (.array (peaks.map .bytes))
  verify := verify
  merkleLog := referenceMerkleLog H

end CLL.Go
