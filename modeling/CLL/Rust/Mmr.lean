import CLL.Core.Verifiers
import CLL.Rust.Checkpoint

/-!
# Proof verifiers in Rust

The verifiers of `mmr.rs` and `range_proof.rs`. Positions are below `MAX_MMR_SIZE` wherever they are
computed with, so that only the number of leaves of a range can wrap. `height_at`, `node_count` and the
search for the height that fits have the statements of Python's and are those of `CLL.Core`. A closure that
returns `Ok(false)` or an error, which `unwrap_or(false)` makes the same, returns `none` here.
-/

namespace CLL.Rust
open PostOrder CLL.Core

/-- `i64::MAX`. -/
def i64Max : ℕ := 2 ^ 63 - 1

/-- `while remaining > 0 { … }` of `peaks`. -/
def peaksLoop : ℕ → ℕ → ℕ → ℕ → List ℕ → Option (List ℕ)
  | 0, _, _, _, result => some result
  | fuel + 1, remaining, offset, prevHeight, result =>
    if remaining > 0 then
      let h := fitHeight remaining remaining 0
      if h ≥ prevHeight then none
      else
        let mSize := 2 ^ (h + 1) - 1
        peaksLoop fuel (remaining - mSize) (offset + mSize) h (result ++ [offset + mSize - 1])
    else some result

/-- `peaks`. -/
def peaks (size : ℕ) : Option (List ℕ) :=
  if size ≥ maxMmrSize then none else peaksLoop size size 0 i64Max []

/-- `leaf_count`. -/
def leafCount (size : ℕ) : Option ℕ := do
  let pks ← peaks size
  some (pks.map fun p => 2 ^ heightAt p).sum

/-- `leaf_index_to_pos`. -/
def leafIndexToPos (leafIndex : ℕ) : Option ℕ :=
  let pos := nodeCount leafIndex
  if pos ≥ maxMmrSize then none else some pos

/-- `for (i, &peak_pos) in peak_positions.iter().enumerate() { … }` of `find_containing_peak`. -/
def findContainingPeakFrom (pos : ℕ) : ℕ → List ℕ → Option ℕ
  | _, [] => none
  | i, peakPos :: peakPositions =>
    let h := heightAt peakPos
    let mSize := 2 ^ (h + 1) - 1
    let start := peakPos + 1 - mSize
    if start ≤ pos ∧ pos ≤ peakPos then some i else findContainingPeakFrom pos (i + 1) peakPositions

/-- `find_containing_peak`. -/
def findContainingPeak (pos : ℕ) (peakPositions : List ℕ) : Option ℕ :=
  findContainingPeakFrom pos 0 peakPositions

/-- `while cur_height > 0 && cur_root != target_pos { … }` of `locate_path`. -/
def locatePathLoop (targetPos : ℕ) : ℕ → ℕ → List PathStep → List PathStep
  | 0, _, topDown => topDown
  | curHeight + 1, curRoot, topDown =>
    if curRoot = targetPos then topDown
    else
      let parentPos := curRoot
      let leftSize := 2 ^ (curHeight + 1) - 1
      let leftChildRoot := curRoot - leftSize - 1
      let rightChildRoot := curRoot - 1
      if targetPos ≤ leftChildRoot then
        locatePathLoop targetPos curHeight leftChildRoot (topDown ++ [⟨rightChildRoot, false, parentPos⟩])
      else
        locatePathLoop targetPos curHeight rightChildRoot (topDown ++ [⟨leftChildRoot, true, parentPos⟩])

/-- `locate_path`. -/
def locatePath (rootPos height targetPos : ℕ) : List PathStep :=
  (locatePathLoop targetPos height rootPos []).reverse

/-- `hex::decode`: pairs of digits of either case. -/
def decodeHex : Str → Option Bytes
  | [] => some []
  | [_] => none
  | hi :: lo :: s => do
    let hi ← hexValue hi
    let lo ← hexValue lo
    let rest ← decodeHex s
    some (UInt8.ofNat (16 * hi + lo) :: rest)

/-- `parse_digest_hex`. -/
def parseDigestHex (h : Text) : Option Bytes := do
  let bytes ← decodeHex h.1
  guard (bytes.length = digestLen)
  some bytes

variable (H : HashFunction)

/-- `leaf_hash`. -/
def leafHash (bodyDigest : Bytes) : Bytes := H.digest (0 :: bodyDigest)

/-- `interior_hash`. -/
def interiorHash (left right : Bytes) (position : ℕ) : Bytes := H.digest (be64 (position + 1) ++ left ++ right)

/-- `root_from_peaks`. -/
def rootFromPeaks (peakHashes : List Bytes) : Bytes :=
  match peakHashes.reverse with
  | [] => List.replicate digestLen 0
  | right :: hashes => bagLoop H right hashes

/-- `for (step, sib) in path.iter().zip(siblings.iter()) { … }`. -/
def foldPath (acc : Bytes) (path : List PathStep) (siblings : List Bytes) : Bytes :=
  (path.zip siblings).foldl (fun acc (step, sib) =>
    if step.targetIsRight then interiorHash H sib acc step.parentPos
    else interiorHash H acc sib step.parentPos) acc

/-- `InclusionProof`. -/
structure InclusionProof where
  v : UInt32
  kind : Text
  size : UInt64
  leafIndex : UInt64
  witness : List Text
  peaksLeft : List Text
  peaksRight : List Text

/-- `verify_inclusion`. -/
def verifyInclusion (root : Digest) (size leafIndex : UInt64) (bodyDigest : Digest)
    (proof : InclusionProof) : Bool :=
  let result : Option Bool := do
    guard (proof.v = 1 ∧ proof.kind.1 = .lit "inclusion")
    guard (proof.size = size ∧ proof.leafIndex = leafIndex)
    guard (size.toNat < maxMmrSize)
    let lc ← leafCount size.toNat
    guard (leafIndex.toNat < lc)
    let leafPos ← leafIndexToPos leafIndex.toNat
    let pks ← peaks size.toNat
    let peakIdx ← findContainingPeak leafPos pks
    let peakPos := pks.getD peakIdx 0
    let path := locatePath peakPos (heightAt peakPos) leafPos
    guard (proof.witness.length = path.length)
    guard (proof.peaksLeft.length = peakIdx)
    guard (proof.peaksRight.length = pks.length - peakIdx - 1)
    let witness ← proof.witness.mapM parseDigestHex
    let peaksLeft ← proof.peaksLeft.mapM parseDigestHex
    let peaksRight ← proof.peaksRight.mapM parseDigestHex
    let acc := foldPath H (leafHash H bodyDigest.1) path witness
    some (rootFromPeaks H (peaksLeft ++ acc :: peaksRight) == root.1)
  result.getD false

/-- `ConsistencyProof`. -/
structure ConsistencyProof where
  v : UInt32
  kind : Text
  sizeA : UInt64
  sizeB : UInt64
  oldPeaks : List Text
  witness : List (List Text)
  newPeaks : List Text

/-- `for (i, &p) in old_peak_positions.iter().enumerate() { … }` of `verify_consistency`. -/
def climbOldPeaks (newPeakPositions : List ℕ) (newPeaks : List Bytes) :
    List ℕ → List Bytes → List (List Text) → Option Unit
  | p :: ps, oldPeak :: oldPeaks, w :: witness => do
    let containingIdx ← findContainingPeak p newPeakPositions
    let newPeakPos := newPeakPositions.getD containingIdx 0
    let path := locatePath newPeakPos (heightAt newPeakPos) p
    guard (w.length = path.length)
    let wBytes ← w.mapM parseDigestHex
    guard (foldPath H oldPeak path wBytes = newPeaks.getD containingIdx [])
    climbOldPeaks newPeakPositions newPeaks ps oldPeaks witness
  | _, _, _ => some ()

/-- `verify_consistency`. -/
def verifyConsistency (rootA : Digest) (sizeA : UInt64) (rootB : Digest) (sizeB : UInt64)
    (proof : ConsistencyProof) : Bool :=
  let result : Option Bool := do
    guard (proof.v = 1 ∧ proof.kind.1 = .lit "consistency")
    guard (proof.sizeA = sizeA ∧ proof.sizeB = sizeB)
    guard (¬ sizeB < sizeA)
    let oldPeakPositions ← peaks sizeA.toNat
    let newPeakPositions ← peaks sizeB.toNat
    guard (proof.oldPeaks.length = oldPeakPositions.length)
    guard (proof.newPeaks.length = newPeakPositions.length)
    guard (proof.witness.length = oldPeakPositions.length)
    let oldPeaks ← proof.oldPeaks.mapM parseDigestHex
    let newPeaks ← proof.newPeaks.mapM parseDigestHex
    guard (rootFromPeaks H oldPeaks = rootA.1)
    guard (rootFromPeaks H newPeaks = rootB.1)
    climbOldPeaks H newPeakPositions newPeaks oldPeakPositions oldPeaks proof.witness
    some true
  result.getD false

/-- `RangeProof`. -/
structure RangeProof where
  v : UInt32
  kind : Text
  size : UInt64
  fromIndex : UInt64
  toIndex : UInt64
  witness : List Text

/-- `reconstruct_range_subtree`: the hash of the subtree and the next value of the cursor. -/
def reconstructRangeSubtree (lo hi : ℕ) (bodyDigests : ℕ → Option Bytes) (witness : List Bytes)
    (height pos leafStart cursor : ℕ) : Option (Bytes × ℕ) :=
  let leafEnd := leafStart + 2 ^ height - 1
  if leafEnd < lo ∨ leafStart > hi then do
    let w ← witness[cursor]?
    some (w, cursor + 1)
  else
    match height with
    | 0 => do
      let d ← bodyDigests leafStart
      some (leafHash H d, cursor)
    | height + 1 => do
      let half := 2 ^ height
      let (left, cursor) ← reconstructRangeSubtree lo hi bodyDigests witness height
        (pos - 2 ^ (height + 1)) leafStart cursor
      let (right, cursor) ← reconstructRangeSubtree lo hi bodyDigests witness height (pos - 1)
        (leafStart + half) cursor
      some (interiorHash H left right pos, cursor)

/-- `for &p in &pks { … }` of `verify_range`. -/
def reconstructPeaks (lo hi : ℕ) (bodyDigests : ℕ → Option Bytes) (witness : List Bytes) :
    List ℕ → ℕ → ℕ → Option (List Bytes × ℕ)
  | [], _, cursor => some ([], cursor)
  | p :: pks, leafStart, cursor => do
    let h := heightAt p
    let (peak, cursor) ← reconstructRangeSubtree H lo hi bodyDigests witness h p leafStart cursor
    let (peaks, cursor) ← reconstructPeaks lo hi bodyDigests witness pks (leafStart + 2 ^ h) cursor
    some (peak :: peaks, cursor)

/-- `verify_range`. The number of leaves is a `u64` that wraps. -/
def verifyRange (root : Digest) (size fromIndex toIndex : UInt64) (bodyDigests : List Digest)
    (proof : RangeProof) : Bool :=
  let result : Option Bool := do
    guard (proof.v = 1 ∧ proof.kind.1 = .lit "range")
    guard (proof.size = size ∧ proof.fromIndex = fromIndex ∧ proof.toIndex = toIndex)
    guard (¬ (size.toNat ≥ maxMmrSize ∨ toIndex < fromIndex))
    guard (bodyDigests.length = (toIndex - fromIndex + 1).toNat)
    let lc ← leafCount size.toNat
    guard (toIndex.toNat < lc)
    let digestByIndex := fun i =>
      if fromIndex.toNat ≤ i then (bodyDigests[i - fromIndex.toNat]?).map (·.1) else none
    let witness ← proof.witness.mapM parseDigestHex
    let pks ← peaks size.toNat
    let (reconstructedPeaks, cursor) ← reconstructPeaks H fromIndex.toNat toIndex.toNat digestByIndex
      witness pks 0 0
    guard (cursor = witness.length)
    some (rootFromPeaks H reconstructedPeaks == root.1)
  result.getD false

end CLL.Rust
