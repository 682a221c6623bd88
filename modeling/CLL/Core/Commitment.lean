import CLL.Core.Hash
import CLL.Lib.Cbor

/-!
# Commitment objects

`commitment_object` of `checkpoint/core.py` writes the peak hashes of a tree as a CBOR array by hand.
`commitmentObject_eq_ok` says that the bytes are the deterministic encoding of that array.
-/

namespace CLL.Core

/-- `_cbor_uint_header`. -/
def cborUintHeader (majorType n : ℕ) : Py Bytes :=
  if n < 24 then .ok [UInt8.ofNat (32 * majorType + n)]
  else if n < 2 ^ 8 then .ok [UInt8.ofNat (32 * majorType + 24), UInt8.ofNat n]
  else if n < 2 ^ 16 then .ok (UInt8.ofNat (32 * majorType + 25) :: Cbor.bigEndian 2 n)
  else if n < 2 ^ 32 then .ok (UInt8.ofNat (32 * majorType + 26) :: Cbor.bigEndian 4 n)
  else if n < 2 ^ 64 then .ok (UInt8.ofNat (32 * majorType + 27) :: Cbor.bigEndian 8 n)
  else raise .overflowError "int too big to convert"

/-- The array header and the header of every peak with the peak itself. -/
def commitmentObject (peakHashes : List Bytes) : Py Bytes := do
  peakHashes.forM fun p => assertDigest p "peak"
  let header ← cborUintHeader 4 peakHashes.length
  let body ← peakHashes.mapM fun p => do
    let header ← cborUintHeader 2 p.length
    .ok (header ++ p)
  .ok (header ++ body.flatten)

/-- A header of a number below `2 ^ 64` is written. -/
lemma cborUintHeader_eq {n : ℕ} (small : n < 2 ^ 64) (majorType : ℕ) :
    cborUintHeader majorType n = .ok (Cbor.head majorType n) := by
  unfold cborUintHeader Cbor.head
  split_ifs <;> rfl

/-- A header is written exactly for a number below `2 ^ 64`. -/
lemma cborUintHeader_eq_ok {majorType n : ℕ} {b : Bytes} :
    cborUintHeader majorType n = .ok b ↔ n < 2 ^ 64 ∧ b = Cbor.head majorType n := by
  by_cases small : n < 2 ^ 64
  · rw [cborUintHeader_eq small, Except.ok.injEq]
    exact ⟨fun e => ⟨small, e.symm⟩, fun e => e.2.symm⟩
  · have big : cborUintHeader majorType n = raise .overflowError "int too big to convert" := by
      unfold cborUintHeader
      rw [if_neg (by omega), if_neg (by omega), if_neg (by omega), if_neg (by omega), if_neg small]
    rw [big]
    exact ⟨fun e => (raise_ne_ok e).elim, fun h => (small h.1).elim⟩

/-- Checked digests have 32 bytes. -/
lemma assertDigest_forM {ps : List Bytes} {what : String} {u : Unit}
    (ok : (ps.forM fun p => assertDigest p what) = .ok u) : ∀ p ∈ ps, p.length = 32 := by
  induction ps with
  | nil => simp
  | cons p ps ih =>
    simp only [List.forM_eq_forM, List.forM_cons] at ih ok
    obtain ⟨_, first, rest⟩ := bind_eq_ok.mp ok
    rw [List.forall_mem_cons]
    exact ⟨assertDigest_eq_ok.mp first, ih rest⟩

/-- Peaks are encoded as byte strings. -/
lemma encodeItems_peaks {ps : List Bytes} (len : ∀ p ∈ ps, p.length = 32) :
    (ps.mapM fun p => do
      let header ← cborUintHeader 2 p.length
      .ok (header ++ p) : Py (List Bytes)) = .ok (ps.map fun p => Cbor.encode (.bytes p)) ∧
      (ps.map fun p => Cbor.encode (.bytes p)).flatten = Cbor.encodeItems (ps.map .bytes) := by
  induction ps with
  | nil => exact ⟨rfl, rfl⟩
  | cons p ps ih =>
    rw [List.forall_mem_cons] at len
    obtain ⟨ih, flat⟩ := ih len.2
    have header : cborUintHeader 2 p.length = .ok (Cbor.head 2 p.length) :=
      cborUintHeader_eq_ok.mpr ⟨by rw [len.1]; decide, rfl⟩
    constructor
    · rw [List.mapM_cons, header, ok_bind, ok_bind, ih, ok_bind, List.map_cons, Cbor.encode]
      rfl
    · rw [List.map_cons, List.flatten_cons, flat, List.map_cons, Cbor.encodeItems]

/-- A commitment object is the encoding of the array of its peaks. -/
theorem commitmentObject_eq_ok {ps : List Bytes} {b : Bytes} :
    commitmentObject ps = .ok b ↔
      (∀ p ∈ ps, p.length = 32) ∧ ps.length < 2 ^ 64 ∧ b = Cbor.encode (.array (ps.map .bytes)) := by
  constructor
  · intro ok
    obtain ⟨_, checked, ok⟩ := bind_eq_ok.mp ok
    obtain ⟨header, hheader, ok⟩ := bind_eq_ok.mp ok
    obtain ⟨body, hbody, ok⟩ := bind_eq_ok.mp ok
    have len := assertDigest_forM checked
    obtain ⟨small, rfl⟩ := cborUintHeader_eq_ok.mp hheader
    obtain ⟨items, flat⟩ := encodeItems_peaks len
    cases hbody.symm.trans items
    cases ok
    refine ⟨len, small, ?_⟩
    rw [flat, Cbor.encode, List.length_map]
  · rintro ⟨len, small, rfl⟩
    obtain ⟨items, flat⟩ := encodeItems_peaks len
    have header := cborUintHeader_eq small 4
    rw [commitmentObject, forM_assertDigest len, ok_bind, header, ok_bind, items, ok_bind, flat,
      Cbor.encode, List.length_map]

/-- Peaks fit into the encoding. -/
lemma fits_peaks {ps : List Bytes} (len : ∀ p ∈ ps, p.length = 32) (small : ps.length < 2 ^ 64) :
    (Cbor.array (ps.map .bytes)).fits = true := by
  rw [Cbor.fits, List.length_map, Bool.and_eq_true, decide_eq_true_eq]
  refine ⟨small, ?_⟩
  clear small
  induction ps with
  | nil => rfl
  | cons p ps ih =>
    rw [List.forall_mem_cons] at len
    have first : (Cbor.bytes p).fits = true := by
      rw [Cbor.fits, len.1]
      decide
    rw [List.map_cons, Cbor.fitsItems, first, ih len.2, Bool.and_self]

end CLL.Core
