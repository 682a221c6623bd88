import Mathlib.Data.UInt
import CLL.Core.Hash
import CLL.Lib.StrictCbor

/-!
# Commitment objects in Rust

`cbor_uint_header`, `commitment_object`, `cbor_read_uint_header` and `decode_commitment_object` of `mmr.rs`,
with positions and lengths as machine words: an arithmetic overflow, a capacity beyond `isize::MAX` bytes and
an `unwrap` of an error are outcomes of their own, `panic`.
-/

namespace CLL.Rust
open CLL.Core Cbor

/-- A returned `MmrError`, or a panic. -/
inductive Failure where
  | invalid (message : String)
  | panic (message : String)
  deriving DecidableEq

/-- A call that returns, returns an error or panics. -/
abbrev Outcome (α : Type) := Except Failure α

/-- A slice, of at most `isize::MAX` bytes; `size` is that of an element. -/
abbrev SliceOf (α : Type) (size : ℕ) := {xs : List α // size * xs.length < 2 ^ 63}

/-- `Err(invalid(message))`. -/
def invalid {α : Type} (message : String) : Outcome α := .error (.invalid message)

/-- `x.ok_or_else(|| invalid(message))?`. -/
def okOr {α : Type} (x : Option α) (message : String) : Outcome α :=
  match x with
  | some a => .ok a
  | none => invalid message

/-- `a + b`. -/
def addUsize (a b : ℕ) : Outcome ℕ :=
  if a + b < 2 ^ 64 then .ok (a + b) else .error (.panic "attempt to add with overflow")

/-- `a - b`. -/
def subUsize (a b : ℕ) : Outcome ℕ :=
  if b ≤ a then .ok (a - b) else .error (.panic "attempt to subtract with overflow")

/-- `bytes.get(lo..hi)`. -/
def getRange (bytes : Bytes) (lo hi : ℕ) : Option Bytes :=
  if lo ≤ hi ∧ hi ≤ bytes.length then some ((bytes.drop lo).take (hi - lo)) else none

/-- `Vec::with_capacity(count)` of a vector of digests. -/
def withCapacity (count : ℕ) : Outcome Unit :=
  if digestLen * count < 2 ^ 63 then .ok () else .error (.panic "capacity overflow")

/-- `slice.try_into().unwrap()`. -/
def toDigest (slice : Bytes) : Outcome Digest :=
  if len : slice.length = digestLen then .ok ⟨slice, len⟩ else .error (.panic "TryFromSliceError")

/-- `cbor_uint_header`. -/
def cborUintHeader (majorType : UInt8) (n : UInt64) : Bytes :=
  let lead := majorType <<< 5
  if n < 24 then [lead ||| n.toUInt8]
  else if n < 2 ^ 8 then (lead ||| 24) :: bigEndian 1 n.toNat
  else if n < 2 ^ 16 then (lead ||| 25) :: bigEndian 2 n.toNat
  else if n < 2 ^ 32 then (lead ||| 26) :: bigEndian 4 n.toNat
  else (lead ||| 27) :: bigEndian 8 n.toNat

/-- `commitment_object`. -/
def commitmentObject (peakHashes : List Digest) : Bytes :=
  cborUintHeader 4 (UInt64.ofNat peakHashes.length) ++
    peakHashes.flatMap fun p => cborUintHeader 2 (UInt64.ofNat p.1.length) ++ p.1

/-- An argument of `width` bytes and the position after it. -/
def readLength (bytes : Bytes) (pos width : ℕ) : Outcome (ℕ × ℕ) := do
  let last ← addUsize pos width
  let s ← okOr (getRange bytes pos last) s!"commitment object: truncated {width}-byte length"
  .ok (ofBigEndian s, last)

/-- The argument of a header with additional information `info`, the least it may be, and the position
after it. -/
def cborReadArgument (bytes : Bytes) (pos info : ℕ) : Outcome (ℕ × ℕ × ℕ) :=
  if info ≤ 23 then .ok (info, 0, pos)
  else
    match info with
    | 24 => do
      let b ← okOr bytes[pos]? "commitment object: truncated 1-byte length"
      let pos ← addUsize pos 1
      .ok (b.toNat, 24, pos)
    | 25 => do
      let (value, pos) ← readLength bytes pos 2
      .ok (value, 2 ^ 8, pos)
    | 26 => do
      let (value, pos) ← readLength bytes pos 4
      .ok (value, 2 ^ 16, pos)
    | 27 => do
      let (value, pos) ← readLength bytes pos 8
      .ok (value, 2 ^ 32, pos)
    | 31 => invalid "commitment object: indefinite-length CBOR encoding is not conformant"
    | _ => invalid s!"commitment object: reserved CBOR additional info {info}"

/-- `cbor_read_uint_header`: the value and the position after the header at `pos`. -/
def cborReadUintHeader (bytes : Bytes) (pos expectedMajor : ℕ) : Outcome (ℕ × ℕ) := do
  let byte ← okOr bytes[pos]? "commitment object: truncated CBOR header"
  let major := byte.toNat / 32
  let info := byte.toNat % 32
  if major ≠ expectedMajor then
    invalid s!"commitment object: expected CBOR major type {expectedMajor}, got {major}"
  else do
    let pos ← addUsize pos 1
    let (value, min, pos) ← cborReadArgument bytes pos info
    if value < min then
      invalid s!"commitment object: non-minimal CBOR encoding of {value} (additional info {info})"
    else .ok (value, pos)

/-- `MIN_PEAK_ENCODED_LEN`. -/
def minPeakEncodedLen : ℕ := 2 + digestLen

/-- The declared count of peaks and the position after the array header. -/
def readCount (bytes : Bytes) : Outcome (ℕ × ℕ) := do
  let (count, pos) ← cborReadUintHeader bytes 0 4
  let remaining ← subUsize bytes.length pos
  if remaining / minPeakEncodedLen < count then
    invalid s!"commitment object: array count {count} exceeds what the remaining {remaining} bytes can hold"
  else .ok (count, pos)

/-- `count` peaks and the position after them. -/
def readPeaks (bytes : Bytes) : ℕ → ℕ → Outcome (List Digest × ℕ)
  | 0, pos => .ok ([], pos)
  | count + 1, pos => do
    let (len, pos) ← cborReadUintHeader bytes pos 2
    if len ≠ digestLen then invalid s!"commitment object: peak byte string length {len} != {digestLen}"
    else do
      let last ← addUsize pos digestLen
      let slice ← okOr (getRange bytes pos last) "commitment object: truncated peak bytes"
      let peak ← toDigest slice
      let (peakHashes, pos) ← readPeaks bytes count last
      .ok (peak :: peakHashes, pos)

/-- `decode_commitment_object`. -/
def decodeCommitmentObject (bytes : Bytes) : Outcome (List Digest) := do
  let (count, pos) ← readCount bytes
  withCapacity count
  let (peakHashes, pos) ← readPeaks bytes count pos
  if pos ≠ bytes.length then invalid "commitment object: trailing bytes after decoding the peak array"
  else .ok peakHashes

/-- A header is a head of the item. -/
lemma cborUintHeader_eq {majorType : ℕ} (isMajor : majorType = 2 ∨ majorType = 4) (n : UInt64) :
    cborUintHeader (UInt8.ofNat majorType) n = head majorType n.toNat := by
  have small : ∀ k < 24,
      UInt8.ofNat majorType <<< 5 ||| (UInt64.ofNat k).toUInt8 = UInt8.ofNat (32 * majorType + k) := by
    rcases isMajor with rfl | rfl <;> decide
  have wide : ∀ k ∈ [24, 25, 26, 27],
      UInt8.ofNat majorType <<< 5 ||| UInt8.ofNat k = UInt8.ofNat (32 * majorType + k) := by
    rcases isMajor with rfl | rfl <;> decide
  have h24 := wide 24 (by decide)
  have h25 := wide 25 (by decide)
  have h26 := wide 26 (by decide)
  have h27 := wide 27 (by decide)
  have l24 : (24 : UInt64).toNat = 24 := rfl
  have l8 : (2 ^ 8 : UInt64).toNat = 2 ^ 8 := by decide
  have l16 : (2 ^ 16 : UInt64).toNat = 2 ^ 16 := by decide
  have l32 : (2 ^ 32 : UInt64).toNat = 2 ^ 32 := by decide
  unfold cborUintHeader head
  simp only [UInt64.lt_iff_toNat_lt, l24, l8, l16, l32]
  by_cases short : n.toNat < 24
  · have written := small n.toNat short
    rw [UInt64.ofNat_toNat] at written
    rw [if_pos short, if_pos short, written]
  · rw [if_neg short, if_neg short]
    exact ite_congr rfl (fun _ => congrArg (· :: _) h24) fun _ =>
      ite_congr rfl (fun _ => congrArg (· :: _) h25) fun _ =>
        ite_congr rfl (fun _ => congrArg (· :: _) h26) fun _ => congrArg (· :: _) h27

/-- The bytes of peaks. -/
def encodePeaks (ps : List Digest) : Bytes := ps.flatMap fun p => head 2 digestLen ++ p.1

/-- A commitment is the head of an array and the peaks. -/
lemma commitmentObject_eq {ps : List Digest} (small : ps.length < 2 ^ 64) :
    commitmentObject ps = head 4 ps.length ++ encodePeaks ps := by
  have peak (p : Digest) : cborUintHeader 2 (UInt64.ofNat p.1.length) = head 2 digestLen := by
    rw [p.2]
    exact cborUintHeader_eq (.inl rfl) _
  have count := cborUintHeader_eq (.inr rfl) (UInt64.ofNat ps.length)
  rw [UInt64.toNat_ofNat_of_lt' small] at count
  rw [commitmentObject, encodePeaks, ← count]
  congr 1
  exact List.flatMap_congr fun p _ => by rw [peak]

/-- Each encoded peak has the same length. -/
lemma length_encodePeaks (ps : List Digest) : (encodePeaks ps).length = minPeakEncodedLen * ps.length := by
  induction ps with
  | nil => rfl
  | cons p ps ih =>
    have two : (head 2 digestLen).length = 2 := rfl
    rw [encodePeaks, List.flatMap_cons, List.length_append, List.length_append, ← encodePeaks, ih, two, p.2,
      List.length_cons, minPeakEncodedLen]
    ring

/-- `bytes` from `pos` on begin with `x` and go on at `pos'`. -/
def Spans (bytes : Bytes) (pos : ℕ) (x : Bytes) (pos' : ℕ) : Prop :=
  pos' ≤ bytes.length ∧ bytes.drop pos = x ++ bytes.drop pos'

/-- Spanned bytes end where their length says. -/
lemma Spans.length {bytes x : Bytes} {pos pos' : ℕ} (spans : Spans bytes pos x pos') (le : pos ≤ bytes.length) :
    pos' = pos + x.length := by
  have long := congrArg List.length spans.2
  have bound := spans.1
  rw [List.length_append, List.length_drop, List.length_drop] at long
  omega

/-- The bytes that are taken are spanned. -/
lemma spans_take {bytes : Bytes} {pos width : ℕ} (le : pos + width ≤ bytes.length) :
    Spans bytes pos ((bytes.drop pos).take width) (pos + width) := by
  refine ⟨le, ?_⟩
  rw [← List.drop_drop, List.take_append_drop]

/-- Spans are joined. -/
lemma Spans.append {bytes x y : Bytes} {pos pos' pos'' : ℕ} (first : Spans bytes pos x pos')
    (second : Spans bytes pos' y pos'') : Spans bytes pos (x ++ y) pos'' :=
  ⟨second.1, by rw [first.2, second.2, List.append_assoc]⟩

/-- A span of two parts is split. -/
lemma spans_append {bytes x y : Bytes} {pos pos' : ℕ} (le : pos ≤ bytes.length)
    (spans : Spans bytes pos (x ++ y) pos') :
    Spans bytes pos x (pos + x.length) ∧ Spans bytes (pos + x.length) y pos' := by
  have long := spans.length le
  have bound := spans.1
  rw [List.length_append] at long
  have rest : bytes.drop (pos + x.length) = y ++ bytes.drop pos' := by
    rw [← List.drop_drop, spans.2, List.append_assoc, List.drop_left]
  exact ⟨⟨by omega, by rw [spans.2, rest, List.append_assoc]⟩, spans.1, rest⟩

/-- A byte is there exactly where it is spanned. -/
lemma getElem?_eq_some_iff_spans {bytes : Bytes} {pos : ℕ} {b : UInt8} :
    bytes[pos]? = some b ↔ Spans bytes pos [b] (pos + 1) := by
  constructor
  · intro at_
    obtain ⟨lt, e⟩ := List.getElem?_eq_some_iff.mp at_
    exact ⟨lt, by rw [List.drop_eq_getElem_cons lt, e]; rfl⟩
  · intro spans
    have lt : pos < bytes.length := spans.1
    have e := spans.2
    rw [List.drop_eq_getElem_cons lt] at e
    rw [List.getElem?_eq_getElem lt, (List.cons.inj e).1]

/-- An option is returned exactly where it is present. -/
lemma okOr_eq_ok {α : Type} {x : Option α} {message : String} {a : α} : okOr x message = .ok a ↔ x = some a := by
  cases x <;> simp [okOr, invalid]

/-- A sum below the bound does not overflow. -/
lemma addUsize_of_lt {a b : ℕ} (lt : a + b < 2 ^ 64) : addUsize a b = .ok (a + b) := if_pos lt

/-- A range is read exactly where it is spanned. -/
lemma getRange_eq_some {bytes s : Bytes} {pos width : ℕ} (hw : 0 < width) :
    getRange bytes pos (pos + width) = some s ↔ s.length = width ∧ Spans bytes pos s (pos + width) := by
  unfold getRange
  constructor
  · intro ok
    split at ok
    · next inside =>
      obtain rfl := Option.some.inj ok
      rw [Nat.add_sub_cancel_left]
      refine ⟨?_, spans_take inside.2⟩
      rw [List.length_take, List.length_drop]
      omega
    · cases ok
  · rintro ⟨rfl, spans⟩
    rw [if_pos ⟨by omega, spans.1⟩, Nat.add_sub_cancel_left, spans.2, List.take_left]

/-- A length is read exactly where its bytes are spanned. -/
lemma readLength_eq_ok {bytes : Bytes} {pos width value pos' : ℕ} (hw : 0 < width) (fits : pos + width < 2 ^ 64) :
    readLength bytes pos width = .ok (value, pos') ↔
      ∃ s, s.length = width ∧ Spans bytes pos s pos' ∧ pos' = pos + width ∧ value = ofBigEndian s := by
  rw [readLength, addUsize_of_lt fits, ok_bind]
  constructor
  · intro ok
    obtain ⟨s, range, e⟩ := bind_eq_ok.mp ok
    obtain ⟨len, spans⟩ := (getRange_eq_some hw).mp (okOr_eq_ok.mp range)
    cases e
    exact ⟨s, len, spans, rfl, rfl⟩
  · rintro ⟨s, len, spans, rfl, rfl⟩
    exact bind_eq_ok.mpr ⟨s, okOr_eq_ok.mpr ((getRange_eq_some hw).mpr ⟨len, spans⟩), rfl⟩

/-- An argument of several bytes. -/
lemma wide_eq_ok {bytes : Bytes} {pos width bound value least pos' : ℕ} (hw : 0 < width)
    (fits : pos + width < 2 ^ 64) :
    (readLength bytes pos width >>= fun r => (.ok (r.1, bound, r.2) : Outcome (ℕ × ℕ × ℕ))) =
        .ok (value, least, pos') ↔
      least = bound ∧ ∃ s, s.length = width ∧ Spans bytes pos s pos' ∧ pos' = pos + width ∧
        value = ofBigEndian s := by
  rw [← readLength_eq_ok hw fits, bind_eq_ok]
  constructor
  · rintro ⟨⟨v, p⟩, read, e⟩
    cases e
    exact ⟨rfl, read⟩
  · rintro ⟨rfl, read⟩
    exact ⟨_, read, rfl⟩

/-- What an argument of each width is. -/
lemma cborReadArgument_eq_ok {bytes : Bytes} {pos info value least pos' : ℕ} (fits : pos + 8 < 2 ^ 64) :
    cborReadArgument bytes pos info = .ok (value, least, pos') ↔
      (info ≤ 23 ∧ value = info ∧ least = 0 ∧ pos' = pos) ∨
      ∃ k < 4, info = 24 + k ∧ least = Cbor.least k ∧
        ∃ s, s.length = 2 ^ k ∧ Spans bytes pos s pos' ∧ pos' = pos + 2 ^ k ∧ value = ofBigEndian s := by
  have one : (okOr bytes[pos]? "commitment object: truncated 1-byte length" >>= fun b =>
      addUsize pos 1 >>= fun pos => (.ok (b.toNat, 24, pos) : Outcome (ℕ × ℕ × ℕ))) = .ok (value, least, pos') ↔
      least = 24 ∧ ∃ s, s.length = 1 ∧ Spans bytes pos s pos' ∧ pos' = pos + 1 ∧ value = ofBigEndian s := by
    rw [addUsize_of_lt (by omega), bind_eq_ok]
    constructor
    · rintro ⟨b, at_, e⟩
      rw [ok_bind] at e
      cases e
      exact ⟨rfl, [b], rfl, getElem?_eq_some_iff_spans.mp (okOr_eq_ok.mp at_), rfl, by simp [ofBigEndian]⟩
    · rintro ⟨rfl, s, len, spans, rfl, rfl⟩
      obtain ⟨b, rfl⟩ := List.length_eq_one_iff.mp len
      exact ⟨b, okOr_eq_ok.mpr (getElem?_eq_some_iff_spans.mpr spans), by simp [ofBigEndian]⟩
  have pick {k₀ : ℕ} (hk : k₀ < 4) {A : Prop} {P : ℕ → Prop} :
      (24 + k₀ ≤ 23 ∧ A) ∨ (∃ k < 4, 24 + k₀ = 24 + k ∧ P k) ↔ P k₀ := by
    constructor
    · rintro (⟨le, -⟩ | ⟨k, -, e, held⟩)
      · omega
      · rwa [Nat.add_left_cancel e]
    · exact fun held => .inr ⟨k₀, hk, rfl, held⟩
  by_cases short : info ≤ 23
  · unfold cborReadArgument
    rw [if_pos short]
    constructor
    · intro ok
      cases ok
      exact .inl ⟨short, rfl, rfl, rfl⟩
    · rintro (⟨-, rfl, rfl, rfl⟩ | ⟨k, -, rfl, -⟩)
      · rfl
      · omega
  by_cases wide : info ≤ 27
  · obtain ⟨k, rfl⟩ : ∃ k, info = 24 + k := ⟨info - 24, by omega⟩
    unfold cborReadArgument
    rw [if_neg short, pick (by omega)]
    -- One branch of the source for each width.
    obtain rfl | rfl | rfl | rfl : k = 0 ∨ k = 1 ∨ k = 2 ∨ k = 3 := by omega
    · exact one
    · exact wide_eq_ok (by decide) (by omega)
    · exact wide_eq_ok (by decide) (by omega)
    · exact wide_eq_ok (by decide) (by omega)
  · constructor
    · intro ok
      unfold cborReadArgument at ok
      rw [if_neg short] at ok
      split at ok <;> first | omega | cases ok
    · rintro (⟨le, -⟩ | ⟨k, hk, rfl, -⟩)
      · omega
      · omega

/-- A header is read when it is the shortest one with its value. -/
lemma cborReadUintHeader_eq_ok {bytes : Bytes} {pos major value pos' : ℕ} (hm : major < 8)
    (le : pos ≤ bytes.length) (fits : bytes.length + digestLen < 2 ^ 64) :
    cborReadUintHeader bytes pos major = .ok (value, pos') ↔
      value < 2 ^ 64 ∧ Spans bytes pos (head major value) pos' := by
  have room : bytes.length + 32 < 2 ^ 64 := fits
  constructor
  · intro read
    obtain ⟨initial, at_, checked⟩ := bind_eq_ok.mp read
    have first := getElem?_eq_some_iff_spans.mp (okOr_eq_ok.mp at_)
    have inside : pos + 1 ≤ bytes.length := first.1
    dsimp only at checked
    by_cases own : initial.toNat / 32 = major
    swap
    · rw [if_pos own] at checked
      cases checked
    subst own
    rw [if_neg (not_not.mpr rfl), addUsize_of_lt (by omega), ok_bind] at checked
    obtain ⟨⟨v, low, p⟩, argument, picked⟩ := bind_eq_ok.mp checked
    dsimp only at picked
    split at picked
    · cases picked
    next less =>
    cases picked
    -- A short argument is in the first byte; a longer one has to be the shortest for its value.
    rcases (cborReadArgument_eq_ok (by omega)).mp argument with
      ⟨short, rfl, rfl, rfl⟩ | ⟨k, hk, info, rfl, s, len, spans, -, rfl⟩
    · have written := head_of_short (show initial.toNat % 32 < 24 by omega)
      exact ⟨by omega, by rw [written]; exact first⟩
    · have written := head_of_long info hk len (not_lt.mp less)
      have lt := ofBigEndian_lt s
      have width : s.length ≤ 8 := by
        rw [len]
        exact Nat.pow_le_pow_right (n := 2) (j := 3) (by decide) (by omega)
      refine ⟨lt.trans_le (Nat.pow_le_pow_right (n := 256) (j := 8) (by decide) width), ?_⟩
      rw [written]
      exact first.append spans
  · rintro ⟨lt, spans⟩
    have reads {initial : UInt8} {x : Bytes} {low : ℕ} (written : head major value = initial :: x)
        (isMajor : initial.toNat / 32 = major) (ge : low ≤ value)
        (argument : Spans bytes (pos + 1) x pos' →
          cborReadArgument bytes (pos + 1) (initial.toNat % 32) = .ok (value, low, pos')) :
        cborReadUintHeader bytes pos major = .ok (value, pos') := by
      rw [written] at spans
      obtain ⟨first, rest⟩ := spans_append (x := [initial]) le spans
      have inside : pos + 1 ≤ bytes.length := first.1
      rw [cborReadUintHeader, okOr_eq_ok.mpr (getElem?_eq_some_iff_spans.mpr first), ok_bind]
      dsimp only
      rw [if_neg (not_not.mpr isMajor), addUsize_of_lt (by omega), ok_bind, argument rest, ok_bind]
      exact if_neg (not_lt.mpr ge)
    have inside {initial : UInt8} {x : Bytes} (written : head major value = initial :: x) :
        pos + 1 ≤ bytes.length ∧ pos' = pos + 1 + x.length := by
      have long := spans.length le
      have bound := spans.1
      rw [written, List.length_cons] at long
      omega
    -- The head that the encoder writes is short or long.
    rcases head_cases hm lt with ⟨short, initial, written, isMajor, info⟩ |
      ⟨k, hk, initial, s, written, isMajor, info, len, rfl, ge⟩
    · refine reads written isMajor (Nat.zero_le _) fun _ => ?_
      obtain ⟨below, rfl⟩ := inside written
      exact (cborReadArgument_eq_ok (by omega)).mpr (.inl ⟨by omega, info.symm, rfl, rfl⟩)
    · refine reads written isMajor ge fun rest => ?_
      obtain ⟨below, rfl⟩ := inside written
      exact (cborReadArgument_eq_ok (by omega)).mpr
        (.inr ⟨k, hk, info, rfl, s, len, rest, by rw [len], rfl⟩)

/-- A declared length of peaks is read when the peaks stand there. -/
lemma readPeaks_eq_ok {bytes : Bytes} {count pos pos' : ℕ} {ps : List Digest} (le : pos ≤ bytes.length)
    (fits : bytes.length + digestLen < 2 ^ 64) :
    readPeaks bytes count pos = .ok (ps, pos') ↔ ps.length = count ∧ Spans bytes pos (encodePeaks ps) pos' := by
  have room : bytes.length + 32 < 2 ^ 64 := fits
  induction count generalizing pos ps with
  | zero =>
    constructor
    · intro ok
      cases ok
      exact ⟨rfl, le, rfl⟩
    · rintro ⟨len, spans⟩
      obtain rfl := List.length_eq_zero_iff.mp len
      have same : pos' = pos := spans.length le
      rw [readPeaks, same]
  | succ count ih =>
    constructor
    · intro ok
      obtain ⟨⟨len, p⟩, header, checked⟩ := bind_eq_ok.mp ok
      obtain ⟨-, atHead⟩ := (cborReadUintHeader_eq_ok (by decide) le fits).mp header
      have inside := atHead.1
      dsimp only at checked
      -- Each peak is a byte string of 32 bytes with its own header.
      by_cases isLen : len = digestLen
      swap
      · rw [if_pos isLen] at checked
        cases checked
      subst isLen
      rw [if_neg (not_not.mpr rfl), addUsize_of_lt (by omega), ok_bind] at checked
      obtain ⟨slice, range, made⟩ := bind_eq_ok.mp checked
      obtain ⟨isDigest, atPeak⟩ := (getRange_eq_some (by decide)).mp (okOr_eq_ok.mp range)
      rw [toDigest, dif_pos isDigest, ok_bind] at made
      obtain ⟨⟨peaks, p'⟩, others, e⟩ := bind_eq_ok.mp made
      cases e
      obtain ⟨rfl, spans⟩ := (ih atPeak.1).mp others
      refine ⟨rfl, ?_⟩
      rw [encodePeaks, List.flatMap_cons]
      exact (atHead.append atPeak).append spans
    · rintro ⟨len, spans⟩
      cases ps with
      | nil => cases len
      | cons p ps =>
        rw [encodePeaks, List.flatMap_cons, List.append_assoc] at spans
        obtain ⟨atHead, spans⟩ := spans_append le spans
        have inside := atHead.1
        obtain ⟨atPeak, spans⟩ := spans_append inside spans
        rw [p.2] at atPeak spans
        have header := (cborReadUintHeader_eq_ok (by decide) le fits).mpr ⟨by decide, atHead⟩
        have slice := (getRange_eq_some (by decide)).mpr ⟨p.2, atPeak⟩
        have others := (ih atPeak.1).mpr ⟨Nat.succ.inj len, spans⟩
        rw [readPeaks, header, ok_bind]
        dsimp only
        rw [if_neg (not_not.mpr rfl), addUsize_of_lt (by omega), ok_bind, okOr_eq_ok.mpr slice, ok_bind,
          toDigest, dif_pos p.2, ok_bind, others]
        rfl

/-- The count is read exactly where the head of the array is spanned and its peaks fit. -/
lemma readCount_eq_ok {bytes : Bytes} {count pos : ℕ} (fits : bytes.length + digestLen < 2 ^ 64) :
    readCount bytes = .ok (count, pos) ↔ count < 2 ^ 64 ∧ Spans bytes 0 (head 4 count) pos ∧
      count ≤ (bytes.length - pos) / minPeakEncodedLen := by
  constructor
  · intro ok
    obtain ⟨⟨c, p⟩, header, checked⟩ := bind_eq_ok.mp ok
    obtain ⟨lt, spans⟩ := (cborReadUintHeader_eq_ok (by decide) (Nat.zero_le _) fits).mp header
    dsimp only at checked
    rw [subUsize, if_pos spans.1, ok_bind] at checked
    split at checked
    · cases checked
    · next enough =>
      cases checked
      exact ⟨lt, spans, not_lt.mp enough⟩
  · rintro ⟨lt, spans, enough⟩
    have header := (cborReadUintHeader_eq_ok (by decide) (Nat.zero_le _) fits).mpr ⟨lt, spans⟩
    rw [readCount, header, ok_bind]
    dsimp only
    rw [subUsize, if_pos spans.1, ok_bind, if_neg (not_lt.mpr enough)]

/-- What is decoded is the list of peaks that the bytes are the encoding of. -/
theorem decodeCommitmentObject_eq_ok {bytes : Bytes} {ps : List Digest}
    (fits : bytes.length + digestLen < 2 ^ 64) :
    decodeCommitmentObject bytes = .ok ps ↔ digestLen * ps.length < 2 ^ 63 ∧ bytes = commitmentObject ps := by
  constructor
  · intro ok
    obtain ⟨⟨count, pos⟩, counted, capacity⟩ := bind_eq_ok.mp ok
    obtain ⟨-, header, -⟩ := (readCount_eq_ok fits).mp counted
    obtain ⟨u, reserved, rest⟩ := bind_eq_ok.mp capacity
    obtain ⟨⟨peaks, last⟩, read, whole⟩ := bind_eq_ok.mp rest
    obtain ⟨rfl, spans⟩ := (readPeaks_eq_ok header.1 fits).mp read
    have room : digestLen * peaks.length < 2 ^ 63 := by
      by_contra big
      rw [withCapacity, if_neg big] at reserved
      cases reserved
    dsimp only at whole
    split at whole
    · cases whole
    · next atEnd =>
      cases whole
      have all := (header.append spans).2
      rw [List.drop_zero, not_not.mp atEnd, List.drop_length, List.append_nil] at all
      have small : ps.length < 2 ^ 64 := by
        rw [digestLen] at room
        omega
      exact ⟨room, by rw [commitmentObject_eq small]; exact all⟩
  · rintro ⟨room, rfl⟩
    have small : ps.length < 2 ^ 64 := by
      rw [digestLen] at room
      omega
    have long := length_encodePeaks ps
    rw [commitmentObject_eq small] at fits ⊢
    have whole : Spans (head 4 ps.length ++ encodePeaks ps) 0 (head 4 ps.length ++ encodePeaks ps)
        (head 4 ps.length ++ encodePeaks ps).length :=
      ⟨le_rfl, by rw [List.drop_zero, List.drop_length, List.append_nil]⟩
    have atHead := spans_append (Nat.zero_le _) whole
    rw [Nat.zero_add] at atHead
    have counted := (readCount_eq_ok fits).mpr ⟨small, atHead.1, by
      rw [List.length_append, Nat.add_sub_cancel_left, long, Nat.mul_div_cancel_left _ (by decide)]⟩
    have read := (readPeaks_eq_ok atHead.1.1 fits).mpr ⟨rfl, atHead.2⟩
    rw [decodeCommitmentObject, counted, ok_bind]
    dsimp only
    rw [withCapacity, if_pos room, ok_bind, read, ok_bind]
    exact if_neg (not_not.mpr rfl)

/-- A call that does not panic. -/
def NoPanic {α : Type} (x : Outcome α) : Prop := ∀ message, x ≠ .error (.panic message)

/-- What returns does not panic. -/
lemma noPanic_ok {α : Type} (a : α) : NoPanic (.ok a : Outcome α) := nofun

/-- An error is no panic. -/
lemma noPanic_invalid {α : Type} (message : String) : NoPanic (invalid message : Outcome α) := nofun

/-- An option does not panic. -/
lemma noPanic_okOr {α : Type} (x : Option α) (message : String) : NoPanic (okOr x message) := by
  cases x with
  | none => exact noPanic_invalid message
  | some a => exact noPanic_ok a

/-- A sum below the bound does not panic. -/
lemma noPanic_add {a b : ℕ} (lt : a + b < 2 ^ 64) : NoPanic (addUsize a b) := by
  rw [addUsize_of_lt lt]
  exact noPanic_ok _

/-- A composition does not panic where its parts do not. -/
lemma NoPanic.bind {α β : Type} {x : Outcome α} {f : α → Outcome β} (hx : NoPanic x)
    (hf : ∀ a, x = .ok a → NoPanic (f a)) : NoPanic (x >>= f) := by
  cases x with
  | error e => exact fun message failed => hx message (congrArg _ (Except.error.inj failed))
  | ok a => exact hf a rfl

/-- What does not panic and does not return is an error. -/
lemma NoPanic.exists_invalid {α : Type} {x : Outcome α} (noPanic : NoPanic x) (fails : ∀ a, x ≠ .ok a) :
    ∃ message, x = invalid message := by
  match x, noPanic, fails with
  | .ok a, _, fails => exact absurd rfl (fails a)
  | .error (.panic message), noPanic, _ => exact absurd rfl (noPanic message)
  | .error (.invalid message), _, _ => exact ⟨message, rfl⟩

/-- Reading a length does not panic. -/
lemma noPanic_readLength {bytes : Bytes} {pos width : ℕ} (fits : pos + width < 2 ^ 64) :
    NoPanic (readLength bytes pos width) :=
  (noPanic_add fits).bind fun _ _ => (noPanic_okOr _ _).bind fun _ _ => noPanic_ok _

/-- Reading an argument does not panic. -/
lemma noPanic_cborReadArgument {bytes : Bytes} {pos info : ℕ} (fits : pos + 8 < 2 ^ 64) :
    NoPanic (cborReadArgument bytes pos info) := by
  unfold cborReadArgument
  split
  · exact noPanic_ok _
  · split
    · exact (noPanic_okOr _ _).bind fun _ _ => (noPanic_add (by omega)).bind fun _ _ => noPanic_ok _
    · exact (noPanic_readLength (by omega)).bind fun _ _ => noPanic_ok _
    · exact (noPanic_readLength (by omega)).bind fun _ _ => noPanic_ok _
    · exact (noPanic_readLength (by omega)).bind fun _ _ => noPanic_ok _
    · exact noPanic_invalid _
    · exact noPanic_invalid _

/-- Reading a header does not panic. -/
lemma noPanic_cborReadUintHeader {bytes : Bytes} {pos major : ℕ} (le : pos ≤ bytes.length)
    (fits : bytes.length + digestLen < 2 ^ 64) : NoPanic (cborReadUintHeader bytes pos major) := by
  have room : bytes.length + 32 < 2 ^ 64 := fits
  refine (noPanic_okOr _ _).bind fun initial at_ => ?_
  dsimp only
  split
  · exact noPanic_invalid _
  · refine (noPanic_add (by omega)).bind fun p sum => ?_
    rw [addUsize_of_lt (by omega)] at sum
    cases sum
    refine (noPanic_cborReadArgument (by omega)).bind fun r _ => ?_
    split
    · exact noPanic_invalid _
    · exact noPanic_ok _

/-- Reading the peaks does not panic. -/
lemma noPanic_readPeaks {bytes : Bytes} {count pos : ℕ} (le : pos ≤ bytes.length)
    (fits : bytes.length + digestLen < 2 ^ 64) : NoPanic (readPeaks bytes count pos) := by
  have room : bytes.length + 32 < 2 ^ 64 := fits
  induction count generalizing pos with
  | zero => exact noPanic_ok _
  | succ count ih =>
    refine (noPanic_cborReadUintHeader le fits).bind fun r header => ?_
    have inside := ((cborReadUintHeader_eq_ok (by decide) le fits).mp header).2.1
    dsimp only
    split
    · exact noPanic_invalid _
    · have sum : r.2 + digestLen < 2 ^ 64 := by
        rw [digestLen]
        omega
      rw [addUsize_of_lt sum, ok_bind]
      refine (noPanic_okOr _ _).bind fun slice range => ?_
      obtain ⟨isDigest, atPeak⟩ := (getRange_eq_some (by decide)).mp (okOr_eq_ok.mp range)
      rw [toDigest, dif_pos isDigest, ok_bind]
      exact (ih atPeak.1).bind fun _ _ => noPanic_ok _

/-- Decoding a slice ends without a panic. -/
theorem noPanic_decodeCommitmentObject (bytes : SliceOf UInt8 1) :
    NoPanic (decodeCommitmentObject bytes.1) := by
  obtain ⟨bytes, bound⟩ := bytes
  have fits : bytes.length + digestLen < 2 ^ 64 := by
    rw [digestLen]
    omega
  have counts : NoPanic (readCount bytes) := by
    refine (noPanic_cborReadUintHeader (Nat.zero_le _) fits).bind fun r header => ?_
    have inside := ((cborReadUintHeader_eq_ok (by decide) (Nat.zero_le _) fits).mp header).2.1
    dsimp only
    rw [subUsize, if_pos inside, ok_bind]
    split
    · exact noPanic_invalid _
    · exact noPanic_ok _
  refine counts.bind fun r counted => ?_
  obtain ⟨-, header, enough⟩ := (readCount_eq_ok fits).mp counted
  have room : digestLen * r.1 < 2 ^ 63 := by
    rw [minPeakEncodedLen, digestLen] at enough
    rw [digestLen]
    omega
  dsimp only
  rw [withCapacity, if_pos room, ok_bind]
  refine (noPanic_readPeaks header.1 fits).bind fun s _ => ?_
  split
  · exact noPanic_invalid _
  · exact noPanic_ok _

/-- Commitment objects decode to their peaks, every other slice to an error, and the capacity that is
reserved is one that the remaining input can fill. -/
theorem commitmentObject_codec :
    (∀ v : SliceOf Digest digestLen, decodeCommitmentObject (commitmentObject v.1) = .ok v.1) ∧
    (∀ (bytes : SliceOf UInt8 1) (v : List Digest), decodeCommitmentObject bytes.1 = .ok v →
      bytes.1 = commitmentObject v) ∧
    (∀ bytes : SliceOf UInt8 1, (∀ v, bytes.1 ≠ commitmentObject v) →
      ∃ message, decodeCommitmentObject bytes.1 = invalid message) ∧
    (∀ (bytes : SliceOf UInt8 1) (message : String),
      decodeCommitmentObject bytes.1 ≠ .error (.panic message)) ∧
    ∀ (bytes : SliceOf UInt8 1) (count pos : ℕ), readCount bytes.1 = .ok (count, pos) →
      pos ≤ bytes.1.length ∧ count * minPeakEncodedLen ≤ bytes.1.length - pos := by
  have fits (bytes : SliceOf UInt8 1) : bytes.1.length + digestLen < 2 ^ 64 := by
    have bound := bytes.2
    rw [digestLen]
    omega
  refine ⟨fun ⟨v, room⟩ => ?_, fun bytes v ok => ((decodeCommitmentObject_eq_ok (fits bytes)).mp ok).2,
    fun bytes other => ?_, fun bytes => noPanic_decodeCommitmentObject bytes, fun bytes count pos counted => ?_⟩
  · -- The encoding may be longer than a slice, and still no position overflows.
    refine (decodeCommitmentObject_eq_ok ?_).mpr ⟨room, rfl⟩
    have small : v.length < 2 ^ 64 := by
      rw [digestLen] at room
      omega
    have short : (head 4 v.length).length ≤ 9 := by
      unfold head
      split_ifs <;> simp
    rw [commitmentObject_eq small, List.length_append, length_encodePeaks, minPeakEncodedLen]
    rw [digestLen] at room ⊢
    omega
  · refine (noPanic_decodeCommitmentObject bytes).exists_invalid fun v ok => ?_
    exact other v ((decodeCommitmentObject_eq_ok (fits bytes)).mp ok).2
  · obtain ⟨-, header, enough⟩ := (readCount_eq_ok (fits bytes)).mp counted
    exact ⟨header.1, (Nat.le_div_iff_mul_le (by decide)).mp enough⟩

end CLL.Rust
