import CLL.Core.Position
import CLL.Lib.Sha256
import Mathlib.Data.Set.Function

/-!
# Hashing

The hashing of `checkpoint/core.py` over an arbitrary hash function with 32-byte digests, and the hex
form digests take in proofs. `sha256Hash` is the one the code uses.

Beside a function that hashes, its `…Hashed` companion lists the byte strings it hashes. Collision
resistance is assumed of these strings only: no function is injective on all byte strings.
-/

namespace CLL.Core
open PostOrder

/-- `DIGEST_LEN`. -/
def digestLen : ℕ := 32

/-- A hash function with 32-byte digests. -/
structure HashFunction where
  digest : Bytes → Bytes
  length_digest : ∀ m, (digest m).length = digestLen

/-- `hashlib.sha256`. -/
def sha256Hash : HashFunction := ⟨sha256, fun m => length_sha256 m⟩

/-- SHA-256 for runs on fixed inputs. -/
def evalHash : HashFunction := ⟨evalSha256, fun m => evalSha256_eq m ▸ length_sha256 m⟩

/-- The hash function as the kernel computes it. -/
lemma sha256Hash_eq : sha256Hash = evalHash := by
  rw [sha256Hash, evalHash]
  congr 1
  exact funext fun m => (evalSha256_eq m).symm

/-- A 32-byte string. -/
abbrev Digest : Type := {d : Bytes // d.length = digestLen}

variable (H : HashFunction)

/-- A digest has 32 bytes. -/
@[simp] lemma HashFunction.length_digest' (m : Bytes) : (H.digest m).length = 32 :=
  H.length_digest m

/-- `_assert_digest` of a byte string. -/
def assertDigest (d : Bytes) (what : String) : Py Unit :=
  require (d.length = digestLen) .invalidArgument s!"{what} must be {digestLen} bytes"

/-- `_assert_digest` of an arbitrary argument. -/
def assertDigestObj (d : Obj) (what : String) : Py Bytes :=
  match d.digest? with
  | some b => do
    assertDigest b what
    .ok b
  | none => raise .invalidArgument s!"{what} must be {digestLen} bytes"

/-- `n.to_bytes(8, "big")` for `n < 2 ** 64`. -/
def be64 (n : ℕ) : Bytes :=
  [UInt8.ofNat (n / 256 ^ 7), UInt8.ofNat (n / 256 ^ 6), UInt8.ofNat (n / 256 ^ 5),
    UInt8.ofNat (n / 256 ^ 4), UInt8.ofNat (n / 256 ^ 3), UInt8.ofNat (n / 256 ^ 2),
    UInt8.ofNat (n / 256), UInt8.ofNat n]

/-- `leaf_hash`. -/
def leafHash (bodyDigest : Bytes) : Py Bytes := do
  assertDigest bodyDigest "body_digest"
  .ok (H.digest (0 :: bodyDigest))

/-- `interior_hash`. -/
def interiorHash (left right : Bytes) (position : ℕ) : Py Bytes := do
  assertDigest left "left"
  assertDigest right "right"
  require (position + 1 < 2 ^ 64) .overflowError "int too big to convert"
  .ok (H.digest (be64 (position + 1) ++ left ++ right))

/-- `while len(hashes) > 1: …` of `root_from_peaks`: `right` is the last hash of the list and the
others follow from right to left. -/
def bagLoop : Bytes → List Bytes → Bytes
  | right, [] => right
  | right, left :: hashes => bagLoop (H.digest (right ++ left)) hashes

/-- `root_from_peaks`. -/
def rootFromPeaks (peakHashes : List Bytes) : Py Bytes :=
  match peakHashes.reverse with
  | [] => .ok (List.replicate digestLen 0)
  | right :: hashes => do
    peakHashes.forM fun p => assertDigest p "peak"
    .ok (bagLoop H right hashes)

def bagLoopHashed : Bytes → List Bytes → List Bytes
  | _, [] => []
  | right, left :: hashes => (right ++ left) :: bagLoopHashed (H.digest (right ++ left)) hashes

/-- The strings `rootFromPeaks` hashes. -/
def rootFromPeaksHashed (peakHashes : List Bytes) : List Bytes :=
  match peakHashes.reverse with
  | [] => []
  | right :: hashes => bagLoopHashed H right hashes

/-- The hash of an interior node, without the checks. -/
def nodeHash (position : ℕ) (left right : Bytes) : Bytes :=
  H.digest (be64 (position + 1) ++ left ++ right)

/-- The string hashed for an interior node. -/
def nodePreimage (t : ℕ × Bytes × Bytes) : Bytes := be64 (t.1 + 1) ++ t.2.1 ++ t.2.2

/-- The hash of a node has 32 bytes. -/
@[simp] lemma length_nodeHash (position : ℕ) (left right : Bytes) :
    (nodeHash H position left right).length = 32 := H.length_digest _

/-- A digest passes exactly when it has 32 bytes. -/
lemma assertDigest_eq_ok {d : Bytes} {what : String} {u : Unit} :
    assertDigest d what = .ok u ↔ d.length = 32 := require_eq_ok

/-- An argument is a digest exactly when it holds 32 bytes. -/
lemma assertDigestObj_eq_ok {d : Obj} {what : String} {b : Bytes} :
    assertDigestObj d what = .ok b ↔ d.digest? = some b ∧ b.length = 32 := by
  unfold assertDigestObj
  cases d.digest? with
  | none => simp
  | some b' =>
    simp only [bind_eq_ok, assertDigest_eq_ok, Option.some.injEq]
    constructor
    · rintro ⟨_, len, e⟩
      cases e
      exact ⟨rfl, len⟩
    · rintro ⟨rfl, len⟩
      exact ⟨(), len, rfl⟩

/-- A leaf is hashed under its tag. -/
lemma leafHash_eq {d : Bytes} (len : d.length = 32) : leafHash H d = .ok (H.digest (0 :: d)) := by
  have ok : assertDigest d "body_digest" = .ok () := assertDigest_eq_ok.mpr len
  simp [leafHash, ok]

/-- An interior node is hashed under its position. -/
lemma interiorHash_eq {left right : Bytes} {position : ℕ} (hl : left.length = 32)
    (hr : right.length = 32) (lt : position + 1 < 2 ^ 64) :
    interiorHash H left right position = .ok (nodeHash H position left right) := by
  have okl : assertDigest left "left" = .ok () := assertDigest_eq_ok.mpr hl
  have okr : assertDigest right "right" = .ok () := assertDigest_eq_ok.mpr hr
  rw [interiorHash, okl, okr, ok_bind, ok_bind, require_of lt, ok_bind, nodeHash]

/-- What is hashed is the node hash. -/
lemma interiorHash_eq_ok {left right out : Bytes} {position : ℕ}
    (ok : interiorHash H left right position = .ok out) : out = nodeHash H position left right := by
  obtain ⟨_, _, ok⟩ := bind_eq_ok.mp ok
  obtain ⟨_, _, ok⟩ := bind_eq_ok.mp ok
  obtain ⟨_, _, ok⟩ := bind_eq_ok.mp ok
  cases ok
  rfl

/-- Digests pass one by one. -/
lemma forM_assertDigest {ps : List Bytes} {what : String} (len : ∀ p ∈ ps, p.length = 32) :
    (ps.forM fun p => assertDigest p what) = .ok () := by
  induction ps with
  | nil => rfl
  | cons p ps ih =>
    have ok : assertDigest p what = .ok () := assertDigest_eq_ok.mpr (len p (by simp))
    have ih := ih fun q hq => len q (by simp [hq])
    simp only [List.forM_eq_forM, List.forM_cons] at ih ⊢
    rw [ok, ok_bind, ih]

/-- The bagged peaks, without the checks. -/
def bag (ps : List Bytes) : Bytes :=
  match ps.reverse with
  | [] => List.replicate digestLen 0
  | right :: hashes => bagLoop H right hashes

/-- A root is bagged from peaks that are digests. -/
lemma rootFromPeaks_eq {ps : List Bytes} (len : ∀ p ∈ ps, p.length = 32) :
    rootFromPeaks H ps = .ok (bag H ps) := by
  unfold rootFromPeaks bag
  cases ps.reverse with
  | nil => rfl
  | cons right hashes => simp only [forM_assertDigest len, ok_bind]

/-- Bagging keeps the length of a digest. -/
lemma length_bagLoop {right : Bytes} (hashes : List Bytes) (len : right.length = 32) :
    (bagLoop H right hashes).length = 32 := by
  induction hashes generalizing right with
  | nil => exact len
  | cons left hashes ih => exact ih (H.length_digest _)

/-- A bagged root has 32 bytes. -/
lemma length_bag {ps : List Bytes} (len : ∀ p ∈ ps, p.length = 32) : (bag H ps).length = 32 := by
  unfold bag
  cases e : ps.reverse with
  | nil => rfl
  | cons right hashes =>
    exact length_bagLoop H hashes (len right (by rw [← List.mem_reverse, e]; simp))

/-- The leftmost peak is bagged last. -/
lemma bagLoop_append (right : Bytes) (hashes : List Bytes) (left : Bytes) :
    bagLoop H right (hashes ++ [left]) = H.digest (bagLoop H right hashes ++ left) := by
  induction hashes generalizing right with
  | nil => rfl
  | cons left' hashes ih => exact ih _

/-- Its string is hashed last. -/
lemma bagLoopHashed_append (right : Bytes) (hashes : List Bytes) (left : Bytes) :
    bagLoopHashed H right (hashes ++ [left]) =
      bagLoopHashed H right hashes ++ [bagLoop H right hashes ++ left] := by
  induction hashes generalizing right with
  | nil => rfl
  | cons left' hashes ih => simp [bagLoopHashed, bagLoop, ih]

variable {H} in
/-- Bagging equally many hashes to one value bags the same hashes. -/
lemma bagLoop_pins {S : Set Bytes} (inj : Set.InjOn H.digest S) {right right' : Bytes}
    {hashes hashes' : List Bytes} (count : hashes.length = hashes'.length)
    (len : ∀ p ∈ right :: hashes, p.length = 32) (len' : ∀ p ∈ right' :: hashes', p.length = 32)
    (sub : ∀ m ∈ bagLoopHashed H right hashes, m ∈ S)
    (sub' : ∀ m ∈ bagLoopHashed H right' hashes', m ∈ S)
    (eq : bagLoop H right hashes = bagLoop H right' hashes') :
    right = right' ∧ hashes = hashes' := by
  induction hashes using List.reverseRecOn generalizing hashes' with
  | nil =>
    obtain rfl : hashes' = [] := by simpa using count.symm
    exact ⟨eq, rfl⟩
  | append_singleton hashes left ih =>
    obtain ⟨hashes', left', rfl⟩ : ∃ xs x, hashes' = xs ++ [x] :=
      ⟨hashes'.dropLast, hashes'.getLast (by rintro rfl; simp at count),
        (List.dropLast_append_getLast _).symm⟩
    rw [bagLoopHashed_append] at sub sub'
    rw [bagLoop_append, bagLoop_append] at eq
    have eq := inj (sub _ (by simp)) (sub' _ (by simp)) eq
    have hl : (bagLoop H right hashes).length = (bagLoop H right' hashes').length := by
      rw [length_bagLoop H _ (len right (by simp)), length_bagLoop H _ (len' right' (by simp))]
    obtain ⟨ebag, rfl⟩ := List.append_inj eq hl
    have count : hashes.length = hashes'.length := by simpa using count
    obtain ⟨e1, e2⟩ := ih count
      (fun p hp => len p (by rcases List.mem_cons.mp hp with h | h <;> simp [h]))
      (fun p hp => len' p (by rcases List.mem_cons.mp hp with h | h <;> simp [h]))
      (fun m hm => sub m (by simp [hm])) (fun m hm => sub' m (by simp [hm])) ebag
    exact ⟨e1, by rw [e2]⟩

variable {H} in
/-- Equally many peaks that bag to one root are the same peaks. -/
theorem bag_pins {S : Set Bytes} (inj : Set.InjOn H.digest S) {ps qs : List Bytes}
    (count : ps.length = qs.length) (len : ∀ p ∈ ps, p.length = 32)
    (len' : ∀ p ∈ qs, p.length = 32) (sub : ∀ m ∈ rootFromPeaksHashed H ps, m ∈ S)
    (sub' : ∀ m ∈ rootFromPeaksHashed H qs, m ∈ S) (eq : bag H ps = bag H qs) : ps = qs := by
  unfold bag at eq
  unfold rootFromPeaksHashed at sub sub'
  have count : ps.reverse.length = qs.reverse.length := by simpa using count
  have len : ∀ p ∈ ps.reverse, p.length = 32 := fun p hp => len p (by simpa using hp)
  have len' : ∀ p ∈ qs.reverse, p.length = 32 := fun p hp => len' p (by simpa using hp)
  apply List.reverse_injective
  generalize ps.reverse = xs at *
  generalize qs.reverse = ys at *
  cases xs with
  | nil =>
    obtain rfl : ys = [] := by simpa using count.symm
    rfl
  | cons x xs =>
    cases ys with
    | nil => simp at count
    | cons y ys =>
      obtain ⟨e1, e2⟩ := bagLoop_pins inj (by simpa using count) len len' sub sub' eq
      rw [e1, e2]

variable {H} in
/-- An injective hash tells apart the children hashed at one position. -/
lemma nodeHash_pins {S : Set Bytes} (inj : Set.InjOn H.digest S) :
    PinsOn (nodeHash H) fun t =>
      nodePreimage t ∈ S ∧ t.2.1.length = 32 ∧ t.2.2.length = 32 := by
  intro p a b a' b' ⟨hs, ha, hb⟩ ⟨hs', ha', hb'⟩ eq
  have eq := inj hs hs' eq
  simp only [nodePreimage] at eq
  obtain ⟨eq, e2⟩ := List.append_inj' eq (by simp_all)
  obtain ⟨_, e1⟩ := List.append_inj' eq (by simp_all)
  exact ⟨e1, e2⟩

def hexDigit (n : ℕ) : ℕ := if n < 10 then 48 + n else 87 + n

/-- `b.hex()`. -/
def toHex (b : Bytes) : Str := b.flatMap fun x => [hexDigit (x.toNat / 16), hexDigit (x.toNat % 16)]

def hexValue (c : ℕ) : Option ℕ :=
  if 48 ≤ c ∧ c ≤ 57 then some (c - 48)
  else if 97 ≤ c ∧ c ≤ 102 then some (c - 87)
  else if 65 ≤ c ∧ c ≤ 70 then some (c - 55)
  else none

def isSpace (c : ℕ) : Bool := c == 32 || (9 ≤ c && c ≤ 13)

/-- `bytes.fromhex`, which skips whitespace between bytes and reads digits of either case. -/
def fromHex : Str → Option Bytes
  | [] => some []
  | [c] => if isSpace c then some [] else none
  | c :: d :: s =>
    if isSpace c then fromHex (d :: s)
    else do
      let hi ← hexValue c
      let lo ← hexValue d
      let rest ← fromHex s
      some (UInt8.ofNat (16 * hi + lo) :: rest)

/-- `_parse_digest_hex`. -/
def parseDigestHex (h : Obj) : Py Bytes :=
  match h with
  | .str s =>
    match fromHex s with
    | some b => do
      require (b.length = digestLen) .invalidArgument
        s!"proof element has wrong digest length: {b.length}"
      .ok b
    | none => raise .valueError "non-hexadecimal number found in fromhex() arg"
  | _ => raise .invalidArgument "proof element is not a hex string"

/-- A hex digit has its value. -/
lemma hexValue_hexDigit {n : ℕ} (lt : n < 16) : hexValue (hexDigit n) = some n := by
  revert n
  decide

/-- A hex digit is no space. -/
lemma isSpace_hexDigit {n : ℕ} (lt : n < 16) : isSpace (hexDigit n) = false := by
  revert n
  decide

/-- Hex digits are read back. -/
@[simp] lemma fromHex_toHex (b : Bytes) : fromHex (toHex b) = some b := by
  induction b with
  | nil => rfl
  | cons x b ih =>
    have lt := x.toNat_lt
    have hi : x.toNat / 16 < 16 := by omega
    have lo : x.toNat % 16 < 16 := by omega
    have e : 16 * (x.toNat / 16) + x.toNat % 16 = x.toNat := by omega
    have ih : fromHex (b.flatMap fun x => [hexDigit (x.toNat / 16), hexDigit (x.toNat % 16)]) =
      some b := ih
    simp only [toHex, List.flatMap_cons, List.cons_append, List.nil_append, fromHex,
      isSpace_hexDigit hi, hexValue_hexDigit hi, hexValue_hexDigit lo, ih, e,
      UInt8.ofNat_toNat, Option.bind_eq_bind, Option.bind_some, Bool.false_eq_true, if_false]

/-- Different bytes have different hex digits. -/
lemma toHex_injective {a b : Bytes} (same : toHex a = toHex b) : a = b := by
  have decoded := fromHex_toHex b
  rw [← same, fromHex_toHex] at decoded
  exact Option.some.inj decoded

/-- Two hex digits for each byte. -/
@[simp] lemma length_toHex (b : Bytes) : (toHex b).length = 2 * b.length := by
  induction b with
  | nil => rfl
  | cons x b ih =>
    have ih : (b.flatMap fun x => [hexDigit (x.toNat / 16), hexDigit (x.toNat % 16)]).length =
      2 * b.length := ih
    simp only [toHex, List.flatMap_cons, List.length_append, List.length_cons, List.length_nil, ih]
    omega

/-- The digits of a digest are parsed. -/
lemma parseDigestHex_toHex {b : Bytes} (len : b.length = 32) :
    parseDigestHex (.str (toHex b)) = .ok b := by
  simp [parseDigestHex, require_of (show b.length = digestLen from len)]

/-- Parsed digits are those of 32 bytes. -/
lemma parseDigestHex_eq_ok {h : Obj} {b : Bytes} (ok : parseDigestHex h = .ok b) :
    b.length = 32 ∧ ∃ s, h = .str s ∧ fromHex s = some b := by
  unfold parseDigestHex at ok
  split at ok
  · rename_i s
    split at ok
    · rename_i b' e
      obtain ⟨_, len, ok⟩ := bind_eq_ok.mp ok
      cases ok
      exact ⟨require_eq_ok.mp len, s, rfl, e⟩
    · simp at ok
  · simp at ok

/-- Parsing every element of a proof list. -/
def parseDigests (hs : List Obj) : Py (List Bytes) := hs.mapM parseDigestHex

/-- The digits of several digests are parsed. -/
lemma parseDigests_toHex {bs : List Bytes} (len : ∀ b ∈ bs, b.length = 32) :
    parseDigests ((bs.map toHex).map .str) = .ok bs := by
  induction bs with
  | nil => rfl
  | cons b bs ih =>
    have ih := ih fun c hc => len c (by simp [hc])
    rw [parseDigests] at ih ⊢
    rw [List.map_cons, List.map_cons, List.mapM_cons, parseDigestHex_toHex (len b (by simp)), ok_bind, ih]
    rfl

/-- Parsed digests are as many as the strings and have 32 bytes. -/
lemma parseDigests_eq_ok {hs : List Obj} {bs : List Bytes} (ok : parseDigests hs = .ok bs) :
    bs.length = hs.length ∧ ∀ b ∈ bs, b.length = 32 := by
  induction hs generalizing bs with
  | nil => cases ok; simp
  | cons h hs ih =>
    rw [parseDigests, List.mapM_cons] at ok
    obtain ⟨b, hb, ok⟩ := bind_eq_ok.mp ok
    obtain ⟨bs', hbs, ok⟩ := bind_eq_ok.mp ok
    cases ok
    obtain ⟨e, len⟩ := ih hbs
    refine ⟨by simp [e], fun c hc => ?_⟩
    cases hc with
    | head => exact (parseDigestHex_eq_ok hb).1
    | tail _ hc => exact len c hc

end CLL.Core
