import Mathlib.Algebra.Group.Nat.Defs
import Mathlib.Data.List.Basic

/-!
# SHA-256

The hash function of FIPS 180-4 on byte lists. Words are natural numbers below `2 ^ 32`; the message
schedule is computed on the fly as a window of sixteen words.
-/

namespace CLL.Sha256

def add32 (a b : ℕ) : ℕ := (a + b) % 4294967296

def rotr (n x : ℕ) : ℕ := (x >>> n) ||| ((x <<< (32 - n)) % 4294967296)

/-- The round constants. -/
def constants : List ℕ := [
  0x428a2f98, 0x71374491, 0xb5c0fbcf, 0xe9b5dba5, 0x3956c25b, 0x59f111f1, 0x923f82a4, 0xab1c5ed5,
  0xd807aa98, 0x12835b01, 0x243185be, 0x550c7dc3, 0x72be5d74, 0x80deb1fe, 0x9bdc06a7, 0xc19bf174,
  0xe49b69c1, 0xefbe4786, 0x0fc19dc6, 0x240ca1cc, 0x2de92c6f, 0x4a7484aa, 0x5cb0a9dc, 0x76f988da,
  0x983e5152, 0xa831c66d, 0xb00327c8, 0xbf597fc7, 0xc6e00bf3, 0xd5a79147, 0x06ca6351, 0x14292967,
  0x27b70a85, 0x2e1b2138, 0x4d2c6dfc, 0x53380d13, 0x650a7354, 0x766a0abb, 0x81c2c92e, 0x92722c85,
  0xa2bfe8a1, 0xa81a664b, 0xc24b8b70, 0xc76c51a3, 0xd192e819, 0xd6990624, 0xf40e3585, 0x106aa070,
  0x19a4c116, 0x1e376c08, 0x2748774c, 0x34b0bcb5, 0x391c0cb3, 0x4ed8aa4a, 0x5b9cca4f, 0x682e6ff3,
  0x748f82ee, 0x78a5636f, 0x84c87814, 0x8cc70208, 0x90befffa, 0xa4506ceb, 0xbef9a3f7, 0xc67178f2]

/-- The eight working words. -/
structure State where
  (a b c d e f g h : ℕ)

def initial : State where
  a := 0x6a09e667
  b := 0xbb67ae85
  c := 0x3c6ef372
  d := 0xa54ff53a
  e := 0x510e527f
  f := 0x9b05688c
  g := 0x1f83d9ab
  h := 0x5be0cd19

def smallSigma0 (x : ℕ) : ℕ := rotr 7 x ^^^ rotr 18 x ^^^ (x >>> 3)

def smallSigma1 (x : ℕ) : ℕ := rotr 17 x ^^^ rotr 19 x ^^^ (x >>> 10)

def bigSigma0 (x : ℕ) : ℕ := rotr 2 x ^^^ rotr 13 x ^^^ rotr 22 x

def bigSigma1 (x : ℕ) : ℕ := rotr 6 x ^^^ rotr 11 x ^^^ rotr 25 x

def choose (x y z : ℕ) : ℕ := (x &&& y) ^^^ ((4294967295 ^^^ x) &&& z)

def majority (x y z : ℕ) : ℕ := (x &&& y) ^^^ (x &&& z) ^^^ (y &&& z)

def round (s : State) (k w : ℕ) : State :=
  let t1 := (s.h + bigSigma1 s.e + choose s.e s.f s.g + k + w) % 4294967296
  let t2 := (bigSigma0 s.a + majority s.a s.b s.c) % 4294967296
  ⟨add32 t1 t2, s.a, s.b, s.c, add32 s.d t1, s.e, s.f, s.g⟩

/-- The rounds of one block; the last argument is the window of the message schedule. -/
def rounds : List ℕ → State → List ℕ → State
  | k :: ks, s, [w0, w1, w2, w3, w4, w5, w6, w7, w8, w9, w10, w11, w12, w13, w14, w15] =>
    let w16 := (smallSigma1 w14 + w9 + smallSigma0 w1 + w0) % 4294967296
    rounds ks (round s k w0)
      [w1, w2, w3, w4, w5, w6, w7, w8, w9, w10, w11, w12, w13, w14, w15, w16]
  | _, s, _ => s

def compress (s : State) (block : List ℕ) : State :=
  let t := rounds constants s block
  ⟨add32 s.a t.a, add32 s.b t.b, add32 s.c t.c, add32 s.d t.d,
    add32 s.e t.e, add32 s.f t.f, add32 s.g t.g, add32 s.h t.h⟩

/-- Big-endian words of a byte list. -/
def words : List ℕ → List ℕ
  | a :: b :: c :: d :: rest => (a * 16777216 + b * 65536 + c * 256 + d) :: words rest
  | _ => []

def pad (message : List ℕ) : List ℕ :=
  let length := message.length
  message ++ [128] ++ List.replicate ((119 - length % 64) % 64) 0 ++
    (List.range 8).map fun i => length * 8 / 256 ^ (7 - i) % 256

def compressAll : ℕ → State → List ℕ → State
  | 0, s, _ => s
  | n + 1, s, w => compressAll n (compress s (w.take 16)) (w.drop 16)

def wordBytes (x : ℕ) : List UInt8 :=
  [UInt8.ofNat (x / 16777216), UInt8.ofNat (x / 65536), UInt8.ofNat (x / 256), UInt8.ofNat x]

-- The same function on the operations that the kernel computes, for runs on fixed messages.

/-- `2 ^ 32`. -/
abbrev wordSize : ℕ := nat_lit 4294967296

def rotate (n m x : ℕ) : ℕ := Nat.lor (Nat.shiftRight x n) (Nat.mod (Nat.shiftLeft x m) wordSize)

def xor3 (a b c : ℕ) : ℕ := Nat.xor (Nat.xor a b) c

def temp1 (e f g h k w : ℕ) : ℕ :=
  Nat.mod (Nat.add (Nat.add (Nat.add (Nat.add h
    (xor3 (rotate (nat_lit 6) (nat_lit 26) e) (rotate (nat_lit 11) (nat_lit 21) e)
      (rotate (nat_lit 25) (nat_lit 7) e)))
    (Nat.xor (Nat.land e f) (Nat.land (Nat.xor (nat_lit 4294967295) e) g))) k) w) wordSize

def temp2 (a b c : ℕ) : ℕ :=
  Nat.mod (Nat.add
    (xor3 (rotate (nat_lit 2) (nat_lit 30) a) (rotate (nat_lit 13) (nat_lit 19) a)
      (rotate (nat_lit 22) (nat_lit 10) a))
    (xor3 (Nat.land a b) (Nat.land a c) (Nat.land b c))) wordSize

/-- The next word of the schedule. -/
def schedule (w0 w1 w9 w14 : ℕ) : ℕ :=
  Nat.mod (Nat.add (Nat.add (Nat.add
    (xor3 (rotate (nat_lit 17) (nat_lit 15) w14) (rotate (nat_lit 19) (nat_lit 13) w14)
      (Nat.shiftRight w14 (nat_lit 10))) w9)
    (xor3 (rotate (nat_lit 7) (nat_lit 25) w1) (rotate (nat_lit 18) (nat_lit 14) w1)
      (Nat.shiftRight w1 (nat_lit 3)))) w0) wordSize

def evalRounds (a b c d e f g h w0 w1 w2 w3 w4 w5 w6 w7 w8 w9 w10 w11 w12 w13 w14 w15 : ℕ) :
    List ℕ → State
  | [] => ⟨a, b, c, d, e, f, g, h⟩
  | k :: ks =>
    (fun t => evalRounds (Nat.mod (Nat.add t (temp2 a b c)) wordSize) a b c
      (Nat.mod (Nat.add d t) wordSize) e f g w1 w2 w3 w4 w5 w6 w7 w8 w9 w10 w11 w12 w13 w14 w15
      (schedule w0 w1 w9 w14) ks) (temp1 e f g h k w0)

def evalCompress (s : State) : List ℕ → State
  | [w0, w1, w2, w3, w4, w5, w6, w7, w8, w9, w10, w11, w12, w13, w14, w15] =>
    let t := evalRounds s.a s.b s.c s.d s.e s.f s.g s.h w0 w1 w2 w3 w4 w5 w6 w7 w8 w9 w10 w11 w12 w13 w14
      w15 constants
    ⟨add32 s.a t.a, add32 s.b t.b, add32 s.c t.c, add32 s.d t.d,
      add32 s.e t.e, add32 s.f t.f, add32 s.g t.g, add32 s.h t.h⟩
  | block => compress s block

def evalAll : ℕ → State → List ℕ → State
  | 0, s, _ => s
  | n + 1, s, w => evalAll n (evalCompress s (w.take 16)) (w.drop 16)

/-- The rounds as the kernel computes with them. -/
lemma evalRounds_eq (ks : List ℕ)
    (a b c d e f g h w0 w1 w2 w3 w4 w5 w6 w7 w8 w9 w10 w11 w12 w13 w14 w15 : ℕ) :
    evalRounds a b c d e f g h w0 w1 w2 w3 w4 w5 w6 w7 w8 w9 w10 w11 w12 w13 w14 w15 ks =
      rounds ks ⟨a, b, c, d, e, f, g, h⟩
        [w0, w1, w2, w3, w4, w5, w6, w7, w8, w9, w10, w11, w12, w13, w14, w15] := by
  induction ks generalizing a b c d e f g h w0 w1 w2 w3 w4 w5 w6 w7 w8 w9 w10 w11 w12 w13 w14 w15 with
  | nil => rfl
  | cons k ks ih => exact ih ..

/-- The compression as the kernel computes with it. -/
lemma evalCompress_eq (s : State) (block : List ℕ) : evalCompress s block = compress s block := by
  unfold evalCompress
  split
  · rw [evalRounds_eq]
    rfl
  · rfl

/-- The compression of all blocks as the kernel computes with it. -/
lemma evalAll_eq (n : ℕ) (s : State) (w : List ℕ) : evalAll n s w = compressAll n s w := by
  induction n generalizing s w with
  | zero => rfl
  | succ n ih => rw [evalAll, compressAll, evalCompress_eq, ih]

end CLL.Sha256

namespace CLL

open Sha256 in
/-- `hashlib.sha256(message).digest()`. -/
def sha256 (message : List UInt8) : List UInt8 :=
  let w := words (pad (message.map UInt8.toNat))
  let s := compressAll (w.length / 16) initial w
  wordBytes s.a ++ wordBytes s.b ++ wordBytes s.c ++ wordBytes s.d ++
    wordBytes s.e ++ wordBytes s.f ++ wordBytes s.g ++ wordBytes s.h

open Sha256 in
def evalSha256 (message : List UInt8) : List UInt8 :=
  let w := words (pad (message.map UInt8.toNat))
  let s := evalAll (w.length / 16) initial w
  wordBytes s.a ++ wordBytes s.b ++ wordBytes s.c ++ wordBytes s.d ++
    wordBytes s.e ++ wordBytes s.f ++ wordBytes s.g ++ wordBytes s.h

/-- The digest as the kernel computes with it. -/
lemma evalSha256_eq (message : List UInt8) : evalSha256 message = sha256 message := by
  rw [evalSha256, Sha256.evalAll_eq]
  rfl

/-- A digest has 32 bytes. -/
@[simp] lemma length_sha256 (message : List UInt8) : (sha256 message).length = 32 := rfl

example : (sha256 [97, 98, 99]).take 4 = [0xba, 0x78, 0x16, 0xbf] := by rfl

end CLL
