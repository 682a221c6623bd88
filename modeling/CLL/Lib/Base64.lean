import Mathlib.Data.List.Basic
import Mathlib.Tactic.IntervalCases

/-!
# Base64

The standard alphabet with padding, as lists of code points. `decode_encode` is the round trip.
-/

namespace CLL.Base64

/-- The letter of six bits. -/
def letter (n : ℕ) : ℕ :=
  if n < 26 then 65 + n else if n < 52 then 71 + n else if n < 62 then n - 4
  else if n = 62 then 43 else 47

/-- The six bits of a letter. -/
def sextet (c : ℕ) : Option ℕ :=
  if 65 ≤ c ∧ c ≤ 90 then some (c - 65)
  else if 97 ≤ c ∧ c ≤ 122 then some (c - 71)
  else if 48 ≤ c ∧ c ≤ 57 then some (c + 4)
  else if c = 43 then some 62
  else if c = 47 then some 63
  else none

/-- `base64.b64encode(value)`. -/
def encode : List UInt8 → List ℕ
  | [] => []
  | [a] => [letter (a.toNat / 4), letter (a.toNat % 4 * 16), 61, 61]
  | [a, b] =>
    [letter (a.toNat / 4), letter (a.toNat % 4 * 16 + b.toNat / 16), letter (b.toNat % 16 * 4), 61]
  | a :: b :: c :: bs =>
    letter (a.toNat / 4) :: letter (a.toNat % 4 * 16 + b.toNat / 16) ::
      letter (b.toNat % 16 * 4 + c.toNat / 64) :: letter (c.toNat % 64) :: encode bs

/-- `base64.b64decode(text, validate=True)`. Bits beyond the last byte are ignored. -/
def decode : List ℕ → Option (List UInt8)
  | [] => some []
  | w :: x :: y :: z :: s =>
    (sextet w).bind fun w => (sextet x).bind fun x =>
      if y = 61 ∧ z = 61 ∧ s = [] then some [UInt8.ofNat (w * 4 + x / 16)]
      else (sextet y).bind fun y =>
        if z = 61 ∧ s = [] then
          some [UInt8.ofNat (w * 4 + x / 16), UInt8.ofNat (x % 16 * 16 + y / 4)]
        else (sextet z).bind fun z => (decode s).map fun bs =>
          UInt8.ofNat (w * 4 + x / 16) :: UInt8.ofNat (x % 16 * 16 + y / 4) ::
            UInt8.ofNat (y % 4 * 64 + z) :: bs
  | _ => none

/-- A letter is read back. -/
lemma sextet_letter {n : ℕ} (lt : n < 64) : sextet (letter n) = some n := by
  interval_cases n <;> rfl

/-- No letter is the padding. -/
lemma letter_ne_pad {n : ℕ} (lt : n < 64) : letter n ≠ 61 := by
  intro e
  have six := sextet_letter lt
  rw [e] at six
  cases six

/-- Encoded text is made of letters and padding. -/
lemma mem_encode : ∀ (bs : List UInt8), ∀ c ∈ encode bs, c = 61 ∨ ∃ n < 64, c = letter n
  | [], c, mem => by cases mem
  | [a], c, mem => by
    have lt := a.toNat_lt
    rw [encode] at mem
    simp only [List.mem_cons, List.not_mem_nil, or_false] at mem
    obtain rfl | rfl | rfl | rfl := mem
    · exact Or.inr ⟨_, by omega, rfl⟩
    · exact Or.inr ⟨_, by omega, rfl⟩
    · exact Or.inl rfl
    · exact Or.inl rfl
  | [a, b], c, mem => by
    have lta := a.toNat_lt
    have ltb := b.toNat_lt
    rw [encode] at mem
    simp only [List.mem_cons, List.not_mem_nil, or_false] at mem
    obtain rfl | rfl | rfl | rfl := mem
    · exact Or.inr ⟨_, by omega, rfl⟩
    · exact Or.inr ⟨_, by omega, rfl⟩
    · exact Or.inr ⟨_, by omega, rfl⟩
    · exact Or.inl rfl
  | a :: b :: c :: bs, d, mem => by
    have lta := a.toNat_lt
    have ltb := b.toNat_lt
    have ltc := c.toNat_lt
    rw [encode] at mem
    simp only [List.mem_cons] at mem
    obtain rfl | rfl | rfl | rfl | mem := mem
    · exact Or.inr ⟨_, by omega, rfl⟩
    · exact Or.inr ⟨_, by omega, rfl⟩
    · exact Or.inr ⟨_, by omega, rfl⟩
    · exact Or.inr ⟨_, by omega, rfl⟩
    · exact mem_encode bs d mem

/-- Letters are ASCII characters from the plus sign on. -/
lemma letter_bounds {n : ℕ} (lt : n < 64) : 43 ≤ letter n ∧ letter n < 128 := by
  unfold letter
  split_ifs <;> omega

/-- Encoded text is ASCII without controls. -/
lemma bounds_of_mem_encode {bs : List UInt8} {c : ℕ} (mem : c ∈ encode bs) : 43 ≤ c ∧ c < 128 := by
  rcases mem_encode bs c mem with rfl | ⟨n, lt, rfl⟩
  · decide
  · exact letter_bounds lt

/-- What is encoded is ASCII. -/
lemma lt_of_mem_encode (bs : List UInt8) (c : ℕ) (mem : c ∈ encode bs) : c < 128 :=
  (bounds_of_mem_encode mem).2

/-- What was encoded decodes to itself. -/
theorem decode_encode : ∀ bs : List UInt8, decode (encode bs) = some bs
  | [] => rfl
  | [a] => by
    have lt := a.toNat_lt
    have e : a.toNat / 4 * 4 + a.toNat % 4 * 16 / 16 = a.toNat := by omega
    rw [encode, decode, sextet_letter (by omega), sextet_letter (by omega), Option.bind_some,
      Option.bind_some, if_pos ⟨rfl, rfl, rfl⟩, e, UInt8.ofNat_toNat]
  | [a, b] => by
    have lta := a.toNat_lt
    have ltb := b.toNat_lt
    have ea : a.toNat / 4 * 4 + (a.toNat % 4 * 16 + b.toNat / 16) / 16 = a.toNat := by omega
    have eb : (a.toNat % 4 * 16 + b.toNat / 16) % 16 * 16 + b.toNat % 16 * 4 / 4 = b.toNat := by
      omega
    have ne : letter (b.toNat % 16 * 4) ≠ 61 := letter_ne_pad (by omega)
    rw [encode, decode, sextet_letter (by omega), sextet_letter (by omega), Option.bind_some,
      Option.bind_some, if_neg (fun h => ne h.1), sextet_letter (by omega), Option.bind_some,
      if_pos ⟨rfl, rfl⟩, ea, eb, UInt8.ofNat_toNat, UInt8.ofNat_toNat]
  | a :: b :: c :: bs => by
    have lta := a.toNat_lt
    have ltb := b.toNat_lt
    have ltc := c.toNat_lt
    have ea : a.toNat / 4 * 4 + (a.toNat % 4 * 16 + b.toNat / 16) / 16 = a.toNat := by omega
    have eb : (a.toNat % 4 * 16 + b.toNat / 16) % 16 * 16 + (b.toNat % 16 * 4 + c.toNat / 64) / 4 =
        b.toNat := by omega
    have ec : (b.toNat % 16 * 4 + c.toNat / 64) % 4 * 64 + c.toNat % 64 = c.toNat := by omega
    have ney : letter (b.toNat % 16 * 4 + c.toNat / 64) ≠ 61 := letter_ne_pad (by omega)
    have nez : letter (c.toNat % 64) ≠ 61 := letter_ne_pad (by omega)
    rw [encode, decode, sextet_letter (by omega), sextet_letter (by omega), Option.bind_some,
      Option.bind_some, if_neg (fun h => ney h.1), sextet_letter (by omega), Option.bind_some,
      if_neg (fun h => nez h.1), sextet_letter (by omega), Option.bind_some, decode_encode bs,
      Option.map_some, ea, eb, ec, UInt8.ofNat_toNat, UInt8.ofNat_toNat, UInt8.ofNat_toNat]

end CLL.Base64
