import Mathlib.Data.Nat.Digits.Lemmas

/-!
# Decimal numerals

Numerals in base ten as lists of code points: `text n` has no leading zero, `pad w n` fills up to `w`
digits. Both are read back by `value`, and `text n` is what `isCanonical` describes.
-/

namespace CLL.Decimal

/-- An ASCII digit. -/
def isDigit (c : ℕ) : Bool := 48 ≤ c && c ≤ 57

/-- The numeral of `n` without leading zeros. -/
def text (n : ℕ) : List ℕ :=
  if n = 0 then [48] else (Nat.digits 10 n).reverse.map (48 + ·)

/-- The numeral of `n`, filled with zeros on the left up to `w` digits. -/
def pad (w n : ℕ) : List ℕ := List.replicate (w - (text n).length) 48 ++ text n

/-- The number that a list of digits denotes. -/
def value (s : List ℕ) : ℕ := Nat.ofDigits 10 (s.map (· - 48)).reverse

/-- `0`, or digits of which the first is not `0`. -/
def isCanonical : List ℕ → Bool
  | [] => false
  | c :: s => (c == 48 && s.isEmpty) || (49 ≤ c && c ≤ 57 && s.all isDigit)

/-- A number is read back from its text. -/
@[simp] theorem value_text (n : ℕ) : value (text n) = n := by
  unfold value text
  split
  · rename_i zero
    simp [zero]
  · rw [List.map_map, ← List.map_reverse, List.reverse_reverse]
    have same : ((fun c => c - 48) ∘ fun d => 48 + d) = id := by
      funext d
      simp
    rw [same, List.map_id, Nat.ofDigits_digits]

/-- A number is read back from its padded text. -/
@[simp] lemma value_pad (w n : ℕ) : value (pad w n) = n := by
  have zeros : value (pad w n) = value (text n) := by
    unfold value pad
    rw [List.map_append, List.reverse_append, List.map_replicate, List.reverse_replicate,
      Nat.ofDigits_append_replicate_zero]
  rw [zeros, value_text]

/-- The text of a number has digits only. -/
lemma isDigit_text {n c : ℕ} (hc : c ∈ text n) : isDigit c = true := by
  unfold text at hc
  split at hc
  · rw [List.mem_singleton.mp hc]
    rfl
  · obtain ⟨d, hd, rfl⟩ := List.mem_map.mp hc
    have lt := Nat.digits_lt_base (by norm_num) (List.mem_reverse.mp hd)
    simp [isDigit]
    omega

/-- The padded text of a number has digits only. -/
lemma isDigit_pad {w n c : ℕ} (hc : c ∈ pad w n) : isDigit c = true := by
  cases List.mem_append.mp hc with
  | inl zero => rw [(List.mem_replicate.mp zero).2]; rfl
  | inr digit => exact isDigit_text digit

/-- A digit is an ASCII character. -/
lemma lt_of_isDigit {c : ℕ} (digit : isDigit c = true) : c < 128 := by
  simp only [isDigit, Bool.and_eq_true, decide_eq_true_eq] at digit
  omega

/-- The text of a number is not empty. -/
lemma text_ne_nil (n : ℕ) : text n ≠ [] := by
  unfold text
  split
  · simp
  · rename_i pos
    simp [Nat.digits_eq_nil_iff_eq_zero, pos]

/-- The text of a number is canonical. -/
theorem isCanonical_text (n : ℕ) : isCanonical (text n) = true := by
  by_cases zero : n = 0
  · simp [text, zero, isCanonical]
  · have ne : Nat.digits 10 n ≠ [] := by
      simpa [Nat.digits_eq_nil_iff_eq_zero] using zero
    have last := Nat.getLast_digit_ne_zero 10 zero
    have split : (Nat.digits 10 n).reverse =
        (Nat.digits 10 n).getLast ne :: (Nat.digits 10 n).dropLast.reverse := by
      conv_lhs => rw [← List.dropLast_append_getLast ne]
      simp
    have lt := Nat.digits_lt_base (b := 10) (by norm_num) (List.getLast_mem ne)
    have digits : ∀ c ∈ text n, isDigit c = true := fun c hc => isDigit_text hc
    rw [text, if_neg zero, split, List.map_cons] at digits ⊢
    have rest := fun c hc => digits c (List.mem_cons_of_mem _ hc)
    rw [isCanonical, List.all_eq_true.mpr rest]
    have range : 49 ≤ 48 + (Nat.digits 10 n).getLast ne ∧ 48 + (Nat.digits 10 n).getLast ne ≤ 57 := by
      omega
    simp [range]

/-- A canonical numeral is the text of its number. -/
theorem text_value {s : List ℕ} (canonical : isCanonical s = true) : text (value s) = s := by
  cases s with
  | nil => cases canonical
  | cons c s =>
    simp only [isCanonical, Bool.or_eq_true, Bool.and_eq_true, decide_eq_true_eq, beq_iff_eq,
      List.isEmpty_iff, List.all_eq_true] at canonical
    obtain ⟨rfl, rfl⟩ | ⟨⟨ge, le⟩, rest⟩ := canonical
    · simp [value, text]
    · have digits : ∀ d ∈ c :: s, 48 ≤ d ∧ d ≤ 57 := by
        intro d hd
        rcases List.mem_cons.mp hd with rfl | hd
        · omega
        · simpa [isDigit] using rest d hd
      have back : Nat.digits 10 (value (c :: s)) = ((c :: s).map (· - 48)).reverse := by
        refine Nat.digits_ofDigits 10 (by norm_num) _ (fun d hd => ?_) fun _ => ?_
        · obtain ⟨e, he, rfl⟩ := List.mem_map.mp (List.mem_reverse.mp hd)
          have := digits e he
          omega
        · rw [List.getLast_reverse]
          simp only [List.map_cons, List.head_cons]
          omega
      have pos : value (c :: s) ≠ 0 := by
        intro zero
        rw [zero, Nat.digits_zero] at back
        simp at back
      rw [text, if_neg pos, back, List.reverse_reverse, List.map_map]
      refine (List.map_congr_left fun d hd => ?_).trans (List.map_id _)
      have := digits d hd
      simp only [Function.comp, id]
      omega

/-- A number below `10 ^ w` has at most `w` digits. -/
lemma length_text_le {n w : ℕ} (pos : 0 < w) (lt : n < 10 ^ w) : (text n).length ≤ w := by
  unfold text
  split
  · exact pos
  · simpa using (Nat.digits_length_le_iff (by norm_num) n).mpr lt

/-- A padded number below `10 ^ w` has `w` digits. -/
lemma length_pad {n w : ℕ} (pos : 0 < w) (lt : n < 10 ^ w) : (pad w n).length = w := by
  have le := length_text_le pos lt
  simp only [pad, List.length_append, List.length_replicate]
  omega

/-- Two characters of a field of two. -/
lemma pad_two {n : ℕ} (lt : n < 100) : ∃ a b, pad 2 n = [a, b] :=
  List.length_eq_two.mp (length_pad (by decide) lt)

/-- Three characters of a field of three. -/
lemma pad_three {n : ℕ} (lt : n < 1000) : ∃ a b c, pad 3 n = [a, b, c] :=
  List.length_eq_three.mp (length_pad (by decide) lt)

/-- The first digit counts the most. -/
lemma value_cons (c : ℕ) (s : List ℕ) : value (c :: s) = (c - 48) * 10 ^ s.length + value s := by
  unfold value
  rw [List.map_cons, List.reverse_cons, Nat.ofDigits_append, Nat.ofDigits_singleton,
    List.length_reverse, List.length_map]
  ring

/-- Digits are worth less than the next power of ten. -/
lemma value_lt {s : List ℕ} (digits : ∀ c ∈ s, isDigit c = true) : value s < 10 ^ s.length := by
  induction s with
  | nil => simp [value]
  | cons c s ih =>
    have rest := ih fun d hd => digits d (List.mem_cons_of_mem _ hd)
    have own := digits c List.mem_cons_self
    simp only [isDigit, Bool.and_eq_true, decide_eq_true_eq] at own
    have le : (c - 48) * 10 ^ s.length ≤ 9 * 10 ^ s.length := Nat.mul_le_mul_right _ (by omega)
    rw [value_cons, List.length_cons, pow_succ]
    omega

/-- Numerals of one length are determined by their values. -/
lemma value_injective {s t : List ℕ} (length : s.length = t.length) (digits : ∀ c ∈ s, isDigit c = true)
    (digits' : ∀ c ∈ t, isDigit c = true) (same : value s = value t) : s = t := by
  induction s generalizing t with
  | nil => exact (List.length_eq_zero_iff.mp length.symm).symm
  | cons c s ih =>
    cases t with
    | nil => cases length
    | cons d t =>
      have length : s.length = t.length := Nat.succ.inj length
      have tails := fun x hx => digits x (List.mem_cons_of_mem c hx)
      have tails' := fun x hx => digits' x (List.mem_cons_of_mem d hx)
      have lt := value_lt tails
      have lt' := value_lt tails'
      rw [value_cons, value_cons, ← length] at same
      rw [← length] at lt'
      have heads : c - 48 = d - 48 := by
        have first := congrArg (· / 10 ^ s.length) same
        simpa [Nat.add_comm _ (value _), Nat.add_mul_div_right _ _ (Nat.pow_pos (n := s.length)
          (show 0 < 10 by norm_num)), Nat.div_eq_of_lt lt, Nat.div_eq_of_lt lt'] using first
      have digit := digits c List.mem_cons_self
      have digit' := digits' d List.mem_cons_self
      simp only [isDigit, Bool.and_eq_true, decide_eq_true_eq] at digit digit'
      rw [show c = d by omega, ih length tails tails' (by rw [heads] at same; omega)]

/-- A numeral of the width is the padding of its value. -/
lemma pad_value {w : ℕ} (pos : 0 < w) {s : List ℕ} (length : s.length = w)
    (digits : ∀ c ∈ s, isDigit c = true) : pad w (value s) = s := by
  have lt : value s < 10 ^ w := length ▸ value_lt digits
  exact value_injective ((length_pad pos lt).trans length.symm) (fun c hc => isDigit_pad hc) digits
    (value_pad w _)

/-- Numerals of one length are ordered as texts by their values, whatever follows them. -/
theorem append_lt_append {s t : List ℕ} (length : s.length = t.length)
    (hs : ∀ c ∈ s, isDigit c = true) (ht : ∀ c ∈ t, isDigit c = true) (lt : value s < value t)
    (u v : List ℕ) : s ++ u < t ++ v := by
  induction s generalizing t with
  | nil =>
    cases t with
    | nil => exact absurd lt (lt_irrefl _)
    | cons d t => cases length
  | cons c s ih =>
    cases t with
    | nil => cases length
    | cons d t =>
      rw [List.length_cons, List.length_cons, Nat.succ_inj] at length
      have hc := hs c List.mem_cons_self
      have hd := ht d List.mem_cons_self
      simp only [isDigit, Bool.and_eq_true, decide_eq_true_eq] at hc hd
      have rest := value_lt fun e he => ht e (List.mem_cons_of_mem _ he)
      rw [value_cons, value_cons, length] at lt
      rw [List.cons_append, List.cons_append, List.cons_lt_cons_iff]
      rcases lt_trichotomy c d with less | rfl | more
      · exact .inl less
      · refine .inr ⟨rfl, ih length (fun e he => hs e (List.mem_cons_of_mem _ he))
          (fun e he => ht e (List.mem_cons_of_mem _ he)) (by omega)⟩
      · have le : (d - 48 + 1) * 10 ^ t.length ≤ (c - 48) * 10 ^ t.length :=
          Nat.mul_le_mul_right _ (by omega)
        rw [Nat.add_mul, Nat.one_mul] at le
        omega

end CLL.Decimal
