import Mathlib.Data.List.Basic
import Mathlib.Tactic.Linarith

/-!
# UTF-8

The strict UTF-8 codec over lists of code points. Surrogates have no encoding, and overlong forms do not
decode. `decode_encode` is the round trip. `newline_mem_encode` locates the byte of a line feed: it
encodes a line feed and nothing else, so lines may be cut at that byte before decoding.
-/

namespace CLL.Utf8

/-- Code points other than surrogates. -/
def isScalar (c : ℕ) : Bool := c < 0xD800 || (0xE000 ≤ c && c < 0x110000)

/-- The bytes of one code point. -/
def encodeChar (c : ℕ) : List UInt8 :=
  if c < 0x80 then [UInt8.ofNat c]
  else if c < 0x800 then [UInt8.ofNat (0xC0 + c / 64), UInt8.ofNat (0x80 + c % 64)]
  else if c < 0x10000 then
    [UInt8.ofNat (0xE0 + c / 4096), UInt8.ofNat (0x80 + c / 64 % 64), UInt8.ofNat (0x80 + c % 64)]
  else
    [UInt8.ofNat (0xF0 + c / 262144), UInt8.ofNat (0x80 + c / 4096 % 64),
      UInt8.ofNat (0x80 + c / 64 % 64), UInt8.ofNat (0x80 + c % 64)]

/-- The bytes of a string, unless it holds a surrogate. -/
def encode : List ℕ → Option (List UInt8)
  | [] => some []
  | c :: s => if isScalar c then (encode s).map (encodeChar c ++ ·) else none

/-- The six payload bits of a continuation byte. -/
def tail? (b : UInt8) : Option ℕ :=
  if 0x80 ≤ b.toNat ∧ b.toNat < 0xC0 then some (b.toNat - 0x80) else none

/-- The string that bytes encode. -/
def decode : List UInt8 → Option (List ℕ)
  | [] => some []
  | a :: bs =>
    let a := a.toNat
    if a < 0x80 then (decode bs).map (a :: ·)
    else if 0xC2 ≤ a ∧ a < 0xE0 then
      match bs with
      | b :: bs => do
        let c := (a - 0xC0) * 64 + (← tail? b)
        (decode bs).map (c :: ·)
      | _ => none
    else if 0xE0 ≤ a ∧ a < 0xF0 then
      match bs with
      | b :: c :: bs => do
        let c := (a - 0xE0) * 4096 + (← tail? b) * 64 + (← tail? c)
        if 0x800 ≤ c ∧ isScalar c then (decode bs).map (c :: ·) else none
      | _ => none
    else if 0xF0 ≤ a ∧ a < 0xF5 then
      match bs with
      | b :: c :: d :: bs => do
        let c := (a - 0xF0) * 262144 + (← tail? b) * 4096 + (← tail? c) * 64 + (← tail? d)
        if 0x10000 ≤ c ∧ isScalar c then (decode bs).map (c :: ·) else none
      | _ => none
    else none

/-- A byte of a number below 256 is that number. -/
lemma toNat_ofNat {n : ℕ} (lt : n < 256) : (UInt8.ofNat n).toNat = n :=
  UInt8.toNat_ofNat_of_lt lt

/-- A continuation byte is read back. -/
lemma tail?_ofNat {n : ℕ} (lt : n < 64) : tail? (UInt8.ofNat (0x80 + n)) = some n := by
  unfold tail?
  rw [toNat_ofNat (by omega), if_pos (by omega), Nat.add_sub_cancel_left]

/-- A rewrite by equality: the multiplier `262144` is not to be unfolded. -/
lemma bind_of_eq_some {α β : Type} {o : Option α} {a : α} (e : o = some a) (f : α → Option β) :
    (o >>= f) = f a := by
  rw [e, Option.bind_eq_bind, Option.bind_some]

/-- A code point followed by anything decodes to that code point first. -/
lemma decode_encodeChar_append {c : ℕ} (scalar : isScalar c = true) (bs : List UInt8) :
    decode (encodeChar c ++ bs) = (decode bs).map (c :: ·) := by
  have range := scalar
  simp only [isScalar, Bool.or_eq_true, Bool.and_eq_true, decide_eq_true_eq] at range
  unfold encodeChar
  split
  · rename_i one
    rw [List.cons_append, List.nil_append, decode.eq_def]
    dsimp only
    rw [toNat_ofNat (by omega), if_pos one]
  · split
    · have e : c / 64 * 64 + c % 64 = c := by omega
      simp only [List.cons_append, List.nil_append, decode]
      rw [toNat_ofNat (by omega), if_neg (by omega), if_pos (by omega),
        tail?_ofNat (Nat.mod_lt _ (by norm_num)), Nat.add_sub_cancel_left]
      simp only [Option.bind_eq_bind, Option.bind_some, e]
    · split
      · have e : c / 4096 * 4096 + c / 64 % 64 * 64 + c % 64 = c := by omega
        simp only [List.cons_append, List.nil_append, decode]
        rw [toNat_ofNat (by omega), if_neg (by omega), if_neg (by omega), if_pos (by omega),
          tail?_ofNat (Nat.mod_lt _ (by norm_num)), tail?_ofNat (Nat.mod_lt _ (by norm_num)),
          Nat.add_sub_cancel_left]
        simp only [Option.bind_eq_bind, Option.bind_some, e]
        rw [if_pos ⟨by omega, scalar⟩]
      · have e : c / 262144 * 262144 + c / 4096 % 64 * 4096 + c / 64 % 64 * 64 + c % 64 = c := by
          omega
        simp only [List.cons_append, List.nil_append, decode]
        rw [toNat_ofNat (by omega), if_neg (by omega), if_neg (by omega), if_neg (by omega),
          if_pos (by omega), bind_of_eq_some (tail?_ofNat (Nat.mod_lt _ (by norm_num))),
          bind_of_eq_some (tail?_ofNat (Nat.mod_lt _ (by norm_num))),
          bind_of_eq_some (tail?_ofNat (Nat.mod_lt _ (by norm_num))),
          Nat.add_sub_cancel_left, e, if_pos ⟨by omega, scalar⟩]

/-- What was encoded decodes to itself. -/
theorem decode_encode {s : List ℕ} {bs : List UInt8} (ok : encode s = some bs) :
    decode bs = some s := by
  induction s generalizing bs with
  | nil =>
    cases ok
    rfl
  | cons c s ih =>
    unfold encode at ok
    split at ok
    · rename_i scalar
      cases e : encode s with
      | none => simp [e] at ok
      | some bs' =>
        simp only [e, Option.map_some, Option.some.injEq] at ok
        rw [← ok, decode_encodeChar_append scalar, ih e]
        rfl
    · cases ok

/-- Strings without surrogates have an encoding. -/
lemma exists_encode {s : List ℕ} (scalar : ∀ c ∈ s, isScalar c = true) :
    ∃ bs, encode s = some bs := by
  induction s with
  | nil => exact ⟨[], rfl⟩
  | cons c s ih =>
    obtain ⟨bs, e⟩ := ih fun d hd => scalar d (List.mem_cons_of_mem _ hd)
    refine ⟨encodeChar c ++ bs, ?_⟩
    rw [encode, if_pos (scalar c List.mem_cons_self), e]
    rfl

/-- Only strings without surrogates have an encoding. -/
lemma isScalar_of_encode {s : List ℕ} {bs : List UInt8} (ok : encode s = some bs) :
    ∀ c ∈ s, isScalar c = true := by
  induction s generalizing bs with
  | nil => nofun
  | cons c s ih =>
    rw [encode] at ok
    split at ok
    · rename_i scalar
      obtain ⟨bs', rest, -⟩ := Option.map_eq_some_iff.mp ok
      intro d hd
      cases List.mem_cons.mp hd with
      | inl same => rw [same]; exact scalar
      | inr hd => exact ih rest d hd
    · cases ok

/-- An ASCII character is a scalar value. -/
lemma isScalar_of_lt {c : ℕ} (lt : c < 128) : isScalar c = true := by
  simp only [isScalar, Bool.or_eq_true, decide_eq_true_eq]
  exact Or.inl (by omega)

/-- A continuation byte was written. -/
lemma tail?_eq_some {b : UInt8} {n : ℕ} (ok : tail? b = some n) : b = UInt8.ofNat (0x80 + n) ∧ n < 64 := by
  unfold tail? at ok
  split at ok
  · next range =>
    have e : b.toNat - 0x80 = n := Option.some.inj ok
    have sum : 0x80 + n = b.toNat := by omega
    exact ⟨by rw [sum, UInt8.ofNat_toNat], by omega⟩
  · cases ok

/-- The bytes of a code point of two bytes. -/
lemma encodeChar_two {a : UInt8} (range : 0xC2 ≤ a.toNat ∧ a.toNat < 0xE0) {n : ℕ} (hn : n < 64) :
    isScalar ((a.toNat - 0xC0) * 64 + n) = true ∧
      encodeChar ((a.toNat - 0xC0) * 64 + n) = [a, UInt8.ofNat (0x80 + n)] := by
  have high : 0xC0 + ((a.toNat - 0xC0) * 64 + n) / 64 = a.toNat := by omega
  have low : ((a.toNat - 0xC0) * 64 + n) % 64 = n := by omega
  constructor
  · simp only [isScalar, Bool.or_eq_true, decide_eq_true_eq]
    exact .inl (by omega)
  · rw [encodeChar, if_neg (by omega), if_pos (by omega), high, low, UInt8.ofNat_toNat]

/-- The bytes of a code point of three bytes. -/
lemma encodeChar_three {a : UInt8} (range : 0xE0 ≤ a.toNat ∧ a.toNat < 0xF0) {m n : ℕ} (hm : m < 64)
    (hn : n < 64) (ge : 0x800 ≤ (a.toNat - 0xE0) * 4096 + m * 64 + n) :
    encodeChar ((a.toNat - 0xE0) * 4096 + m * 64 + n) =
      [a, UInt8.ofNat (0x80 + m), UInt8.ofNat (0x80 + n)] := by
  have high : 0xE0 + ((a.toNat - 0xE0) * 4096 + m * 64 + n) / 4096 = a.toNat := by omega
  have mid : ((a.toNat - 0xE0) * 4096 + m * 64 + n) / 64 % 64 = m := by omega
  have low : ((a.toNat - 0xE0) * 4096 + m * 64 + n) % 64 = n := by omega
  rw [encodeChar, if_neg (by omega), if_neg (by omega), if_pos (by omega), high, mid, low,
    UInt8.ofNat_toNat]

/-- The bytes of a code point of four bytes. -/
lemma encodeChar_four {a : UInt8} (range : 0xF0 ≤ a.toNat ∧ a.toNat < 0xF5) {l m n : ℕ} (hl : l < 64)
    (hm : m < 64) (hn : n < 64)
    (ge : 0x10000 ≤ (a.toNat - 0xF0) * 262144 + l * 4096 + m * 64 + n) :
    encodeChar ((a.toNat - 0xF0) * 262144 + l * 4096 + m * 64 + n) =
      [a, UInt8.ofNat (0x80 + l), UInt8.ofNat (0x80 + m), UInt8.ofNat (0x80 + n)] := by
  have high : 0xF0 + ((a.toNat - 0xF0) * 262144 + l * 4096 + m * 64 + n) / 262144 = a.toNat := by omega
  have mid : ((a.toNat - 0xF0) * 262144 + l * 4096 + m * 64 + n) / 4096 % 64 = l := by omega
  have mid' : ((a.toNat - 0xF0) * 262144 + l * 4096 + m * 64 + n) / 64 % 64 = m := by omega
  have low : ((a.toNat - 0xF0) * 262144 + l * 4096 + m * 64 + n) % 64 = n := by omega
  rw [encodeChar, if_neg (by omega), if_neg (by omega), if_neg (by omega), high, mid, mid', low,
    UInt8.ofNat_toNat]

/-- A small byte encodes itself. -/
lemma encodeChar_one {a : UInt8} (lt : a.toNat < 0x80) : encodeChar a.toNat = [a] := by
  rw [encodeChar, if_pos lt, UInt8.ofNat_toNat]

/-- A decoded string begins with the code point that the bytes begin with. -/
lemma decode_cons_eq_some {a : UInt8} {bs : List UInt8} {s : List ℕ} (ok : decode (a :: bs) = some s) :
    ∃ c rest t, s = c :: t ∧ isScalar c = true ∧ a :: bs = encodeChar c ++ rest ∧ decode rest = some t := by
  rw [decode.eq_def] at ok
  dsimp only at ok
  -- One case for each length that the first byte announces.
  split at ok
  · next one =>
    obtain ⟨t, ht, rfl⟩ := Option.map_eq_some_iff.mp ok
    exact ⟨a.toNat, bs, t, rfl, isScalar_of_lt one, by rw [encodeChar_one one]; rfl, ht⟩
  · split at ok
    · next two =>
      split at ok
      · next b rest =>
        obtain ⟨n, tail, ok⟩ := Option.bind_eq_some_iff.mp ok
        obtain ⟨t, ht, rfl⟩ := Option.map_eq_some_iff.mp ok
        obtain ⟨rfl, lt⟩ := tail?_eq_some tail
        obtain ⟨scalar, e⟩ := encodeChar_two two lt
        exact ⟨_, rest, t, rfl, scalar, by rw [e]; rfl, ht⟩
      · cases ok
    · split at ok
      · next three =>
        split at ok
        · next b c' rest =>
          simp only [Option.bind_eq_bind, Option.bind_eq_some_iff] at ok
          obtain ⟨m, hm, n, hn, ok⟩ := ok
          obtain ⟨rfl, lt⟩ := tail?_eq_some hm
          obtain ⟨rfl, lt'⟩ := tail?_eq_some hn
          split at ok
          · next range =>
            obtain ⟨t, ht, rfl⟩ := Option.map_eq_some_iff.mp ok
            exact ⟨_, rest, t, rfl, range.2, by rw [encodeChar_three three lt lt' range.1]; rfl, ht⟩
          · cases ok
        · cases ok
      · split at ok
        · next four =>
          split at ok
          · next b c' d rest =>
            simp only [Option.bind_eq_bind, Option.bind_eq_some_iff] at ok
            obtain ⟨l, hl, m, hm, n, hn, ok⟩ := ok
            obtain ⟨rfl, lt⟩ := tail?_eq_some hl
            obtain ⟨rfl, lt'⟩ := tail?_eq_some hm
            obtain ⟨rfl, lt''⟩ := tail?_eq_some hn
            split at ok
            · next range =>
              obtain ⟨t, ht, rfl⟩ := Option.map_eq_some_iff.mp ok
              exact ⟨_, rest, t, rfl, range.2, by rw [encodeChar_four four lt lt' lt'' range.1]; rfl, ht⟩
            · cases ok
          · cases ok
        · cases ok

/-- A character has bytes. -/
lemma encodeChar_ne_nil (c : ℕ) : encodeChar c ≠ [] := by
  unfold encodeChar
  split_ifs <;> simp

/-- Bytes that are decoded encode the string they are decoded to. -/
theorem encode_of_decode {bs : List UInt8} {s : List ℕ} (ok : decode bs = some s) : encode s = some bs := by
  induction len : bs.length using Nat.strong_induction_on generalizing bs s with
  | _ n ih =>
    cases bs with
    | nil =>
      rw [decode] at ok
      cases ok
      rfl
    | cons a bs =>
      obtain ⟨c, rest, t, rfl, scalar, e, ht⟩ := decode_cons_eq_some ok
      have shorter : rest.length < n := by
        have pos := List.length_pos_of_ne_nil (encodeChar_ne_nil c)
        rw [e, List.length_append] at len
        omega
      rw [encode, if_pos scalar, ih _ shorter ht rfl, e]
      rfl

/-- A newline byte stands for a newline only. -/
lemma newline_mem_encodeChar {c : ℕ} (mem : 10 ∈ encodeChar c) (scalar : isScalar c = true) :
    c = 10 := by
  have range := scalar
  simp only [isScalar, Bool.or_eq_true, Bool.and_eq_true, decide_eq_true_eq] at range
  have big {n : ℕ} (lt : n < 256) (eq : 10 = UInt8.ofNat n) : n = 10 := by
    have := congrArg UInt8.toNat eq
    rw [toNat_ofNat lt] at this
    exact this.symm
  unfold encodeChar at mem
  split at mem
  · exact big (by omega) (List.mem_singleton.mp mem)
  · split at mem
    · simp only [List.mem_cons, List.not_mem_nil, or_false] at mem
      rcases mem with e | e
      · have := big (by omega) e
        omega
      · have := big (by omega) e
        omega
    · split at mem
      · simp only [List.mem_cons, List.not_mem_nil, or_false] at mem
        rcases mem with e | e | e
        · have := big (by omega) e
          omega
        · have := big (by omega) e
          omega
        · have := big (by omega) e
          omega
      · simp only [List.mem_cons, List.not_mem_nil, or_false] at mem
        rcases mem with e | e | e | e
        · have := big (by omega) e
          omega
        · have := big (by omega) e
          omega
        · have := big (by omega) e
          omega
        · have := big (by omega) e
          omega

/-- A line feed byte comes from a line feed. -/
theorem newline_mem_encode {s : List ℕ} {bs : List UInt8} (ok : encode s = some bs)
    (mem : 10 ∈ bs) : 10 ∈ s := by
  induction s generalizing bs with
  | nil =>
    cases ok
    cases mem
  | cons c s ih =>
    unfold encode at ok
    split at ok
    · rename_i scalar
      cases e : encode s with
      | none => simp [e] at ok
      | some bs' =>
        simp only [e, Option.map_some, Option.some.injEq] at ok
        rw [← ok] at mem
        cases List.mem_append.mp mem with
        | inl mem => rw [newline_mem_encodeChar mem scalar]; exact List.mem_cons_self
        | inr mem => exact List.mem_cons_of_mem _ (ih e mem)
    · cases ok

end CLL.Utf8
