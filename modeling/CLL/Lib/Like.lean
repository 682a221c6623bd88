import Mathlib.Data.List.Infix
import Mathlib.Data.List.TakeWhile

/-!
# The `LIKE` operator of SQLite

Texts are lists of code points. In a pattern `%` stands for any text and `_` for any one code point, without
an escape; ASCII letters match in either case, and U+FFFE and U+FFFF are read as U+FFFD. Both texts end at the
first U+0000.

`like` is computed from left to right; `Alike` says what it means (`like_iff`).
-/

namespace CLL.Like

/-- A code point as it is compared: an ASCII letter in lower case, and no U+FFFE or U+FFFF. -/
def fold (c : ℕ) : ℕ := if 65 ≤ c ∧ c ≤ 90 then c + 32 else if c = 65534 ∨ c = 65535 then 65533 else c

/-- One code point of a pattern, and the rest of it. -/
def matchOne (c : ℕ) (rest : List ℕ → Bool) : List ℕ → Bool
  | [] => false
  | d :: s => (c = 95 || fold c = fold d) && rest s

/-- Whether a pattern matches a text. -/
def matches_ : List ℕ → List ℕ → Bool
  | [], s => s.isEmpty
  | c :: p, s => if c = 37 then s.tails.any (matches_ p) else matchOne c (matches_ p) s

/-- The part of a text that the operator sees. -/
def seen (s : List ℕ) : List ℕ := s.takeWhile (· ≠ 0)

/-- `text LIKE pattern`. -/
def like (pattern text : List ℕ) : Bool := matches_ (seen pattern) (seen text)

/-- A text is spelled as a pattern says. -/
inductive Alike : List ℕ → List ℕ → Prop where
  | nil : Alike [] []
  /-- The same code point, but for the case of ASCII letters. -/
  | same {c d : ℕ} {p s : List ℕ} (ne : c ≠ 37) (letter : fold c = fold d) (rest : Alike p s) :
    Alike (c :: p) (d :: s)
  /-- `_` and any code point. -/
  | one {d : ℕ} {p s : List ℕ} (rest : Alike p s) : Alike (95 :: p) (d :: s)
  /-- `%` and nothing more. -/
  | skip {p s : List ℕ} (rest : Alike p s) : Alike (37 :: p) s
  /-- `%` and one code point more. -/
  | more {d : ℕ} {p s : List ℕ} (rest : Alike (37 :: p) s) : Alike (37 :: p) (d :: s)

/-- `%` takes any part of a text. -/
lemma Alike.any {p before s : List ℕ} (rest : Alike p s) : Alike (37 :: p) (before ++ s) := by
  induction before with
  | nil => exact .skip rest
  | cons d before ih => exact .more ih

/-- `%` leaves some rest of the text to the rest of the pattern. -/
lemma Alike.exists_rest {p s : List ℕ} (alike : Alike (37 :: p) s) : ∃ rest, rest <:+ s ∧ Alike p rest := by
  generalize pattern : 37 :: p = q at alike
  induction alike with
  | nil => cases pattern
  | same ne letter rest ih =>
    cases pattern
    exact absurd rfl ne
  | one rest ih => cases pattern
  | skip rest ih =>
    cases pattern
    exact ⟨_, List.suffix_refl _, rest⟩
  | more rest ih =>
    obtain ⟨tail, suffix, alike⟩ := ih pattern
    exact ⟨tail, suffix.trans (List.suffix_cons _ _), alike⟩

/-- A pattern matches the texts that are spelled as it says. -/
lemma matches_iff {p s : List ℕ} : matches_ p s = true ↔ Alike p s := by
  induction p generalizing s with
  | nil =>
    rw [matches_, List.isEmpty_iff]
    constructor
    · rintro rfl
      exact .nil
    · intro alike
      cases alike
      rfl
  | cons c p ih =>
    rw [matches_]
    split
    · rename_i any
      subst any
      rw [List.any_eq_true]
      constructor
      · rintro ⟨rest, mem, matched⟩
        obtain ⟨before, rfl⟩ := (List.mem_tails _ _).mp mem
        exact (ih.mp matched).any
      · intro alike
        obtain ⟨rest, suffix, alike⟩ := alike.exists_rest
        exact ⟨rest, (List.mem_tails _ _).mpr suffix, ih.mpr alike⟩
    · rename_i literal
      cases s with
      | nil =>
        constructor
        · intro matched
          cases matched
        · intro alike
          cases alike
          exact absurd rfl literal
      | cons d s =>
        rw [matchOne, Bool.and_eq_true, Bool.or_eq_true, decide_eq_true_eq, decide_eq_true_eq, ih]
        constructor
        · rintro ⟨rfl | letter, alike⟩
          · exact .one alike
          · exact .same literal letter alike
        · intro alike
          cases alike with
          | same ne letter rest => exact ⟨Or.inr letter, rest⟩
          | one rest => exact ⟨Or.inl rfl, rest⟩
          | skip rest => exact absurd rfl literal
          | more rest => exact absurd rfl literal

/-- `LIKE` compares what it sees of the two texts. -/
theorem like_iff {pattern text : List ℕ} : like pattern text = true ↔ Alike (seen pattern) (seen text) :=
  matches_iff

/-- A text is spelled as itself. -/
lemma Alike.self (p : List ℕ) : Alike p p := by
  induction p with
  | nil => exact .nil
  | cons c p ih =>
    by_cases any : c = 37
    · subst any
      exact .more (.skip ih)
    · exact .same any rfl ih

/-- A text with `%` after it takes everything that starts with it. -/
lemma Alike.self_append (p rest : List ℕ) : Alike (p ++ [37]) (p ++ rest) := by
  induction p with
  | nil =>
    have all : Alike [37] (rest ++ []) := Alike.nil.any
    rwa [List.append_nil] at all
  | cons c p ih =>
    by_cases any : c = 37
    · subst any
      exact .more (.skip ih)
    · exact .same any rfl ih

/-- What is seen of two texts, one after the other. -/
lemma seen_append (p s : List ℕ) :
    seen (p ++ s) = if (seen p).length = p.length then p ++ seen s else seen p := List.takeWhile_append

/-- A text matches everything that starts with it. -/
theorem like_prefix {p s : List ℕ} (starts : p <+: s) : like (p ++ [37]) s = true := by
  obtain ⟨rest, rfl⟩ := starts
  rw [like_iff, seen_append, seen_append]
  split
  · exact .self_append _ _
  · exact .self _

end CLL.Like
