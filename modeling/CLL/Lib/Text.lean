import CLL.Lib.CanonicalJson
import CLL.Lib.Lines

/-!
# Text

`str.splitlines` and `str.isspace` of Python over code points, and ASCII text as bytes. `splitlines_join`
says that lines of printable text are cut out of their file as they were written.
-/

namespace CLL.Text

/-- `chr(c).isspace()`. -/
def isSpace (c : ℕ) : Bool :=
  (9 ≤ c && c ≤ 13) || (28 ≤ c && c ≤ 32) || c == 0x85 || c == 0xA0 || c == 0x1680 ||
    (0x2000 ≤ c && c ≤ 0x200A) || c == 0x2028 || c == 0x2029 || c == 0x202F || c == 0x205F ||
    c == 0x3000

/-- `not s.strip()`. -/
def isBlank (s : List ℕ) : Bool := s.all isSpace

/-- What ends a line for `str.splitlines`. -/
def isBreak (c : ℕ) : Bool :=
  (10 ≤ c && c ≤ 13) || (28 ≤ c && c ≤ 30) || c == 0x85 || c == 0x2028 || c == 0x2029

/-- `s.splitlines()`. A carriage return and the line feed after it end one line. -/
def splitlines : List ℕ → List (List ℕ)
  | [] => []
  | 13 :: 10 :: s => [] :: splitlines s
  | c :: s =>
    if isBreak c then [] :: splitlines s
    else match splitlines s with
      | [] => [[c]]
      | line :: lines => (c :: line) :: lines

/-- The bytes of ASCII text. -/
def ascii (s : List ℕ) : List UInt8 := s.map UInt8.ofNat

/-- ASCII texts are written one after the other. -/
lemma ascii_append (s t : List ℕ) : ascii (s ++ t) = ascii s ++ ascii t := List.map_append

/-- An ASCII text is decoded. -/
lemma decode_ascii {s : List ℕ} (small : ∀ c ∈ s, c < 128) : Utf8.decode (ascii s) = some s := by
  have chars : s.flatMap Utf8.encodeChar = ascii s := by
    rw [ascii, List.map_eq_flatMap]
    apply List.flatMap_congr
    intro c hc
    have := small c hc
    rw [Utf8.encodeChar, if_pos (by omega)]
  rw [← chars]
  exact Utf8.decode_encode (Json.encode_of_ascii small)

/-- A character other than a return begins a line or stands in one. -/
lemma splitlines_cons {c : ℕ} {s : List ℕ} (ne : c ≠ 13) :
    splitlines (c :: s) = if isBreak c then [] :: splitlines s
      else match splitlines s with
        | [] => [[c]]
        | line :: lines => (c :: line) :: lines := by
  rw [splitlines.eq_def]
  split
  · rename_i e
    cases e
  · rename_i e
    exact absurd (List.cons.inj e).1 ne
  · rename_i e
    cases e
    rfl

/-- A line without line breaks is the first line of its text. -/
lemma splitlines_line {line : List ℕ} (whole : ∀ c ∈ line, isBreak c = false) (text : List ℕ) :
    splitlines (line ++ 10 :: text) = line :: splitlines text := by
  induction line with
  | nil =>
    rw [List.nil_append, splitlines_cons (by decide)]
    rfl
  | cons c line ih =>
    have own := whole c List.mem_cons_self
    have ne : c ≠ 13 := by
      rintro rfl
      cases own
    rw [List.cons_append, splitlines_cons ne, own, ih fun d hd => whole d (List.mem_cons_of_mem _ hd)]
    rfl

/-- Lines without line breaks are cut out of their text. -/
theorem splitlines_join {lines : List (List ℕ)}
    (whole : ∀ line ∈ lines, ∀ c ∈ line, isBreak c = false) :
    splitlines (Lines.join 10 lines) = lines := by
  induction lines with
  | nil => rfl
  | cons line lines ih =>
    have split : Lines.join 10 (line :: lines) = line ++ 10 :: Lines.join 10 lines := by
      simp [Lines.join]
    rw [split, splitlines_line (whole line List.mem_cons_self),
      ih fun l hl => whole l (List.mem_cons_of_mem _ hl)]

/-- No printable character breaks a line. -/
lemma not_isBreak_of_printable {c : ℕ} (range : 32 ≤ c ∧ c ≤ 126) : isBreak c = false := by
  simp only [isBreak, Bool.or_eq_false_iff, Bool.and_eq_false_iff, decide_eq_false_iff_not,
    beq_eq_false_iff_ne]
  omega

end CLL.Text
