import Mathlib.Data.List.Basic

/-!
# Lines

A text over any alphabet cut after every separator into complete lines, and the incomplete line at its
end. `splitLines_join` and `join_splitLines` say that cutting and joining are inverse.
-/

namespace CLL.Lines

variable {α : Type*}

/-- The text of complete lines. -/
def join (sep : α) (lines : List (List α)) : List α := lines.flatMap (· ++ [sep])

/-- Lines are joined one list after the other. -/
lemma join_append (sep : α) (lines more : List (List α)) :
    join sep (lines ++ more) = join sep lines ++ join sep more := List.flatMap_append

/-- Lines are joined into a text that is not empty. -/
lemma join_ne_nil {sep : α} {lines : List (List α)} (ne : lines ≠ []) : join sep lines ≠ [] := by
  cases lines with
  | nil => exact absurd rfl ne
  | cons line lines => simp [join]

variable [DecidableEq α]

/-- The complete lines of a text, without their separators, and the rest. -/
def splitLines (sep : α) : List α → List (List α) × List α
  | [] => ([], [])
  | a :: text =>
    if a = sep then ([] :: (splitLines sep text).1, (splitLines sep text).2)
    else match splitLines sep text with
      | ([], rest) => ([], a :: rest)
      | (line :: lines, rest) => ((a :: line) :: lines, rest)

/-- A text without separator is the rest. -/
lemma splitLines_of_notMem {sep : α} {rest : List α} (notMem : sep ∉ rest) :
    splitLines sep rest = ([], rest) := by
  induction rest with
  | nil => rfl
  | cons a rest ih =>
    rw [List.mem_cons, not_or] at notMem
    rw [splitLines, if_neg (Ne.symm notMem.1), ih notMem.2]

/-- The first line is split off. -/
lemma splitLines_cons {sep : α} {line : List α} (notMem : sep ∉ line) (text : List α) :
    splitLines sep (line ++ sep :: text) =
      (line :: (splitLines sep text).1, (splitLines sep text).2) := by
  induction line with
  | nil => rw [List.nil_append, splitLines, if_pos rfl]
  | cons a line ih =>
    rw [List.mem_cons, not_or] at notMem
    rw [List.cons_append, splitLines, if_neg (Ne.symm notMem.1), ih notMem.2]

/-- Lines that hold no separator are cut out of their text. -/
theorem splitLines_join {sep : α} {lines : List (List α)} (notMem : ∀ line ∈ lines, sep ∉ line)
    {rest : List α} (restNotMem : sep ∉ rest) :
    splitLines sep (join sep lines ++ rest) = (lines, rest) := by
  induction lines with
  | nil => exact splitLines_of_notMem restNotMem
  | cons line lines ih =>
    have split : join sep (line :: lines) ++ rest = line ++ sep :: (join sep lines ++ rest) := by
      simp [join]
    rw [split, splitLines_cons (notMem line List.mem_cons_self),
      ih fun l hl => notMem l (List.mem_cons_of_mem _ hl)]

/-- Joining what was cut gives the text. -/
theorem join_splitLines (sep : α) (text : List α) :
    join sep (splitLines sep text).1 ++ (splitLines sep text).2 = text := by
  induction text with
  | nil => rfl
  | cons a text ih =>
    rw [splitLines]
    split
    · rename_i e
      rw [e]
      simpa [join] using ih
    · split
      · rename_i rest e
        rw [e] at ih
        simpa [join] using ih
      · rename_i line lines rest e
        rw [e] at ih
        simpa [join] using ih

/-- No separator is in the lines or the rest. -/
lemma notMem_splitLines (sep : α) (text : List α) :
    (∀ line ∈ (splitLines sep text).1, sep ∉ line) ∧ sep ∉ (splitLines sep text).2 := by
  induction text with
  | nil => simp [splitLines]
  | cons a text ih =>
    obtain ⟨lines, rest⟩ := ih
    rw [splitLines]
    split
    · refine ⟨?_, rest⟩
      intro line hline
      cases List.mem_cons.mp hline with
      | inl e => simp [e]
      | inr hline => exact lines line hline
    · rename_i ne
      split
      · rename_i rest' e
        rw [e] at rest
        refine ⟨by simp, ?_⟩
        simpa [Ne.symm ne] using rest
      · rename_i first more rest' e
        rw [e] at lines rest
        refine ⟨?_, rest⟩
        intro line hline
        cases List.mem_cons.mp hline with
        | inl eq =>
          have := lines first List.mem_cons_self
          simpa [eq, Ne.symm ne] using this
        | inr hline => exact lines line (List.mem_cons_of_mem _ hline)

end CLL.Lines
