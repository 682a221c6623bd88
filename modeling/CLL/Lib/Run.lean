import Mathlib.Data.List.Basic
import Mathlib.Order.Defs.Unbundled

/-!
# Runs of a transition function

`run step s calls` is the state after a list of calls. An invariant of one step is an invariant of every
run, and a preorder that every step goes up in goes up along every run. `Along` is a condition on every
step of a run: what the steps that meet it keep holds after such a run, and a run that is not such a run
has a first step that breaks the condition.
-/

namespace CLL.Run

variable {σ κ : Type*} (step : σ → κ → σ)

/-- The state after the calls. -/
def run (s : σ) (calls : List κ) : σ := calls.foldl step s

/-- A run makes its first step first. -/
@[simp] lemma run_cons (s : σ) (call : κ) (calls : List κ) :
    run step s (call :: calls) = run step (step s call) calls := rfl

/-- A run is continued by further calls. -/
lemma run_append (s : σ) (calls more : List κ) :
    run step s (calls ++ more) = run step (run step s calls) more := List.foldl_append

/-- What every step keeps holds after every run. -/
theorem invariant {P : σ → Prop} (keeps : ∀ s call, P s → P (step s call)) {s : σ} (init : P s)
    (calls : List κ) : P (run step s calls) := by
  induction calls generalizing s with
  | nil => exact init
  | cons call calls ih => exact ih (keeps s call init)

/-- What relates the states before and after every step relates the states before and after every run. -/
theorem monotone {R : σ → σ → Prop} [IsPreorder σ R] {P : σ → Prop}
    (keeps : ∀ s call, P s → P (step s call)) (up : ∀ s call, P s → R s (step s call)) {s : σ}
    (init : P s) (calls : List κ) : R s (run step s calls) := by
  induction calls generalizing s with
  | nil => exact refl s
  | cons call calls ih => exact Trans.trans (up s call init) (ih (keeps s call init))

/-- Every step of the run is made in a state that it meets the condition in. -/
def Along (P : σ → κ → Prop) : σ → List κ → Prop
  | _, [] => True
  | s, call :: calls => P s call ∧ Along P (step s call) calls

variable {step}

/-- What each step keeps holds after the run. -/
theorem Along.invariant {P : σ → κ → Prop} {I : σ → Prop}
    (keeps : ∀ s call, I s → P s call → I (step s call)) {s : σ} (init : I s) {calls : List κ}
    (along : Along step P s calls) : I (run step s calls) := by
  induction calls generalizing s with
  | nil => exact init
  | cons call calls ih => exact ih (keeps s call init along.1) along.2

/-- A run that misses a condition misses it first at one call. -/
lemma exists_first_of_not_along {P : σ → κ → Prop} {s : σ} {calls : List κ}
    (not_along : ¬ Along step P s calls) :
    ∃ before call after, calls = before ++ call :: after ∧ Along step P s before ∧
      ¬ P (run step s before) call := by
  induction calls generalizing s with
  | nil => exact absurd trivial not_along
  | cons call calls ih =>
    by_cases p : P s call
    · obtain ⟨before, call', after, rfl, along, np⟩ := ih fun along => not_along ⟨p, along⟩
      exact ⟨call :: before, call', after, rfl, ⟨p, along⟩, np⟩
    · exact ⟨[], call, calls, rfl, trivial, p⟩

end CLL.Run
