import CLL.Lib.Run
import CLL.Log.Engine

/-!
# The engine as an object

The methods of `Engine` as they run: each reads and assigns attributes one after the other, and what it
has assigned before it raises stays assigned. `append_toObject`, `commitCll_toObject` and
`commitWitness_toObject` say that every method does to the attributes what the transition of the same
name does to the engine, or nothing when it raises, and `run_invariant` collects what holds over all
runs of the three.
-/

namespace CLL.Log
open CLL.Core (Digest)

/-- The attributes `_entries`, `_by_value` and `_state`. -/
structure Object where
  entries : List Entry
  byValue : Bytes → Option ℕ
  state : CllState

/-- A method: the attributes it leaves, and what it returns or raises. -/
abbrev Method (α : Type) := ExceptT Error (StateM Object) α

namespace Method

/-- A method on an object. -/
def call {α : Type} (m : Method α) (o : Object) : Py α × Object := m.run o

/-- A call of a function that touches no attribute. -/
def pure? {α : Type} (x : Py α) : Method α := ExceptT.mk (pure x)

/-- The value of an attribute. -/
def read {α : Type} (attr : Object → α) : Method α := do return attr (← get)

/-- `Engine.append`. -/
def append (input : Obj) : Method AppendResult := do
  let (value, appendedAt) ← pure? (checkAppend input)
  match (← read Object.byValue) value.1 with
  | some index =>
    match (← read Object.entries)[index]? with
    | some entry => pure? (.ok ⟨entry, .idempotent⟩)
    | none => pure? (raise .indexError "list index out of range")
  | none =>
    let seq := (← read Object.entries).length + 1
    pure? (require (seq ≤ maxPortableInteger) .invalid "entry sequence exceeds the portable range")
    let entry : Entry := ⟨seq, value.1, appendedAt⟩
    modify fun o => { o with entries := o.entries ++ [entry] }
    modify fun o => { o with byValue := fun v => if v = value.1 then some (seq - 1) else o.byValue v }
    pure? (.ok ⟨entry, .inserted⟩)

/-- `Engine.commit_cll`. -/
def commitCll (expectedSize expectedCheckpoint next : Obj) : Method Unit := do
  let state ← pure? (applyCll (← read Object.state) expectedSize expectedCheckpoint next)
  modify fun o => { o with state := state }

/-- `Engine.commit_witness`. The rows are a copy until the last assignment. -/
def commitWitness (expectedAttempts next : Obj) : Method Unit := do
  let state ← read Object.state
  let r ← pure? (applyWitness state.witnesses expectedAttempts next)
  let rows := state.witnesses.set r.1.1 r.1.2
  let next := state.withRows rows (by rw [map_key_set]; exact state.nodup_keys)
  modify fun o => { o with state := next }

variable {α β : Type}

/-- Calls are composed. -/
lemma call_bind (m : Method α) (f : α → Method β) (o : Object) :
    (m >>= f).call o = match m.call o with
      | (.ok a, o') => (f a).call o'
      | (.error e, o') => (.error e, o') := by
  show ExceptT.bindCont f (m.call o).1 (m.call o).2 = _
  obtain ⟨x, o'⟩ := m.call o
  cases x with
  | ok a => rfl
  | error e => rfl

/-- A pure value leaves the object. -/
@[simp] lemma call_pure? (x : Py α) (o : Object) : (pure? x).call o = (x, o) := rfl

/-- Reading an attribute leaves the object. -/
@[simp] lemma call_read (attr : Object → α) (o : Object) : (read attr).call o = (.ok (attr o), o) := rfl

end Method

/-- An engine with its attributes. -/
def Engine.toObject (e : Engine) : Object := ⟨e.entries, e.byValue, e.state⟩

/-- What a transition of the engine makes of the attributes: nothing when it raises. -/
def outcome {α : Type} (e : Engine) : Py (Engine × α) → Py α × Object
  | .ok (e', a) => (.ok a, e'.toObject)
  | .error exc => (.error exc, e.toObject)

/-- `append` on the attributes of an engine. -/
lemma append_toObject (e : Engine) (input : Obj) :
    (Method.append input).call e.toObject = outcome e (e.append input) := by
  have byValue : e.toObject.byValue = e.byValue := rfl
  have entries : e.toObject.entries = e.entries := rfl
  rw [Method.append, Method.call_bind, Method.call_pure?]
  cases check : checkAppend input with
  | error exc =>
    rw [Engine.append, check]
    rfl
  | ok checked =>
    obtain ⟨value, appendedAt⟩ := checked
    dsimp only
    rw [Method.call_bind, Method.call_read, byValue]
    dsimp only
    cases found : e.byValue value.1 with
    | some index =>
      rw [append_of_some check found, Engine.entryAt]
      dsimp only
      rw [Method.call_bind, Method.call_read, entries]
      dsimp only
      cases e.entries[index]? with
      | some entry => rfl
      | none => rfl
    | none =>
      rw [append_of_none check found]
      dsimp only
      rw [Method.call_bind, Method.call_read, entries]
      dsimp only
      rw [Method.call_bind, Method.call_pure?]
      by_cases le : e.entries.length + 1 ≤ maxPortableInteger
      · rw [require_of le, dif_pos le]
        rfl
      · rw [require, if_neg le, dif_neg le]
        rfl

/-- `commit_cll` on the attributes of an engine. -/
lemma commitCll_toObject (e : Engine) (expectedSize expectedCheckpoint next : Obj) :
    (Method.commitCll expectedSize expectedCheckpoint next).call e.toObject =
      outcome e ((e.commitCll expectedSize expectedCheckpoint next).map fun e' => (e', ())) := by
  rw [Method.commitCll, Method.call_bind, Method.call_read]
  dsimp only
  rw [Method.call_bind, Method.call_pure?, Engine.commitCll]
  have same : e.toObject.state = e.state := rfl
  rw [same]
  cases applyCll e.state expectedSize expectedCheckpoint next with
  | error exc => rfl
  | ok state => rfl

/-- `commit_witness` on the attributes of an engine. -/
lemma commitWitness_toObject (e : Engine) (expectedAttempts next : Obj) :
    (Method.commitWitness expectedAttempts next).call e.toObject =
      outcome e ((e.commitWitness expectedAttempts next).map fun e' => (e', ())) := by
  rw [Method.commitWitness, Method.call_bind, Method.call_read]
  dsimp only
  rw [Method.call_bind, Method.call_pure?, Engine.commitWitness]
  have same : e.toObject.state = e.state := rfl
  rw [same]
  cases applyWitness e.state.witnesses expectedAttempts next with
  | error exc => rfl
  | ok r => rfl

/-- A call of one of the three methods that change an engine. -/
inductive Call where
  | append (input : Obj)
  | commitCll (expectedSize expectedCheckpoint next : Obj)
  | commitWitness (expectedAttempts next : Obj)

namespace Object

/-- `Engine()`. -/
def init : Object := ⟨[], fun _ => none, .empty⟩

/-- A call: whether it returns or raises, and the attributes after it. -/
def perform (o : Object) : Call → Py Unit × Object
  | .append input => ((Method.append input).call o).map (·.map fun _ => ()) id
  | .commitCll expectedSize expectedCheckpoint next =>
    (Method.commitCll expectedSize expectedCheckpoint next).call o
  | .commitWitness expectedAttempts next => (Method.commitWitness expectedAttempts next).call o

/-- The attributes after a call. -/
def step (o : Object) (call : Call) : Object := (o.perform call).2

/-- What the attributes keep of earlier ones. -/
structure Extends (a b : Object) : Prop where
  entries : a.entries <+: b.entries
  nodes : a.state.nodes <+: b.state.nodes
  indexedSeq : a.state.indexedSeq ≤ b.state.indexedSeq
  checkpoint : ∀ c ∈ a.state.checkpoint, ∃ d ∈ b.state.checkpoint,
    c.size ≤ d.size ∧ c.indexedSeq ≤ d.indexedSeq ∧ (d.size = c.size → d = c)
  rows : ∀ row ∈ a.state.witnesses, ∃ row' ∈ b.state.witnesses,
    row'.key = row.key ∧ row'.checkpoint = row.checkpoint

/-- An object extends itself. -/
lemma Extends.rfl {a : Object} : a.Extends a where
  entries := List.prefix_refl _
  nodes := List.prefix_refl _
  indexedSeq := le_refl _
  checkpoint c hc := ⟨c, hc, le_refl _, le_refl _, fun _ => .refl c⟩
  rows row hrow := ⟨row, hrow, .refl _, .refl _⟩

/-- Extending is transitive. -/
lemma Extends.trans {a b c : Object} (hab : a.Extends b) (hbc : b.Extends c) : a.Extends c where
  entries := hab.entries.trans hbc.entries
  nodes := hab.nodes.trans hbc.nodes
  indexedSeq := hab.indexedSeq.trans hbc.indexedSeq
  checkpoint x hx := by
    obtain ⟨y, hy, le, le', same⟩ := hab.checkpoint x hx
    obtain ⟨z, hz, le₂, le₂', same₂⟩ := hbc.checkpoint y hy
    refine ⟨z, hz, le.trans le₂, le'.trans le₂', fun e => ?_⟩
    have mid := same (by omega)
    rw [same₂ (by omega), mid]
  rows x hx := by
    obtain ⟨y, hy, key, checkpoint⟩ := hab.rows x hx
    obtain ⟨z, hz, key', checkpoint'⟩ := hbc.rows y hy
    exact ⟨z, hz, key'.trans key, checkpoint'.trans checkpoint⟩

instance : IsPreorder Object Extends where
  refl _ := .rfl
  trans _ _ _ := .trans

/-- An append leaves the state alone. -/
lemma extends_append {e e' : Engine} {input : Obj} {result : AppendResult}
    (ok : e.append input = .ok (e', result)) : e.toObject.Extends e'.toObject := by
  cases Engine.append_eq_ok ok with
  | inl same =>
    obtain ⟨-, rfl, -⟩ := same
    exact .rfl
  | inr pushed =>
    obtain ⟨-, seq, width, fresh, le, rfl⟩ := pushed
    exact { Extends.rfl (a := e.toObject) with entries := List.prefix_append _ _ }

/-- A commit keeps the nodes, the rows, and the checkpoint of an equal size. -/
lemma extends_commitCll {e e' : Engine} {expectedSize expectedCheckpoint next : Obj}
    (ok : e.commitCll expectedSize expectedCheckpoint next = .ok e') :
    e.toObject.Extends e'.toObject := by
  obtain ⟨state, applied, ok⟩ := bind_eq_ok.mp ok
  cases ok
  obtain ⟨n, added, -, -, older, merged, rfl⟩ := applyCll_eq_ok applied
  obtain ⟨_, grow, merged⟩ := bind_eq_ok.mp merged
  obtain ⟨_, checkpoint, -⟩ := bind_eq_ok.mp merged
  exact {
    entries := List.prefix_refl _
    nodes := older
    indexedSeq := require_eq_ok.mp grow
    checkpoint := checkCheckpoint_eq_ok checkpoint
    rows := fun row hrow => ⟨row, List.mem_append_left _ hrow, .refl _, .refl _⟩ }

/-- A witness commit replaces one row by another for the same checkpoint. -/
lemma extends_commitWitness {e e' : Engine} {expectedAttempts next : Obj}
    (ok : e.commitWitness expectedAttempts next = .ok e') : e.toObject.Extends e'.toObject := by
  obtain ⟨r, applied, ok⟩ := bind_eq_ok.mp ok
  cases ok
  obtain ⟨stored, attempts, -, -, at_, key, -, checkpoint⟩ := applyWitness_eq_ok applied
  refine { Extends.rfl (a := e.toObject) with rows := fun row hrow => ?_ }
  obtain ⟨i, hi⟩ := List.getElem?_of_mem hrow
  by_cases same : r.1.1 = i
  · subst same
    obtain rfl : stored = row := Option.some.inj (at_.symm.trans hi)
    obtain ⟨lt, -⟩ := List.getElem?_eq_some_iff.mp at_
    exact ⟨r.1.2, List.mem_set lt _, key.symm, checkpoint.symm⟩
  · refine ⟨row, ?_, .refl _, .refl _⟩
    apply List.mem_of_getElem? (i := i)
    show (e.state.witnesses.set r.1.1 r.1.2)[i]? = some row
    rw [List.getElem?_set_ne same]
    exact hi

/-- What one call does to the attributes of an engine. -/
lemma perform_toObject (e : Engine) (call : Call) :
    (∃ e' : Engine, e.toObject.perform call = (.ok (), e'.toObject) ∧
      e.toObject.Extends e'.toObject) ∨
    ∃ exc, e.toObject.perform call = (.error exc, e.toObject) := by
  cases call with
  | append input =>
    rw [perform, append_toObject]
    cases ok : e.append input with
    | ok result => exact Or.inl ⟨result.1, .refl _, extends_append ok⟩
    | error exc => exact Or.inr ⟨exc, .refl _⟩
  | commitCll expectedSize expectedCheckpoint next =>
    rw [perform, commitCll_toObject]
    cases ok : e.commitCll expectedSize expectedCheckpoint next with
    | ok e' => exact Or.inl ⟨e', .refl _, extends_commitCll ok⟩
    | error exc => exact Or.inr ⟨exc, .refl _⟩
  | commitWitness expectedAttempts next =>
    rw [perform, commitWitness_toObject]
    cases ok : e.commitWitness expectedAttempts next with
    | ok e' => exact Or.inl ⟨e', .refl _, extends_commitWitness ok⟩
    | error exc => exact Or.inr ⟨exc, .refl _⟩

/-- The attributes are those of an engine, which carries the rules of stored entries and states. -/
def IsEngine (o : Object) : Prop := ∃ e : Engine, o = e.toObject

/-- One call keeps an engine and extends it. -/
lemma isEngine_step {o : Object} (call : Call) (valid : o.IsEngine) :
    (o.step call).IsEngine ∧ o.Extends (o.step call) := by
  obtain ⟨e, rfl⟩ := valid
  unfold step
  cases perform_toObject e call with
  | inl returned =>
    obtain ⟨e', done, later⟩ := returned
    rw [done]
    exact ⟨⟨e', .refl _⟩, later⟩
  | inr raised =>
    obtain ⟨exc, done⟩ := raised
    rw [done]
    exact ⟨⟨e, .refl _⟩, .rfl⟩

/-- The transition invariant of the engine: along every run from an empty engine the state passes its own
check, its nodes are as many as the indexed entries need, what it has grows and keeps what was there, and
a call that raises changes no attribute. -/
theorem run_invariant (calls more : List Call) (call : Call) :
    let a := Run.run step init calls
    let b := Run.run step a more
    (∀ error, validateState error a.state.toObj = .ok a.state) ∧
    a.state.nodes.length = Core.nodeCount a.state.indexedSeq ∧
    (a.state.witnesses.map WitnessState.key).Nodup ∧
    a.Extends b ∧
    ∀ exc, (a.perform call).1 = .error exc → (a.perform call).2 = a := by
  intro a b
  have isEngine : a.IsEngine :=
    Run.invariant step (P := IsEngine) (fun _ call valid => (isEngine_step call valid).1)
      ⟨Engine.empty, .refl _⟩ calls
  have later : a.Extends b :=
    Run.monotone step (P := IsEngine) (fun _ call valid => (isEngine_step call valid).1)
      (fun _ call valid => (isEngine_step call valid).2) isEngine more
  have size : a.state.nodes.length = Core.nodeCount a.state.indexedSeq :=
    a.state.length_eq.trans (eq_nodeCount_of_mmrLeafCount a.state.leafCount_eq)
  refine ⟨fun error => validateState_toObj error a.state, size, a.state.nodup_keys, later, ?_⟩
  intro exc raised
  obtain ⟨e, same⟩ := isEngine
  rw [same] at raised ⊢
  cases perform_toObject e call with
  | inl returned =>
    obtain ⟨e', done, -⟩ := returned
    rw [done] at raised
    cases raised
  | inr unchanged =>
    obtain ⟨exc', done⟩ := unchanged
    rw [done]

end Object
end CLL.Log
