import CLL.Ts.Mmr
import CLL.Lib.Run

/-!
# Overlapping appends

`MmrTree.append` of `ts/src/mmr.ts` with the points at which it awaits. Between two of them a call runs
alone, so the calls on one tree form a transition system: a schedule lists which call is resumed next.
A call that has been started has done nothing to the tree before `await this.ready`.

`append` reads the length of the node list before it awaits a hash and uses it as a position afterwards.
A call that starts to read while another is still at work reads a length that the other has reserved, and
the position it records is then recorded twice or is that of a parent.
-/

namespace CLL.Ts
open PostOrder CLL.Core Run

/-- Where a call of `append` stands: before `await this.ready`, waiting for the hash of its leaf or of a
parent, or settled. -/
inductive Call where
  | ready (value : Bytes)
  | leaf (p : ℕ) (digest : Bytes)
  | parent (l p q : ℕ) (digest : Bytes)
  | resolved (size : ℕ)
  | rejected
deriving DecidableEq

/-- The calls on one tree. `ready` says whether `this.ready` resolves. -/
structure System where
  tree : MmrTree
  ready : Bool
  calls : List Call
deriving DecidableEq

variable (H : HashFunction)

/-- From the test of the `while` loop of `append` to the next `await` or the return. -/
def loopHead (t : MmrTree) (p : ℕ) : MmrTree × Call :=
  let done : MmrTree × Call := ({ t with peaks := t.peaks ++ [p] }, .resolved t.nodes.length)
  match t.peaks.getLast? with
  | none => done
  | some l =>
    if height t.metas l = height t.metas p then
      let q := t.nodes.length
      ({ t with peaks := t.peaks.dropLast },
        .parent l p q (nodeHash H q (t.nodes.getD l []) (t.nodes.getD p [])))
    else done

/-- What `append` does when the promise it awaits settles, up to its next `await`. -/
def resume (ready : Bool) (t : MmrTree) : Call → MmrTree × Call
  | .ready value =>
    if ready ∧ value.length = 32 then (t, .leaf t.nodes.length (H.digest (0 :: value)))
    else (t, .rejected)
  | .leaf p digest =>
    loopHead H { t with
      nodes := t.nodes ++ [digest]
      metas := pushLeaf t.metas
      leafPositions := t.leafPositions ++ [p] } p
  | .parent l p q digest =>
    loopHead H { t with
      nodes := t.nodes ++ [digest]
      metas := pushParent t.metas l p q } q
  | .resolved size => (t, .resolved size)
  | .rejected => (t, .rejected)

/-- Call `i` is resumed. -/
def step (s : System) (i : ℕ) : System :=
  match s.calls[i]? with
  | none => s
  | some call =>
    let (tree, call) := resume H s.ready s.tree call
    { s with tree := tree, calls := s.calls.set i call }

/-- `append` has been called for each of the values on a new tree over the nodes. -/
def start (nodes : List Bytes) (values : List Bytes) : Option System :=
  (MmrTree.new nodes).map fun tree => ⟨tree, tree.validate H, values.map .ready⟩

def Call.isSettled : Call → Bool
  | .resolved _ => true
  | .rejected => true
  | _ => false

/-- The call has passed `await this.ready` and has not settled. -/
def Call.isAtWork : Call → Bool
  | .leaf _ _ => true
  | .parent _ _ _ _ => true
  | _ => false

def System.Settled (s : System) : Prop := ∀ call ∈ s.calls, call.isSettled = true

/-- The values in order of the calls. -/
def leafHashes (values : List Bytes) (order : List ℕ) : List Bytes :=
  order.map fun i => H.digest (0 :: values.getD i [])

/-- The calls have taken effect one after another: in some order of the calls with a 32-byte value the
tree is the MMR of the leaves before and the values, and each call has resolved with the complete size at
which its value is the last leaf. -/
def Serialized (leaves values : List Bytes) (s : System) : Prop :=
  ∃ order : List ℕ, order.Nodup ∧
    (∀ i, i ∈ order ↔ ∃ value : Bytes, values[i]? = some value ∧ value.length = 32) ∧
    s.tree.Holds H (leaves ++ leafHashes H values order) ∧
    (∀ (k i : ℕ), order[k]? = some i →
      s.calls[i]? = some (.resolved (nodeCount (leaves.length + k + 1)))) ∧
    ∀ (i : ℕ) (value : Bytes), values[i]? = some value → value.length ≠ 32 →
      s.calls[i]? = some .rejected

/-- The next step does not start an append while another is at work. -/
def Alone (s : System) (i : ℕ) : Prop :=
  ∀ value, s.calls[i]? = some (.ready value) → value.length = 32 →
    ∀ call ∈ s.calls, call.isAtWork = false

variable {H}

/-- The nodes present are those of the MMR of the leaves. -/
def Filled (leaves nodes : List Bytes) : Prop :=
  ∀ h k, Complete leaves.length h k → root h k < nodes.length →
    nodes[root h k]? = some (treeHash H leaves h k)

/-- A leaf has been pushed after the leaves and has carried `j` times. -/
structure Head (leaves : List Bytes) (leaf : Bytes) (j steps : ℕ) (t : MmrTree) : Prop where
  round : Round leaves.length j steps t.metas t.peaks.reverse
  length_eq : t.nodes.length = forestSize leaves.length + 1 + j
  filled : Filled (H := H) (leaves ++ [leaf]) t.nodes
  leaves_eq : t.leafPositions = (shape (leaves.length + 1)).leaves
  rest : carry t.peaks.reverse t.metas (forestSize leaves.length + j) =
    ((shape (leaves.length + 1)).metas, (shape (leaves.length + 1)).peaks.reverse)

/-- A call that alone is at work on the tree of the leaves appends the leaf. -/
inductive Pending (leaves : List Bytes) (leaf : Bytes) (t : MmrTree) : Call → Prop
  | leaf : t.Holds H leaves → Pending leaves leaf t (.leaf t.nodes.length leaf)
  | parent {l j steps : ℕ} : l = root j (mountain leaves.length j) →
      leaves.length.testBit j = true →
      Head (H := H) leaves leaf j steps { t with peaks := t.peaks ++ [l] } →
      Pending leaves leaf t (.parent l (forestSize leaves.length + j) t.nodes.length
        (treeHash H (leaves ++ [leaf]) (j + 1) (leaves.length / 2 ^ (j + 1))))

/-- The node list grows by the next block that the leaf completes. -/
lemma Filled.push {leaves nodes : List Bytes} {leaf : Bytes} {j : ℕ}
    (filled : Filled (H := H) (leaves ++ [leaf]) nodes) (c : Carries leaves.length j)
    (length_eq : nodes.length = forestSize leaves.length + j) :
    Filled (H := H) (leaves ++ [leaf])
      (nodes ++ [treeHash H (leaves ++ [leaf]) j (leaves.length / 2 ^ j)]) := by
  intro h k complete lt
  rw [List.length_append, List.length_singleton] at lt
  by_cases old : root h k < nodes.length
  · rw [List.getElem?_append_left old, filled h k complete old]
  · have e : root h k = root j (leaves.length / 2 ^ j) := by
      rw [c.root_eq]
      omega
    obtain ⟨rfl, rfl⟩ := root_injective e
    rw [e, c.root_eq, ← length_eq, List.getElem?_concat_length]

/-- The hash of a parent that the carrying leaf makes. -/
lemma treeHash_carry {leaves : List Bytes} {leaf : Bytes} {j : ℕ} (b : leaves.length.testBit j = true) :
    treeHash H (leaves ++ [leaf]) (j + 1) (leaves.length / 2 ^ (j + 1)) =
      nodeHash H (root (j + 1) (leaves.length / 2 ^ (j + 1)))
        (treeHash H leaves j (mountain leaves.length j))
        (treeHash H (leaves ++ [leaf]) j (leaves.length / 2 ^ j)) := by
  rw [treeHash_succ, div_eq_of_testBit b, mountain]
  rw [← mountain, treeHash_append H _ (mountain_complete b)]

/-- At the head of its loop an append either goes on to the next parent or is done. -/
lemma Head.loopHead {leaves : List Bytes} {leaf : Bytes} {j steps : ℕ} {t : MmrTree}
    (head : Head (H := H) leaves leaf j steps t) :
    Pending (H := H) leaves leaf (loopHead H t (forestSize leaves.length + j)).1
        (loopHead H t (forestSize leaves.length + j)).2 ∨
      (Ts.loopHead H t (forestSize leaves.length + j)).1.Holds H (leaves ++ [leaf]) ∧
        (Ts.loopHead H t (forestSize leaves.length + j)).2 =
          .resolved (nodeCount (leaves.length + 1)) := by
  have total : (leaves ++ [leaf]).length = leaves.length + 1 := by simp
  have c := head.round.carries
  have length_eq := head.length_eq
  cases b : leaves.length.testBit j with
  -- The last peak is as high: it becomes the left child of a new parent.
  | true =>
    left
    obtain ⟨l, _, rest, l_eq, peaks_eq, same, _⟩ := head.round.merge b 0
    have peaks_eq : t.peaks = rest.reverse ++ [l] := by
      rw [← List.reverse_reverse t.peaks, peaks_eq, List.reverse_cons]
    have left_node : t.nodes.getD l [] = treeHash H leaves j (mountain leaves.length j) := by
      have lt : root j (mountain leaves.length j) < forestSize leaves.length :=
        (mountain_complete b).root_lt
      rw [List.getD_eq_getElem?_getD, l_eq, head.filled _ _ (by
        rw [total]
        exact (mountain_complete b).mono (by omega)) (by omega), treeHash_append H _ (mountain_complete b)]
      rfl
    have right_node : t.nodes.getD (forestSize leaves.length + j) [] =
        treeHash H (leaves ++ [leaf]) j (leaves.length / 2 ^ j) := by
      rw [List.getD_eq_getElem?_getD, ← c.root_eq, head.filled _ _ (by
        rw [total]
        exact c.complete) (by rw [c.root_eq]; omega)]
      rfl
    have q_eq : t.nodes.length = root (j + 1) (leaves.length / 2 ^ (j + 1)) := by
      rw [(c.succ b).root_eq]
      omega
    have whole : ({ t with peaks := t.peaks.dropLast ++ [l] } : MmrTree) = t := by
      rw [peaks_eq, List.dropLast_concat, ← peaks_eq]
    have eq : Ts.loopHead H t (forestSize leaves.length + j) =
        ({ t with peaks := t.peaks.dropLast }, .parent l (forestSize leaves.length + j) t.nodes.length
          (treeHash H (leaves ++ [leaf]) (j + 1) (leaves.length / 2 ^ (j + 1)))) := by
      have last : t.peaks.getLast? = some l := by rw [peaks_eq, List.getLast?_concat]
      simp only [Ts.loopHead, last]
      rw [if_pos same, left_node, right_node, q_eq, treeHash_carry b]
    rw [eq]
    exact .parent l_eq b (whole.symm ▸ head)
  -- No peak is as high: the node becomes a peak, and the call is done.
  | false =>
    right
    obtain ⟨ne, laid, peaks_eq⟩ := head.round.stop b
    have rest := head.rest
    have eq : Ts.loopHead H t (forestSize leaves.length + j) =
        ({ t with peaks := t.peaks ++ [forestSize leaves.length + j] }, .resolved t.nodes.length) ∧
        carry t.peaks.reverse t.metas (forestSize leaves.length + j) =
          (t.metas, (forestSize leaves.length + j) :: t.peaks.reverse) := by
      cases reversed : t.peaks.reverse with
      | nil =>
        have empty : t.peaks = [] := List.reverse_eq_nil_iff.mp reversed
        simp [Ts.loopHead, carry, empty]
      | cons l rest =>
        have last : t.peaks.getLast? = some l := by
          rw [← List.head?_reverse, reversed, List.head?_cons]
        have ne := ne l (by simp [reversed])
        simp only [Ts.loopHead, last, carry]
        rw [if_neg ne, if_neg ne]
        exact ⟨rfl, rfl⟩
    rw [eq.2] at rest
    have size := c.forestSize_succ b
    have metas_eq : t.metas = (shape (leaves.length + 1)).metas := congrArg Prod.fst rest
    have reversed : (forestSize leaves.length + j) :: t.peaks.reverse =
        (shape (leaves.length + 1)).peaks.reverse := congrArg Prod.snd rest
    have peaks_eq : t.peaks ++ [forestSize leaves.length + j] = (shape (leaves.length + 1)).peaks := by
      rw [← List.reverse_reverse (shape (leaves.length + 1)).peaks, ← reversed, List.reverse_cons,
        List.reverse_reverse]
    rw [eq.1]
    refine ⟨⟨⟨?_, ?_⟩, ?_⟩, ?_⟩
    · rw [total, nodeCount_eq]
      dsimp only
      omega
    · intro h k complete
      have lt : root h k < forestSize (leaves ++ [leaf]).length := complete.root_lt
      rw [total] at lt
      exact head.filled h k complete (by omega)
    · rw [total, MmrTree.ofShape, ← metas_eq, ← peaks_eq, ← head.leaves_eq]
    · dsimp only
      rw [nodeCount_eq, length_eq, size, Nat.add_right_comm]

/-- An append that is alone at work goes on, or is done and has appended its leaf. -/
lemma Pending.resume {leaves : List Bytes} {leaf : Bytes} {t : MmrTree} {call : Call}
    (pending : Pending (H := H) leaves leaf t call) (ready : Bool) :
    Pending (H := H) leaves leaf (resume H ready t call).1 (resume H ready t call).2 ∨
      (Ts.resume H ready t call).1.Holds H (leaves ++ [leaf]) ∧
        (Ts.resume H ready t call).2 = .resolved (nodeCount (leaves.length + 1)) := by
  have total : (leaves ++ [leaf]).length = leaves.length + 1 := by simp
  cases pending with
  -- The leaf is pushed, and the loop begins at its height.
  | leaf holds =>
    obtain ⟨mmr, eq⟩ := holds
    obtain ⟨laid, peaks_eq, leaves_eq⟩ := shape_spec leaves.length
    have metas_eq : t.metas = (shape leaves.length).metas := congrArg MmrTree.metas eq
    have peaks_eq' : t.peaks = (shape leaves.length).peaks := congrArg MmrTree.peaks eq
    have leaves_eq' : t.leafPositions = (shape leaves.length).leaves :=
      congrArg MmrTree.leafPositions eq
    have length_eq : t.nodes.length = forestSize leaves.length := mmr.length_eq
    have metas_length : (shape leaves.length).metas.length = forestSize leaves.length := laid.length_eq
    have hash : treeHash H (leaves ++ [leaf]) 0 (leaves.length / 2 ^ 0) = leaf := by
      rw [pow_zero, Nat.div_one, treeHash_zero H (by simp)]
      simp
    have old : Filled (H := H) (leaves ++ [leaf]) t.nodes := by
      intro h k complete lt
      have c : Complete leaves.length h k := complete_of_root_lt (length_eq ▸ lt)
      rw [mmr.node_eq h k c, treeHash_append H _ c]
    have head : Head (H := H) leaves leaf 0 leaves.length.size { t with
        nodes := t.nodes ++ [leaf]
        metas := pushLeaf t.metas
        leafPositions := t.leafPositions ++ [t.nodes.length] } := by
      constructor
      · dsimp only
        rw [metas_eq, peaks_eq', peaks_eq]
        exact Round.init laid
      · dsimp only
        rw [List.length_append, length_eq, List.length_singleton]
      · have grown := old.push (carries_zero _) (by rw [length_eq]; rfl)
        rwa [hash] at grown
      · dsimp only [shape]
        rw [leaves_eq', length_eq, metas_length]
      · dsimp only [shape]
        rw [metas_eq, peaks_eq', metas_length, Nat.add_zero, List.reverse_reverse]
    have next := head.loopHead
    rw [Nat.add_zero, ← length_eq] at next
    exact next
  -- The parent is pushed, and the loop goes on one height up.
  | @parent l j steps l_eq b head =>
    have c := head.round.carries
    have length_eq : t.nodes.length = forestSize leaves.length + 1 + j := head.length_eq
    obtain ⟨l', steps', rest, l_eq', peaks_eq, same, next⟩ := head.round.merge b t.nodes.length
    have peaks_eq : l = l' ∧ t.peaks.reverse = rest := by
      simpa using peaks_eq
    obtain ⟨rfl, rfl⟩ := peaks_eq
    have metas_length : t.metas.length = t.nodes.length := by
      rw [length_eq]
      exact head.round.laid.length_eq
    have q_eq : t.nodes.length = forestSize leaves.length + (j + 1) := by omega
    have head' : Head (H := H) leaves leaf (j + 1) steps' { t with
        nodes := t.nodes ++ [treeHash H (leaves ++ [leaf]) (j + 1) (leaves.length / 2 ^ (j + 1))]
        metas := pushParent t.metas l (forestSize leaves.length + j) t.nodes.length } := by
      refine ⟨next, ?_, ?_, head.leaves_eq, ?_⟩
      · dsimp only
        rw [List.length_append, List.length_singleton]
        omega
      · exact Filled.push (j := j + 1) head.filled (c.succ b) q_eq
      · have rest := head.rest
        have reversed : (t.peaks ++ [l]).reverse = l :: t.peaks.reverse := by simp
        dsimp only at rest same
        rw [reversed, carry, if_pos same, metas_length] at rest
        rwa [← q_eq]
    have next := head'.loopHead
    rw [← q_eq] at next
    exact next

/-- Call `i` has not passed `await this.ready`, or was rejected there. -/
def Waiting (value : Bytes) (call : Call) : Prop :=
  call = .ready value ∨ call = .rejected ∧ value.length ≠ 32

/-- The calls in `order` have appended their values; `busy` is the call at work, if any. -/
structure Progress (leaves values : List Bytes) (order : List ℕ) (busy : Option ℕ) (s : System) :
    Prop where
  ready : s.ready = true
  length_eq : s.calls.length = values.length
  nodup : order.Nodup
  accepted : ∀ i, i ∈ order ∨ busy = some i → (values.getD i []).length = 32
  resolved : ∀ (k i : ℕ), order[k]? = some i →
    s.calls[i]? = some (.resolved (nodeCount (leaves.length + k + 1)))
  waiting : ∀ i < values.length, i ∉ order → busy ≠ some i →
    ∃ call, s.calls[i]? = some call ∧ Waiting (values.getD i []) call
  idle : busy = none → s.tree.Holds H (leaves ++ leafHashes H values order)
  work : ∀ i, busy = some i → i ∉ order ∧ ∃ call, s.calls[i]? = some call ∧
    Pending (H := H) (leaves ++ leafHashes H values order) (H.digest (0 :: values.getD i [])) s.tree call

/-- A pending call is at work. -/
lemma Pending.isAtWork {leaves : List Bytes} {leaf : Bytes} {t : MmrTree} {call : Call}
    (pending : Pending (H := H) leaves leaf t call) : call.isAtWork = true := by
  cases pending <;> rfl

/-- One step resumes its call. -/
lemma step_of_getElem? {s : System} {i : ℕ} {call : Call} (hc : s.calls[i]? = some call) :
    step H s i = { s with
      tree := (resume H s.ready s.tree call).1
      calls := s.calls.set i (resume H s.ready s.tree call).2 } := by
  rw [step, hc]

/-- A call that has settled is not changed any more. -/
lemma step_of_settled {s : System} {i : ℕ} {call : Call} (hc : s.calls[i]? = some call)
    (settled : call.isSettled = true) : step H s i = s := by
  have same : resume H s.ready s.tree call = (s.tree, call) := by
    cases call with
    | resolved size => rfl
    | rejected => rfl
    | ready value => cases settled
    | leaf p digest => cases settled
    | parent l p q digest => cases settled
  obtain ⟨lt, rfl⟩ := List.getElem?_eq_some_iff.mp hc
  rw [step_of_getElem? hc, same, List.set_getElem_self]

/-- The call at work is resumed. -/
lemma Progress.step_work {leaves values : List Bytes} {order : List ℕ} {s : System} {i : ℕ}
    (inv : Progress (H := H) leaves values order (some i) s) :
    ∃ order' busy', Progress (H := H) leaves values order' busy' (step H s i) := by
  obtain ⟨fresh, call, hc, pending⟩ := inv.work i rfl
  have lt : i < s.calls.length := (List.getElem?_eq_some_iff.mp hc).1
  have others : ∀ k ≠ i, ∀ call', (s.calls.set i call')[k]? = s.calls[k]? := fun k ne call' =>
    List.getElem?_set_ne (Ne.symm ne)
  rw [step_of_getElem? hc]
  cases pending.resume s.ready with
  | inl pending =>
    refine ⟨order, some i, inv.ready, by simp [inv.length_eq], inv.nodup, inv.accepted,
      fun k k' hk => ?_, fun k hk out ne => ?_, fun none => (by cases none), fun k hk => ?_⟩
    · have ne : k' ≠ i := fun e => fresh (e ▸ List.mem_of_getElem? hk)
      dsimp only
      rw [others k' ne]
      exact inv.resolved k k' hk
    · have ne' : k ≠ i := fun e => ne (e ▸ rfl)
      dsimp only
      rw [others k ne']
      exact inv.waiting k hk out ne
    · cases hk
      exact ⟨fresh, _, List.getElem?_set_self lt, pending⟩
  | inr done =>
    obtain ⟨holds, resolved⟩ := done
    have total : (leaves ++ leafHashes H values order).length = leaves.length + order.length := by
      simp [leafHashes]
    refine ⟨order ++ [i], none, inv.ready, by simp [inv.length_eq], ?_, fun k hk => ?_,
      fun k k' hk => ?_, fun k hk out _ => ?_, fun _ => ?_, fun k hk => (by cases hk)⟩
    · exact List.nodup_append.mpr ⟨inv.nodup, List.nodup_singleton i, fun a ha b hb e =>
        fresh (by rw [← List.mem_singleton.mp hb, ← e]; exact ha)⟩
    · rcases hk with hk | hk
      · cases List.mem_append.mp hk with
        | inl hk => exact inv.accepted k (.inl hk)
        | inr hk =>
          rw [List.mem_singleton.mp hk]
          exact inv.accepted i (.inr rfl)
      · cases hk
    · dsimp only
      by_cases old : k < order.length
      · rw [List.getElem?_append_left old] at hk
        have ne : k' ≠ i := fun e => fresh (e ▸ List.mem_of_getElem? hk)
        rw [others k' ne]
        exact inv.resolved k k' hk
      · rw [List.getElem?_append_right (by omega), List.getElem?_singleton] at hk
        split at hk
        · cases hk
          have e : k = order.length := by omega
          rw [List.getElem?_set_self lt, resolved, total, e]
        · cases hk
    · have out' : k ∉ order ∧ k ≠ i := by simpa using out
      dsimp only
      rw [others k out'.2]
      exact inv.waiting k hk out'.1 fun e => out'.2 (Option.some.inj e).symm
    · rw [leafHashes, List.map_append, List.map_singleton, ← List.append_assoc]
      exact holds

/-- A call that waits is rejected, or starts to work when no other call is at work. -/
lemma Progress.step_waiting {leaves values : List Bytes} {order : List ℕ} {busy : Option ℕ}
    {s : System} (inv : Progress (H := H) leaves values order busy s) {i : ℕ} (alone : Alone s i)
    (lt : i < values.length) (fresh : i ∉ order) (idle : busy ≠ some i) :
    ∃ order' busy', Progress (H := H) leaves values order' busy' (step H s i) := by
  obtain ⟨call, hc, waiting⟩ := inv.waiting i lt fresh idle
  have lt' : i < s.calls.length := inv.length_eq.symm ▸ lt
  have others : ∀ k ≠ i, ∀ call', (s.calls.set i call')[k]? = s.calls[k]? := fun k ne call' =>
    List.getElem?_set_ne (Ne.symm ne)
  have order_ne : ∀ (k k' : ℕ), order[k]? = some k' → k' ≠ i := fun k k' hk e =>
    fresh (e ▸ List.mem_of_getElem? hk)
  rcases waiting with rfl | ⟨rfl, _⟩
  · by_cases len : (values.getD i []).length = 32
    · -- the condition says that the tree is between two appends
      have busy_none : busy = none := by
        cases busy with
        | none => rfl
        | some k =>
          obtain ⟨_, call, hk, pending⟩ := inv.work k rfl
          have idle := alone _ hc len call (List.mem_of_getElem? hk)
          rw [pending.isAtWork] at idle
          cases idle
      subst busy_none
      have eq : resume H s.ready s.tree (.ready (values.getD i [])) =
          (s.tree, .leaf s.tree.nodes.length (H.digest (0 :: values.getD i []))) := by
        rw [resume, if_pos ⟨inv.ready, len⟩]
      rw [step_of_getElem? hc, eq]
      refine ⟨order, some i, inv.ready, by simp [inv.length_eq], inv.nodup, fun k hk => ?_,
        fun k k' hk => ?_, fun k hk out ne => ?_, fun none => (by cases none), fun k hk => ?_⟩
      · rcases hk with hk | hk
        · exact inv.accepted k (.inl hk)
        · cases hk
          exact len
      · dsimp only
        rw [others k' (order_ne k k' hk)]
        exact inv.resolved k k' hk
      · have ne' : k ≠ i := fun e => ne (e ▸ rfl)
        dsimp only
        rw [others k ne']
        exact inv.waiting k hk out (by simp)
      · cases hk
        exact ⟨fresh, _, List.getElem?_set_self lt', .leaf (inv.idle rfl)⟩
    · have eq : resume H s.ready s.tree (.ready (values.getD i [])) = (s.tree, .rejected) := by
        rw [resume, if_neg fun h => len h.2]
      rw [step_of_getElem? hc, eq]
      refine ⟨order, busy, inv.ready, by simp [inv.length_eq], inv.nodup, inv.accepted,
        fun k k' hk => ?_, fun k hk out ne => ?_, inv.idle, fun k hk => ?_⟩
      · dsimp only
        rw [others k' (order_ne k k' hk)]
        exact inv.resolved k k' hk
      · dsimp only
        by_cases e : k = i
        · subst e
          exact ⟨.rejected, List.getElem?_set_self lt', .inr ⟨rfl, len⟩⟩
        · rw [others k e]
          exact inv.waiting k hk out ne
      · have ne : k ≠ i := fun e => idle (e ▸ hk)
        obtain ⟨out, call, hk', pending⟩ := inv.work k hk
        exact ⟨out, call, (others k ne _).trans hk', pending⟩
  · rw [step_of_settled hc rfl]
    exact ⟨order, busy, inv⟩

/-- A step that meets the condition keeps the calls in order. -/
lemma Progress.step {leaves values : List Bytes} {order : List ℕ} {busy : Option ℕ} {s : System}
    (inv : Progress (H := H) leaves values order busy s) {i : ℕ} (alone : Alone s i) :
    ∃ order' busy', Progress (H := H) leaves values order' busy' (step H s i) := by
  by_cases lt : i < values.length
  · by_cases done : i ∈ order
    · obtain ⟨k, hk⟩ := List.mem_iff_getElem?.mp done
      rw [step_of_settled (inv.resolved k i hk) rfl]
      exact ⟨order, busy, inv⟩
    · by_cases work : busy = some i
      · subst work
        exact inv.step_work
      · exact inv.step_waiting alone lt done work
  · have none : s.calls[i]? = none := List.getElem?_eq_none (by rw [inv.length_eq]; omega)
    have same : Ts.step H s i = s := by rw [Ts.step, none]
    rw [same]
    exact ⟨order, busy, inv⟩

/-- A run in which no append starts while another is at work keeps the calls in order. -/
lemma Progress.run {leaves values : List Bytes} {s : System}
    (inv : Progress (H := H) leaves values [] none s) {schedule : List ℕ}
    (along : Along (Ts.step H) Alone s schedule) :
    ∃ order busy, Progress (H := H) leaves values order busy (run (Ts.step H) s schedule) :=
  along.invariant (I := fun s => ∃ order busy, Progress (H := H) leaves values order busy s)
    (fun _ _ ⟨_, _, inv⟩ alone => inv.step alone) ⟨[], none, inv⟩

/-- A run begins with no call settled. -/
lemma Progress.init {nodes leaves values : List Bytes} {s : System} (start : start H nodes values = some s)
    (ready : s.ready = true) (holds : s.tree.Holds H leaves) :
    Progress (H := H) leaves values [] none s := by
  obtain ⟨tree, new, rfl⟩ := Option.map_eq_some_iff.mp start
  refine ⟨ready, by simp, List.nodup_nil, ?_, ?_, ?_, ?_, ?_⟩
  · simp
  · simp
  · intro i lt _ _
    exact ⟨.ready values[i], by simp [lt], .inl (by simp [lt])⟩
  · intro _
    simpa [leafHashes] using holds
  · simp

/-- Once all calls have settled, keeping the calls in order is the property. -/
lemma Progress.serialized {leaves values : List Bytes} {order : List ℕ} {busy : Option ℕ} {s : System}
    (inv : Progress (H := H) leaves values order busy s) (settled : s.Settled) :
    Serialized H leaves values s := by
  have idle : busy = none := by
    cases busy with
    | none => rfl
    | some i =>
      obtain ⟨_, call, hc, pending⟩ := inv.work i rfl
      have done := settled call (List.mem_of_getElem? hc)
      cases pending <;> cases done
  subst idle
  have rejected : ∀ i < values.length, i ∉ order →
      s.calls[i]? = some .rejected ∧ (values.getD i []).length ≠ 32 := by
    intro i lt out
    obtain ⟨call, hc, waiting⟩ := inv.waiting i lt out (by simp)
    rcases waiting with rfl | ⟨rfl, len⟩
    · cases settled _ (List.mem_of_getElem? hc)
    · exact ⟨hc, len⟩
  refine ⟨order, inv.nodup, fun i => ⟨fun hi => ?_, fun ⟨value, hv, len⟩ => ?_⟩, inv.idle rfl,
    inv.resolved, fun i value hv len => ?_⟩
  · obtain ⟨k, hk⟩ := List.mem_iff_getElem?.mp hi
    have lt : i < values.length := by
      rw [← inv.length_eq]
      exact (List.getElem?_eq_some_iff.mp (inv.resolved k i hk)).1
    have len := inv.accepted i (.inl hi)
    rw [List.getD_eq_getElem _ _ lt] at len
    exact ⟨values[i], List.getElem?_eq_getElem lt, len⟩
  · obtain ⟨lt, rfl⟩ := List.getElem?_eq_some_iff.mp hv
    by_contra out
    have long := (rejected i lt out).2
    rw [List.getD_eq_getElem _ _ lt] at long
    exact long len
  · obtain ⟨lt, rfl⟩ := List.getElem?_eq_some_iff.mp hv
    have out : i ∉ order := by
      intro hi
      have long := inv.accepted i (.inl hi)
      rw [List.getD_eq_getElem _ _ lt] at long
      exact len long
    exact (rejected i lt out).1

/-- The leaf position that a call has read and not yet recorded. -/
def Call.leafPosition : Call → Option ℕ
  | .leaf p _ => some p
  | _ => none

/-- How often a position is recorded for a leaf, or is going to be. -/
def recorded (s : System) (p : ℕ) : ℕ :=
  s.tree.leafPositions.count p + (s.calls.filterMap Call.leafPosition).count p

/-- The head of the loop records no position. -/
lemma loopHead_leafPositions (t : MmrTree) (p : ℕ) :
    (loopHead H t p).1.leafPositions = t.leafPositions ∧ (loopHead H t p).2.leafPosition = none := by
  unfold loopHead
  split
  · exact ⟨rfl, rfl⟩
  · split
    · exact ⟨rfl, rfl⟩
    · exact ⟨rfl, rfl⟩

/-- No step takes a recorded position back. -/
lemma recorded_resume (ready : Bool) (t : MmrTree) (call : Call) (p : ℕ) :
    t.leafPositions.count p + call.leafPosition.toList.count p ≤
      (resume H ready t call).1.leafPositions.count p +
        (resume H ready t call).2.leafPosition.toList.count p := by
  cases call with
  | ready value =>
    rw [resume]
    split
    · simp [Call.leafPosition]
    · simp [Call.leafPosition]
  | leaf q digest =>
    obtain ⟨e, e'⟩ := loopHead_leafPositions (H := H) { t with
      nodes := t.nodes ++ [digest]
      metas := pushLeaf t.metas
      leafPositions := t.leafPositions ++ [q] } q
    rw [resume, e, e', List.count_append]
    simp [Call.leafPosition]
  | parent l q q' digest =>
    obtain ⟨e, e'⟩ := loopHead_leafPositions (H := H) { t with
      nodes := t.nodes ++ [digest]
      metas := pushParent t.metas l q q' } q'
    rw [resume, e, e']
    simp [Call.leafPosition]
  | resolved size => rfl
  | rejected => rfl

/-- The recorded positions are those of the calls around and of the call. -/
lemma count_filterMap_split {calls : List Call} {i : ℕ} (lt : i < calls.length) (call : Call) (p : ℕ) :
    ((calls.set i call).filterMap Call.leafPosition).count p =
      ((calls.take i).filterMap Call.leafPosition).count p + call.leafPosition.toList.count p +
        ((calls.drop (i + 1)).filterMap Call.leafPosition).count p := by
  rw [List.set_eq_take_append_cons_drop, if_pos lt, List.filterMap_append, List.count_append,
    List.filterMap_cons]
  cases call.leafPosition with
  | none => simp
  | some q =>
    rw [List.count_cons]
    simp [List.count_singleton]
    omega

/-- No step of a run takes a recorded position back. -/
lemma recorded_step (s : System) (i p : ℕ) : recorded s p ≤ recorded (step H s i) p := by
  cases hc : s.calls[i]? with
  | none => rw [step, hc]
  | some call =>
    obtain ⟨lt, e⟩ := List.getElem?_eq_some_iff.mp hc
    have before := count_filterMap_split lt call p
    rw [← e, List.set_getElem_self] at before
    have after := count_filterMap_split lt (resume H s.ready s.tree call).2 p
    have grows := recorded_resume (H := H) s.ready s.tree call p
    rw [step_of_getElem? hc, recorded, recorded]
    dsimp only
    rw [after, before, e]
    omega

/-- Recorded positions stay recorded. -/
lemma recorded_run (s : System) (schedule : List ℕ) (p : ℕ) :
    recorded s p ≤ recorded (run (step H) s schedule) p := by
  induction schedule generalizing s with
  | nil => exact le_rfl
  | cons i schedule ih => exact (recorded_step s i p).trans (ih (step H s i))

/-- Two calls that have read one position record it twice. -/
lemma two_le_recorded {s : System} {i k : ℕ} {p : ℕ} (ne : k ≠ i) {call call' : Call}
    (hi : s.calls[i]? = some call) (hk : s.calls[k]? = some call')
    (reads : call.leafPosition = some p) (reads' : call'.leafPosition = some p) : 2 ≤ recorded s p := by
  obtain ⟨lt, e⟩ := List.getElem?_eq_some_iff.mp hi
  have split := count_filterMap_split lt call p
  rw [← e, List.set_getElem_self, e, reads] at split
  have mem : ∀ calls : List Call, call' ∈ calls →
      1 ≤ (calls.filterMap Call.leafPosition).count p := fun calls h =>
    List.one_le_count_iff.mpr (List.mem_filterMap.mpr ⟨call', h, reads'⟩)
  have other : 1 ≤ ((s.calls.take i).filterMap Call.leafPosition).count p +
      ((s.calls.drop (i + 1)).filterMap Call.leafPosition).count p := by
    rcases Nat.lt_or_gt_of_ne ne with before | after
    · have h := mem (s.calls.take i) (List.mem_of_getElem? (i := k) (by
        rwa [List.getElem?_take_of_lt before]))
      omega
    · have h := mem (s.calls.drop (i + 1)) (List.mem_of_getElem? (i := k - (i + 1)) (by
        rwa [List.getElem?_drop, show i + 1 + (k - (i + 1)) = k by omega]))
      omega
  rw [recorded, split]
  simp
  omega

/-- The positions recorded in an MMR are those of its leaves, each once. -/
lemma MmrTree.Holds.count_le {leaves : List Bytes} {t : MmrTree} (holds : t.Holds H leaves) (p : ℕ) :
    t.leafPositions.count p ≤ 1 ∧ ∀ h k, p = root (h + 1) k → t.leafPositions.count p = 0 := by
  have eq : t.leafPositions = (List.range leaves.length).map forestSize := by
    rw [holds.2]
    exact (shape_spec _).2.2
  rw [eq]
  constructor
  · exact List.nodup_iff_count_le_one.mp (List.nodup_range.map forestSize_injective) p
  · rintro h k rfl
    apply List.count_eq_zero_of_not_mem
    intro mem
    obtain ⟨i, _, e⟩ := List.mem_map.mp mem
    have leaf : root 0 i = forestSize i := by simp [root]
    have same := (root_injective (leaf.trans e)).1
    omega

/-- An append that starts while another is at work spoils what is recorded. -/
lemma Progress.overlap {leaves values : List Bytes} {order : List ℕ} {busy : Option ℕ} {s : System}
    (inv : Progress (H := H) leaves values order busy s) {i : ℕ} (overlap : ¬ Alone s i) :
    2 ≤ recorded (Ts.step H s i) s.tree.nodes.length ∨
      1 ≤ recorded (Ts.step H s i) s.tree.nodes.length ∧
        ∃ h k, s.tree.nodes.length = root (h + 1) k := by
  simp only [Alone, not_forall, Bool.not_eq_false] at overlap
  obtain ⟨value, hi, len, call, mem, work⟩ := overlap
  obtain ⟨k, hk⟩ := List.mem_iff_getElem?.mp mem
  have lt : i < s.calls.length := (List.getElem?_eq_some_iff.mp hi).1
  have ne : k ≠ i := by
    rintro rfl
    rw [hk] at hi
    cases hi
    cases work
  -- The call at work is the one that the invariant knows.
  have busy_eq : busy = some k := by
    by_contra idle
    by_cases done : k ∈ order
    · obtain ⟨m, hm⟩ := List.mem_iff_getElem?.mp done
      have e := inv.resolved m k hm
      rw [hk] at e
      cases e
      cases work
    · have lt' : k < values.length := by
        rw [← inv.length_eq]
        exact (List.getElem?_eq_some_iff.mp hk).1
      obtain ⟨call', hc, waiting⟩ := inv.waiting k lt' done idle
      rw [hk] at hc
      cases hc
      rcases waiting with rfl | ⟨rfl, _⟩
      · cases work
      · cases work
  obtain ⟨_, call', hc, pending⟩ := inv.work k busy_eq
  rw [hk] at hc
  cases hc
  -- The second call reads the same length before the first one has pushed.
  have started : resume H s.ready s.tree (.ready value) =
      (s.tree, .leaf s.tree.nodes.length (H.digest (0 :: value))) := by
    rw [resume, if_pos ⟨inv.ready, len⟩]
  have stepped := step_of_getElem? (H := H) hi
  rw [started] at stepped
  have new_call : (Ts.step H s i).calls[i]? = some (.leaf s.tree.nodes.length (H.digest (0 :: value))) := by
    rw [stepped]
    exact List.getElem?_set_self lt
  have old_call : (Ts.step H s i).calls[k]? = some call := by
    rw [stepped]
    exact (List.getElem?_set_ne (Ne.symm ne)).trans hk
  cases pending with
  | leaf holds => exact .inl (two_le_recorded ne new_call old_call rfl rfl)
  | @parent l j steps l_eq b head =>
    have length_eq : s.tree.nodes.length = _ := head.length_eq
    refine .inr ⟨?_, j, (leaves ++ leafHashes H values order).length / 2 ^ (j + 1), ?_⟩
    · have new_mem : s.tree.nodes.length ∈ (Ts.step H s i).calls.filterMap Call.leafPosition :=
        List.mem_filterMap.mpr ⟨_, List.mem_of_getElem? new_call, rfl⟩
      have := List.one_le_count_iff.mpr new_mem
      rw [recorded]
      omega
    · rw [length_eq, (head.round.carries.succ b).root_eq, Nat.add_assoc, Nat.add_comm 1 j]

/-- After every call the recorded positions are those of the tree. -/
lemma recorded_of_settled {s : System} (settled : s.Settled) (p : ℕ) :
    recorded s p = s.tree.leafPositions.count p := by
  have none : s.calls.filterMap Call.leafPosition = [] := by
    apply List.filterMap_eq_nil_iff.mpr
    intro call hc
    have done := settled call hc
    cases call with
    | leaf p digest => cases done
    | ready value => rfl
    | parent l p q digest => rfl
    | resolved size => rfl
    | rejected => rfl
  simp [recorded, none]

/-- On a tree whose `ready` resolves, the appends of a run that has settled have taken effect one after
another exactly when none of them passed `await this.ready` while another was between there and its
return. -/
theorem append_serialized_iff {nodes values : List Bytes} {s : System}
    (started : start H nodes values = some s) (ready : s.ready = true) :
    ∃ leaves, (∀ l ∈ leaves, l.length = 32) ∧ s.tree.Holds H leaves ∧
      ∀ schedule, (run (step H) s schedule).Settled →
        (Serialized H leaves values (run (step H) s schedule) ↔ Along (step H) Alone s schedule) := by
  obtain ⟨leaves, len, holds⟩ : ∃ leaves, (∀ l ∈ leaves, l.length = 32) ∧ s.tree.Holds H leaves := by
    obtain ⟨tree, new, rfl⟩ := Option.map_eq_some_iff.mp started
    exact tree.exists_holds new ready
  have inv := Progress.init started ready holds
  refine ⟨leaves, len, holds, fun schedule settled => ⟨fun serialized => ?_, fun along => ?_⟩⟩
  · by_contra not_along
    obtain ⟨before, i, after, rfl, along, overlap⟩ := exists_first_of_not_along not_along
    obtain ⟨order, busy, inv⟩ := inv.run along
    obtain ⟨_, _, _, final, _⟩ := serialized
    obtain ⟨once, leaf⟩ := final.count_le (run (step H) s before).tree.nodes.length
    rw [← recorded_of_settled settled] at once leaf
    have grows := recorded_run (H := H) (step H (run (step H) s before) i) after
      (run (step H) s before).tree.nodes.length
    rw [run_append, run_cons] at once leaf
    rcases inv.overlap overlap with twice | ⟨reads, h, k, e⟩
    · omega
    · have := leaf h k e
      omega
  · obtain ⟨order, busy, inv⟩ := inv.run along
    exact inv.serialized settled

def sampleValues : List Bytes := [List.replicate 32 1, List.replicate 32 2]

/-- Both appends wait on a tree with no leaf yet. -/
def sampleSystem : System := ⟨⟨[], [], [], []⟩, true, sampleValues.map .ready⟩

/-- The sample system is started. -/
lemma sampleSystem_eq : start sha256Hash [] sampleValues = some sampleSystem := rfl

/-- The second append starts while the first awaits its leaf hash. -/
def overlapping : List ℕ := [0, 1, 0, 1, 1]

/-- The two appends have settled with two different complete sizes, but the first value is no leaf of the
tree under a parent: both calls have recorded position 0. -/
theorem append_overlapping :
    ∃ s, start sha256Hash [] sampleValues = some s ∧ s.ready = true ∧ s.tree.Holds sha256Hash [] ∧
      (run (step sha256Hash) s overlapping).Settled ∧
      ¬ Serialized sha256Hash [] sampleValues (run (step sha256Hash) s overlapping) := by
  refine ⟨sampleSystem, sampleSystem_eq, rfl, ⟨isMmr_nil _, rfl⟩, ?_, ?_⟩
  · have calls : (run (step sha256Hash) sampleSystem overlapping).calls =
        [.resolved 1, .resolved 3] := rfl
    simp [System.Settled, calls, Call.isSettled]
  · rintro ⟨_, _, _, holds, _⟩
    have once := (holds.count_le 0).1
    have positions : (run (step sha256Hash) sampleSystem overlapping).tree.leafPositions = [0, 0] := rfl
    rw [positions] at once
    revert once
    decide

/-- The second append starts after the first has returned. -/
def consecutive : List ℕ := [0, 0, 1, 1, 1]

/-- The consecutive schedule settles every call. -/
lemma consecutive_settled : (run (step sha256Hash) sampleSystem consecutive).Settled := by
  have calls : (run (step sha256Hash) sampleSystem consecutive).calls =
      [.resolved 1, .resolved 3] := rfl
  simp [System.Settled, calls, Call.isSettled]

/-- In the consecutive schedule every call works alone. -/
lemma consecutive_alone : Along (step sha256Hash) Alone sampleSystem consecutive := by
  have at_work : ∀ {s : System} {i : ℕ} {call : Call}, s.calls[i]? = some call →
      call.isAtWork = true → Alone s i := by
    intro s i call hc work value hv
    rw [hc] at hv
    cases hv
    cases work
  refine ⟨fun _ _ _ call hc => ?_, at_work rfl rfl, fun _ _ _ call hc => ?_, at_work rfl rfl,
    at_work rfl rfl, trivial⟩
  · have waiting : sampleSystem.calls.all (fun call => !call.isAtWork) = true := rfl
    simpa using List.all_eq_true.mp waiting call hc
  · have waiting : (run (step sha256Hash) sampleSystem [0, 0]).calls.all
        (fun call => !call.isAtWork) = true := rfl
    simpa using List.all_eq_true.mp waiting call hc

/-- The calls of the consecutive schedule are serialized. -/
theorem append_serialized_sample : ∃ leaves : List Bytes,
    Serialized sha256Hash leaves sampleValues (run (step sha256Hash) sampleSystem consecutive) := by
  obtain ⟨leaves, _, _, iff⟩ := append_serialized_iff sampleSystem_eq rfl
  exact ⟨leaves, (iff consecutive consecutive_settled).mpr consecutive_alone⟩

end CLL.Ts
