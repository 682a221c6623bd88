import CLL.Core.Store
import CLL.Ts.Value

/-!
# The tree of the TypeScript package

The state of `MmrTree` of `ts/src/mmr.ts`, the function `shape` that lays out a tree of given leaves, and
the constructor with its `validate`. Positions are list indices: a position that the code looks up is one
that was pushed before, and the lists give a default elsewhere.

`Round n j` describes the heights and the peaks when leaf `n` has been pushed and has carried `j` times.
The carrying goes on exactly while binary digit `j` of `n` is one. The loops of `shape` and of `append`
are both read off this.
-/

namespace CLL.Ts
open PostOrder CLL.Core

/-- `Meta`. -/
structure Meta where
  height : ℕ
  left : Option ℕ
  right : Option ℕ
  parent : Option ℕ
deriving DecidableEq

/-- The result of `shape`. -/
structure Shape where
  metas : List Meta
  peaks : List ℕ
  leaves : List ℕ
deriving DecidableEq

/-- `meta[p]!.height`. -/
def height (metas : List Meta) (p : ℕ) : ℕ := (metas[p]?.map Meta.height).getD 0

/-- `meta.push({ height: 0 })`. -/
def pushLeaf (metas : List Meta) : List Meta := metas ++ [{ height := 0, left := none, right := none, parent := none }]

/-- `meta.push({ height: …, left: l, right: p }); meta[l]!.parent = q; meta[p]!.parent = q`. -/
def pushParent (metas : List Meta) (l p q : ℕ) : List Meta :=
  let link := fun m : Meta => { m with parent := some q }
  let made : Meta := { height := height metas p + 1, left := some l, right := some p, parent := none }
  ((metas ++ [made]).modify l link).modify p link

/-- The `while` loop of `shape` and `peaks.push(p)` after it. The peaks are listed from right to left. -/
def carry : List ℕ → List Meta → ℕ → List Meta × List ℕ
  | [], metas, p => (metas, [p])
  | l :: peaks, metas, p =>
    if height metas l = height metas p then
      carry peaks (pushParent metas l p metas.length) metas.length
    else (metas, p :: l :: peaks)

/-- `shape`. -/
def shape : ℕ → Shape
  | 0 => ⟨[], [], []⟩
  | i + 1 =>
    let s := shape i
    let p := s.metas.length
    let (metas, peaks) := carry s.peaks.reverse (pushLeaf s.metas) p
    ⟨metas, peaks.reverse, s.leaves ++ [p]⟩

/-- `count` of `leafCount`. -/
def count (n : ℕ) : ℕ := 2 * n - (Nat.digits 2 n).count 1

/-- `while (lo <= hi) …` of `leafCount`. -/
def leafCountLoop (size : ℕ) : ℕ → ℕ → ℕ → Option ℕ
  | 0, _, _ => none
  | fuel + 1, lo, hi =>
    if lo ≤ hi then
      let n := (lo + hi) / 2
      let c := count n
      if c = size then some n
      else if c < size then leafCountLoop size fuel (n + 1) hi
      else leafCountLoop size fuel lo (n - 1)
    else none

/-- `leafCount`. Every round of its loop makes the interval smaller. -/
def leafCount (size : ℕ) : Option ℕ :=
  if size > maxSafeInteger then none else leafCountLoop size (size + 2) 0 (size + 1)

/-- The fields of `MmrTree`. -/
structure MmrTree where
  nodes : List Bytes
  metas : List Meta
  peaks : List ℕ
  leafPositions : List ℕ
deriving DecidableEq

/-- A tree of `n` leaves over the given nodes. -/
def MmrTree.ofShape (nodes : List Bytes) (n : ℕ) : MmrTree :=
  ⟨nodes, (shape n).metas, (shape n).peaks, (shape n).leaves⟩

/-- The constructor of `MmrTree`. -/
def MmrTree.new (nodes : List Bytes) : Option MmrTree :=
  match leafCount nodes.length with
  | none => none
  | some leaves => if nodes.all fun x => x.length == 32 then some (.ofShape nodes leaves) else none

variable (H : HashFunction)

/-- Whether `validate` resolves, and `ready` with it. -/
def MmrTree.validate (t : MmrTree) : Bool :=
  (List.range t.metas.length).all fun position =>
    match t.metas[position]? with
    | some ⟨_, some l, some r, _⟩ =>
      nodeHash H position (t.nodes.getD l []) (t.nodes.getD r []) == t.nodes.getD position []
    | _ => true

/-- The leaves of a size are found by bisection. -/
lemma leafCountLoop_eq_some {size n : ℕ} (eq : forestSize n = size) {fuel lo hi : ℕ} (le : lo ≤ n)
    (le' : n ≤ hi) (enough : hi < lo + fuel) : leafCountLoop size fuel lo hi = some n := by
  induction fuel generalizing lo hi with
  | zero => omega
  | succ fuel ih =>
    rw [leafCountLoop, if_pos (by omega)]
    dsimp only
    rcases lt_trichotomy (count ((lo + hi) / 2)) size with lt | same | gt
    · rw [if_neg lt.ne, if_pos lt]
      have : (lo + hi) / 2 < n := forestSize_strictMono.lt_iff_lt.mp (eq ▸ lt)
      exact ih (by omega) le' (by omega)
    · rw [if_pos same, forestSize_injective (same.trans eq.symm)]
    · rw [if_neg gt.ne', if_neg gt.not_gt]
      have : n < (lo + hi) / 2 := forestSize_strictMono.lt_iff_lt.mp (eq ▸ gt)
      exact ih le (by omega) (by omega)

/-- What bisection finds has the size. -/
lemma forestSize_of_leafCountLoop {size n fuel lo hi : ℕ}
    (eq : leafCountLoop size fuel lo hi = some n) : forestSize n = size := by
  induction fuel generalizing lo hi with
  | zero => cases eq
  | succ fuel ih =>
    rw [leafCountLoop] at eq
    by_cases le : lo ≤ hi
    · rw [if_pos le] at eq
      dsimp only at eq
      rcases lt_trichotomy (count ((lo + hi) / 2)) size with lt | same | gt
      · rw [if_neg lt.ne, if_pos lt] at eq
        exact ih eq
      · rw [if_pos same] at eq
        rwa [← Option.some.inj eq]
      · rw [if_neg gt.ne', if_neg gt.not_gt] at eq
        exact ih eq
    · rw [if_neg le] at eq
      cases eq

/-- `leafCount` inverts the size of a forest. -/
theorem leafCount_eq_some {size n : ℕ} :
    leafCount size = some n ↔ forestSize n = size ∧ size ≤ maxSafeInteger := by
  unfold leafCount
  constructor
  · intro eq
    split at eq
    · cases eq
    · exact ⟨forestSize_of_leafCountLoop eq, by omega⟩
  · intro ⟨eq, le⟩
    rw [if_neg (by omega)]
    have := le_forestSize n
    exact leafCountLoop_eq_some eq (by omega) (by omega) (by omega)

/-- The height and the children of a node. -/
def Meta.kind (m : Meta) : ℕ × Option ℕ × Option ℕ := (m.height, m.left, m.right)

/-- The height and the children of the node at a position of an MMR. -/
def kindAt (p : ℕ) : ℕ × Option ℕ × Option ℕ :=
  match heightAt p with
  | 0 => (0, none, none)
  | h + 1 => (h + 1, some (p - 2 ^ (h + 1)), some (p - 1))

/-- A leaf is of height zero without children. -/
lemma kindAt_leaf (n : ℕ) : kindAt (forestSize n) = (0, none, none) := by
  have e := heightAt_root 0 n
  rw [show root 0 n = forestSize n by simp [root]] at e
  simp [kindAt, e]

/-- A root is of its height with its halves as children. -/
lemma kindAt_root (h k : ℕ) :
    kindAt (root (h + 1) k) = (h + 1, some (root h (2 * k)), some (root h (2 * k + 1))) := by
  have left := root_left h k
  have right := root_right h k
  simp only [kindAt, heightAt_root]
  congr 3 <;> omega

/-- The entries are those of the first `len` positions of an MMR. -/
def Laid (len : ℕ) (metas : List Meta) : Prop := metas.map Meta.kind = (List.range len).map kindAt

/-- There is one description for each node. -/
lemma Laid.length_eq {len : ℕ} {metas : List Meta} (laid : Laid len metas) : metas.length = len := by
  simpa using congrArg List.length laid

/-- A node is described by its position. -/
lemma Laid.kind_eq {len : ℕ} {metas : List Meta} (laid : Laid len metas) {p : ℕ} (lt : p < len) :
    metas[p]?.map Meta.kind = some (kindAt p) := by
  have e := congrArg (fun l => l[p]?) laid
  simpa [List.getElem?_range lt] using e

/-- The height of a position is that of its kind. -/
lemma kindAt_fst (p : ℕ) : (kindAt p).1 = heightAt p := by
  unfold kindAt
  split <;> simp_all

/-- A described node is of the height of its position. -/
lemma Laid.height_eq {len : ℕ} {metas : List Meta} (laid : Laid len metas) {p : ℕ} (lt : p < len) :
    height metas p = heightAt p := by
  obtain ⟨m, hm, e⟩ := Option.map_eq_some_iff.mp (laid.kind_eq lt)
  rw [height, hm, ← kindAt_fst, ← e]
  rfl

/-- A leaf is described after the others. -/
lemma Laid.pushLeaf {n : ℕ} {metas : List Meta} (laid : Laid (forestSize n) metas) :
    Laid (forestSize n + 1) (pushLeaf metas) := by
  rw [Laid, Ts.pushLeaf, List.map_append, laid, List.range_succ, List.map_append]
  simp [kindAt_leaf, Meta.kind]

/-- Setting a parent keeps the kinds. -/
lemma map_kind_modify (metas : List Meta) (i q : ℕ) :
    (metas.modify i fun m => { m with parent := some q }).map Meta.kind = metas.map Meta.kind := by
  apply List.ext_getElem?
  intro j
  rw [List.getElem?_map, List.getElem?_map, List.getElem?_modify]
  cases metas[j]? with
  | none => rfl
  | some m => by_cases e : i = j <;> simp [e, Meta.kind]

/-- A parent is laid out where the block above its two children ends. -/
lemma Laid.pushParent {h k q : ℕ} {metas : List Meta} (laid : Laid (root (h + 1) k) metas) :
    Laid (root (h + 1) k + 1) (pushParent metas (root h (2 * k)) (root h (2 * k + 1)) q) := by
  have lt : root h (2 * k + 1) < root (h + 1) k := by
    have := root_right h k
    omega
  rw [Laid, Ts.pushParent, map_kind_modify, map_kind_modify, List.map_append, laid, List.range_succ, List.map_append,
    laid.height_eq lt, heightAt_root]
  simp [kindAt_root, Meta.kind]

/-- The peaks of a carry are the same with more fuel. -/
lemma leftPeaks_of_le {n j s s' : ℕ} (bits : n < 2 ^ (j + s)) (le : s ≤ s') :
    leftPeaks n j s' = leftPeaks n j s := by
  obtain ⟨d, rfl⟩ := Nat.exists_eq_add_of_le le
  have none : ((List.range' (j + s) d).filter fun h => n.testBit h) = [] := by
    apply List.filter_eq_nil_iff.mpr
    intro h hh
    have := (List.mem_range'_1.mp hh).1
    simp [Nat.testBit_lt_two_pow (bits.trans_le (Nat.pow_le_pow_right (by norm_num) this))]
  rw [leftPeaks, leftPeaks, ← List.range'_append_1, List.filter_append, none, List.append_nil]

/-- The peaks do not depend on how many digits are looked at, as long as all ones are. -/
lemma leftPeaks_congr {n j : ℕ} (s s' : ℕ) (bits : n < 2 ^ (j + s)) (bits' : n < 2 ^ (j + s')) :
    leftPeaks n j s = leftPeaks n j s' := by
  cases Nat.le_total s s' with
  | inl le => exact (leftPeaks_of_le bits le).symm
  | inr le => exact leftPeaks_of_le bits' le

/-- A bit that is set adds a peak. -/
lemma leftPeaks_succ_of_testBit {n j : ℕ} (s : ℕ) (b : n.testBit j = true) :
    leftPeaks n j (s + 1) = root j (mountain n j) :: leftPeaks n (j + 1) s := by
  simp [leftPeaks, List.range'_succ, b]

/-- A bit that is not set adds no peak. -/
lemma leftPeaks_succ_of_not_testBit {n j : ℕ} (s : ℕ) (b : n.testBit j = false) :
    leftPeaks n j (s + 1) = leftPeaks n (j + 1) s := by
  simp [leftPeaks, List.range'_succ, b]

/-- Where the carrying stops, the digits above are left alone. -/
lemma Carries.succ_div {n j i : ℕ} (c : Carries n j) (b : n.testBit j = false) (lt : j < i) :
    (n + 1) / 2 ^ i = n / 2 ^ i := by
  have e := div_eq_of_not_testBit b
  obtain ⟨d, rfl⟩ := Nat.exists_eq_add_of_lt lt
  have split : 2 ^ (j + d + 1) = 2 ^ j * 2 * 2 ^ d := by ring
  rw [split, ← Nat.div_div_eq_div_mul, ← Nat.div_div_eq_div_mul, ← Nat.div_div_eq_div_mul,
    ← Nat.div_div_eq_div_mul, ← c, Nat.mul_div_cancel _ (Nat.two_pow_pos j), e, mountain]
  congr 1
  omega

/-- A carry clears the lower bits and sets the next one. -/
lemma Carries.succ_testBit {n j i : ℕ} (c : Carries n j) (b : n.testBit j = false) :
    (n + 1).testBit i = if i < j then false else if i = j then true else n.testBit i := by
  have e := div_eq_of_not_testBit b
  split
  · rename_i lt
    rw [← c, Nat.mul_comm, Nat.testBit_two_pow_mul]
    simp [show ¬ i ≥ j by omega]
  · split
    · rename_i eq
      subst eq
      rw [← c, Nat.mul_comm, Nat.testBit_two_pow_mul, e, mountain]
      simp
    · have lt : j < i := by omega
      rw [Nat.testBit_eq_decide_div_mod_eq, Nat.testBit_eq_decide_div_mod_eq,
        Carries.succ_div c b lt]

/-- The peaks of one more leaf: the block the leaf carried to, and the peaks not merged. -/
lemma leftPeaks_succ {n j s : ℕ} (c : Carries n j) (b : n.testBit j = false)
    (bits : n < 2 ^ (j + s)) :
    leftPeaks (n + 1) 0 (n + 1).size = (forestSize n + j) :: leftPeaks n j s := by
  have wide : n + 1 < 2 ^ (j + (s + 1)) := by
    rw [show j + (s + 1) = (j + s) + 1 by omega, pow_succ]
    omega
  have e := div_eq_of_not_testBit b
  have low : leftPeaks (n + 1) 0 (j + (s + 1)) = leftPeaks (n + 1) j (s + 1) := by
    have none : ((List.range' 0 j).filter fun h => (n + 1).testBit h) = [] := by
      apply List.filter_eq_nil_iff.mpr
      intro h hh
      have := (List.mem_range'_1.mp hh).2
      simp [Carries.succ_testBit c b, show h < j by omega]
    rw [leftPeaks, leftPeaks, ← List.range'_append_1, List.filter_append, none, List.nil_append,
      Nat.zero_add]
  have high : leftPeaks (n + 1) (j + 1) s = leftPeaks n (j + 1) s := by
    have same : ∀ h ∈ List.range' (j + 1) s, j < h := fun h hh => (List.mem_range'_1.mp hh).1
    unfold leftPeaks
    rw [List.filter_congr fun h hh => show (n + 1).testBit h = n.testBit h by
      have := same h hh
      rw [Carries.succ_testBit c b, if_neg (by omega), if_neg (by omega)]]
    apply List.map_congr_left
    intro h hh
    have := same h (List.mem_filter.mp hh).1
    rw [mountain, mountain, Carries.succ_div c b (by omega)]
  have bit : (n + 1).testBit j = true := by simp [Carries.succ_testBit c b]
  have top : root j (mountain (n + 1) j) = forestSize n + j := by
    rw [← c.root_eq, e, mountain, mountain, Carries.succ_div c b (by omega)]
  rw [leftPeaks_congr _ (j + (s + 1)) (by simpa using Nat.lt_size_self _) (by simpa using wide),
    low, leftPeaks_succ_of_testBit _ bit, top, high, ← leftPeaks_succ_of_not_testBit s b,
    leftPeaks_congr _ s _ bits]
  exact bits.trans_le (Nat.pow_le_pow_right (by norm_num) (by omega))

/-- Leaf `n` has been pushed and has carried `j` times; `peaks` are the peaks still to be compared with,
from right to left. -/
structure Round (n j steps : ℕ) (metas : List Meta) (peaks : List ℕ) : Prop where
  carries : Carries n j
  bits : n < 2 ^ (j + steps)
  laid : Laid (forestSize n + 1 + j) metas
  peaks_eq : peaks = leftPeaks n j steps

/-- The node of a round is of the height of the round. -/
lemma Round.height_eq {n j steps : ℕ} {metas : List Meta} {peaks : List ℕ}
    (r : Round n j steps metas peaks) : height metas (forestSize n + j) = j := by
  rw [r.laid.height_eq (by omega), ← r.carries.root_eq, heightAt_root]

/-- On a one the next peak has the height of the node just made, and the two are merged. -/
lemma Round.merge {n j steps : ℕ} {metas : List Meta} {peaks : List ℕ}
    (r : Round n j steps metas peaks) (b : n.testBit j = true) (q : ℕ) :
    ∃ l steps' rest, l = root j (mountain n j) ∧ peaks = l :: rest ∧
      height metas l = height metas (forestSize n + j) ∧
      Round n (j + 1) steps' (pushParent metas l (forestSize n + j) q) rest := by
  have c := r.carries.succ b
  cases steps with
  | zero => exact absurd (Nat.testBit_lt_two_pow r.bits) (by simp [b])
  | succ steps =>
    have up := c.root_eq
    have right := root_right j (n / 2 ^ (j + 1))
    have p_eq : forestSize n + j = root j (2 * (n / 2 ^ (j + 1)) + 1) := by omega
    refine ⟨root j (mountain n j), steps, leftPeaks n (j + 1) steps, rfl, ?_, ?_, c, ?_, ?_, rfl⟩
    · rw [r.peaks_eq, leftPeaks_succ_of_testBit _ b]
    · have lt : root j (mountain n j) < forestSize n := (mountain_complete b).root_lt
      rw [r.height_eq, r.laid.height_eq (by omega), heightAt_root]
    · rw [show j + 1 + steps = j + (steps + 1) by omega]
      exact r.bits
    · have laid : Laid (root (j + 1) (n / 2 ^ (j + 1))) metas := by
        rw [up, ← Nat.add_assoc, Nat.add_right_comm]
        exact r.laid
      have made := laid.pushParent (q := q)
      rw [← p_eq, up] at made
      rw [show forestSize n + 1 + (j + 1) = forestSize n + (j + 1) + 1 by omega]
      exact made

/-- On a zero the next peak, if any, is higher than the node just made, which becomes the last peak. -/
lemma Round.stop {n j steps : ℕ} {metas : List Meta} {peaks : List ℕ}
    (r : Round n j steps metas peaks) (b : n.testBit j = false) :
    (∀ l ∈ peaks, height metas l ≠ height metas (forestSize n + j)) ∧
      Laid (forestSize (n + 1)) metas ∧
      (forestSize n + j) :: peaks = leftPeaks (n + 1) 0 (n + 1).size := by
  refine ⟨fun l hl => ?_, ?_, ?_⟩
  · rw [r.peaks_eq] at hl
    simp only [leftPeaks, List.mem_map, List.mem_filter, List.mem_range'_1] at hl
    obtain ⟨h, ⟨⟨le, _⟩, bit⟩, rfl⟩ := hl
    have ne : h ≠ j := by
      rintro rfl
      simp [b] at bit
    have lt : root h (mountain n h) < forestSize n := (mountain_complete bit).root_lt
    rw [r.height_eq, r.laid.height_eq (by omega), heightAt_root]
    exact ne
  · rw [r.carries.forestSize_succ b, Nat.add_right_comm]
    exact r.laid
  · rw [leftPeaks_succ r.carries b r.bits, r.peaks_eq]

/-- The loop of `shape` lays out the blocks that the new leaf completes. -/
lemma Round.carry {n j steps : ℕ} {metas : List Meta} {peaks : List ℕ}
    (r : Round n j steps metas peaks) :
    Laid (forestSize (n + 1)) (carry peaks metas (forestSize n + j)).1 ∧
      (carry peaks metas (forestSize n + j)).2 = leftPeaks (n + 1) 0 (n + 1).size := by
  induction peaks generalizing j steps metas with
  | nil =>
    have b : n.testBit j = false := by
      by_contra b
      obtain ⟨l, steps', rest, _, eq, _⟩ := r.merge (by simpa using b) 0
      cases eq
    exact (r.stop b).2
  | cons l peaks ih =>
    cases b : n.testBit j with
    | true =>
      obtain ⟨l', steps', rest, rfl, eq, same, next⟩ := r.merge b metas.length
      cases eq
      have length : metas.length = forestSize n + (j + 1) := by
        rw [r.laid.length_eq]
        omega
      rw [Ts.carry, if_pos same]
      have done := ih next
      rwa [← length] at done
    | false =>
      obtain ⟨ne, laid, eq⟩ := r.stop b
      rw [Ts.carry, if_neg (ne l (by simp))]
      exact ⟨laid, eq⟩

/-- Before leaf `n` carries, all peaks are still to be compared with. -/
lemma Round.init {n : ℕ} {metas : List Meta} (laid : Laid (forestSize n) metas) :
    Round n 0 n.size (pushLeaf metas) (peakRoots n n.size).reverse where
  carries := carries_zero n
  bits := by simpa using Nat.lt_size_self n
  laid := laid.pushLeaf
  peaks_eq := reverse_peakRoots n n.size

/-- `shape` gives the heights, children, peaks and leaf positions of the MMR of `n` leaves. -/
theorem shape_spec (n : ℕ) :
    Laid (forestSize n) (shape n).metas ∧ (shape n).peaks = peakRoots n n.size ∧
      (shape n).leaves = (List.range n).map forestSize := by
  induction n with
  | zero => exact ⟨rfl, rfl, rfl⟩
  | succ n ih =>
    obtain ⟨laid, peaks, leaves⟩ := ih
    have done := (Round.init laid).carry
    rw [← peaks, ← laid.length_eq, ← reverse_peakRoots] at done
    simp only [Nat.add_zero] at done
    refine ⟨done.1, ?_, ?_⟩
    · simp only [shape]
      rw [done.2, List.reverse_reverse]
    · simp only [shape]
      rw [leaves, laid.length_eq, List.range_succ, List.map_append, List.map_singleton]

/-- The tree holds the nodes, heights, peaks and leaf positions of the MMR of the leaf hashes. -/
def MmrTree.Holds (leaves : List Bytes) (t : MmrTree) : Prop :=
  IsMmr H leaves t.nodes ∧ t = .ofShape t.nodes leaves.length

variable {H}

/-- A tree that is made is that of its nodes. -/
lemma MmrTree.new_eq_some {nodes : List Bytes} {t : MmrTree} (new : MmrTree.new nodes = some t) :
    ∃ n, forestSize n = nodes.length ∧ (∀ x ∈ nodes, x.length = 32) ∧ t = .ofShape nodes n := by
  unfold MmrTree.new at new
  split at new
  · cases new
  · rename_i n hn
    split at new
    · rename_i ok
      cases new
      exact ⟨n, (leafCount_eq_some.mp hn).1, by simpa using ok, rfl⟩
    · cases new

/-- The nodes of a made tree are described by their positions. -/
lemma ofShape_kind (nodes : List Bytes) {n p : ℕ} (lt : p < forestSize n) :
    (MmrTree.ofShape nodes n).metas[p]?.map Meta.kind = some (kindAt p) :=
  (shape_spec n).1.kind_eq lt

/-- `validate` compares every block above a leaf with the hash of its halves. -/
lemma validate_ofShape {nodes : List Bytes} {n : ℕ} :
    (MmrTree.ofShape nodes n).validate H = true ↔ ∀ h k, Complete n (h + 1) k →
      nodeHash H (root (h + 1) k) (nodes.getD (root h (2 * k)) [])
        (nodes.getD (root h (2 * k + 1)) []) = nodes.getD (root (h + 1) k) [] := by
  have length : (MmrTree.ofShape nodes n).metas.length = forestSize n := (shape_spec n).1.length_eq
  rw [MmrTree.validate, List.all_eq_true, length]
  constructor
  · intro ok h k c
    have checked := ok _ (List.mem_range.mpr c.root_lt)
    obtain ⟨⟨height, left, right, parent⟩, hm, e⟩ :=
      Option.map_eq_some_iff.mp (ofShape_kind nodes c.root_lt)
    rw [kindAt_root] at e
    cases e
    simp only [hm] at checked
    exact beq_iff_eq.mp checked
  · intro ok p hp
    obtain ⟨h, k, c, rfl⟩ := exists_root (List.mem_range.mp hp)
    obtain ⟨⟨height, left, right, parent⟩, hm, e⟩ :=
      Option.map_eq_some_iff.mp (ofShape_kind nodes c.root_lt)
    cases h with
    | zero =>
      have leaf : root 0 k = forestSize k := by simp [root]
      rw [leaf, kindAt_leaf] at e
      cases e
      simp only [hm]
    | succ h =>
      rw [kindAt_root] at e
      cases e
      simp only [hm]
      exact beq_iff_eq.mpr (ok h k c)

/-- A tree that the constructor and `validate` accept is the MMR of its leaves. -/
theorem MmrTree.exists_holds {nodes : List Bytes} {t : MmrTree} (new : MmrTree.new nodes = some t)
    (ready : t.validate H = true) :
    ∃ leaves, (∀ l ∈ leaves, l.length = 32) ∧ t.Holds H leaves := by
  obtain ⟨n, size, len, rfl⟩ := new_eq_some new
  have checked := validate_ofShape.mp ready
  have leaf_lt : ∀ i < n, forestSize i < nodes.length := fun i lt => size ▸ forestSize_strictMono lt
  let leaves := (List.range n).map fun i => nodes.getD (forestSize i) []
  have total : leaves.length = n := by simp [leaves]
  refine ⟨leaves, ?_, ⟨by rw [total, nodeCount_eq, size]; rfl, ?_⟩, by rw [total]; rfl⟩
  · intro l hl
    obtain ⟨i, hi, rfl⟩ := List.mem_map.mp hl
    have lt := leaf_lt i (List.mem_range.mp hi)
    rw [List.getD_eq_getElem _ _ lt]
    exact len _ (List.getElem_mem lt)
  · rw [total]
    intro h k c
    have lt : root h k < nodes.length := size ▸ c.root_lt
    have held : nodes.getD (root h k) [] = treeHash H leaves h k := by
      induction h generalizing k with
      | zero =>
        have lt' : k < leaves.length := by simpa [Complete, total] using c
        rw [treeHash_zero H lt']
        simp [leaves, root]
      | succ h ih =>
        have left_lt : root h (2 * k) < nodes.length := size ▸ c.left.root_lt
        have right_lt : root h (2 * k + 1) < nodes.length := size ▸ c.right.root_lt
        rw [treeHash_succ, ← ih _ c.left left_lt, ← ih _ c.right right_lt]
        exact (checked h k c).symm
    rw [← held]
    exact (List.getElem?_eq_getElem lt).trans (by rw [List.getD_eq_getElem _ _ lt])

/-- The class accepts every tree it has built. -/
theorem MmrTree.Holds.new_eq {leaves : List Bytes} {t : MmrTree} (holds : t.Holds H leaves)
    (len : ∀ l ∈ leaves, l.length = 32) (small : t.nodes.length ≤ maxSafeInteger) :
    MmrTree.new t.nodes = some t ∧ t.validate H = true := by
  obtain ⟨mmr, eq⟩ := holds
  have count : leafCount t.nodes.length = some leaves.length :=
    leafCount_eq_some.mpr ⟨mmr.length_eq.symm, small⟩
  have node_at : ∀ h k, Complete leaves.length h k →
      t.nodes.getD (root h k) [] = treeHash H leaves h k := fun h k c => by
    rw [List.getD_eq_getElem?_getD, mmr.node_eq h k c]
    rfl
  constructor
  · have all : t.nodes.all (fun x => x.length == 32) = true := by
      rw [List.all_eq_true]
      intro x hx
      obtain ⟨p, lt, rfl⟩ := List.mem_iff_getElem.mp hx
      obtain ⟨h, k, c, rfl⟩ := exists_root (mmr.length_eq ▸ lt)
      have e := mmr.node_eq h k c
      rw [List.getElem?_eq_getElem lt] at e
      rw [Option.some.inj e, length_treeHash H len c]
      rfl
    rw [MmrTree.new, count]
    simp only [all, if_true]
    rw [← eq]
  · rw [eq]
    refine validate_ofShape.mpr fun h k c => ?_
    rw [node_at h _ c.left, node_at h _ c.right, node_at _ _ c, treeHash_succ]

end CLL.Ts
