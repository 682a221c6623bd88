import CLL.Rust.Mmr

/-!
# The Rust and the Python verifiers

The functions of `mmr.rs` compute what those of `core.py` compute, but `hex::decode` reads digits only,
where `bytes.fromhex` skips whitespace between bytes. `verifiers_agree` says for which arguments the three
verifiers give the same answer in both languages.
-/

namespace CLL.Rust
open PostOrder
open CLL.Core (HashFunction Digest heightAt nodeCount maxMmrSize fitHeight peakRoots peakRoots_eq hexValue fromHex
  digestAt parseDigest bag nodeHash rangeLeaf rebuildAllFrom rebuildAllFrom_zero Bridges Includes Extends Covers)

/-- The height that fits is below the largest shift. -/
lemma fitHeight_lt {remaining : ℕ} (pos : 0 < remaining) (small : remaining < 2 ^ 62) :
    fitHeight remaining remaining 0 < i64Max := by
  obtain ⟨le, -⟩ := Core.fitHeight_bounds pos
  generalize fitHeight remaining remaining 0 = h at *
  have lt : h + 1 < 2 ^ (h + 1) := Nat.lt_two_pow_self
  rw [i64Max]
  omega

/-- The loop accumulates the positions that Python's recursion lists; `i64::MAX` is above every height. -/
lemma peaksLoop_eq (size : ℕ) {fuel remaining offset prevHeight : ℕ} {prev : Option ℕ}
    (same : prevHeight = prev.getD i64Max) (small : remaining < 2 ^ 62) (result : List ℕ) :
    peaksLoop fuel remaining offset prevHeight result =
      (Core.peaksLoop size fuel remaining offset prev).toOption.map (result ++ ·) := by
  induction fuel generalizing remaining offset prevHeight prev result with
  | zero => simp [peaksLoop, Core.peaksLoop, Except.toOption]
  | succ fuel ih =>
    unfold peaksLoop Core.peaksLoop
    by_cases pos : remaining > 0
    · rw [if_pos pos, if_pos pos]
      dsimp only
      have lt := fitHeight_lt pos small
      have guard_ : fitHeight remaining remaining 0 ≥ prevHeight ↔
          prev.any (fitHeight remaining remaining 0 ≥ ·) = true := by
        cases prev with
        | none =>
          rw [same, Option.getD_none]
          simp
          omega
        | some q => simp [same]
      by_cases high : fitHeight remaining remaining 0 ≥ prevHeight
      · rw [if_pos high, if_pos (guard_.mp high)]
        rfl
      · rw [if_neg high, if_neg (fun h => high (guard_.mpr h))]
        rw [ih (show fitHeight remaining remaining 0 = (some (fitHeight remaining remaining 0)).getD i64Max
          from rfl) (by omega)]
        cases Core.peaksLoop size fuel (remaining - (2 ^ (fitHeight remaining remaining 0 + 1) - 1))
          (offset + (2 ^ (fitHeight remaining remaining 0 + 1) - 1))
          (some (fitHeight remaining remaining 0)) with
        | error e => rfl
        | ok rest => simp [Except.toOption, bind, Except.bind]
    · rw [if_neg pos, if_neg pos]
      simp [Except.toOption]

/-- Peaks are those of Python. -/
lemma peaks_eq (size : ℕ) : peaks size = (Core.peaks size).toOption := by
  unfold peaks Core.peaks
  split
  · rfl
  · rename_i small
    rw [peaksLoop_eq size (show i64Max = (none : Option ℕ).getD i64Max from rfl)
      ((Nat.not_le.mp small).trans (by decide))]
    simp

/-- The peaks of a size in both languages. -/
lemma peaks_eq_some {size : ℕ} {ps : List ℕ} :
    peaks size = some ps ↔ ∃ n, size = nodeCount n ∧ nodeCount n < maxMmrSize ∧ ps = peakRoots n n.size := by
  rw [peaks_eq]
  constructor
  · intro ok
    cases h : Core.peaks size with
    | error e =>
      rw [h] at ok
      cases ok
    | ok ps' =>
      rw [h] at ok
      cases ok
      obtain ⟨small, n, rfl, e⟩ := Core.peaks_eq_ok h
      exact ⟨n, rfl, small, e⟩
  · rintro ⟨n, rfl, small, rfl⟩
    rw [Core.peaks_nodeCount small]
    rfl

/-- The leaves of a size are counted below the bound. -/
lemma leafCount_eq_some {size n : ℕ} :
    leafCount size = some n ↔ size = nodeCount n ∧ nodeCount n < maxMmrSize := by
  have same : leafCount size = (Core.leafCount size).toOption := by
    unfold leafCount Core.leafCount
    rw [peaks_eq]
    cases Core.peaks size with
    | error e => rfl
    | ok ps => rfl
  rw [same]
  constructor
  · intro ok
    cases h : Core.leafCount size with
    | error e =>
      rw [h] at ok
      cases ok
    | ok n' =>
      rw [h] at ok
      cases ok
      obtain ⟨small, rfl⟩ := Core.leafCount_eq_ok h
      exact ⟨rfl, small⟩
  · rintro ⟨rfl, small⟩
    rw [Core.leafCount_nodeCount small]
    rfl

/-- The position of a leaf of the log is that of its block. -/
lemma leafIndexToPos_of_lt {i n : ℕ} (lt : i < n) (small : nodeCount n < maxMmrSize) :
    leafIndexToPos i = some (root 0 i) := by
  have := forestSize_strictMono lt
  rw [Core.nodeCount_eq] at small
  rw [leafIndexToPos, if_neg (by rw [Core.nodeCount_eq]; omega), Core.nodeCount_eq, root_zero]

/-- The containing peak is that of Python. -/
lemma findContainingPeak_eq (pos : ℕ) (ps : List ℕ) :
    findContainingPeak pos ps = Core.findContainingPeak pos ps := by
  have from_ (i : ℕ) : findContainingPeakFrom pos i ps = (Core.findContainingPeak pos ps).map (i + ·) := by
    induction ps generalizing i with
    | nil => rfl
    | cons p ps ih =>
      unfold findContainingPeakFrom Core.findContainingPeak
      dsimp only
      split
      · rfl
      · rw [ih, Option.map_map]
        congr 1
        funext j
        simp only [Function.comp_apply]
        omega
  rw [findContainingPeak, from_]
  simp

/-- The path is that of Python. -/
lemma locatePath_eq (rootPos height targetPos : ℕ) :
    locatePath rootPos height targetPos = Core.locatePath rootPos height targetPos := by
  have loop (topDown : List Core.PathStep) (curRoot : ℕ) :
      locatePathLoop targetPos height curRoot topDown =
        topDown ++ Core.locatePathLoop targetPos height curRoot := by
    induction height generalizing topDown curRoot with
    | zero => simp [locatePathLoop, Core.locatePathLoop]
    | succ height ih =>
      unfold locatePathLoop Core.locatePathLoop
      dsimp only
      split
      · simp
      · split
        · rw [ih, List.append_assoc, List.singleton_append]
        · rw [ih, List.append_assoc, List.singleton_append]
  rw [locatePath, loop, List.nil_append]
  rfl

variable {H : HashFunction}

/-- A path is folded by climbing. -/
lemma foldPath_eq (acc : Bytes) (path : List Core.PathStep) (siblings : List Bytes) :
    foldPath H acc path siblings = climb (nodeHash H) acc path siblings := rfl

/-- A string without ASCII whitespace. -/
def Tight (s : Text) : Prop := ∀ c ∈ s.1, Core.isSpace c = false

instance (s : Text) : Decidable (Tight s) := inferInstanceAs (Decidable (∀ c ∈ s.1, _))

/-- A hexadecimal digit is no space. -/
lemma isSpace_of_hexValue {c v : ℕ} (digit : hexValue c = some v) : Core.isSpace c = false := by
  unfold hexValue at digit
  rw [Core.isSpace]
  split at digit
  · simp
    omega
  · split at digit
    · simp
      omega
    · split at digit
      · simp
        omega
      · cases digit

/-- Digits only are read alike, and only Python reads anything else. -/
lemma decodeHex_eq_some {s : Str} {b : Bytes} :
    decodeHex s = some b ↔ (∀ c ∈ s, Core.isSpace c = false) ∧ fromHex s = some b := by
  induction s using decodeHex.induct generalizing b with
  | case1 => simp [decodeHex, fromHex]
  | case2 c =>
    simp only [decodeHex, fromHex, List.mem_singleton, forall_eq]
    cases Core.isSpace c <;> simp
  | case3 c d s ih =>
    simp only [decodeHex, Option.bind_eq_bind, Option.bind_eq_some_iff, ih, List.forall_mem_cons]
    constructor
    · rintro ⟨hi, hhi, lo, hlo, rest, ⟨tight, hrest⟩, e⟩
      have hc := isSpace_of_hexValue hhi
      refine ⟨⟨hc, isSpace_of_hexValue hlo, tight⟩, ?_⟩
      rw [fromHex, hc, if_neg (by simp), hhi, hlo, hrest]
      exact e
    · rintro ⟨⟨hc, -, tight⟩, ok⟩
      rw [fromHex, hc, if_neg (by simp)] at ok
      simp only [Option.bind_eq_bind, Option.bind_eq_some_iff] at ok
      obtain ⟨hi, hhi, lo, hlo, rest, hrest, e⟩ := ok
      exact ⟨hi, hhi, lo, hlo, rest, ⟨tight, hrest⟩, e⟩

/-- A digest without spaces is parsed as in Python. -/
lemma parseDigestHex_eq_some {s : Text} {b : Bytes} :
    parseDigestHex s = some b ↔ Tight s ∧ parseDigest s.1 = some b := by
  simp only [parseDigestHex, Option.bind_eq_bind, Option.bind_eq_some_iff, decodeHex_eq_some]
  unfold parseDigest Tight
  constructor
  · rintro ⟨b', ⟨tight, ok⟩, _, len, e⟩
    cases e
    have len : b.length = Core.digestLen := by simpa [Option.guard_eq_some'] using len
    exact ⟨tight, by rw [ok]; exact if_pos len⟩
  · rintro ⟨tight, ok⟩
    cases h : fromHex s.1 with
    | none => simp [h] at ok
    | some b' =>
      rw [h] at ok
      dsimp only at ok
      split at ok
      · rename_i len
        cases ok
        have len : b.length = Core.digestLen := len
        exact ⟨b, ⟨tight, rfl⟩, (), by simpa [Option.guard_eq_some'] using len, rfl⟩
      · cases ok

/-- A function that refuses what another accepts, on every element of a list. -/
lemma mapM_restrict {α β : Type} {f g : α → Option β} {P : α → Prop}
    (restrict : ∀ x y, f x = some y ↔ P x ∧ g x = some y) {xs : List α} {ys : List β} :
    xs.mapM f = some ys ↔ (∀ x ∈ xs, P x) ∧ xs.mapM g = some ys := by
  induction xs generalizing ys with
  | nil => simp
  | cons x xs ih =>
    simp only [List.mapM_cons, Option.bind_eq_bind, Option.bind_eq_some_iff, Option.pure_def, restrict, ih,
      List.forall_mem_cons]
    constructor
    · rintro ⟨y, ⟨px, hy⟩, ys', ⟨pxs, hys⟩, e⟩
      exact ⟨⟨px, pxs⟩, y, hy, ys', hys, e⟩
    · rintro ⟨⟨px, pxs⟩, y, hy, ys', hys, e⟩
      exact ⟨y, ⟨px, hy⟩, ys', ⟨pxs, hys⟩, e⟩

/-- Digests without spaces are parsed as in Python. -/
lemma mapM_parseDigestHex {ss : List Text} {bs : List Bytes} :
    ss.mapM parseDigestHex = some bs ↔
      (∀ s ∈ ss, Tight s) ∧ (ss.map (·.1)).mapM parseDigest = some bs := by
  rw [List.mapM_map]
  exact mapM_restrict fun _ _ => parseDigestHex_eq_some

/-- Parsed digests have 32 bytes each. -/
lemma mapM_parseDigestHex_digests {ss : List Text} {bs : List Bytes} (ok : ss.mapM parseDigestHex = some bs) :
    bs.length = ss.length ∧ ∀ b ∈ bs, b.length = 32 := by
  have digests := Core.mapM_eq_some (fun _ _ => Core.length_of_parseDigest) (mapM_parseDigestHex.mp ok).2
  rwa [List.length_map] at digests

/-- Lists of digests without spaces are parsed as in Python. -/
lemma mapM_mapM_parseDigestHex {ws : List (List Text)} {bs : List (List Bytes)} :
    ws.mapM (fun w => w.mapM parseDigestHex) = some bs ↔
      (∀ w ∈ ws, ∀ s ∈ w, Tight s) ∧
        (ws.map fun w => w.map (·.1)).mapM (fun w => w.mapM parseDigest) = some bs := by
  rw [List.mapM_map]
  exact mapM_restrict fun _ _ => mapM_parseDigestHex

/-- The cursor walks over the labels that the subtree takes. -/
lemma reconstructRangeSubtree_eq {lo hi : ℕ} {bodyDigests : ℕ → Option Bytes} {witness : List Bytes}
    (known : ∀ i, lo ≤ i → i ≤ hi → ∃ d, bodyDigests i = some d) {h k cursor : ℕ}
    (le : cursor ≤ witness.length) :
    reconstructRangeSubtree H lo hi bodyDigests witness h (root h k) (k * 2 ^ h) cursor =
      rebuildFrom lo hi (rangeLeaf H bodyDigests) (nodeHash H) witness h k cursor := by
  induction h generalizing k cursor with
  | zero =>
    rw [reconstructRangeSubtree]
    simp only [Core.outside_iff]
    by_cases outside : Outside lo hi 0 k
    · rw [if_pos outside, rebuildFrom_outside outside]
      cases witness[cursor]? <;> rfl
    · obtain ⟨d, hd⟩ := known k (by unfold Outside at outside; omega) (by unfold Outside at outside; omega)
      rw [if_neg outside, rebuildFrom_leaf outside le]
      simp [hd, rangeLeaf, leafHash]
  | succ h ih =>
    rw [reconstructRangeSubtree]
    simp only [Core.outside_iff]
    by_cases outside : Outside lo hi (h + 1) k
    · rw [if_pos outside, rebuildFrom_outside outside]
      cases witness[cursor]? <;> rfl
    · rw [if_neg outside, rebuildFrom_node outside, Core.root_succ_sub_pow, Core.root_succ_sub_one,
        Core.start_right, Core.start_left, ih le]
      refine Option.bind_congr fun left hl => ?_
      rw [ih (rebuildFrom_le hl)]
      rfl

/-- Rebuilt peaks are those of the range, with the digests looked up. -/
lemma reconstructPeaks_eq {lo hi : ℕ} {bodyDigests : ℕ → Option Bytes} {witness : List Bytes}
    (known : ∀ i, lo ≤ i → i ≤ hi → ∃ d, bodyDigests i = some d) {bs : List (ℕ × ℕ)} {start cursor : ℕ}
    (adjacent : Adjacent start bs) (le : cursor ≤ witness.length) :
    reconstructPeaks H lo hi bodyDigests witness (bs.map fun b => root b.1 b.2) start cursor =
      rebuildAllFrom lo hi (rangeLeaf H bodyDigests) (nodeHash H) witness bs cursor := by
  induction bs generalizing start cursor with
  | nil => rfl
  | cons b bs ih =>
    obtain ⟨here, adjacent⟩ := adjacent
    rw [← here] at adjacent
    rw [List.map_cons, reconstructPeaks, rebuildAllFrom]
    dsimp only
    rw [Core.heightAt_root, ← here, reconstructRangeSubtree_eq known le]
    refine Option.bind_congr fun peak first => ?_
    rw [ih adjacent (rebuildFrom_le first)]
    rfl

/-- All old peaks climb exactly if the decoded witness is a bridge. -/
lemma climbOldPeaks_iff {n : ℕ} {newPeaks : List Bytes} {bs : List (ℕ × ℕ)}
    (complete : ∀ b ∈ bs, Complete n b.1 b.2) {oldPeaks : List Bytes} (lenold : oldPeaks.length = bs.length)
    {ws : List (List Text)} (lenw : ws.length = bs.length) :
    climbOldPeaks H (peakRoots n n.size) newPeaks (bs.map fun b => root b.1 b.2) oldPeaks ws = some () ↔
      ∃ witness, ws.mapM (fun w => w.mapM parseDigestHex) = some witness ∧
        Bridges H n newPeaks bs oldPeaks witness := by
  induction bs generalizing oldPeaks ws with
  | nil =>
    obtain rfl := List.length_eq_zero_iff.mp lenold
    obtain rfl := List.length_eq_zero_iff.mp lenw
    exact ⟨fun _ => ⟨[], rfl, trivial⟩, fun _ => rfl⟩
  | cons b bs ih =>
    cases oldPeaks with
    | nil => cases lenold
    | cons oldPeak oldPeaks =>
      cases ws with
      | nil => cases lenw
      | cons w ws =>
        obtain ⟨h, k⟩ := b
        obtain ⟨left, right, d, em, found⟩ := Core.findContainingPeak_root (complete (h, k) List.mem_cons_self)
        have top : (mountains n)[left.length]? = some (h + d, k / 2 ^ d) := by
          rw [em, List.getElem?_append_right le_rfl]
          simp
        have rest := ih (fun b hb => complete b (List.mem_cons_of_mem _ hb)) (by simpa using lenold)
          (by simpa using lenw)
        simp only [List.map_cons, climbOldPeaks, findContainingPeak_eq, found, Option.bind_eq_bind,
          Option.bind_some, Core.getD_peakRoots_split em, Core.heightAt_root, locatePath_eq, Core.locatePath_root,
          length_ascent, foldPath_eq, Option.bind_eq_some_iff, Option.guard_eq_some', rest,
          List.mapM_cons, Option.pure_def, Option.some.injEq, exists_const]
        constructor
        · rintro ⟨len, bytes, parsed, reached, witness, parsed', bridges⟩
          obtain ⟨count, lens⟩ := mapM_parseDigestHex_digests parsed
          refine ⟨bytes :: witness, ⟨bytes, parsed, witness, parsed', rfl⟩, ⟨_, found, ?_, lens, ?_⟩, bridges⟩
          · rw [count, len]
            exact top
          · rw [count, len]
            exact reached
        · rintro ⟨_, ⟨bytes, parsed, witness, parsed', rfl⟩, ⟨i, found', top', -, reached⟩, bridges⟩
          obtain ⟨count, -⟩ := mapM_parseDigestHex_digests parsed
          cases found.symm.trans found'
          have len : d = bytes.length := by
            have e := (Prod.mk.inj (Option.some.inj (top.symm.trans top'))).1
            omega
          rw [← len] at reached
          exact ⟨count.symm.trans len.symm, bytes, parsed, reached, witness, parsed', bridges⟩

/-- An inclusion proof is accepted exactly where its path leads to the root. -/
theorem verifyInclusion_iff {rootHash bodyDigest : Digest} {size i : UInt64} {p : InclusionProof} :
    verifyInclusion H rootHash size i bodyDigest p = true ↔
      p.v = 1 ∧ p.kind.1 = .lit "inclusion" ∧ p.size = size ∧ p.leafIndex = i ∧
        ∃ n w l r, size.toNat = nodeCount n ∧ nodeCount n < maxMmrSize ∧
          p.witness.mapM parseDigestHex = some w ∧ p.peaksLeft.mapM parseDigestHex = some l ∧
          p.peaksRight.mapM parseDigestHex = some r ∧
          Includes H n i.toNat rootHash.1 bodyDigest.1 w l r := by
  simp only [verifyInclusion, Option.getD_eq_iff, Bool.false_eq_true, and_false, or_false,
    Option.bind_eq_bind, Option.bind_eq_some_iff, Option.guard_eq_some', exists_const, Option.some.injEq,
    beq_iff_eq]
  constructor
  · rintro ⟨⟨v, kind⟩, ⟨size', index'⟩, small, n, count, lt, pos, hpos, ps, hps, idx, hidx, lenw, lenl, lenr,
      w, pw, l, pl, r, pr, bagged⟩
    obtain ⟨size_eq, small'⟩ := leafCount_eq_some.mp count
    obtain ⟨left, right, d, em, found⟩ := Core.exists_mountain lt
    obtain rfl : pos = root 0 i.toNat := Option.some.inj (hpos.symm.trans (leafIndexToPos_of_lt lt small'))
    obtain rfl : ps = peakRoots n n.size := by
      rw [size_eq, peaks_eq, Core.peaks_nodeCount small'] at hps
      exact (Option.some.inj hps).symm
    rw [findContainingPeak_eq, found] at hidx
    cases hidx
    have hpath : Core.locatePath (root d (i.toNat / 2 ^ d)) d (root 0 i.toNat) = ascent 0 i.toNat d := by
      simpa using Core.locatePath_root 0 i.toNat d
    rw [locatePath_eq, Core.getD_peakRoots_split em, Core.heightAt_root, hpath] at lenw bagged
    rw [Core.length_peakRoots_split em] at lenr
    have ew := (mapM_parseDigestHex_digests pw).1
    have el := (mapM_parseDigestHex_digests pl).1
    have er := (mapM_parseDigestHex_digests pr).1
    rw [length_ascent] at lenw
    exact ⟨v, kind, size', index', n, w, l, r, size_eq, small', pw, pl, pr, lt, left, right, d, em,
      ew.trans lenw, el.trans lenl, by omega, bagged⟩
  · rintro ⟨v, kind, size', index', n, w, l, r, size_eq, small, pw, pl, pr, lt, left, right, d, em, lenw, lenl,
      lenr, bagged⟩
    obtain ⟨left', right', d', em', found⟩ := Core.exists_mountain lt
    obtain ⟨rfl, e, rfl⟩ := Adjacent.split_unique (em ▸ adjacent_mountains n) (em.symm.trans em') rfl rfl
    obtain ⟨rfl, -⟩ := Prod.mk.inj e
    have hpath : Core.locatePath (root d (i.toNat / 2 ^ d)) d (root 0 i.toNat) = ascent 0 i.toNat d := by
      simpa using Core.locatePath_root 0 i.toNat d
    have ew := (mapM_parseDigestHex_digests pw).1
    have el := (mapM_parseDigestHex_digests pl).1
    have er := (mapM_parseDigestHex_digests pr).1
    refine ⟨⟨v, kind⟩, ⟨size', index'⟩, size_eq ▸ small, n, leafCount_eq_some.mpr ⟨size_eq, small⟩, lt, _,
      leafIndexToPos_of_lt lt small, _, peaks_eq_some.mpr ⟨n, size_eq, small, rfl⟩, left.length,
      (findContainingPeak_eq _ _).trans found, ?_⟩
    rw [locatePath_eq, Core.getD_peakRoots_split em, Core.heightAt_root, hpath, length_ascent,
      Core.length_peakRoots_split em]
    exact ⟨ew.symm.trans lenw, el.symm.trans lenl, by omega, w, pw, l, pl, r, pr, bagged⟩

/-- A consistency proof is accepted exactly where its bridge leads to the new peaks. -/
theorem verifyConsistency_iff {rootA rootB : Digest} {a b : UInt64} {p : ConsistencyProof} :
    verifyConsistency H rootA a rootB b p = true ↔
      p.v = 1 ∧ p.kind.1 = .lit "consistency" ∧ p.sizeA = a ∧ p.sizeB = b ∧
        ∃ m n old witness new, a.toNat = nodeCount m ∧ b.toNat = nodeCount n ∧ nodeCount n < maxMmrSize ∧
          p.oldPeaks.mapM parseDigestHex = some old ∧
          p.witness.mapM (fun w => w.mapM parseDigestHex) = some witness ∧
          p.newPeaks.mapM parseDigestHex = some new ∧ Extends H m n rootA.1 rootB.1 old witness new := by
  simp only [verifyConsistency, Option.getD_eq_iff, Bool.false_eq_true, and_false, or_false,
    Option.bind_eq_bind, Option.bind_eq_some_iff, Option.guard_eq_some', exists_const, peaks_eq_some, and_true,
    UInt64.not_lt, UInt64.le_iff_toNat_le]
  constructor
  · rintro ⟨⟨v, kind⟩, ⟨sizeA, sizeB⟩, le, _, ⟨m, ea, smallm, rfl⟩, _, ⟨n, eb, small, rfl⟩, lenold, lennew, lenw,
      old, po, new, pn, rootA_eq, rootB_eq, _, climbs⟩
    have le : m ≤ n := by
      rw [ea, eb] at le
      exact forestSize_strictMono.le_iff_le.mp le
    rw [peakRoots_eq, List.length_map] at lenold lennew lenw
    have eo := (mapM_parseDigestHex_digests po).1
    have en := (mapM_parseDigestHex_digests pn).1
    rw [peakRoots_eq m] at climbs
    obtain ⟨witness, pw, bridges⟩ := (climbOldPeaks_iff (fun b hb => (Core.mountain_complete_of_mem hb).mono le)
      (eo.trans lenold) lenw).mp climbs
    exact ⟨v, kind, sizeA, sizeB, m, n, old, witness, new, ea, eb, small, po, pw, pn,
      ⟨le, en.trans lennew, rootA_eq, rootB_eq, bridges⟩⟩
  · rintro ⟨v, kind, sizeA, sizeB, m, n, old, witness, new, ea, eb, small, po, pw, pn, extends_⟩
    obtain ⟨lenold, lenw⟩ := extends_.bridges.length_eq
    have eo := (mapM_parseDigestHex_digests po).1
    have en := (mapM_parseDigestHex_digests pn).1
    have ew := (Table.length_of_mapM pw).symm.trans lenw
    have sizes : nodeCount m ≤ nodeCount n := forestSize_le extends_.le
    have smallm : nodeCount m < maxMmrSize := Nat.lt_of_le_of_lt sizes small
    refine ⟨⟨v, kind⟩, ⟨sizeA, sizeB⟩, ea ▸ eb ▸ sizes, _, ⟨m, ea, smallm, rfl⟩, _, ⟨n, eb, small, rfl⟩, ?_⟩
    rw [peakRoots_eq m, List.length_map]
    refine ⟨eo.symm.trans lenold, ?_, ew, old, po, new, pn, extends_.rootA_eq, extends_.rootB_eq, (), ?_⟩
    · rw [peakRoots_eq n, List.length_map]
      exact en.symm.trans extends_.newPeaks_length
    · exact (climbOldPeaks_iff (fun b hb => (Core.mountain_complete_of_mem hb).mono extends_.le) lenold ew).mpr
        ⟨witness, pw, extends_.bridges⟩

/-- A range proof is accepted exactly where its peaks are rebuilt to the root. -/
theorem verifyRange_iff {rootHash : Digest} {ds : List Digest} {size lo hi : UInt64} {p : RangeProof} :
    verifyRange H rootHash size lo hi ds p = true ↔
      p.v = 1 ∧ p.kind.1 = .lit "range" ∧ p.size = size ∧ p.fromIndex = lo ∧ p.toIndex = hi ∧
        ∃ n w, size.toNat = nodeCount n ∧ nodeCount n < maxMmrSize ∧
          p.witness.mapM parseDigestHex = some w ∧
          Covers H n lo.toNat hi.toNat rootHash.1 (ds.map (·.1)) w := by
  simp only [verifyRange, Option.getD_eq_iff, Bool.false_eq_true, and_false, or_false,
    Option.bind_eq_bind, Option.bind_eq_some_iff, Option.guard_eq_some', exists_const, Option.some.injEq,
    beq_iff_eq, Prod.exists, leafCount_eq_some, peaks_eq_some]
  have digests : (fun i => if lo.toNat ≤ i then (ds[i - lo.toNat]?).map (·.1) else none) =
      digestAt lo.toNat (ds.map (·.1)) := by
    funext i
    rw [digestAt, List.getElem?_map]
  have ordered : ¬ hi < lo ↔ lo.toNat ≤ hi.toNat := by
    rw [UInt64.not_lt, UInt64.le_iff_toNat_le]
  -- the number of leaves of a range inside the tree does not wrap
  have count {n : ℕ} (small : nodeCount n < maxMmrSize) (lt : hi.toNat < n) (le : lo.toNat ≤ hi.toNat) :
      (hi - lo + 1).toNat = hi.toNat + 1 - lo.toNat := by
    have bound : n ≤ nodeCount n := by
      rw [Core.nodeCount_eq]
      exact forestSize_strictMono.le_apply
    rw [UInt64.toNat_add, UInt64.toNat_sub_of_le _ _ (UInt64.le_iff_toNat_le.mpr le), UInt64.toNat_one,
      Nat.mod_eq_of_lt]
    · omega
    · have : maxMmrSize < 2 ^ 64 := by decide
      omega
  have known (count : ds.length = hi.toNat + 1 - lo.toNat) (i : ℕ) (ge : lo.toNat ≤ i) (le : i ≤ hi.toNat) :
      ∃ d, digestAt lo.toNat (ds.map (·.1)) i = some d := by
    have inRange : i - lo.toNat < (ds.map (·.1)).length := by
      rw [List.length_map]
      omega
    exact ⟨_, by rw [digestAt, if_pos ge, List.getElem?_eq_getElem inRange]⟩
  rw [digests, not_or, ordered]
  constructor
  · rintro ⟨⟨v, kind⟩, ⟨size', from_, to_⟩, sized, len, n, ⟨size_eq, small⟩, lt, w, parsed, _, ⟨n', size_eq', -, rfl⟩,
      peaks, cursor, reconstructed, consumed, bagged⟩
    obtain rfl : n = n' := forestSize_injective (size_eq.symm.trans size_eq')
    rw [count small lt sized.2] at len
    rw [peakRoots_eq, reconstructPeaks_eq (known len) (adjacent_mountains n) (Nat.zero_le _)] at reconstructed
    rw [consumed] at reconstructed
    exact ⟨v, kind, size', from_, to_, n, w, size_eq, small, parsed, sized.2, lt, by rwa [List.length_map],
      peaks, rebuildAllFrom_zero.mp reconstructed, bagged⟩
  · rintro ⟨v, kind, size', from_, to_, n, w, size_eq, small, parsed, le, lt, len, peaks, rebuilt, bagged⟩
    rw [List.length_map] at len
    refine ⟨⟨v, kind⟩, ⟨size', from_, to_⟩, ⟨by omega, le⟩, len.trans (count small lt le).symm, n,
      ⟨size_eq, small⟩, lt, w, parsed, _, ⟨n, size_eq, small, rfl⟩, peaks, w.length, ?_, rfl, bagged⟩
    rw [peakRoots_eq, reconstructPeaks_eq (known len) (adjacent_mountains n) (Nat.zero_le _)]
    exact rebuildAllFrom_zero.mpr rebuilt

end CLL.Rust
