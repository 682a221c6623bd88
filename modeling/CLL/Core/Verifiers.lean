import CLL.Core.Bridge
import CLL.Core.Range
import CLL.Lib.RangeCursor

/-!
# What the proof verifiers accept

The three verifiers on well-typed arguments: the digests of a proof are strings. `Includes`, `Extends` and
`Covers` say what decoded digests prove, and each verifier accepts exactly the proofs whose strings decode
to such digests. They leave open how strings are decoded, in which Python and its ports differ.
-/

namespace CLL.Core
open PostOrder

variable (H : HashFunction)

/-- Leaf `i` of a tree of `n` leaves climbs to its peak, and all peaks bag to the root. -/
def Includes (n i : ℕ) (rootHash bodyDigest : Bytes) (witness peaksLeft peaksRight : List Bytes) : Prop :=
  i < n ∧ ∃ left right d, mountains n = left ++ (d, i / 2 ^ d) :: right ∧ witness.length = d ∧
    peaksLeft.length = left.length ∧ peaksRight.length = right.length ∧
    bag H (peaksLeft ++ climb (nodeHash H) (H.digest (0 :: bodyDigest)) (ascent 0 i d) witness ::
      peaksRight) = rootHash

/-- Peaks of a tree of `m` leaves climb to those of a tree of `n` leaves, and both bag to their roots. -/
structure Extends (m n : ℕ) (rootA rootB : Bytes) (oldPeaks : List Bytes) (witness : List (List Bytes))
    (newPeaks : List Bytes) : Prop where
  le : m ≤ n
  newPeaks_length : newPeaks.length = (mountains n).length
  rootA_eq : bag H oldPeaks = rootA
  rootB_eq : bag H newPeaks = rootB
  bridges : Bridges H n newPeaks (mountains m) oldPeaks witness

/-- The labels of adjacent blocks from the leaves in a range and the labels of the blocks outside. -/
def rebuildAll {α : Type} (lo hi : ℕ) (leaf : ℕ → α) (node : ℕ → α → α → α) :
    List (ℕ × ℕ) → List α → Option (List α × List α)
  | [], ws => some ([], ws)
  | b :: bs, ws => do
    let (peak, ws) ← rebuild lo hi leaf node b.1 b.2 ws
    let (peaks, ws) ← rebuildAll lo hi leaf node bs ws
    some (peak :: peaks, ws)

/-- The digest of leaf `i` of a range that begins at leaf `lo`. -/
def digestAt (lo : ℕ) (bodyDigests : List Bytes) (i : ℕ) : Option Bytes :=
  if lo ≤ i then bodyDigests[i - lo]? else none

/-- The leaves `lo, …, hi` of a tree of `n` leaves rebuild its peaks with the whole witness, and the peaks
bag to the root. -/
def Covers (n lo hi : ℕ) (rootHash : Bytes) (bodyDigests witness : List Bytes) : Prop :=
  lo ≤ hi ∧ hi < n ∧ bodyDigests.length = hi + 1 - lo ∧ ∃ peaks,
    rebuildAll lo hi (rangeLeaf H (digestAt lo bodyDigests)) (nodeHash H) (mountains n) witness =
      some (peaks, []) ∧ bag H peaks = rootHash

variable {H}

section Cursor

variable {α : Type} {lo hi : ℕ} {leaf : ℕ → α} {node : ℕ → α → α → α}

/-- What is left of the witness is a suffix of it. -/
lemma rebuildAll_suffix {bs : List (ℕ × ℕ)} {ws rest out : List α}
    (ok : rebuildAll lo hi leaf node bs ws = some (out, rest)) : rest <:+ ws := by
  induction bs generalizing ws out with
  | nil =>
    cases ok
    exact List.suffix_rfl
  | cons b bs ih =>
    simp only [rebuildAll, Option.bind_eq_bind, Option.bind_eq_some_iff] at ok
    obtain ⟨⟨peak, ws₁⟩, first, ⟨peaks, ws₂⟩, others, e⟩ := ok
    cases e
    exact (ih others).trans (rebuild_suffix first)

/-- `rebuildAll` on the labels behind a cursor, block by block. -/
def rebuildAllFrom (lo hi : ℕ) (leaf : ℕ → α) (node : ℕ → α → α → α) (ws : List α) :
    List (ℕ × ℕ) → ℕ → Option (List α × ℕ)
  | [], cursor => some ([], cursor)
  | b :: bs, cursor =>
    (rebuildFrom lo hi leaf node ws b.1 b.2 cursor).bind fun (peak, cursor) =>
      (rebuildAllFrom lo hi leaf node ws bs cursor).bind fun (peaks, cursor) =>
        some (peak :: peaks, cursor)

/-- Rebuilding with a cursor is rebuilding what is left. -/
lemma rebuildAllFrom_eq {bs : List (ℕ × ℕ)} {ws : List α} {cursor : ℕ} (le : cursor ≤ ws.length) :
    rebuildAllFrom lo hi leaf node ws bs cursor =
      (rebuildAll lo hi leaf node bs (ws.drop cursor)).map
        fun (out, rest) => (out, ws.length - rest.length) := by
  induction bs generalizing cursor with
  | nil =>
    simp [rebuildAllFrom, rebuildAll]
    omega
  | cons b bs ih =>
    rw [rebuildAllFrom, rebuildAll, rebuildFrom]
    cases first : rebuild lo hi leaf node b.1 b.2 (ws.drop cursor) with
    | none => rfl
    | some peak =>
      obtain ⟨peak, rest⟩ := peak
      have suffix : rest <:+ ws := (rebuild_suffix first).trans (List.drop_suffix _ _)
      simp only [Option.map_some, Option.bind_eq_bind, Option.bind_some]
      rw [ih (Nat.sub_le _ _), drop_of_suffix suffix]
      cases rebuildAll lo hi leaf node bs rest with
      | none => rfl
      | some peaks => rfl

/-- The cursor has walked over all labels exactly if none are left. -/
lemma rebuildAllFrom_zero {bs : List (ℕ × ℕ)} {ws out : List α} :
    rebuildAllFrom lo hi leaf node ws bs 0 = some (out, ws.length) ↔
      rebuildAll lo hi leaf node bs ws = some (out, []) := by
  rw [rebuildAllFrom_eq (Nat.zero_le _), List.drop_zero]
  constructor
  · intro walked
    obtain ⟨⟨_, rest⟩, rebuilt, e⟩ := Option.map_eq_some_iff.mp walked
    have short := (rebuildAll_suffix rebuilt).length_le
    obtain ⟨rfl, count⟩ := Prod.mk.inj e
    obtain rfl : rest = [] := List.length_eq_zero_iff.mp (by omega)
    exact rebuilt
  · intro rebuilt
    rw [rebuilt]
    rfl

end Cursor

/-- `_parse_digest_hex` of a string. -/
def parseDigest (s : Str) : Option Bytes :=
  match fromHex s with
  | some b => if b.length = 32 then some b else none
  | none => none

/-- A string is parsed as its digest. -/
lemma parseDigestHex_str {s : Str} {b : Bytes} :
    parseDigestHex (.str s) = .ok b ↔ parseDigest s = some b := by
  unfold parseDigestHex parseDigest
  dsimp only
  cases fromHex s with
  | none => simp
  | some b' =>
    simp only [bind_eq_ok, digestLen]
    by_cases len : b'.length = 32
    · simp [len]
    · simp [len]

/-- Strings are parsed as their digests. -/
lemma parseDigests_str {ss : List Str} {bs : List Bytes} :
    parseDigests (ss.map .str) = .ok bs ↔ ss.mapM parseDigest = some bs := by
  unfold parseDigests
  induction ss generalizing bs with
  | nil => simp
  | cons s ss ih =>
    simp only [List.map_cons, List.mapM_cons, bind_eq_ok, Option.bind_eq_bind, Option.bind_eq_some_iff,
      parseDigestHex_str, ih, pure_eq_ok, Except.ok.injEq, Option.pure_def, Option.some.injEq]

/-- A parsed digest has 32 bytes. -/
lemma length_of_parseDigest {s : Str} {b : Bytes} (ok : parseDigest s = some b) : b.length = 32 := by
  unfold parseDigest at ok
  split at ok
  · split at ok
    · cases ok
      assumption
    · cases ok
  · cases ok

/-- What a parser makes of a list of strings. -/
lemma mapM_eq_some {parse : Str → Option Bytes} (len : ∀ s b, parse s = some b → b.length = 32)
    {ss : List Str} {bs : List Bytes} (ok : ss.mapM parse = some bs) :
    bs.length = ss.length ∧ ∀ b ∈ bs, b.length = 32 := by
  refine ⟨Table.length_of_mapM ok, ?_⟩
  induction ss generalizing bs with
  | nil =>
    cases ok
    simp
  | cons s ss ih =>
    rw [List.mapM_cons, Option.bind_eq_bind, Option.bind_eq_some_iff] at ok
    obtain ⟨b, hb, ok⟩ := ok
    rw [Option.bind_eq_bind, Option.bind_eq_some_iff] at ok
    obtain ⟨bs', hbs, ok⟩ := ok
    cases ok
    exact List.forall_mem_cons.mpr ⟨len s b hb, ih hbs⟩

/-- The verifier accepts exactly the proofs of leaves. -/
theorem verifyInclusion_iff {rootHash bodyDigest : Bytes} (hroot : rootHash.length = 32)
    (hbody : bodyDigest.length = 32) {size i : ℕ} {p : InclusionProof} :
    verifyInclusion H (.bytes rootHash) (.int size) (.int i) (.bytes bodyDigest) p.toObj = true ↔
      p.v = 1 ∧ p.kind = .lit "inclusion" ∧ p.size = size ∧ p.leafIndex = i ∧
        ∃ n w l r, size = nodeCount n ∧ nodeCount n < maxMmrSize ∧ p.witness.mapM parseDigest = some w ∧
          p.peaksLeft.mapM parseDigest = some l ∧ p.peaksRight.mapM parseDigest = some r ∧
          Includes H n i rootHash bodyDigest w l r := by
  constructor
  · intro accept
    obtain ⟨x, hx, computed⟩ := verifyInclusion_eq_true accept
    obtain ⟨-, -, n, j, size_eq, small, index, lt, left, right, d, checked⟩ := checkInclusion_eq_ok hx
    cases index
    have parts : p.v = 1 ∧ p.kind = .lit "inclusion" ∧ p.size = size ∧ p.leafIndex = i ∧
        p.witness.mapM parseDigest = some x.witness ∧ p.peaksLeft.mapM parseDigest = some x.peaksLeft ∧
        p.peaksRight.mapM parseDigest = some x.peaksRight ∧ x.root = rootHash ∧
        x.bodyDigest = bodyDigest := by
      -- The checks in the order in which the source makes them.
      simp only [checkInclusion, bind_eq_ok, ensure_eq_ok, need_eq_ok, assertDigestObj_eq_ok,
        exists_const] at hx
      obtain ⟨_, ⟨hr, -⟩, _, ⟨hb, -⟩, -, _, hv, v, _, hkind, kind, _, hsize, size, hx⟩ := hx
      obtain ⟨_, hindex, index, _, -, -, _, -, -, _, hw, _, ews, _, hl, _, els, _, hr', _, ers, hx⟩ := hx
      obtain ⟨_, -, -, _, -, _, -, _, -, -, -, -, w, pw, l, pl, r, pr, e⟩ := hx
      cases hr; cases hb; cases hv; cases hkind; cases hsize; cases hindex
      cases hw; cases hl; cases hr'; cases ews; cases els; cases ers; cases e
      exact ⟨by simpa using v, by simpa using kind, by simpa using size, by simpa using index,
        parseDigests_str.mp pw, parseDigests_str.mp pl, parseDigests_str.mp pr, rfl, rfl⟩
    obtain ⟨v, kind, size', index', pw, pl, pr, rfl, rfl⟩ := parts
    have len := mapM_eq_some (fun _ _ => length_of_parseDigest) pl
    rw [rootFromPeaks_eq] at computed
    · refine ⟨v, kind, size', index', n, _, _, _, Int.ofNat_inj.mp (Obj.int.inj size_eq), small, pw, pl,
        pr, lt, left, right, d, checked.mountains_eq, checked.length_witness, checked.length_peaksLeft,
        checked.length_peaksRight, ?_⟩
      rw [← checked.path_eq]
      exact Except.ok.inj computed
    · intro q hq
      simp only [List.mem_append, List.mem_cons] at hq
      rcases hq with hq | rfl | hq
      · exact checked.digest_peaksLeft q hq
      · exact length_climb (H.length_digest _) _ _
      · exact checked.digest_peaksRight q hq
  · rintro ⟨v, kind, size', index', n, w, l, r, rfl, small, pw, pl, pr, lt, left, right, d, em, lenw, lenl,
      lenr, bagged⟩
    -- Every check passes for such a path.
    have checked : checkInclusion (.bytes rootHash) (.int (nodeCount n)) (.int i) (.bytes bodyDigest)
        p.toObj = .ok ⟨rootHash, bodyDigest, ascent 0 i d, w, l, r⟩ := by
      obtain ⟨left', right', d', em', found⟩ := exists_mountain lt
      obtain ⟨rfl, e, rfl⟩ := Adjacent.split_unique (em ▸ adjacent_mountains n) (em.symm.trans em') rfl rfl
      obtain ⟨rfl, -⟩ := Prod.mk.inj e
      have hpath : locatePath (PostOrder.root d (i / 2 ^ d)) d (PostOrder.root 0 i) = ascent 0 i d := by
        simpa using locatePath_root 0 i d
      have hcount : leafCountObj (.int (nodeCount n)) = .ok n := leafCount_nodeCount small
      have hpos : leafIndexToPosObj (.int i) = .ok (PostOrder.root 0 i) := leafIndexToPos_of_lt lt small
      have nonneg : (0 : ℤ) ≤ i := Int.natCast_nonneg i
      have range : (0 : ℤ) ≤ nodeCount n ∧ (nodeCount n : ℤ) < maxMmrSize := by omega
      have count : (peakRoots n n.size).length - left.length - 1 = right.length := by
        rw [length_peakRoots_split em]
        omega
      have ew := (mapM_eq_some (fun _ _ => length_of_parseDigest) pw).1
      have el := (mapM_eq_some (fun _ _ => length_of_parseDigest) pl).1
      have er := (mapM_eq_some (fun _ _ => length_of_parseDigest) pr).1
      simp only [checkInclusion, bind_eq_ok, ensure_eq_ok, need_eq_ok, assertDigestObj_eq_ok,
        exists_const]
      refine ⟨rootHash, ⟨rfl, hroot⟩, bodyDigest, ⟨rfl, hbody⟩, rfl, ?_⟩
      refine ⟨_, rfl, by simp [v], _, rfl, by simp [kind], _, rfl, by simp [size'], ?_⟩
      refine ⟨_, rfl, by simp [index'], _, rfl, range, _, rfl, nonneg, ?_⟩
      refine ⟨_, rfl, _, rfl, _, rfl, _, rfl, _, rfl, _, rfl, ?_⟩
      refine ⟨_, hcount, Int.ofNat_lt.mpr lt, _, hpos, _, peaksObj_nodeCount small, _, found, ?_⟩
      rw [getD_peakRoots_split em, heightAt_root, hpath, count]
      refine ⟨by simp [← ew, lenw], by simp [← el, lenl], by simp [← er, lenr], ?_⟩
      exact ⟨_, parseDigests_str.mpr pw, _, parseDigests_str.mpr pl, _, parseDigests_str.mpr pr, rfl⟩
    have mem : (d, i / 2 ^ d) ∈ mountains n := by simp [em]
    have complete : Complete n (0 + d) (i / 2 ^ d) := by
      rw [Nat.zero_add]
      exact mountain_complete_of_mem mem
    have dw := (mapM_eq_some (fun _ _ => length_of_parseDigest) pw).2
    have dl := (mapM_eq_some (fun _ _ => length_of_parseDigest) pl).2
    have dr := (mapM_eq_some (fun _ _ => length_of_parseDigest) pr).2
    have hleaf : (H.digest (0 :: bodyDigest)).length = 32 := H.length_digest _
    have fold := foldPath_eq H hleaf dw (ascent_fits complete small)
    have peaks : ∀ q ∈ l ++ climb (nodeHash H) (H.digest (0 :: bodyDigest)) (ascent 0 i d) w :: r,
        q.length = 32 := by
      intro q hq
      simp only [List.mem_append, List.mem_cons] at hq
      rcases hq with hq | rfl | hq
      · exact dl q hq
      · exact length_climb hleaf _ _
      · exact dr q hq
    rw [verifyInclusion, checked, ok_bind, leafHash_eq H hbody, ok_bind, fold, ok_bind,
      rootFromPeaks_eq H peaks, ok_bind, bagged]
    simp [verdict]

/-- The path of an old peak, from strings. -/
lemma oldPeakPath_iff {n h k : ℕ} (c : Complete n h k) {ss : List Str} {i : ℕ} {path : List PathStep}
    {w : List Bytes} :
    oldPeakPath (peakRoots n n.size) (root h k) (.tuple (ss.map .str)) = .ok (i, path, w) ↔
      findContainingPeak (root h k) (peakRoots n n.size) = some i ∧
        (mountains n)[i]? = some (h + ss.length, k / 2 ^ ss.length) ∧ path = ascent h k ss.length ∧
        ss.mapM parseDigest = some w := by
  obtain ⟨left, right, d, em, found⟩ := findContainingPeak_root c
  have top : (mountains n)[left.length]? = some (h + d, k / 2 ^ d) := by
    rw [em, List.getElem?_append_right le_rfl]
    simp
  simp only [oldPeakPath, found, need_some, ok_bind, getD_peakRoots_split em, heightAt_root,
    locatePath_root, bind_eq_ok, ensure_eq_ok, need_eq_ok, exists_const, Option.some.injEq]
  constructor
  · rintro ⟨_, hss, len, w', parsed, e⟩
    cases hss
    cases e
    rw [List.length_map, length_ascent] at len
    rw [len]
    exact ⟨rfl, top, rfl, parseDigests_str.mp parsed⟩
  · rintro ⟨rfl, top', rfl, parsed⟩
    have len : d = ss.length := by
      have e := (Prod.mk.inj (Option.some.inj (top.symm.trans top'))).1
      omega
    subst len
    exact ⟨_, rfl, by simp, w, parseDigests_str.mpr parsed, rfl⟩

/-- All old peaks climb exactly if the decoded witness is a bridge. -/
lemma climbOldPeaks_iff {n : ℕ} (small : nodeCount n < maxMmrSize) {newPeaks : List Bytes}
    {bs : List (ℕ × ℕ)} (complete : ∀ b ∈ bs, Complete n b.1 b.2) {oldPeaks : List Bytes}
    (digests : ∀ b ∈ oldPeaks, b.length = 32) (lenold : oldPeaks.length = bs.length)
    {ws : List (List Str)} (lenw : ws.length = bs.length) :
    climbOldPeaks H (peakRoots n n.size) newPeaks (bs.map fun b => root b.1 b.2) oldPeaks
        (ws.map fun w => .tuple (w.map .str)) = .ok () ↔
      ∃ witness, ws.mapM (fun w => w.mapM parseDigest) = some witness ∧
        Bridges H n newPeaks bs oldPeaks witness := by
  induction bs generalizing oldPeaks ws with
  | nil =>
    obtain rfl := List.length_eq_zero_iff.mp lenold
    obtain rfl := List.length_eq_zero_iff.mp lenw
    exact ⟨fun _ => ⟨[], rfl, trivial⟩, fun _ => rfl⟩
  | cons b bs ih =>
    cases oldPeaks with
    | nil => cases lenold
    | cons oldPeak oldPeaks =>
      cases ws with
      | nil => cases lenw
      | cons w ws =>
        obtain ⟨h, k⟩ := b
        have c : Complete n h k := complete (h, k) List.mem_cons_self
        have rest := ih (fun b hb => complete b (List.mem_cons_of_mem _ hb))
          (fun b hb => digests b (List.mem_cons_of_mem _ hb)) (by simpa using lenold) (by simpa using lenw)
        have fold {i : ℕ} {bytes : List Bytes}
            (top : (mountains n)[i]? = some (h + w.length, k / 2 ^ w.length))
            (parsed : w.mapM parseDigest = some bytes) :
            foldPath H oldPeak (ascent h k w.length) bytes =
              .ok (climb (nodeHash H) oldPeak (ascent h k w.length) bytes) :=
          foldPath_eq H (digests oldPeak List.mem_cons_self)
            (mapM_eq_some (fun _ _ => length_of_parseDigest) parsed).2
            (ascent_fits (mountain_complete_of_mem (List.mem_of_getElem? top)) small)
        simp only [List.map_cons, climbOldPeaks, List.mapM_cons, bind_eq_ok, ensure_eq_ok, exists_const,
          Option.bind_eq_bind, Option.bind_eq_some_iff, Option.pure_def, Option.some.injEq, Prod.exists,
          oldPeakPath_iff c, rest]
        constructor
        -- The path that was parsed is as long as its texts.
        · rintro ⟨i, path, bytes, ⟨found, top, rfl, parsed⟩, acc, folded, reached, witness, parsed', bridges⟩
          rw [fold top parsed] at folded
          cases folded
          obtain ⟨count, lens⟩ := mapM_eq_some (fun _ _ => length_of_parseDigest) parsed
          refine ⟨bytes :: witness, ⟨bytes, parsed, witness, parsed', rfl⟩, ⟨i, found, ?_, lens, ?_⟩, bridges⟩
          · rw [count]
            exact top
          · rw [count]
            exact reached
        · rintro ⟨_, ⟨bytes, parsed, witness, parsed', rfl⟩, ⟨i, found, top, -, reached⟩, bridges⟩
          obtain ⟨count, -⟩ := mapM_eq_some (fun _ _ => length_of_parseDigest) parsed
          rw [count] at top reached
          exact ⟨i, _, bytes, ⟨found, top, rfl, parsed⟩, _, fold top parsed, reached, witness, parsed',
            bridges⟩

/-- The verifier accepts exactly the proofs that one tree extends another. -/
theorem verifyConsistency_iff {rootA rootB : Bytes} (hA : rootA.length = 32) (hB : rootB.length = 32)
    {a b : ℕ} {p : ConsistencyProof} :
    verifyConsistency H (.bytes rootA) (.int a) (.bytes rootB) (.int b) p.toObj = true ↔
      p.v = 1 ∧ p.kind = .lit "consistency" ∧ p.sizeA = a ∧ p.sizeB = b ∧
        ∃ m n old witness new, a = nodeCount m ∧ b = nodeCount n ∧ nodeCount n < maxMmrSize ∧
          p.oldPeaks.mapM parseDigest = some old ∧
          p.witness.mapM (fun w => w.mapM parseDigest) = some witness ∧
          p.newPeaks.mapM parseDigest = some new ∧ Extends H m n rootA rootB old witness new := by
  constructor
  · intro accept
    obtain ⟨x, hx, ok⟩ := bind_eq_ok.mp (verdict_eq_true.mp accept)
    obtain ⟨-, -, m, n, sizeA_eq, sizeB_eq, le, small, eold, enew, lenold, lennew, lenw, dold, dnew⟩ :=
      checkConsistency_eq_ok hx
    have parts : p.v = 1 ∧ p.kind = .lit "consistency" ∧ p.sizeA = a ∧ p.sizeB = b ∧
        p.oldPeaks.mapM parseDigest = some x.oldPeaks ∧ p.newPeaks.mapM parseDigest = some x.newPeaks ∧
        x.witness = (p.witness.map fun w => .tuple (w.map .str)) ∧ x.rootA = rootA ∧ x.rootB = rootB := by
      -- The checks in the order in which the source makes them.
      simp only [checkConsistency, bind_eq_ok, ensure_eq_ok, need_eq_ok, assertDigestObj_eq_ok,
        exists_const] at hx
      obtain ⟨_, ⟨ha, -⟩, _, ⟨hb, -⟩, -, _, hv, v, _, hkind, kind, _, hsizeA, sizeA, hx⟩ := hx
      obtain ⟨_, hsizeB, sizeB, _, -, -, _, -, -, _, ho, _, eo, _, hn, _, en, _, hw, _, ew, hx⟩ := hx
      obtain ⟨_, -, _, -, -, -, -, old, po, new, pn, e⟩ := hx
      cases ha; cases hb; cases hv; cases hkind; cases hsizeA; cases hsizeB
      cases ho; cases hn; cases hw; cases eo; cases en; cases ew; cases e
      exact ⟨by simpa using v, by simpa using kind, by simpa using sizeA, by simpa using sizeB,
        parseDigests_str.mp po, parseDigests_str.mp pn, rfl, rfl, rfl⟩
    obtain ⟨v, kind, sizeA, sizeB, po, pn, ew, rfl, rfl⟩ := parts
    obtain ⟨computedA, hA', ok⟩ := bind_eq_ok.mp ok
    obtain ⟨_, eA, ok⟩ := bind_eq_ok.mp ok
    obtain ⟨computedB, hB', ok⟩ := bind_eq_ok.mp ok
    obtain ⟨_, eB, ok⟩ := bind_eq_ok.mp ok
    obtain ⟨_, climbs, -⟩ := bind_eq_ok.mp ok
    rw [rootFromPeaks_eq H dold] at hA'
    rw [rootFromPeaks_eq H dnew] at hB'
    cases hA'
    cases hB'
    rw [eold, enew, ew, peakRoots_eq m] at climbs
    obtain ⟨witness, pw, bridges⟩ := (climbOldPeaks_iff small
      (fun b hb => (mountain_complete_of_mem hb).mono le) dold lenold
      (by rwa [ew, List.length_map] at lenw)).mp climbs
    exact ⟨v, kind, sizeA, sizeB, m, n, _, witness, _, Int.ofNat_inj.mp (Obj.int.inj sizeA_eq),
      Int.ofNat_inj.mp (Obj.int.inj sizeB_eq), small, po, pw, pn, le, lennew, ensure_eq_ok.mp eA,
      ensure_eq_ok.mp eB, bridges⟩
  · rintro ⟨v, kind, sizeA, sizeB, m, n, old, witness, new, rfl, rfl, small, po, pw, pn, extends_⟩
    obtain ⟨eo, dold⟩ := mapM_eq_some (fun _ _ => length_of_parseDigest) po
    obtain ⟨en, dnew⟩ := mapM_eq_some (fun _ _ => length_of_parseDigest) pn
    obtain ⟨lenold, lenw⟩ := extends_.bridges.length_eq
    have ew : p.witness.length = (mountains m).length := by
      rw [← lenw]
      exact (Table.length_of_mapM pw).symm
    have le := extends_.le
    have smallm : nodeCount m < maxMmrSize := Nat.lt_of_le_of_lt (forestSize_le le) small
    have sizes : (nodeCount m : ℤ) ≤ nodeCount n := Int.ofNat_le.mpr (forestSize_le le)
    have nonneg : (0 : ℤ) ≤ nodeCount m := Int.natCast_nonneg _
    -- Every check passes for such a bridge.
    have checked : checkConsistency (.bytes rootA) (.int (nodeCount m)) (.bytes rootB)
        (.int (nodeCount n)) p.toObj = .ok ⟨rootA, rootB, peakRoots m m.size, peakRoots n n.size, old, new,
          p.witness.map fun w => .tuple (w.map .str)⟩ := by
      simp only [checkConsistency, bind_eq_ok, ensure_eq_ok, need_eq_ok, assertDigestObj_eq_ok,
        exists_const]
      refine ⟨rootA, ⟨rfl, hA⟩, rootB, ⟨rfl, hB⟩, rfl, ?_⟩
      refine ⟨_, rfl, by simp [v], _, rfl, by simp [kind], _, rfl, by simp [sizeA], ?_⟩
      refine ⟨_, rfl, by simp [sizeB], _, rfl, nonneg, _, rfl, sizes, ?_⟩
      refine ⟨_, rfl, _, rfl, _, rfl, _, rfl, _, rfl, _, rfl, ?_⟩
      refine ⟨_, peaksObj_nodeCount smallm, _, peaksObj_nodeCount small, ?_⟩
      rw [peakRoots_eq m, peakRoots_eq n]
      refine ⟨by simp [← eo, lenold], by simp [← en, extends_.newPeaks_length], by simp [ew], ?_⟩
      exact ⟨_, parseDigests_str.mpr po, _, parseDigests_str.mpr pn, rfl⟩
    have climbs := (climbOldPeaks_iff small (fun b hb => (mountain_complete_of_mem hb).mono le) dold lenold
      ew).mpr ⟨witness, pw, extends_.bridges⟩
    rw [verifyConsistency, checked, ok_bind, rootFromPeaks_eq H dold, ok_bind,
      ensure_of extends_.rootA_eq, ok_bind, rootFromPeaks_eq H dnew, ok_bind, ensure_of extends_.rootB_eq,
      ok_bind, peakRoots_eq m, climbs]
    rfl

/-- The proof as the object a verifier receives. -/
def RangeProof.toObj (p : RangeProof) : Obj :=
  .inst .rangeProof [
    ("v", .int p.v),
    ("kind", .str p.kind),
    ("size", .int p.size),
    ("from_index", .int p.fromIndex),
    ("to_index", .int p.toIndex),
    ("witness", .tuple (p.witness.map .str))]

/-- The peaks that the verifier reconstructs are those that the range rebuilds. -/
lemma rebuildAll_of_reconstructPeaks {lo hi : ℕ} {bodyDigests : ℕ → Option Bytes} {witness : List Bytes}
    {bs : List (ℕ × ℕ)} {start cursor cursor' : ℕ} (adjacent : Adjacent start bs) {out : List Bytes}
    (ok : reconstructPeaks H lo hi bodyDigests witness (bs.map fun b => root b.1 b.2) start cursor =
      .ok (out, cursor')) :
    rebuildAll lo hi (rangeLeaf H bodyDigests) (nodeHash H) bs (witness.drop cursor) =
      some (out, witness.drop cursor') := by
  induction bs generalizing start cursor out with
  | nil =>
    cases ok
    rfl
  | cons b bs ih =>
    obtain ⟨here, adjacent⟩ := adjacent
    simp only [List.map_cons, reconstructPeaks, heightAt_root, ← here] at ok
    obtain ⟨⟨peak, c⟩, hpeak, ok⟩ := bind_eq_ok.mp ok
    obtain ⟨⟨peaks, c'⟩, hpeaks, ok⟩ := bind_eq_ok.mp ok
    cases ok
    rw [← here] at adjacent
    have others := ih adjacent hpeaks
    rw [rebuildAll, (reconstructRangeSubtree_eq_ok hpeak).1, Option.bind_eq_bind, Option.bind_some]
    dsimp only at others ⊢
    rw [others]
    rfl

/-- The peaks that are rebuilt are those of the verifier. -/
lemma reconstructPeaks_of_rebuildAll {lo hi : ℕ} {bodyDigests : ℕ → Option Bytes} {witness : List Bytes}
    (known : ∀ i, lo ≤ i → i ≤ hi → ∃ d, bodyDigests i = some d ∧ d.length = 32)
    (digests : ∀ w ∈ witness, w.length = 32) {n : ℕ} (small : nodeCount n < maxMmrSize)
    {bs : List (ℕ × ℕ)} {start cursor : ℕ} (adjacent : Adjacent start bs)
    (complete : ∀ b ∈ bs, Complete n b.1 b.2) {out rest : List Bytes}
    (rebuilt : rebuildAll lo hi (rangeLeaf H bodyDigests) (nodeHash H) bs (witness.drop cursor) =
      some (out, rest)) :
    ∃ cursor', reconstructPeaks H lo hi bodyDigests witness (bs.map fun b => root b.1 b.2) start cursor =
        .ok (out, cursor') ∧ witness.drop cursor' = rest ∧
      (cursor ≤ witness.length → cursor' ≤ witness.length) := by
  induction bs generalizing start cursor out with
  | nil =>
    cases rebuilt
    exact ⟨cursor, rfl, rfl, id⟩
  | cons b bs ih =>
    obtain ⟨here, adjacent⟩ := adjacent
    rw [← here] at adjacent
    rw [rebuildAll, Option.bind_eq_bind, Option.bind_eq_some_iff] at rebuilt
    obtain ⟨⟨peak, ws⟩, first, rebuilt⟩ := rebuilt
    rw [Option.bind_eq_bind, Option.bind_eq_some_iff] at rebuilt
    obtain ⟨⟨peaks, ws'⟩, others, rebuilt⟩ := rebuilt
    cases rebuilt
    obtain ⟨c1, ok1, rfl, b1⟩ :=
      reconstructRangeSubtree_eq known digests (complete b List.mem_cons_self) small first
    obtain ⟨c2, ok2, e2, b2⟩ := ih adjacent (fun b hb => complete b (List.mem_cons_of_mem _ hb)) others
    refine ⟨c2, ?_, e2, fun le => b2 (b1 le)⟩
    simp only [List.map_cons, reconstructPeaks, heightAt_root, ← here]
    rw [ok1, ok_bind]
    dsimp only
    rw [ok2, ok_bind]

/-- Rebuilt peaks are digests. -/
lemma length_rebuildAll {lo hi : ℕ} {leaf : ℕ → Bytes} (hleaf : ∀ i, (leaf i).length = 32)
    {bs : List (ℕ × ℕ)} {ws rest out : List Bytes} (hws : ∀ w ∈ ws, w.length = 32)
    (rebuilt : rebuildAll lo hi leaf (nodeHash H) bs ws = some (out, rest)) : ∀ p ∈ out, p.length = 32 := by
  induction bs generalizing ws out with
  | nil =>
    cases rebuilt
    simp
  | cons b bs ih =>
    rw [rebuildAll, Option.bind_eq_bind, Option.bind_eq_some_iff] at rebuilt
    obtain ⟨⟨peak, ws'⟩, first, rebuilt⟩ := rebuilt
    rw [Option.bind_eq_bind, Option.bind_eq_some_iff] at rebuilt
    obtain ⟨⟨peaks, ws''⟩, others, rebuilt⟩ := rebuilt
    cases rebuilt
    obtain ⟨len, hws', -⟩ := forall_rebuild (P := fun p : Bytes => p.length = 32) (fun i _ _ => hleaf i)
      (length_nodeHash H) hws first
    exact List.forall_mem_cons.mpr ⟨len, ih hws' others⟩

/-- Byte strings hold themselves. -/
lemma map_digest?_bytes (ds : List Bytes) : (ds.map Obj.bytes).map Obj.digest? = ds.map some := by
  rw [List.map_map]
  rfl

/-- The verifier accepts exactly the proofs of ranges. -/
theorem verifyRange_iff {rootHash : Bytes} (hroot : rootHash.length = 32) {ds : List Bytes}
    (hds : ∀ d ∈ ds, d.length = 32) {size lo hi : ℕ} {p : RangeProof} :
    verifyRange H (.bytes rootHash) (.int size) (.int lo) (.int hi) (.list (ds.map .bytes)) p.toObj = true ↔
      p.v = 1 ∧ p.kind = .lit "range" ∧ p.size = size ∧ p.fromIndex = lo ∧ p.toIndex = hi ∧
        ∃ n w, size = nodeCount n ∧ nodeCount n < maxMmrSize ∧ p.witness.mapM parseDigest = some w ∧
          Covers H n lo hi rootHash ds w := by
  constructor
  · intro accept
    obtain ⟨x, hx, ok⟩ := bind_eq_ok.mp (verdict_eq_true.mp accept)
    obtain ⟨⟨peaks, cursor⟩, reconstructed, ok⟩ := bind_eq_ok.mp ok
    obtain ⟨_, consumed, ok⟩ := bind_eq_ok.mp ok
    obtain ⟨computed, bagged, ok⟩ := bind_eq_ok.mp ok
    -- The checks in the order in which the source makes them.
    simp only [checkRange, bind_eq_ok, ensure_eq_ok, need_eq_ok, assertDigestObj_eq_ok,
      assertDigests_eq_ok, exists_const] at hx
    obtain ⟨_, ⟨hr, -⟩, -, _, hv, v, _, hkind, kind, _, hsize, size', _, hfrom, from_, hx⟩ := hx
    obtain ⟨_, hto, to_, _, hs, range, _, ha, _, hb, order, _, hw, _, ew, _, hd, count, hx⟩ := hx
    obtain ⟨n, hn, lt, bs, ⟨eq, -⟩, hs', parsed, pks, hpks, e⟩ := hx
    cases hr; cases hv; cases hkind; cases hsize; cases hfrom; cases hto; cases hs; cases ha; cases hb
    cases hw; cases ew; cases hd; cases e
    obtain ⟨small, size_eq⟩ := leafCountObj_eq_ok hn
    obtain rfl : size = nodeCount n := Int.ofNat_inj.mp (Obj.int.inj size_eq)
    rw [peaksObj_nodeCount small] at hpks
    cases hpks
    obtain rfl : ds = bs :=
      List.map_injective_iff.mpr (Option.some_injective _) ((map_digest?_bytes ds).symm.trans eq)
    simp only [Int.toNat_natCast] at reconstructed
    rw [peakRoots_eq] at reconstructed
    have rebuilt := rebuildAll_of_reconstructPeaks (adjacent_mountains n) reconstructed
    rw [ensure_eq_ok.mp consumed, List.drop_length, List.drop_zero] at rebuilt
    have parsed := parseDigests_str.mp parsed
    have len := length_rebuildAll (fun _ => H.length_digest _)
      (mapM_eq_some (fun _ _ => length_of_parseDigest) parsed).2 rebuilt
    rw [rootFromPeaks_eq H len] at bagged
    cases bagged
    rw [List.length_map] at count
    exact ⟨by simpa using v, by simpa using kind, by simpa using size', by simpa using from_,
      by simpa using to_, n, _, rfl, small, parsed, by omega, by omega, by omega, peaks, rebuilt,
      by simpa using ok⟩
  · rintro ⟨v, kind, size', from_, to_, n, w, rfl, small, parsed, le, lt, count, peaks, rebuilt, bagged⟩
    have hcount : leafCountObj (.int (nodeCount n)) = .ok n := leafCount_nodeCount small
    have size : (0 : ℤ) ≤ nodeCount n ∧ (nodeCount n : ℤ) < maxMmrSize := by omega
    have range : (0 : ℤ) ≤ lo ∧ (lo : ℤ) ≤ hi := by omega
    have inside : (hi : ℤ) < n := by omega
    have dw := (mapM_eq_some (fun _ _ => length_of_parseDigest) parsed).2
    have checked : checkRange (.bytes rootHash) (.int (nodeCount n)) (.int lo) (.int hi)
        (.list (ds.map .bytes)) p.toObj = .ok ⟨rootHash, lo, hi, ds, w, peakRoots n n.size⟩ := by
      simp only [checkRange, bind_eq_ok, ensure_eq_ok, need_eq_ok, assertDigestObj_eq_ok,
        assertDigests_eq_ok, exists_const]
      refine ⟨rootHash, ⟨rfl, hroot⟩, rfl, ?_⟩
      refine ⟨_, rfl, by simp [v], _, rfl, by simp [kind], _, rfl, by simp [size'], _, rfl,
        by simp [from_], ?_⟩
      refine ⟨_, rfl, by simp [to_], _, rfl, size, _, rfl, _, rfl, range, _, rfl, _, rfl, _, rfl, ?_⟩
      rw [List.length_map]
      exact ⟨by omega, n, hcount, inside, ds, ⟨map_digest?_bytes ds, hds⟩, w, parseDigests_str.mpr parsed,
        _, peaksObj_nodeCount small, rfl⟩
    have known : ∀ i, lo ≤ i → i ≤ hi → ∃ d, digestAt lo ds i = some d ∧ d.length = 32 := by
      intro i ge le'
      have inRange : i - lo < ds.length := by omega
      exact ⟨ds[i - lo], by rw [digestAt, if_pos ge, List.getElem?_eq_getElem inRange],
        hds _ (List.getElem_mem inRange)⟩
    obtain ⟨cursor, reconstructed, rest, bound⟩ := reconstructPeaks_of_rebuildAll known dw small
      (adjacent_mountains n) (fun b hb => mountain_complete_of_mem hb)
      (show rebuildAll lo hi _ _ _ (w.drop 0) = _ from rebuilt)
    -- No witness is left over.
    have consumed : cursor = w.length := by
      have := List.drop_eq_nil_iff.mp rest
      have := bound (Nat.zero_le _)
      omega
    rw [← peakRoots_eq] at reconstructed
    have len := length_rebuildAll (fun _ => H.length_digest _) dw rebuilt
    rw [verifyRange, checked, ok_bind]
    change verdict (reconstructPeaks H lo hi (digestAt lo ds) w (peakRoots n n.size) 0 0 >>= _) = true
    rw [reconstructed, ok_bind]
    dsimp only
    rw [ensure_of consumed, ok_bind, rootFromPeaks_eq H len, ok_bind, bagged]
    simp [verdict]

end CLL.Core
