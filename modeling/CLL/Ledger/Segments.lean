import CLL.Core.Suffix
import CLL.Ledger.Index
import CLL.Lib.Text

/-!
# Segments

The manifests of `ledger/segments.py` and `verify_segment`, which checks the bytes of one closed segment
against its own manifest.

`verifySegment_eq_true` lists what it checks. `segmentDigests_eq_iff` is what acceptance says about a log
whose root the manifest names: nothing compares the declared `mmr_size` with the size of the range proof,
and a root does not commit a size, so one record may be accepted at a place where it does not stand.
-/

namespace CLL.Ledger
open CLL.Core PostOrder

/-- `SegmentManifest`. -/
structure SegmentManifest where
  logId : Str
  firstSeq : ℤ
  lastSeq : ℤ
  firstTs : Option Str
  lastTs : Option Str
  checkpointRoot : Str
  mmrSize : ℤ
  bytes : ℤ
  recordCount : ℤ
  sha256OfSegment : Str
  rangeProof : RangeProof

/-- `SegmentEntry`. -/
structure SegmentEntry where
  name : Str
  mounted : Bool
  manifest : Option Str
  checkpointRoot : Option Str
  mmrSize : Option ℤ
  deriving DecidableEq

/-- `StoreManifest`. -/
structure StoreManifest where
  logId : Str
  activeSegment : Option Str
  segments : List SegmentEntry
  deriving DecidableEq

/-- `StoreManifest.entry`. -/
def StoreManifest.entry (m : StoreManifest) (name : Str) : Option SegmentEntry :=
  m.segments.find? fun s => s.name = name

/-- `manifest_filename`. -/
def manifestFilename (logId : Str) (mmrSize : ℤ) : Str :=
  logId ++ 45 :: (Json.dumpInt mmrSize ++ Str.lit ".manifest.json")

/-- `segment_bytes.decode("utf-8")`. -/
def decodeUtf8 (b : Bytes) : Py Str :=
  match Utf8.decode b with
  | some s => .ok s
  | none => raise .valueError "'utf-8' codec can't decode"

/-- `json.loads`. -/
def loads (line : Str) : Py Json :=
  match Json.loads line with
  | some j => .ok j
  | none => raise .valueError "not JSON"

variable (H : HashFunction) (aac : Aac)

/-- `bytes.fromhex(record.get(id_field) or compute_capsule_id(record))`. -/
def recordDigest (record : Json) : Py Bytes :=
  match record with
  | .obj fields => do
    match ← carriedOrComputed aac fields with
    | .str id => fromHexStr id
    | _ => raise .typeError "fromhex() argument must be str"
  | _ => raise .attributeError "object has no attribute 'get'"

/-- The lines of a segment that `verify_segment` reads. -/
def segmentLines (text : Str) : List Str :=
  (Text.splitlines text).filter fun line => !Text.isBlank line

/-- The digests of the records on the lines. -/
def lineDigests (lines : List Str) : Py (List Bytes) := do
  let records ← lines.mapM loads
  records.mapM (recordDigest aac)

/-- The body of `verify_segment`. -/
def checkSegment (segmentBytes : Bytes) (m : SegmentManifest) : Py (Bool × List Str) :=
  let digest := toHex (H.digest segmentBytes)
  if digest ≠ m.sha256OfSegment then
    .ok (false, [Str.lit "segment digest " ++ digest ++
      Str.lit " does not match manifest sha256_of_segment " ++ m.sha256OfSegment ++
      Str.lit " -- segment bytes have changed"])
  else do
    let text ← decodeUtf8 segmentBytes
    let lines := segmentLines text
    if (lines.length : ℤ) ≠ m.recordCount then
      .ok (false, [Str.lit
        s!"segment holds {lines.length} records, manifest declares record_count={m.recordCount}"])
    else if m.lastSeq - m.firstSeq + 1 ≠ m.recordCount then
      .ok (false, [Str.lit (s!"manifest seq range [{m.firstSeq}, {m.lastSeq}] is not " ++
        s!"{m.recordCount} records wide")])
    else do
      let bodyDigests ← lineDigests aac lines
      let root ← fromHexStr m.checkpointRoot
      if verifyRange H root m.firstSeq m.lastSeq bodyDigests m.rangeProof then .ok (true, [])
      else
        .ok (false, [Str.lit
          "range proof does not verify every record in the segment against checkpoint_root=" ++
          m.checkpointRoot ++ Str.lit s!" at mmr_size={m.mmrSize}"])

/-- `verify_segment`. -/
def verifySegment (segmentBytes : Bytes) (m : SegmentManifest) : Bool × List Str :=
  match checkSegment H aac segmentBytes m with
  | .ok r => r
  | .error e => (false, [Str.lit ("unexpected error verifying segment: " ++ e.text)])

/-- The digests of the records that `verify_segment` reads out of a segment. -/
def segmentDigests (segmentBytes : Bytes) : Py (List Bytes) := do
  let text ← decodeUtf8 segmentBytes
  lineDigests aac (segmentLines text)

/-- The strings `verify_segment` hashes for its range proof. -/
def verifySegmentHashed (segmentBytes : Bytes) (m : SegmentManifest) : List Bytes :=
  match segmentDigests aac segmentBytes, fromHex m.checkpointRoot with
  | .ok bodyDigests, some root =>
    verifyRangeHashed H root m.firstSeq m.lastSeq bodyDigests m.rangeProof
  | _, _ => []

variable {H aac}

/-- Decoding returns the text of the bytes. -/
lemma decodeUtf8_eq_ok {b : Bytes} {s : Str} : decodeUtf8 b = .ok s ↔ Utf8.decode b = some s := by
  unfold decodeUtf8
  split
  · rename_i e
    simp [e]
  · rename_i e
    simp [e]

/-- Loading returns the value of the line. -/
lemma loads_eq_ok {line : Str} {j : Json} : loads line = .ok j ↔ Json.loads line = some j := by
  unfold loads
  split
  · rename_i e
    simp [e]
  · rename_i e
    simp [e]

/-- What `verify_segment` checks. -/
lemma verifySegment_eq_true {b : Bytes} {m : SegmentManifest} :
    verifySegment H aac b m = (true, []) ↔
      toHex (H.digest b) = m.sha256OfSegment ∧
        ∃ text digests root, Utf8.decode b = some text ∧
          ((segmentLines text).length : ℤ) = m.recordCount ∧
          m.lastSeq - m.firstSeq + 1 = m.recordCount ∧ lineDigests aac (segmentLines text) = .ok digests ∧
          fromHex m.checkpointRoot = some root ∧
          verifyRange H root m.firstSeq m.lastSeq digests m.rangeProof = true := by
  have body : verifySegment H aac b m = (true, []) ↔ checkSegment H aac b m = .ok (true, []) := by
    unfold verifySegment
    split
    · rename_i e
      rw [e, Except.ok.injEq]
    · rename_i e
      rw [e]
      simp
  rw [body]
  unfold checkSegment
  dsimp only
  by_cases sha : toHex (H.digest b) = m.sha256OfSegment
  · rw [if_neg (not_not.mpr sha)]
    simp only [bind_eq_ok, decodeUtf8_eq_ok]
    constructor
    · rintro ⟨text, htext, ok⟩
      split at ok
      · simp at ok
      · rename_i count
        split at ok
        · simp at ok
        · rename_i width
          obtain ⟨digests, hdigests, ok⟩ := bind_eq_ok.mp ok
          obtain ⟨root, hroot, ok⟩ := bind_eq_ok.mp ok
          split at ok
          · rename_i range
            exact ⟨sha, text, digests, root, htext, not_not.mp count, not_not.mp width, hdigests,
              fromHexStr_eq_ok.mp hroot, range⟩
          · simp at ok
    · rintro ⟨-, text, digests, root, htext, count, width, hdigests, hroot, range⟩
      refine ⟨text, htext, ?_⟩
      rw [if_neg (not_not.mpr count), if_neg (not_not.mpr width), hdigests, ok_bind,
        fromHexStr_eq_ok.mpr hroot, ok_bind, if_pos range]
  · rw [if_pos sha]
    simp [sha]

/-- Acceptance reports no errors. -/
lemma verifySegment_fst {b : Bytes} {m : SegmentManifest} :
    (verifySegment H aac b m).1 = true ↔ verifySegment H aac b m = (true, []) := by
  constructor
  · intro accepted
    have sound {r : Bool × List Str} (ok : checkSegment H aac b m = .ok r) (t : r.1 = true) :
        r = (true, []) := by
      unfold checkSegment at ok
      dsimp only at ok
      split at ok
      · cases ok
        cases t
      · obtain ⟨text, -, ok⟩ := bind_eq_ok.mp ok
        split at ok
        · cases ok
          cases t
        · split at ok
          · cases ok
            cases t
          · obtain ⟨digests, -, ok⟩ := bind_eq_ok.mp ok
            obtain ⟨root, -, ok⟩ := bind_eq_ok.mp ok
            split at ok
            · exact (Except.ok.inj ok).symm
            · cases ok
              cases t
    unfold verifySegment at accepted ⊢
    split at accepted
    · rename_i r e
      exact sound e accepted
    · cases accepted
  · intro e
    rw [e]

/-- What the two layers of `verify_range` check before they hash. -/
lemma verifyRange_eq_true {root : Bytes} {fromSeq toSeq : ℤ} {bodyDigests : List Bytes}
    {proof : RangeProof} (accepted : verifyRange H root fromSeq toSeq bodyDigests proof = true) :
    ∃ lo hi : ℕ, fromSeq = lo + 1 ∧ toSeq = hi + 1 ∧ lo ≤ hi ∧ nodeCount (hi + 1) < maxMmrSize ∧
      proof.size = nodeCount (hi + 1) ∧ proof.fromIndex = lo ∧ proof.toIndex = hi ∧
      root.length = 32 ∧ bodyDigests.length = hi + 1 - lo ∧
      (∀ d ∈ bodyDigests, d.length = 32) ∧ ∃ witness, parseDigests proof.witness = .ok witness ∧
        Core.verifyRange H (.bytes root) (.int (nodeCount (hi + 1))) (.int lo) (.int hi)
          (.list (bodyDigests.map .bytes))
          (rangeProofObj (nodeCount (hi + 1)) lo hi (.tuple proof.witness)) = true := by
  obtain ⟨_, bounds, ok⟩ := bind_eq_ok.mp (verdict_eq_true.mp accepted)
  obtain ⟨_, order, ok⟩ := bind_eq_ok.mp ok
  obtain ⟨lc, hlc, ok⟩ := bind_eq_ok.mp ok
  obtain ⟨_, last, ok⟩ := bind_eq_ok.mp ok
  have core := Except.ok.inj ok
  have order := ensure_eq_ok.mp order
  have last := ensure_eq_ok.mp last
  obtain ⟨small, size⟩ := leafCountObj_eq_ok hlc
  have size := Obj.int.inj size
  obtain ⟨lo, hlo⟩ : ∃ lo : ℕ, fromSeq = lo + 1 := ⟨(fromSeq - 1).toNat, by omega⟩
  obtain ⟨hi, hhi⟩ : ∃ hi : ℕ, toSeq = hi + 1 := ⟨(toSeq - 1).toNat, by omega⟩
  obtain rfl : lc = hi + 1 := by omega
  subst hlo hhi
  rw [size, add_sub_cancel_right, add_sub_cancel_right] at core
  have checked := core
  obtain ⟨x, hx, -⟩ := bind_eq_ok.mp (verdict_eq_true.mp checked)
  simp only [checkRange, bind_eq_ok, ensure_eq_ok, need_eq_ok, assertDigestObj_eq_ok,
    assertDigests_eq_ok, exists_const] at hx
  obtain ⟨r, ⟨hr, len⟩, -, v, -, -, kind, -, -, psize, -, -, f, hf, ef, t, ht, et, hx⟩ := hx
  obtain ⟨s, -, -, a, ha, b, hb, -, w, hw, ws, hws, ds, hds, count, n, -, -, bs, ⟨eq, lens⟩, hx⟩ := hx
  obtain ⟨hs, hhs, -⟩ := hx
  cases hr
  cases hf
  cases ht
  cases ha
  cases hb
  cases hw
  cases hws
  cases hds
  simp only [Obj.eq_int, beq_iff_eq] at ef et
  rw [ef, et] at core
  rw [List.length_map] at count
  have bodies : bodyDigests = bs := by
    rw [List.map_map] at eq
    exact List.map_injective_iff.mpr (Option.some_injective _) eq
  refine ⟨lo, hi, rfl, rfl, by omega, small, size, ef, et, len, by omega, ?_, hs, hhs, core⟩
  rw [bodies]
  exact lens

/-- Accepted against the root of the first `n + 1` records of a log, a segment holds the records that its
manifest names exactly if the last of them is the record that the root ends with. -/
lemma segmentDigests_eq_iff {digests : List Digest} {nodes : List Bytes} {n : ℕ} {root : Bytes}
    (build : addDigests H [] digests = .ok nodes) (lt : n < digests.length)
    (committed : rootAt H nodes (nodeCount (n + 1)) = .ok root) {b : Bytes} {m : SegmentManifest}
    (hroot : fromHex m.checkpointRoot = some root)
    (inj : Set.InjOn H.digest {s | s ∈ storeHashed digests nodes ∨
      s ∈ rootAtHashed H nodes (nodeCount (n + 1)) ∨ s ∈ verifySegmentHashed H aac b m})
    (accepted : (verifySegment H aac b m).1 = true) :
    segmentDigests aac b = .ok (rangeOf digests (m.firstSeq - 1).toNat (m.lastSeq - 1).toNat) ↔
      digests[(m.lastSeq - 1).toNat]? = digests[n]? := by
  have mmr := IsMmr.of_addDigests build
  have len := length_of_mem_leaves H digests
  have le : n + 1 ≤ (leaves H digests).length := by rwa [length_leaves]
  have small : nodeCount (n + 1) < maxMmrSize := by
    obtain ⟨hashes, hh, -⟩ := bind_eq_ok.mp committed
    obtain ⟨pks, hp, -⟩ := bind_eq_ok.mp hh
    exact (peaks_eq_ok hp).1
  rw [mmr.rootAt len le small] at committed
  rw [mmr.rootAtHashed le small] at inj
  obtain ⟨-, text, ds, root', htext, -, -, hds, hroot', range⟩ :=
    verifySegment_eq_true.mp (verifySegment_fst.mp accepted)
  obtain rfl : root = root' := by rw [hroot] at hroot'; exact Option.some.inj hroot'
  have read : segmentDigests aac b = .ok ds := by
    rw [segmentDigests, decodeUtf8_eq_ok.mpr htext, ok_bind, hds]
  obtain ⟨lo, hi, efirst, elast, order, small', size, efrom, eto, hlen, count, lens, witness, hwitness,
    core⟩ := verifyRange_eq_true range
  obtain ⟨x, hx, ok⟩ := bind_eq_ok.mp (verdict_eq_true.mp core)
  obtain ⟨⟨peaks, cursor⟩, hpeaks, ok⟩ := bind_eq_ok.mp ok
  obtain ⟨_, hcursor, ok⟩ := bind_eq_ok.mp ok
  obtain ⟨computed, hcomputed, ok⟩ := bind_eq_ok.mp ok
  have e : computed = x.root := by simpa using ok
  obtain ⟨ds', ws, bs, hs, hds', hws, -, eq, -, hhs, rfl⟩ :=
    (checkRange_eq_ok small' order (Nat.lt_succ_self hi) hlen).mp hx
  cases hds'
  cases hws
  obtain rfl : bs = ds := by
    rw [List.map_map] at eq
    exact (List.map_injective_iff.mpr (Option.some_injective _) eq).symm
  -- The strings hashed by this run are those that the hash is injective on.
  have hashed : verifySegmentHashed H aac b m = Core.verifyRangeHashed H (.bytes root)
      (.int (nodeCount (hi + 1))) (.int lo) (.int hi) (.list (bs.map .bytes))
      (rangeProofObj (nodeCount (hi + 1)) lo hi (.tuple m.rangeProof.witness)) := by
    simp only [verifySegmentHashed, read, hroot, verifyRangeHashed, efirst, elast, size, efrom, eto,
      add_sub_cancel_right]
  obtain ⟨S, injective, inStore, inRoot, inSegment⟩ : ∃ S, Set.InjOn H.digest S ∧
      (∀ s ∈ storeHashed digests nodes, s ∈ S) ∧
      (∀ s ∈ rootFromPeaksHashed H (mountainHashes H (leaves H digests) (n + 1)), s ∈ S) ∧
      ∀ s ∈ verifySegmentHashed H aac b m, s ∈ S :=
    ⟨_, inj, fun s hs => .inl hs, fun s hs => .inr (.inl hs), fun s hs => .inr (.inr hs)⟩
  rw [hashed] at inSegment
  simp only [Core.verifyRangeHashed, hx, hpeaks] at inSegment
  have inLeaves : ∀ d ∈ bs, 0 :: d ∈ S := fun d hd =>
    inSegment _ (List.mem_append_left _ (List.mem_append_left _ (List.mem_map_of_mem hd)))
  have inRun : ∀ s ∈ reconstructPeaksHashed H lo hi
      (RangeInput.digestByIndex ⟨root, lo, hi, bs, hs, peakRoots (hi + 1) (hi + 1).size⟩) hs
      (peakRoots (hi + 1) (hi + 1).size) 0 0, s ∈ S := fun s hs =>
    inSegment s (List.mem_append_left _ (List.mem_append_right _ hs))
  have inPeaks : ∀ s ∈ rootFromPeaksHashed H peaks, s ∈ S := fun s hs =>
    inSegment s (List.mem_append_right _ hs)
  have hcomputed : rootFromPeaks H peaks = .ok root := by rw [hcomputed, e]
  have roots := Except.ok.inj committed
  have cases := suffix_cases mmr injective inStore (Nat.succ_pos n) lt small inRoot
    (x := ⟨root, lo, hi, bs, hs, peakRoots (hi + 1) (hi + 1).size⟩) order rfl small' rfl roots.symm count
    (parseDigests_eq_ok hhs).2 inLeaves inRun hpeaks inPeaks hcomputed
  dsimp only at cases
  rw [read, efirst, elast, add_sub_cancel_right, add_sub_cancel_right, Int.toNat_natCast,
    Int.toNat_natCast, Except.ok.injEq]
  -- Either the range ends at the committed leaf, or it is one leaf under another index.
  rcases cases with same | ⟨single, only⟩
  · obtain rfl : hi = n := by omega
    have sound := verifyRange_sound mmr injective inStore lt inRoot
      (x := ⟨root, lo, hi, bs, hs, peakRoots (hi + 1) (hi + 1).size⟩) (Nat.lt_succ_self hi) rfl
      roots.symm count (parseDigests_eq_ok hhs).2 inLeaves inRun hpeaks (ensure_eq_ok.mp hcursor) inPeaks
      hcomputed
    exact iff_of_true sound.2 rfl
  · subst single
    have own : bs = rangeOf digests lo lo ↔ (digests[lo]?.map (·.1)) = some digests[n].1 := by
      rw [only]
      have one : rangeOf digests lo lo = (digests[lo]?.map (·.1)).toList := by
        rw [rangeOf, Nat.add_sub_cancel_left]
        by_cases inside : lo < digests.length
        · rw [List.drop_eq_getElem_cons inside, List.getElem?_eq_getElem inside]
          rfl
        · rw [List.drop_eq_nil_of_le (by omega), List.getElem?_eq_none (by omega)]
          rfl
      rw [one]
      cases digests[lo]? with
      | none => simp
      | some d => simp [eq_comm]
    rw [own, List.getElem?_eq_getElem lt]
    cases digests[lo]? with
    | none => simp
    | some d => simp [Subtype.ext_iff]

end CLL.Ledger
