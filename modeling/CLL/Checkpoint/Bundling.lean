import CLL.Checkpoint.Bundle

/-!
# Bundles of a log

`bundle` of `checkpoint/bundle.py` over the entries of a log, some of which are the stamps of its
checkpoints. `bundle_complete` says that every record that a checkpoint covers gets a bundle, which the
verifier accepts, and every other record an error.
-/

namespace CLL.Checkpoint
open CLL.Core PostOrder
open CLL.Ledger (Fields truthy)

/-- The keyword arguments of `bundle`. -/
structure Layout where
  idField : Str
  kindField : Str
  nonLeafKinds : List Str
  stampKind : Str

variable (E : Evidence) (H : HashFunction) (L : Layout)

/-- `d[key]`. -/
def member (d : Fields) (key : Str) : Py Json :=
  match Json.get? d key with
  | some value => .ok value
  | none => raise .keyError "missing key"

/-- `int(value)`. -/
def jsonInt : Json → Py ℤ
  | .int n => .ok n
  | value => E.intOf value

/-- A field declared as `str`. `from_dict` would keep a value of another type as it is. -/
def jsonStr : Json → Py Str
  | .str s => .ok s
  | _ => raise .typeError "not a str"

/-- `WitnessRecord.from_dict`. -/
def WitnessRecord.fromDict : Json → Py WitnessRecord
  | .obj d => do
    let tsUrl ← jsonStr (← member d (Str.lit "ts_url"))
    let entryHash ← jsonStr (← member d (Str.lit "entry_hash"))
    let receiptB64 ← jsonStr (← member d (Str.lit "receipt_b64"))
    let leafIndex ← jsonInt E (← member d (Str.lit "leaf_index"))
    let treeSize ← jsonInt E (← member d (Str.lit "tree_size"))
    .ok ⟨tsUrl, entryHash, receiptB64, leafIndex, treeSize,
      truthy ((Json.get? d (Str.lit "is_stub")).getD (.bool false))⟩
  | _ => raise .typeError "not a dict"

/-- The `witnesses` of `CheckpointRecord.from_dict`. -/
def witnessesOf (d : Fields) : Py (List WitnessRecord) :=
  match (Json.get? d (Str.lit "witnesses")).getD (.arr []) with
  | .arr ws => ws.mapM (WitnessRecord.fromDict E)
  | _ => raise .typeError "not a list"

/-- `CheckpointRecord.from_dict`. -/
def CheckpointRecord.fromDict : Json → Py CheckpointRecord
  | .obj d => do
    let witnesses ← witnessesOf E d
    let v ← jsonInt E (← member d (Str.lit "v"))
    let kind ← jsonStr (← member d (Str.lit "kind"))
    let logId ← jsonStr (← member d (Str.lit "log_id"))
    let mmrSize ← jsonInt E (← member d (Str.lit "mmr_size"))
    let root ← jsonStr (← member d (Str.lit "root"))
    let prevSize ← jsonInt E (← member d (Str.lit "prev_size"))
    let prevRoot ← jsonStr ((Json.get? d (Str.lit "prev_root")).getD (.str []))
    let keyId ← jsonStr (← member d (Str.lit "key_id"))
    let timestamp ← jsonStr (← member d (Str.lit "timestamp"))
    let signature ← jsonStr (← member d (Str.lit "signature"))
    .ok ⟨v, kind, logId, mmrSize, root, prevSize, prevRoot, keyId, timestamp, signature, witnesses⟩
  | _ => raise .attributeError "not a dict"

/-- `e.get(kind_field) in non_leaf_kinds`. -/
def isNonLeaf (e : Fields) : Py Bool :=
  match Json.get? e L.kindField with
  | some (.str kind) => .ok (L.nonLeafKinds.contains kind)
  | some (.arr _) | some (.obj _) => raise .typeError "unhashable type"
  | _ => .ok false

/-- `e.get(id_field) == record_id`. -/
def hasId (e : Fields) (recordId : Str) : Bool :=
  match Json.get? e L.idField with
  | some (.str s) => s == recordId
  | _ => false

/-- `str(e.get(id_field, ""))`. -/
def idText (e : Fields) : Str :=
  match Json.get? e L.idField with
  | none => []
  | some (.str s) => s
  | some value => E.strOf value

/-- The record id names the entry, in full or by a prefix. -/
def matchesId (recordId : Str) (e : Fields) : Bool :=
  hasId L e recordId || (8 ≤ recordId.length && recordId.isPrefixOf (idText E L e))

/-- The `matches` of `_find_record` among the entries from the `i`-th on. -/
def matchesFrom (recordId : Str) (i : ℕ) : List Fields → Py (List ℕ)
  | [] => .ok []
  | e :: entries => do
    let nonLeaf ← isNonLeaf L e
    let rest ← matchesFrom recordId (i + 1) entries
    .ok (if !nonLeaf && matchesId E L recordId e then i :: rest else rest)

/-- The choice among the matches. -/
def chooseMatch (entries : List Fields) (recordId : Str) (found : List ℕ) : Py ℕ :=
  match found.filter fun i => (entries[i]?.map fun e => hasId L e recordId).getD false with
  | i :: _ => .ok i
  | [] =>
    match found with
    | [] => raise .bundle "no record matches"
    | [i] => .ok i
    | _ => raise .bundle s!"prefix matches {found.length} records — use more characters"

/-- `_find_record`. -/
def findRecord (entries : List Fields) (recordId : Str) : Py ℕ := do
  let found ← matchesFrom E L recordId 0 entries
  chooseMatch L entries recordId found

/-- `e.get(kind_field) == stamp_kind`. -/
def isStamp (e : Fields) : Bool :=
  match Json.get? e L.kindField with
  | some (.str kind) => kind == L.stampKind
  | _ => false

/-- `CheckpointRecord.from_dict(e["checkpoint"])`. -/
def stampedCheckpoint (e : Fields) : Py CheckpointRecord := do
  let d ← member e (Str.lit "checkpoint")
  CheckpointRecord.fromDict E d

/-- `next((cp for cp in checkpoints if leaf_count(cp.mmr_size) >= seq), None)`. -/
def firstCovering (seq : ℕ) : List CheckpointRecord → Py (Option CheckpointRecord)
  | [] => .ok none
  | cp :: checkpoints => do
    let count ← leafCountObj (.int cp.mmrSize)
    if seq ≤ count then .ok (some cp) else firstCovering seq checkpoints

/-- The `covering` checkpoint. -/
def coveringOf (seq : ℕ) (checkpoints : List CheckpointRecord) : Py CheckpointRecord := do
  let covering ← firstCovering seq checkpoints
  match covering with
  | some cp => .ok cp
  | none => raise .bundle s!"record (seq={seq}) is not yet covered by any checkpoint"

/-- The `prior` checkpoint. -/
def priorOf (checkpoints : List CheckpointRecord) (covering : CheckpointRecord) :
    Py (Option CheckpointRecord) :=
  if covering.prevSize > 0 then
    match checkpoints.find? fun cp => cp.mmrSize = covering.prevSize with
    | some prior => .ok (some prior)
    | none => raise .bundle
        (s!"checkpoint at mmr_size={covering.mmrSize} names a prior checkpoint at " ++
          s!"mmr_size={covering.prevSize} that is not present in entries — log is incomplete")
  else .ok none

/-- `checkpoint_cose_by_size.get(size)`: the last one of that size. -/
def coseOfSize (stamps : List (CheckpointRecord × Fields)) (size : ℤ) : Option Json :=
  ((stamps.filter fun s => s.1.mmrSize = size &&
    ((Json.get? s.2 (Str.lit "checkpoint_cose")).map truthy).getD false).getLast?).bind fun s =>
      Json.get? s.2 (Str.lit "checkpoint_cose")

/-- `bytes.fromhex(cose_hex) if cose_hex else None`. -/
def coseBytes : Option Json → Py (Option Bytes)
  | none => .ok none
  | some (.str hex) => do
    let bytes ← bytesFromHex hex
    .ok (some bytes)
  | some _ => raise .typeError "fromhex() argument must be str"

/-- `bytes.fromhex(entry[id_field])`. -/
def entryDigest (e : Fields) : Py Bytes :=
  match Json.get? e L.idField with
  | none => raise .keyError "id_field"
  | some (.str s) => bytesFromHex s
  | some _ => raise .typeError "fromhex() argument must be str"

/-- The loop over the covered entries. -/
def addEntries (nodes : List Bytes) : List Fields → Py (List Bytes)
  | [] => .ok nodes
  | e :: entries => do
    let bodyDigest ← entryDigest L e
    let leaf ← leafHash H bodyDigest
    let (nodes, _, _) ← addLeaf H nodes leaf
    addEntries nodes entries

/-- `entries[i]`. -/
def entryAt (entries : List Fields) (i : ℕ) : Py Fields :=
  match entries[i]? with
  | some e => .ok e
  | none => raise .indexError "list index out of range"

/-- `bundle`. -/
def bundle (entries : List Fields) (recordId : Str) : Py Bundle := do
  require (entries ≠ []) .bundle "entries: empty log"
  let targetIdx ← findRecord E L entries recordId
  let seq := targetIdx + 1
  let stampEntries := entries.filter (isStamp L)
  let checkpoints ← stampEntries.mapM (stampedCheckpoint E)
  let covering ← coveringOf seq checkpoints
  let prior ← priorOf checkpoints covering
  let coveredLeaves ← leafCountObj (.int covering.mmrSize)
  let store ← addEntries H L [] (entries.take coveredLeaves)
  require (store.length = covering.mmrSize) .bundle
    (s!"reconstructed MMR size {store.length} does not match checkpoint mmr_size {covering.mmrSize} — " ++
      "log may be corrupt or truncated")
  let inclusion ← inclusionProof store (seq - 1) covering.mmrSize
  let consistency ← prior.mapM fun p => consistencyProof store p.mmrSize covering.mmrSize
  let receipt ← entryAt entries targetIdx
  let capsuleId ← jsonStr (← member receipt L.idField)
  let cose ← coseBytes (coseOfSize (checkpoints.zip stampEntries) covering.mmrSize)
  .ok ⟨1, capsuleId, seq, receipt, inclusion.toObj, covering, prior,
    consistency.map ConsistencyProof.toObj, cose⟩

variable {E H L}

/-- A witness record is read back from its dictionary. -/
lemma WitnessRecord.fromDict_toDict (w : WitnessRecord) : WitnessRecord.fromDict E w.toDict = .ok w := by
  obtain ⟨tsUrl, entryHash, receiptB64, leafIndex, treeSize, isStub⟩ := w
  cases isStub <;> rfl

/-- So are several. -/
lemma mapM_fromDict (ws : List WitnessRecord) :
    (ws.map WitnessRecord.toDict).mapM (WitnessRecord.fromDict E) = .ok ws := by
  induction ws with
  | nil => rfl
  | cons w ws ih =>
    rw [List.map_cons, List.mapM_cons, WitnessRecord.fromDict_toDict, ok_bind, ih]
    rfl

/-- A record is read back from its dictionary. -/
lemma CheckpointRecord.fromDict_toDict (cp : CheckpointRecord) :
    CheckpointRecord.fromDict E cp.toDict = .ok cp := by
  obtain ⟨v, kind, logId, mmrSize, root, prevSize, prevRoot, keyId, timestamp, signature, witnesses⟩ := cp
  cases witnesses with
  | nil => rfl
  | cons w ws => exact bind_eq_ok.mpr ⟨w :: ws, mapM_fromDict (w :: ws), rfl⟩

/-- The signer of checkpoints that a key pair makes. -/
def KeyPair.signer (key : KeyPair E.verify) : Signer where
  keyId := toHex key.publicKey
  sign digest := toHex (key.sign (Text.ascii digest))

/-- The id of an entry is the hex form of a digest. -/
def HasDigest (L : Layout) (e : Fields) (d : Digest) : Prop :=
  ∃ s, Json.get? e L.idField = some (.str s) ∧ fromHex s = some d.1

/-- A stamp holds a checkpoint with genuine witness stamps, and its true COSE statement or none. -/
structure StampOf (E : Evidence) (H : HashFunction) (L : Layout) (key : KeyPair E.verify)
    (trustAnchor : List (Str × Bytes)) (digests : List Digest) (nodes : List Bytes)
    (cp : CheckpointRecord) (stamp : Fields) : Prop where
  kind : isStamp L stamp = true
  record : Json.get? stamp (Str.lit "checkpoint") = some cp.toDict
  genuine : ∀ w ∈ cp.witnesses,
    (verifyWitnessStampTristate E H cp w (trustAnchor.lookup w.tsUrl)).1 ≠ .invalid
  cose : ∀ v, Json.get? stamp (Str.lit "checkpoint_cose") = some v → truthy v = true →
    cp.logId ≠ [] ∧ ∃ cose newPeaks prevPeaks proof cadence m n, v = .str (toHex cose) ∧
      checkpointToCose E.packages.cbor2 H cp key newPeaks prevPeaks proof cadence = .ok cose ∧
      TrueFor H cp newPeaks prevPeaks proof digests nodes m n

/-- The entries of a log with the digests of their ids and its checkpoints: records are appended, and
checkpoints are emitted over all entries so far and appended as stamps. -/
inductive History (E : Evidence) (H : HashFunction) (L : Layout) (key : KeyPair E.verify) (logId : Str)
    (trustAnchor : List (Str × Bytes)) : List Fields → List Digest → List CheckpointRecord → Prop
  | empty : History E H L key logId trustAnchor [] [] []
  | append {entries : List Fields} {digests : List Digest} {cps : List CheckpointRecord} {e : Fields}
      {d : Digest} : History E H L key logId trustAnchor entries digests cps →
      HasDigest L e d → isStamp L e = false → (∃ nonLeaf, isNonLeaf L e = .ok nonLeaf) →
      History E H L key logId trustAnchor (entries ++ [e]) (digests ++ [d]) cps
  | checkpoint {entries : List Fields} {digests : List Digest} {cps : List CheckpointRecord}
      {nodes : List Bytes} {timestamp : Str} {cp : CheckpointRecord} {ws : List WitnessRecord}
      {stamp : Fields} {d : Digest} : History E H L key logId trustAnchor entries digests cps →
      addDigests H [] digests = .ok nodes →
      (emitCheckpoint H nodes key.signer logId cps.getLast? timestamp).1 = .ok cp →
      HasDigest L stamp d → StampOf E H L key trustAnchor digests nodes { cp with witnesses := ws } stamp →
      History E H L key logId trustAnchor (entries ++ [stamp]) (digests ++ [d])
        (cps ++ [{ cp with witnesses := ws }])

/-- The root of the first `k` leaves of a log, in hex. -/
def firstRoot (H : HashFunction) (digests : List Digest) (k : ℕ) : Str :=
  toHex (bag H (mountainHashes H (leaves H digests) k))

/-- Records that are appended do not change the earlier roots. -/
lemma firstRoot_append (digests more : List Digest) {k : ℕ} (le : k ≤ digests.length) :
    firstRoot H (digests ++ more) k = firstRoot H digests k := by
  have split : leaves H digests = (leaves H (digests ++ more)).take digests.length := by
    simp [leaves]
  rw [firstRoot, firstRoot, split]
  congr 2
  apply List.map_congr_left
  intro b hb
  exact (treeHash_take H (by simp) ((mountain_complete_of_mem hb).mono le)).symm

/-- A checkpoint of a log with these leaves, after the checkpoint `prev`. -/
structure Sealed (E : Evidence) (H : HashFunction) (key : KeyPair E.verify) (digests : List Digest)
    (prev : Option CheckpointRecord) (cp : CheckpointRecord) : Prop where
  covers : ∃ k, 0 < k ∧ k < digests.length ∧ nodeCount k < maxMmrSize ∧ cp.mmrSize = nodeCount k ∧
    cp.root = firstRoot H digests k
  signed : verifyCheckpointSignatureOffline E H cp = true
  keyId : cp.keyId = toHex key.publicKey
  first : prev = none → cp.prevSize = 0 ∧ cp.prevRoot = []
  follows : ∀ p, prev = some p → 0 < cp.prevSize ∧ cp.prevSize = p.mmrSize ∧ cp.prevRoot = p.root ∧
    p.mmrSize < cp.mmrSize

/-- A checkpoint of a log is one of its later states. -/
lemma Sealed.append {key : KeyPair E.verify} {digests : List Digest} {prev : Option CheckpointRecord}
    {cp : CheckpointRecord} (sealed_ : Sealed E H key digests prev cp) (d : Digest) :
    Sealed E H key (digests ++ [d]) prev cp := by
  obtain ⟨k, pos, lt, small, size, root⟩ := sealed_.covers
  refine { sealed_ with covers := ⟨k, pos, ?_, small, size, ?_⟩ }
  · rw [List.length_append]
    exact Nat.lt_add_right _ lt
  · rw [firstRoot_append digests [d] lt.le, root]

/-- Every checkpoint follows the one before it. -/
def Chained (E : Evidence) (H : HashFunction) (key : KeyPair E.verify) (digests : List Digest)
    (cps : List CheckpointRecord) : Prop :=
  ∀ before cp after, cps = before ++ cp :: after → Sealed E H key digests before.getLast? cp

/-- The chain of checkpoints is one of its later states. -/
lemma Chained.append {key : KeyPair E.verify} {digests : List Digest} {cps : List CheckpointRecord}
    (chained : Chained E H key digests cps) (d : Digest) : Chained E H key (digests ++ [d]) cps :=
  fun before cp after split => (chained before cp after split).append d

/-- A sealed checkpoint after the last one extends the chain. -/
lemma Chained.snoc {key : KeyPair E.verify} {digests : List Digest} {cps : List CheckpointRecord}
    (chained : Chained E H key digests cps) {cp : CheckpointRecord}
    (sealed_ : Sealed E H key digests cps.getLast? cp) : Chained E H key digests (cps ++ [cp]) := by
  intro before c after split
  obtain ⟨more, rfl, e⟩ | ⟨more, rfl, e⟩ := List.append_eq_append_iff.mp split
  · cases more with
    | nil =>
      obtain ⟨rfl, -⟩ := List.cons.inj e
      rwa [List.append_nil]
    | cons m more =>
      have short := congrArg List.length e
      simp at short
  · cases more with
    | nil =>
      obtain ⟨rfl, -⟩ := List.cons.inj e
      rwa [List.append_nil] at sealed_
    | cons m more =>
      obtain ⟨rfl, rfl⟩ := List.cons.inj e
      exact chained before c more rfl

/-- What holds of every history. -/
structure Kept (E : Evidence) (H : HashFunction) (L : Layout) (key : KeyPair E.verify)
    (trustAnchor : List (Str × Bytes)) (entries : List Fields) (digests : List Digest)
    (cps : List CheckpointRecord) : Prop where
  ids : List.Forall₂ (HasDigest L) entries digests
  kinds : ∀ e ∈ entries, ∃ nonLeaf, isNonLeaf L e = .ok nonLeaf
  stamps : List.Forall₂ (fun e cp => ∃ ds nodes, StampOf E H L key trustAnchor ds nodes cp e)
    (entries.filter (isStamp L)) cps
  chained : Chained E H key digests cps
  increasing : cps.Pairwise fun a b => a.mmrSize < b.mmrSize
  genuine : ∀ cp ∈ cps, ∀ w ∈ cp.witnesses,
    (verifyWitnessStampTristate E H cp w (trustAnchor.lookup w.tsUrl)).1 ≠ .invalid

/-- An emitted checkpoint is signed, with any witnesses. -/
lemma signed_of_emitted {key : KeyPair E.verify} {nodes : List Bytes} {logId timestamp : Str}
    {prev : Option CheckpointRecord} {cp : CheckpointRecord}
    (ok : (emitCheckpoint H nodes key.signer logId prev timestamp).1 = .ok cp) (ws : List WitnessRecord) :
    verifyCheckpointSignatureOffline E H { cp with witnesses := ws } = true := by
  obtain ⟨keyId, d, hashed, signature⟩ := emitCheckpoint_signature ok
  have hashed : CheckpointRecord.digest H { cp with witnesses := ws } = .ok d := hashed
  have publicKey : bytesFromHex cp.keyId = .ok key.publicKey := by
    rw [keyId]
    exact bytesFromHex_eq_ok.mpr (fromHex_toHex _)
  have bytes : bytesFromHex cp.signature = .ok (key.sign (Text.ascii d)) := by
    rw [signature]
    exact bytesFromHex_eq_ok.mpr (fromHex_toHex _)
  rw [verifyCheckpointSignatureOffline, verdict_eq_true]
  dsimp only
  rw [publicKey, ok_bind, hashed, ok_bind, bytes, ok_bind, verifySignature, key.acceptable, key.verifies,
    Bool.and_self]

/-- An emitted checkpoint is sealed. -/
lemma sealed_of_emitted {key : KeyPair E.verify} {digests : List Digest} {nodes : List Bytes}
    (build : addDigests H [] digests = .ok nodes) {logId timestamp : Str}
    {prev : Option CheckpointRecord} {cp : CheckpointRecord}
    (ok : (emitCheckpoint H nodes key.signer logId prev timestamp).1 = .ok cp)
    (positive : ∀ p, prev = some p → 0 < p.mmrSize) (ws : List WitnessRecord) (d : Digest) :
    Sealed E H key (digests ++ [d]) prev { cp with witnesses := ws } := by
  have emitted := Emitted.of_ok ok
  have count := length_of_addDigests build
  obtain ⟨m, -, size, small, -⟩ := rootHex_eq_ok build emitted.root
  rw [count] at size
  obtain rfl := forestSize_injective (Int.ofNat_inj.mp size)
  have nonempty : 0 < digests.length := by
    by_contra zero
    have empty : digests.length = 0 := by omega
    exact emitted.filled (by rw [count, empty]; rfl)
  refine ⟨⟨digests.length, nonempty, by simp, small, ?_, ?_⟩, signed_of_emitted ok ws,
    (emitCheckpoint_signature ok).1, ?_, ?_⟩
  · rw [← count]
    exact emitted.mmrSize
  · have root := emitted.root
    rw [count, rootHex_eq build le_rfl small] at root
    rw [firstRoot_append digests [d] le_rfl]
    exact (Except.ok.inj root).symm
  · rintro rfl
    obtain ⟨prevSize, prevRoot⟩ := Prod.mk.inj (Except.ok.inj emitted.prev)
    exact ⟨prevSize.symm, prevRoot.symm⟩
  · rintro p rfl
    obtain ⟨-, grown, -, carried⟩ := checkPrev_eq_ok.mp emitted.prev
    obtain ⟨prevSize, prevRoot⟩ := Prod.mk.inj carried
    refine ⟨?_, prevSize, prevRoot, ?_⟩
    · rw [prevSize]
      exact positive p rfl
    · rw [emitted.mmrSize]
      exact grown

/-- The sizes in a chain are positive and below that of the log. -/
lemma Chained.positive {key : KeyPair E.verify} {digests : List Digest} {cps : List CheckpointRecord}
    (chained : Chained E H key digests cps) {cp : CheckpointRecord} (mem : cp ∈ cps) :
    0 < cp.mmrSize ∧ cp.mmrSize < nodeCount digests.length := by
  obtain ⟨before, after, split⟩ := List.append_of_mem mem
  obtain ⟨k, pos, lt, -, size, -⟩ := (chained before cp after split).covers
  have low : nodeCount 0 < nodeCount k := forestSize_strictMono pos
  have high : nodeCount k < nodeCount digests.length := forestSize_strictMono lt
  rw [size]
  omega

/-- What every history keeps. -/
lemma History.kept {key : KeyPair E.verify} {logId : Str} {trustAnchor : List (Str × Bytes)}
    {entries : List Fields} {digests : List Digest} {cps : List CheckpointRecord}
    (history : History E H L key logId trustAnchor entries digests cps) :
    Kept E H L key trustAnchor entries digests cps := by
  induction history with
  | empty =>
    refine ⟨.nil, by simp, .nil, ?_, .nil, by simp⟩
    intro before cp after split
    simp at split
  | append _ hasDigest record kind ih =>
    refine ⟨?_, ?_, ?_, ih.chained.append _, ih.increasing, ih.genuine⟩
    · exact List.rel_append ih.ids (.cons hasDigest .nil)
    · exact List.forall_mem_append.mpr ⟨ih.kinds, List.forall_mem_singleton.mpr kind⟩
    · rw [List.filter_append, List.filter_singleton, record]
      simpa using ih.stamps
  | @checkpoint entries digests cps nodes timestamp cp ws stamp d _ build ok hasDigest stampOf ih =>
    have positive : ∀ p, cps.getLast? = some p → 0 < p.mmrSize := fun p last =>
      (ih.chained.positive (List.mem_of_getLast? last)).1
    have sealed_ := sealed_of_emitted build ok positive ws d
    have emitted := Emitted.of_ok ok
    refine ⟨?_, ?_, ?_, (ih.chained.append d).snoc sealed_, ?_, ?_⟩
    · exact List.rel_append ih.ids (.cons hasDigest .nil)
    · refine List.forall_mem_append.mpr ⟨ih.kinds, List.forall_mem_singleton.mpr ?_⟩
      have kind := stampOf.kind
      unfold isStamp at kind
      unfold isNonLeaf
      split at kind
      · rename_i text e
        exact ⟨L.nonLeafKinds.contains text, by rw [e]⟩
      · cases kind
    · rw [List.filter_append, List.filter_singleton, stampOf.kind]
      exact List.rel_append ih.stamps (.cons ⟨digests, nodes, stampOf⟩ .nil)
    · refine List.pairwise_append.mpr ⟨ih.increasing, List.pairwise_singleton _ _, ?_⟩
      intro a ha b hb
      rw [List.mem_singleton.mp hb]
      have lt := (ih.chained.positive ha).2
      rw [← length_of_addDigests build] at lt
      exact lt.trans_eq emitted.mmrSize.symm
    · exact List.forall_mem_append.mpr ⟨ih.genuine, List.forall_mem_singleton.mpr stampOf.genuine⟩

/-- The entry is not one of the log's own bookkeeping. -/
def isContent (L : Layout) (e : Fields) : Bool :=
  match isNonLeaf L e with
  | .ok nonLeaf => !nonLeaf
  | .error _ => false

/-- The records of an id are those that match among the content. -/
lemma matchesFrom_eq {entries : List Fields} (kinds : ∀ e ∈ entries, ∃ nonLeaf, isNonLeaf L e = .ok nonLeaf)
    (recordId : Str) (i : ℕ) :
    matchesFrom E L recordId i entries =
      .ok (((entries.zipIdx i).filter fun x => isContent L x.1 && matchesId E L recordId x.1).map (·.2)) := by
  induction entries generalizing i with
  | nil => rfl
  | cons e entries ih =>
    obtain ⟨nonLeaf, kind⟩ := kinds e List.mem_cons_self
    have content : isContent L e = !nonLeaf := by rw [isContent, kind]
    rw [matchesFrom, kind, ok_bind, ih (fun e he => kinds e (List.mem_cons_of_mem _ he)), ok_bind,
      List.zipIdx_cons, List.filter_cons, content]
    split <;> rfl

/-- `_find_record` of a content record's full id finds the first content record with that id. -/
lemma findRecord_eq {entries : List Fields} (kinds : ∀ e ∈ entries, ∃ nonLeaf, isNonLeaf L e = .ok nonLeaf)
    {i : ℕ} {e : Fields} (at_ : entries[i]? = some e) (content : isContent L e = true) {s : Str}
    (id_ : Json.get? e L.idField = some (.str s)) :
    ∃ j ≤ i, findRecord E L entries s = .ok j ∧ ∃ e', entries[j]? = some e' ∧
      isContent L e' = true ∧ Json.get? e' L.idField = some (.str s) := by
  obtain ⟨indices, hm⟩ : ∃ indices : List ℕ, ((entries.zipIdx 0).filter fun x =>
    isContent L x.1 && matchesId E L s x.1).map (·.2) = indices := ⟨_, rfl⟩
  rw [findRecord, matchesFrom_eq kinds s 0, hm, ok_bind]
  have sorted : indices.Pairwise (· < ·) := by
    rw [← hm]
    refine List.Pairwise.sublist (List.Sublist.map _ List.filter_sublist) ?_
    rw [List.zipIdx_map_snd]
    exact List.pairwise_lt_range'
  have own : i ∈ indices.filter fun i => (entries[i]?.map fun e => hasId L e s).getD false := by
    have exact_ : hasId L e s = true := by simp [hasId, id_]
    refine List.mem_filter.mpr ⟨?_, by simp [at_, exact_]⟩
    rw [← hm]
    refine List.mem_map.mpr ⟨(e, i), List.mem_filter.mpr ⟨?_, ?_⟩, rfl⟩
    · simpa [List.mem_zipIdx_iff_getElem?] using at_
    · simp [content, matchesId, exact_]
  have sorted := sorted.filter fun i => (entries[i]?.map fun e => hasId L e s).getD false
  -- A record with the exact id is preferred to those that the id abbreviates.
  have members : ∀ j ∈ indices.filter fun i => (entries[i]?.map fun e => hasId L e s).getD false,
      ∃ e', entries[j]? = some e' ∧ isContent L e' = true ∧
        Json.get? e' L.idField = some (.str s) := by
    intro j hj
    obtain ⟨mem, exact_⟩ := List.mem_filter.mp hj
    rw [← hm] at mem
    obtain ⟨⟨e', j'⟩, hx, rfl⟩ := List.mem_map.mp mem
    obtain ⟨hx, matched⟩ := List.mem_filter.mp hx
    have here : entries[j']? = some e' := by simpa [List.mem_zipIdx_iff_getElem?] using hx
    refine ⟨e', here, (Bool.and_eq_true _ _ ▸ matched).1, ?_⟩
    rw [here] at exact_
    simp only [Option.map_some, Option.getD_some, hasId] at exact_
    split at exact_
    · rename_i t e
      rw [e, beq_iff_eq.mp exact_]
    · cases exact_
  cases chosen : indices.filter fun i => (entries[i]?.map fun e => hasId L e s).getD false with
  | nil =>
    rw [chosen] at own
    cases own
  | cons j rest =>
    rw [chosen] at own sorted members
    refine ⟨j, ?_, ?_, members j List.mem_cons_self⟩
    · cases List.mem_cons.mp own with
      | inl e => exact e.ge
      | inr mem => exact (List.rel_of_pairwise_cons sorted mem).le
    · unfold chooseMatch
      rw [chosen]

/-- The stamps of a history are read back as its checkpoints. -/
lemma mapM_stampedCheckpoint {key : KeyPair E.verify} {trustAnchor : List (Str × Bytes)}
    {stamps : List Fields} {cps : List CheckpointRecord}
    (aligned : List.Forall₂ (fun e cp => ∃ ds nodes, StampOf E H L key trustAnchor ds nodes cp e) stamps cps) :
    stamps.mapM (stampedCheckpoint E) = .ok cps := by
  induction aligned with
  | nil => rfl
  | cons stampOf _ ih =>
    obtain ⟨ds, nodes, stampOf⟩ := stampOf
    rw [List.mapM_cons, stampedCheckpoint, member, stampOf.record]
    dsimp only
    rw [ok_bind, CheckpointRecord.fromDict_toDict, ok_bind, ih]
    rfl

/-- The first checkpoint that covers a sequence number, if any does. -/
lemma firstCovering_cases {cps : List CheckpointRecord} (seq : ℕ)
    (counts : ∀ cp ∈ cps, ∃ k, leafCountObj (.int cp.mmrSize) = .ok k) :
    (firstCovering seq cps = .ok none ∧
      ∀ cp ∈ cps, ∀ k, leafCountObj (.int cp.mmrSize) = .ok k → k < seq) ∨
    ∃ before cp after k, cps = before ++ cp :: after ∧ firstCovering seq cps = .ok (some cp) ∧
      leafCountObj (.int cp.mmrSize) = .ok k ∧ seq ≤ k ∧
      ∀ c ∈ before, ∀ k, leafCountObj (.int c.mmrSize) = .ok k → k < seq := by
  induction cps with
  | nil => exact .inl ⟨rfl, by simp⟩
  | cons cp cps ih =>
    obtain ⟨k, count⟩ := counts cp List.mem_cons_self
    by_cases covers : seq ≤ k
    · right
      refine ⟨[], cp, cps, k, rfl, ?_, count, covers, by simp⟩
      rw [firstCovering, count, ok_bind, if_pos covers]
    · have skip : firstCovering seq (cp :: cps) = firstCovering seq cps := by
        rw [firstCovering, count, ok_bind, if_neg covers]
      have here : ∀ k, leafCountObj (.int cp.mmrSize) = .ok k → k < seq := by
        intro k' count'
        cases count.symm.trans count'
        omega
      rw [skip]
      obtain ⟨none, uncovered⟩ | ⟨before, c, after, k', rfl, some_, count', le, uncovered⟩ :=
        ih fun c hc => counts c (List.mem_cons_of_mem _ hc)
      · exact .inl ⟨none, List.forall_mem_cons.mpr ⟨here, uncovered⟩⟩
      · exact .inr ⟨cp :: before, c, after, k', rfl, some_, count', le,
          List.forall_mem_cons.mpr ⟨here, uncovered⟩⟩

/-- Checkpoints of increasing sizes are found by their sizes. -/
lemma find?_size {cps : List CheckpointRecord} (increasing : cps.Pairwise fun a b => a.mmrSize < b.mmrSize)
    {p : CheckpointRecord} (mem : p ∈ cps) : cps.find? (fun cp => cp.mmrSize = p.mmrSize) = some p := by
  induction cps with
  | nil => cases mem
  | cons cp cps ih =>
    obtain ⟨first, rest⟩ := List.pairwise_cons.mp increasing
    cases List.mem_cons.mp mem with
    | inl e =>
      subst e
      simp
    | inr mem =>
      have ne : ¬cp.mmrSize = p.mmrSize := (first p mem).ne
      rw [List.find?_cons_of_neg (by simpa using ne), ih rest mem]

/-- Checkpoints of increasing sizes are told apart by their sizes. -/
lemma eq_of_size {cps : List CheckpointRecord} (increasing : cps.Pairwise fun a b => a.mmrSize < b.mmrSize)
    {p q : CheckpointRecord} (hp : p ∈ cps) (hq : q ∈ cps) (size : p.mmrSize = q.mmrSize) : p = q := by
  have found := find?_size increasing hp
  rw [size, find?_size increasing hq] at found
  exact (Option.some.inj found).symm

/-- Folding in the entries is folding in the digests of their ids. -/
lemma addEntries_eq {entries : List Fields} {digests : List Digest}
    (ids : List.Forall₂ (HasDigest L) entries digests) (nodes : List Bytes) :
    addEntries H L nodes entries = addDigests H nodes digests := by
  induction ids generalizing nodes with
  | nil => rfl
  | @cons e d entries digests hasDigest _ ih =>
    obtain ⟨s, id_, hex⟩ := hasDigest
    have digest : entryDigest L e = .ok d.1 := by
      rw [entryDigest, id_]
      exact bytesFromHex_eq_ok.mpr hex
    rw [addEntries, addDigests, digest, ok_bind]
    refine congrArg _ (funext fun leaf => congrArg _ (funext fun added => ?_))
    exact ih _

variable {key : KeyPair E.verify} {logId : Str} {trustAnchor : List (Str × Bytes)} {entries : List Fields}
  {digests : List Digest} {cps : List CheckpointRecord}

/-- The leaves of a sealed checkpoint are counted. -/
lemma Sealed.leafCount {prev : Option CheckpointRecord} {cp : CheckpointRecord}
    (sealed_ : Sealed E H key digests prev cp) :
    ∃ k, 0 < k ∧ k < digests.length ∧ nodeCount k < maxMmrSize ∧ cp.mmrSize = nodeCount k ∧
      cp.root = firstRoot H digests k ∧ leafCountObj (.int cp.mmrSize) = .ok k := by
  obtain ⟨k, pos, lt, small, size, root⟩ := sealed_.covers
  refine ⟨k, pos, lt, small, size, root, ?_⟩
  rw [size]
  exact leafCountObj_nodeCount small

/-- Every checkpoint of a history is sealed. -/
lemma Kept.sealed (kept : Kept E H L key trustAnchor entries digests cps) {cp : CheckpointRecord}
    (mem : cp ∈ cps) : ∃ prev, Sealed E H key digests prev cp := by
  obtain ⟨before, after, split⟩ := List.append_of_mem mem
  exact ⟨_, kept.chained before cp after split⟩

/-- The prior checkpoint is the one emitted just before. -/
lemma Kept.priorOf (kept : Kept E H L key trustAnchor entries digests cps)
    {before after : List CheckpointRecord} {covering : CheckpointRecord}
    (split : cps = before ++ covering :: after) : priorOf cps covering = .ok before.getLast? := by
  have sealed_ := kept.chained before covering after split
  cases last : before.getLast? with
  | none =>
    rw [Checkpoint.priorOf, (sealed_.first last).1, if_neg (lt_irrefl 0)]
  | some p =>
    obtain ⟨positive, size, -, -⟩ := sealed_.follows p last
    have mem : p ∈ cps := by
      rw [split]
      exact List.mem_append_left _ (List.mem_of_getLast? last)
    rw [Checkpoint.priorOf, if_pos positive, size, find?_size kept.increasing mem]

/-- An entry of a history has its digest in the same place. -/
lemma Kept.findRecord (kept : Kept E H L key trustAnchor entries digests cps) {j : ℕ} {e : Fields}
    (at_ : entries[j]? = some e) : ∃ lt : j < digests.length, HasDigest L e digests[j] := by
  obtain ⟨lt, rfl⟩ := List.getElem?_eq_some_iff.mp at_
  have len := kept.ids.length_eq
  exact ⟨by omega, kept.ids.get lt (by omega)⟩

/-- A statement that reads back as a checkpoint of the log agrees with it field by field. -/
lemma Kept.matchesRecord (kept : Kept E H L key trustAnchor entries digests cps)
    {before after : List CheckpointRecord} {covering : CheckpointRecord}
    (split : cps = before ++ covering :: after) {newPeaks : List Bytes} {prevPeaks : Option (List Bytes)}
    {proof : Option ConsistencyProof} {cadence : Option ℤ} {decoded : DecodedCheckpointCose}
    (same : SameCheckpoint covering newPeaks prevPeaks proof cadence decoded)
    (keyId : decoded.keyId = toHex key.publicKey) : Checkpoint.matchesRecord decoded covering := by
  have sealed_ := kept.chained before covering after split
  obtain ⟨k, -, -, -, -, root⟩ := sealed_.covers
  refine ⟨same.logId, same.mmrSize, ?_, same.prevSize, ?_, keyId.trans sealed_.keyId.symm⟩
  · have digits := same.root
    rw [root, firstRoot, lowerHex_toHex] at digits
    rw [root]
    exact (Option.some.inj digits).symm
  · cases last : before.getLast? with
    | none =>
      obtain ⟨size, prevRoot⟩ := sealed_.first last
      rw [(same.first size).2, prevRoot]
    | some p =>
      obtain ⟨positive, -, prevRoot, -⟩ := sealed_.follows p last
      have mem : p ∈ cps := by
        rw [split]
        exact List.mem_append_left _ (List.mem_of_getLast? last)
      obtain ⟨_, prior⟩ := kept.sealed mem
      obtain ⟨k, -, -, -, -, root⟩ := prior.covers
      have digits := (same.prev positive).2
      rw [prevRoot, root, firstRoot, lowerHex_toHex] at digits
      rw [prevRoot, root]
      exact (Option.some.inj digits).symm

/-- A COSE copy that is found is that of a stamp of its size. -/
lemma coseOfSize_eq_some {stamps : List (CheckpointRecord × Fields)} {size : ℤ} {v : Json}
    (found : coseOfSize stamps size = some v) :
    ∃ s ∈ stamps, s.1.mmrSize = size ∧ Json.get? s.2 (Str.lit "checkpoint_cose") = some v ∧
      truthy v = true := by
  obtain ⟨s, last, value⟩ := Option.bind_eq_some_iff.mp found
  obtain ⟨mem, holds⟩ := List.mem_filter.mp (List.mem_of_getLast? last)
  rw [value, Bool.and_eq_true, decide_eq_true_eq] at holds
  exact ⟨s, mem, holds.1, value, by simpa using holds.2⟩

/-- The statement of the covering checkpoint, if its stamp has one. -/
lemma Kept.cose (lawful : E.packages.Lawful E.verify)
    (kept : Kept E H L key trustAnchor entries digests cps)
    {before after : List CheckpointRecord} {covering : CheckpointRecord}
    (split : cps = before ++ covering :: after) :
    ∃ cose, coseBytes (coseOfSize (cps.zip (entries.filter (isStamp L))) covering.mmrSize) = .ok cose ∧
      ∀ bytes, cose = some bytes → ∃ decoded,
        verifyCheckpointCoseOffline E.packages H bytes = .ok decoded ∧
          Checkpoint.matchesRecord decoded covering := by
  have mem : covering ∈ cps := by simp [split]
  cases found : coseOfSize (cps.zip (entries.filter (isStamp L))) covering.mmrSize with
  | none => exact ⟨none, rfl, nofun⟩
  | some v =>
    obtain ⟨⟨cp, stamp⟩, pair, size, value, true_⟩ := coseOfSize_eq_some found
    have aligned := List.forall₂_iff_zip.mp kept.stamps
    have pair' : (stamp, cp) ∈ (entries.filter (isStamp L)).zip cps := by
      rw [← List.zip_swap]
      exact List.mem_map.mpr ⟨(cp, stamp), pair, rfl⟩
    obtain ⟨ds, nodes, stampOf⟩ := aligned.2 pair'
    have own : cp = covering := eq_of_size kept.increasing (List.of_mem_zip pair).1 mem size
    subst own
    obtain ⟨named, cose, newPeaks, prevPeaks, proof, cadence, m, n, rfl, made, true_⟩ :=
      stampOf.cose v value true_
    have sizes : 0 ≤ cp.mmrSize ∧ 0 ≤ cp.prevSize := by
      rw [true_.mmrSize, true_.prevSize]
      exact ⟨Int.natCast_nonneg _, Int.natCast_nonneg _⟩
    obtain ⟨decoded, verified, same, keyId⟩ :=
      checkpointToCose_verified lawful named sizes.1 sizes.2 made true_
    refine ⟨some cose, ?_, ?_⟩
    · rw [coseBytes, bytesFromHex_eq_ok.mpr (fromHex_toHex cose), ok_bind]
    · intro bytes e
      cases e
      exact ⟨decoded, verified, kept.matchesRecord split same keyId⟩

/-- The proof of consistency of a bundle, and that it is accepted. -/
lemma Kept.history (kept : Kept E H L key trustAnchor entries digests cps)
    {before after : List CheckpointRecord} {covering : CheckpointRecord}
    (split : cps = before ++ covering :: after) {k : ℕ} {older : List Bytes}
    (build : addDigests H [] (digests.take k) = .ok older) (le : k ≤ digests.length)
    (small : nodeCount k < maxMmrSize) (size : covering.mmrSize = nodeCount k) :
    ∃ consistency,
      (before.getLast?.mapM fun p => consistencyProof older p.mmrSize covering.mmrSize) = .ok consistency ∧
      ∀ b : Bundle, b.checkpoint = covering → b.consistencyProof = consistency.map ConsistencyProof.toObj →
        HistoryHolds E H b (bag H (mountainHashes H (leaves H digests) k)) before.getLast? := by
  have sealed_ := kept.chained before covering after split
  cases last : before.getLast? with
  | none =>
    refine ⟨none, rfl, ?_⟩
    rintro b rfl carried
    exact ⟨(sealed_.first last).1, carried⟩
  | some p =>
    obtain ⟨-, prevSize, prevRoot, grown⟩ := sealed_.follows p last
    have mem : p ∈ cps := by
      rw [split]
      exact List.mem_append_left _ (List.mem_of_getLast? last)
    obtain ⟨_, prior⟩ := kept.sealed mem
    obtain ⟨m, -, -, smallm, psize, root⟩ := prior.covers
    have lt : m < k := by
      rw [psize, size] at grown
      exact forestSize_strictMono.lt_iff_lt.mp (Int.ofNat_lt.mp grown)
    have len : (digests.take k).length = k := by simp [le]
    obtain ⟨proof, made, accepted⟩ := consistencyProof_accepted build lt.le len.ge small
    have take (n : ℕ) (hn : n ≤ k) : bag H (mountainHashes H (leaves H (digests.take k)) n) =
        bag H (mountainHashes H (leaves H digests) n) := by
      have same := firstRoot_append (H := H) (digests.take k) (digests.drop k) (hn.trans len.ge)
      rw [List.take_append_drop] at same
      exact (toHex_injective same).symm
    rw [take m lt.le, take k le_rfl] at accepted
    refine ⟨some proof, ?_, ?_⟩
    · rw [← psize, ← size] at made
      change (do let q ← consistencyProof older p.mmrSize covering.mmrSize; Except.ok (some q)) = _
      rw [made, ok_bind]
    · rintro b rfl carried
      refine ⟨prior.signed, prevSize, prevRoot, proof.toObj, bag H (mountainHashes H (leaves H digests) m),
        carried, ?_, ?_⟩
      · rw [root, firstRoot, fromHex_toHex]
      · rw [psize, size]
        exact accepted

/-- The bundle of a covered record. -/
lemma Kept.bundle (lawful : E.packages.Lawful E.verify)
    (kept : Kept E H L key trustAnchor entries digests cps) {recordId s : Str} {j k : ℕ} {e : Fields}
    (found : Checkpoint.findRecord E L entries recordId = .ok j) (at_ : entries[j]? = some e)
    (id_ : Json.get? e L.idField = some (.str s)) {before after : List CheckpointRecord}
    {covering : CheckpointRecord} (split : cps = before ++ covering :: after)
    (first : firstCovering (j + 1) cps = .ok (some covering))
    (count : leafCountObj (.int covering.mmrSize) = .ok k) (lt : j < k) :
    ∃ inclusion consistency cose,
      let b : Bundle := ⟨1, s, j + 1, e, inclusion, covering, before.getLast?, consistency, cose⟩
      Checkpoint.bundle E H L entries recordId = .ok b ∧
        (verifyBundleLogIntegrity E H b trustAnchor).1 = true := by
  have mem : covering ∈ cps := by simp [split]
  obtain ⟨_, sealed_⟩ := kept.sealed mem
  obtain ⟨k', -, ltk, small, size, root, count'⟩ := sealed_.leafCount
  cases count.symm.trans count'
  obtain ⟨older, build, -⟩ := exists_older (H := H) ltk.le small
  have len : (digests.take k).length = k := by simp [ltk.le]
  have sizeOlder : older.length = nodeCount k := by rw [length_of_addDigests build, len]
  obtain ⟨ltj, hasDigest⟩ := kept.findRecord at_
  obtain ⟨s', id', hex⟩ := hasDigest
  cases id_.symm.trans id'
  obtain ⟨inclusion, made, included⟩ := inclusionProof_accepted build len.ge small lt
  obtain ⟨consistency, between, holds⟩ := kept.history split build ltk.le small size
  obtain ⟨cose, coseRead, agrees⟩ := kept.cose lawful split
  have index : ((j + 1 : ℕ) : ℤ) - 1 = j := by push_cast; ring
  have nonempty : entries ≠ [] := by
    rintro rfl
    cases at_
  have coveringOk : coveringOf (j + 1) cps = .ok covering := by rw [coveringOf, first, ok_bind]
  -- The store is built again from the entries that the checkpoint covers.
  have store : addEntries H L [] (entries.take k) = .ok older := by
    rw [addEntries_eq (List.forall₂_take k kept.ids), build]
  have capsuleId : member e L.idField = .ok (.str s) := by rw [member, id_]
  have receipt : entryAt entries j = .ok e := by rw [entryAt, at_]
  refine ⟨inclusion.toObj, consistency.map ConsistencyProof.toObj, cose, ?_, ?_⟩
  · rw [← size] at made
    rw [Checkpoint.bundle, require_of nonempty, ok_bind, found, ok_bind]
    dsimp only
    rw [mapM_stampedCheckpoint kept.stamps, ok_bind, coveringOk, ok_bind, kept.priorOf split, ok_bind,
      count, ok_bind, store, ok_bind, require_of (by rw [sizeOlder, size]), ok_bind, index, made, ok_bind,
      between, ok_bind, receipt, ok_bind, capsuleId, ok_bind, jsonStr, ok_bind, coseRead, ok_bind]
    rfl
  -- The sealed root is that of the store built again, so the proof leads to it.
  · have same := firstRoot_append (H := H) (digests.take k) (digests.drop k) len.ge
    rw [List.take_append_drop] at same
    rw [toHex_injective same.symm, ← size, List.getElem_take] at included
    refine verifyBundleLogIntegrity_eq_true.mpr ⟨digests[j].1, _, hex, ?_, ?_, sealed_.signed,
      holds _ rfl rfl, ?_, .inr ?_⟩
    · rw [root, firstRoot, fromHex_toHex]
    · dsimp only
      rw [show ((j : ℤ) + 1 - 1) = j by ring]
      exact included
    · exact agrees
    · exact fun w hw => kept.genuine covering mem w hw

/-- What a bundle of the record at index `j` says of the checkpoints of its log: the first one that covers
the record, and the one before that. -/
structure Brackets (cps : List CheckpointRecord) (j : ℕ) (b : Bundle) : Prop where
  seq : b.seq = j + 1
  covers : ∃ k, leafCountObj (.int b.checkpoint.mmrSize) = .ok k ∧ j < k
  bracket : ∃ before after, cps = before ++ b.checkpoint :: after ∧
    b.priorCheckpoint = before.getLast? ∧
    ∀ c ∈ before, ∀ k, leafCountObj (.int c.mmrSize) = .ok k → k ≤ j

/-- A content record gets a bundle, which the verifier accepts, exactly when a checkpoint covers it. Where
records share an id, the bundle is of the first of them. -/
theorem bundle_complete (lawful : E.packages.Lawful E.verify)
    (history : History E H L key logId trustAnchor entries digests cps) {i : ℕ} {e : Fields}
    (at_ : entries[i]? = some e) (content : isContent L e = true) {s : Str}
    (id_ : Json.get? e L.idField = some (.str s)) :
    ∃ j ≤ i, (∃ e', entries[j]? = some e' ∧ Json.get? e' L.idField = some (.str s)) ∧
      ((∃ cp ∈ cps, ∃ k, leafCountObj (.int cp.mmrSize) = .ok k ∧ j < k) →
        ∃ b, bundle E H L entries s = .ok b ∧ b.capsuleId = s ∧ Brackets cps j b ∧
          (verifyBundleLogIntegrity E H b trustAnchor).1 = true) ∧
      ((∀ cp ∈ cps, ∀ k, leafCountObj (.int cp.mmrSize) = .ok k → k ≤ j) →
        ∃ err, bundle E H L entries s = .error err ∧ err.kind = .bundle) := by
  have kept := history.kept
  obtain ⟨j, le, found, e', at', -, id'⟩ := findRecord_eq (E := E) kept.kinds at_ content id_
  have counts : ∀ cp ∈ cps, ∃ k, leafCountObj (.int cp.mmrSize) = .ok k := by
    intro cp mem
    obtain ⟨_, sealed_⟩ := kept.sealed mem
    obtain ⟨k, -, -, -, -, -, count⟩ := sealed_.leafCount
    exact ⟨k, count⟩
  refine ⟨j, le, ⟨e', at', id'⟩, ?_, ?_⟩
  · rintro ⟨cp, mem, k, count, lt⟩
    obtain ⟨-, uncovered⟩ | ⟨before, covering, after, k', split, first, count', le', uncovered⟩ :=
      firstCovering_cases (j + 1) counts
    · have := uncovered cp mem k count
      omega
    · obtain ⟨inclusion, consistency, cose, built, accepted⟩ :=
        kept.bundle lawful found at' id' split first count' le'
      refine ⟨_, built, rfl, ⟨rfl, ⟨k', count', le'⟩, before, after, split, rfl, ?_⟩, accepted⟩
      intro c hc k hk
      have := uncovered c hc k hk
      omega
  · intro uncovered
    -- No checkpoint covers the record, so it cannot be bundled yet.
    obtain ⟨none, -⟩ | ⟨before, covering, after, k', split, -, count', le', -⟩ :=
      firstCovering_cases (j + 1) counts
    · have nonempty : entries ≠ [] := by
        rintro rfl
        cases at_
      have raised : coveringOf (j + 1) cps =
          raise .bundle s!"record (seq={j + 1}) is not yet covered by any checkpoint" := by
        rw [coveringOf, none, ok_bind]
      have failed : bundle E H L entries s =
          raise .bundle s!"record (seq={j + 1}) is not yet covered by any checkpoint" := by
        rw [bundle, require_of nonempty, ok_bind, found, ok_bind]
        dsimp only
        rw [mapM_stampedCheckpoint kept.stamps, ok_bind, raised]
        rfl
      exact ⟨_, failed, rfl⟩
    · have := uncovered covering (by simp [split]) k' count'
      omega

/-- The signature of the sample key over the digest of that checkpoint. -/
def firstSignature : Bytes :=
  hexBytes ("c3bb7db8b655332688af5c965c05675283fb89f961119b208acc004c2116c593" ++
    "b98be9f05dcb86e0fab6ed0fe955688559277df717edc8ab9b50e6c149ec2201")

/-- The signature has the form that Ed25519 accepts. -/
lemma firstSignature_ok : Ed25519.acceptableSignature samplePublicKey (some firstSignature) = true := by
  rw [samplePublicKey_eq, firstSignature, hexBytes, Str.lit_append, Str.lit_ofList, Str.lit_ofList]
  decide +kernel

/-- Its signature over the digest of the checkpoint after it. -/
def laterSignature : Bytes :=
  hexBytes ("ed022a36c7e9a982b5aded2c1b1eaef1dde0c1dfb3f82099bab61e4f3fe8fc84" ++
    "a33136a65d11ac5ea30526ddf4aa86fa4f6964bd4731ead05a12536f0cd76007")

/-- The signature of the later checkpoint may stand in an envelope. -/
lemma laterSignature_ok : Ed25519.acceptableSignature samplePublicKey (some laterSignature) = true := by
  rw [samplePublicKey_eq, laterSignature, hexBytes, Str.lit_append, Str.lit_ofList, Str.lit_ofList]
  decide +kernel

/-- What the sample key signs the two digests with. -/
def historySign (message : Bytes) : Bytes :=
  if message = Text.ascii (Str.lit "dde977c977cfce2b4947cf46091d08f21e4748f1f3f92abc7775e85c36df808f") then
    laterSignature
  else firstSignature

/-- Whether a signature is that of the sample key. -/
def historyVerify (publicKey message signature : Bytes) : Bool :=
  publicKey == samplePublicKey && signature == historySign message

/-- Packages that know the two signatures. -/
def historyEvidence : Evidence :=
  { sampleEvidence with
    packages := referencePackages historyVerify
    verify := historyVerify }

/-- The sample key. -/
def historyKey : KeyPair historyEvidence.verify where
  publicKey := samplePublicKey
  sign := historySign
  verifies message := by simp [historyEvidence, historyVerify]
  acceptable message := by
    unfold historySign
    split
    · exact laterSignature_ok
    · exact firstSignature_ok

def sampleLayout : Layout :=
  ⟨Str.lit "capsule_id", Str.lit "kind", [], Str.lit "checkpoint_stamp"⟩

/-- The first checkpoint of the history is signed. -/
lemma firstRecord_ok : (emitCheckpoint sha256Hash samplePrefix historyKey.signer (Str.lit "log") none
    (Str.lit "2026-01-01T00:00:00Z")).1.toBool = true := by
  rw [samplePrefix_bytes, sha256Hash_eq]
  decide +kernel

/-- The checkpoint at the first leaf. -/
def firstRecord : CheckpointRecord :=
  { (emitCheckpoint sha256Hash samplePrefix historyKey.signer (Str.lit "log") none
      (Str.lit "2026-01-01T00:00:00Z")).1.val firstRecord_ok with witnesses := [] }

/-- The later checkpoint of the history is signed. -/
lemma laterRecord_ok : (emitCheckpoint sha256Hash sampleNodes historyKey.signer (Str.lit "log")
    (some firstRecord) (Str.lit "2026-01-02T00:00:00Z")).1.toBool = true := by
  simp only [firstRecord, samplePrefix_bytes, sampleNodes_bytes, sha256Hash_eq]
  decide +kernel

/-- The checkpoint at three leaves after it. -/
def laterRecord : CheckpointRecord :=
  { (emitCheckpoint sha256Hash sampleNodes historyKey.signer (Str.lit "log") (some firstRecord)
      (Str.lit "2026-01-02T00:00:00Z")).1.val laterRecord_ok with witnesses := [] }

/-- Their sizes. -/
lemma record_sizes : firstRecord.mmrSize = 1 ∧ laterRecord.mmrSize = 4 := by
  simp only [laterRecord, firstRecord, samplePrefix_bytes, sampleNodes_bytes, sha256Hash_eq]
  decide +kernel

/-- The digest of an entry of the sample history. -/
def sampleLeaf (n : UInt8) : Digest := ⟨List.replicate 32 n, rfl⟩

/-- A record. -/
def contentEntry (n : UInt8) : Fields := [(Str.lit "capsule_id", .str (toHex (sampleLeaf n).1))]

/-- A stamp with a checkpoint. -/
def stampEntry (n : UInt8) (cp : CheckpointRecord) : Fields :=
  [(Str.lit "kind", .str (Str.lit "checkpoint_stamp")), (Str.lit "capsule_id", .str (toHex (sampleLeaf n).1)),
    (Str.lit "checkpoint", cp.toDict)]

/-- A record, the checkpoint over it, another record and the checkpoint over the three. -/
def sampleEntries : List Fields :=
  [contentEntry 1, stampEntry 2 firstRecord, contentEntry 3, stampEntry 4 laterRecord]

/-- Such a stamp is well formed when its checkpoint has no witnesses. -/
lemma stampOf_entry (n : UInt8) {cp : CheckpointRecord} (bare : cp.witnesses = []) (ds : List Digest)
    (nodes : List Bytes) :
    StampOf historyEvidence sha256Hash sampleLayout historyKey [] ds nodes cp (stampEntry n cp) := by
  refine ⟨rfl, rfl, ?_, ?_⟩
  · intro w hw
    rw [bare] at hw
    cases hw
  · intro v absent
    cases absent

/-- They are the entries of a history with two checkpoints. -/
lemma sampleHistory : History historyEvidence sha256Hash sampleLayout historyKey (Str.lit "log") []
    sampleEntries [sampleLeaf 1, sampleLeaf 2, sampleLeaf 3, sampleLeaf 4] [firstRecord, laterRecord] := by
  have hasDigest (n : UInt8) : HasDigest sampleLayout (contentEntry n) (sampleLeaf n) :=
    ⟨_, rfl, fromHex_toHex _⟩
  have hasDigest' (n : UInt8) (cp : CheckpointRecord) : HasDigest sampleLayout (stampEntry n cp) (sampleLeaf n) :=
    ⟨_, rfl, fromHex_toHex _⟩
  have one : History historyEvidence sha256Hash sampleLayout historyKey (Str.lit "log") [] [contentEntry 1]
      [sampleLeaf 1] [] := .append .empty (hasDigest 1) rfl ⟨false, rfl⟩
  have build : addDigests sha256Hash [] [sampleLeaf 1] = .ok samplePrefix := Py.eq_ok_val samplePrefix_ok
  have two : History historyEvidence sha256Hash sampleLayout historyKey (Str.lit "log") []
      [contentEntry 1, stampEntry 2 firstRecord] [sampleLeaf 1, sampleLeaf 2] [firstRecord] :=
    one.checkpoint build (Py.eq_ok_val firstRecord_ok) (hasDigest' 2 _) (stampOf_entry 2 rfl _ _)
  have three : History historyEvidence sha256Hash sampleLayout historyKey (Str.lit "log") []
      [contentEntry 1, stampEntry 2 firstRecord, contentEntry 3] [sampleLeaf 1, sampleLeaf 2, sampleLeaf 3]
      [firstRecord] := two.append (hasDigest 3) rfl ⟨false, rfl⟩
  have build : addDigests sha256Hash [] [sampleLeaf 1, sampleLeaf 2, sampleLeaf 3] = .ok sampleNodes :=
    sampleNodes_eq
  exact three.checkpoint build (Py.eq_ok_val laterRecord_ok) (hasDigest' 4 _) (stampOf_entry 4 rfl _ _)

/-- The bundle of the second record is between the two checkpoints. -/
theorem bundle_complete_sample :
    ∃ b, bundle historyEvidence sha256Hash sampleLayout sampleEntries (toHex (sampleLeaf 3).1) = .ok b ∧
      b.priorCheckpoint = some firstRecord ∧ b.checkpoint = laterRecord ∧
      (verifyBundleLogIntegrity historyEvidence sha256Hash b []).1 = true := by
  obtain ⟨firstSize, laterSize⟩ := record_sizes
  have firstCount : leafCountObj (.int firstRecord.mmrSize) = .ok 1 := by rw [firstSize]; rfl
  have laterCount : leafCountObj (.int laterRecord.mmrSize) = .ok 3 := by rw [laterSize]; rfl
  obtain ⟨j, le, ⟨e, at_, named⟩, covered, -⟩ :=
    bundle_complete (i := 2) (referencePackages_lawful _) sampleHistory rfl rfl rfl
  obtain ⟨b, built, -, bracket, accepted⟩ :=
    covered ⟨laterRecord, by simp, 3, laterCount, by omega⟩
  have other {n : UInt8} (id_ : Json.get? e sampleLayout.idField = some (.str (toHex (sampleLeaf n).1))) :
      toHex (sampleLeaf n).1 = toHex (sampleLeaf 3).1 := Json.str.inj (Option.some.inj (id_.symm.trans named))
  have second : j = 2 := by
    interval_cases j
    · cases at_
      exact absurd (other (n := 1) rfl) (by decide +kernel)
    · cases at_
      exact absurd (other (n := 2) rfl) (by decide +kernel)
    · rfl
  subst second
  obtain ⟨k, count, lt⟩ := bracket.covers
  obtain ⟨before, after, split, prior, -⟩ := bracket.bracket
  -- The first checkpoint does not reach the second record.
  cases before with
  | nil =>
    obtain ⟨first, -⟩ := List.cons.inj split
    rw [← first] at count
    cases firstCount.symm.trans count
    omega
  | cons c before =>
    obtain ⟨rfl, rest⟩ := List.cons.inj split
    cases before with
    | nil =>
      obtain ⟨last, -⟩ := List.cons.inj rest
      exact ⟨b, built, prior.trans List.getLast?_singleton, last.symm, accepted⟩
    | cons d before =>
      obtain ⟨-, rest⟩ := List.cons.inj rest
      exact absurd (congrArg List.length rest) (by simp)

end CLL.Checkpoint
