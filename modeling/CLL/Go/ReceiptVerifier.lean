import CLL.Go.Checkpoint
import CLL.Go.Receipt
import CLL.Lib.LooseCbor

/-!
# The receipt verifier in Go

`ReceiptVerifier.Verify` of `go/witness/verify.go` with the decoding of a receipt. The package that decodes
and encodes CBOR is a parameter. A call that may not return is `none` when it does not.
`strictReceiptItem_eq_ok` says that decoding, encoding again and walking the item accepts the encodings of
strict items and nothing else.
-/

namespace CLL.Go
open CLL.Core Cbor

/-- `maxReceiptDepth`. -/
def maxReceiptDepth : ℕ := 16

/-- `cll.MaxWitnessResponseBytes`. -/
def maxResponseBytes : ℕ := 2 <<< 20

/-- `maxInclusionProofs`. -/
def maxInclusionProofs : ℕ := 16

/-- `maxAuditPath`. -/
def maxAuditPath : ℕ := 64

/-- `receiptDecoding.Unmarshal` into a value of any type and `deterministicEncoding.Marshal`. The integers
that are no `uint64` and no `int64` are a `big.Int`; a time, and a simple value that is no constant, is an
object. -/
structure ReceiptCodec where
  unmarshal : Bytes → Option Cbor
  marshal : Cbor → Option Bytes

/-- The package reads a strict item from its encoding, it reads an item from what is an encoding of the item,
with no map key twice, and it writes the deterministic encoding, with the fields of every map in an order of
its own. -/
structure ReceiptCodec.Lawful (D : ReceiptCodec) : Prop where
  unmarshal_encode : ∀ v, Strict true (maxReceiptDepth + 1) v → (encode v).length ≤ maxResponseBytes →
    D.unmarshal (encode v) = some v
  loose : ∀ data v, D.unmarshal data = some v → Loose v data
  marshal_strict : ∀ v, Strict true (maxReceiptDepth + 1) v →
    ∃ w, w.canonical = v.canonical ∧ D.marshal v = some (encode w)

variable (D : ReceiptCodec)

/-- The types of the keys of a map. -/
def isReceiptLabel : Cbor → Bool
  | .int n => decide (-2 ^ 63 ≤ n ∧ n < 2 ^ 64)
  | .str _ => true
  | _ => false

/-- `walk` over the fields of a map. -/
def walkFields (walk : Cbor → Result Unit) : List (Cbor × Cbor) → Result Unit
  | [] => .ok ()
  | (key, item) :: fields => do
    check (isReceiptLabel key = true) "CBOR map key is not an integer or text"
    walk item
    walkFields walk fields

/-- `walk` over the items of an array. -/
def walkItems (walk : Cbor → Result Unit) : List Cbor → Result Unit
  | [] => .ok ()
  | item :: items => do
    walk item
    walkItems walk items

/-- `walk`. `left` levels are left, that of the item among them, so the item stands at depth 0 when all but
its own are. -/
def walk (topTag : Bool) : ℕ → Cbor → Result Unit
  | 0, _ => .error "CBOR nested more than 16 levels deep"
  | left + 1, v =>
    match v with
    | .null | .bool _ | .bytes _ | .str _ => .ok ()
    | .int n => check (-2 ^ 63 ≤ n ∧ n < 2 ^ 64) "CBOR item of type big.Int is not allowed"
    | .tag number content => do
      check (left = maxReceiptDepth ∧ topTag = true ∧ number = 18) s!"CBOR tag {number} is not the outer tag 18"
      walk topTag left content
    | .array items => walkItems (walk topTag left) items
    | .map fields => walkFields (walk topTag left) fields
    | .float _ | .object _ => .error "CBOR item is not allowed"

/-- `strictReceiptItem`. -/
def strictReceiptItem (data : Bytes) (topTag : Bool) : Result Cbor := do
  let value ← orError (D.unmarshal data) "cbor"
  check (∃ canonical ∈ D.marshal value, canonical.length = data.length) "non-deterministic CBOR encoding"
  walk topTag (maxReceiptDepth + 1) value
  .ok value

/-- `inclusionProof`. -/
structure InclusionProof where
  size : Int64
  index : Int64
  path : List Bytes

/-- A call that may not return. -/
abbrev Call (α : Type) := ExceptT String Option α

/-- A call that returns. -/
def Result.call {α : Type} (x : Result α) : Call α := some x

/-- The position and the length of the path of an inclusion proof. -/
def checkProof (size index : ℕ) (path : List Bytes) : Call InclusionProof :=
  if size ≤ index ∨ 1 <<< 62 < size then throw "invalid inclusion proof position or path length"
  else do
    let expected ← ExceptT.lift (expectedPath (.ofNat size) (.ofNat index))
    if Int64.ofNat path.length ≠ expected then throw "invalid inclusion proof position or path length"
    else return ⟨.ofNat size, .ofNat index, path⟩

/-- `value.(uint64)`. -/
def asUint64 : Option Cbor → Option ℕ
  | some (.int n) => if 0 ≤ n then some n.toNat else none
  | _ => none

/-- `value.([]any)`. -/
def asArray : Option Cbor → Option (List Cbor)
  | some (.array items) => some items
  | _ => none

/-- `value.(map[any]any)`. -/
def asMap : Option Cbor → Option (List (Cbor × Cbor))
  | some (.map fields) => some fields
  | _ => none

/-- `value == nil`. -/
def isNil : Cbor → Bool
  | .null => true
  | _ => false

/-- A node of an audit path. -/
def asNode (node : Cbor) : Option Bytes := do
  let raw ← asBytes (some node)
  if raw.length = 32 then some raw else none

/-- The parts of an inclusion proof. -/
def proofParts (value : Cbor) : Result (ℕ × ℕ × List Bytes) := do
  match value with
  | .array [sizePart, indexPart, pathPart] =>
    let size ← orError (asUint64 (some sizePart)) "inclusion proof tree_size and leaf_index must be unsigned integers"
    let index ← orError (asUint64 (some indexPart)) "inclusion proof tree_size and leaf_index must be unsigned integers"
    let nodes ← orError (asArray (some pathPart)) "inclusion proof path must be an array of at most 64 nodes"
    check (nodes.length ≤ maxAuditPath) "inclusion proof path must be an array of at most 64 nodes"
    let path ← orError (nodes.mapM asNode) "inclusion proof path node must be a 32-byte string"
    .ok (size, index, path)
  | _ => .error "inclusion proof must be [tree_size, leaf_index, [path]]"

/-- `decodeInclusionProof`. -/
def decodeInclusionProof (blob : Bytes) : Call InclusionProof := do
  let value ← (strictReceiptItem D blob false).call
  let (size, index, path) ← (proofParts value).call
  checkProof size index path

/-- `understoodLabels`. -/
def understoodLabels : List ℤ := [1, 2, 395, 15]

/-- `protected[label]`. -/
def isListed (protected_ : List (Cbor × Cbor)) (label : Cbor) : Bool :=
  protected_.any fun f => match f.1, label with
    | .int m, .int n => m == n
    | .str s, .str t => s == t
    | _, _ => false

/-- `labels` of `checkCritical`. -/
def checkLabels (protected_ : List (Cbor × Cbor)) : List Cbor → Result Unit
  | [] => .ok ()
  | label :: labels => do
    check (isReceiptLabel label = true) "receipt crit lists a label that is not an integer or text"
    check (isListed protected_ label = true) "receipt crit lists a header absent from the protected header"
    check (∃ value ∈ asUint64 (some label), (value : ℤ) ∈ understoodLabels)
      "receipt crit marks a header this verifier does not understand"
    checkLabels protected_ labels

/-- `checkCritical`. -/
def checkCritical (protected_ : List (Cbor × Cbor)) : Result Unit :=
  match lookup protected_ 2 with
  | none => .ok ()
  | some raw => do
    let labels ← orError (asArray (some raw)) "receipt crit must be a non-empty array"
    check (labels ≠ []) "receipt crit must be a non-empty array"
    checkLabels protected_ labels

/-- `decodedReceipt`. -/
structure DecodedReceipt where
  protected_ : Bytes
  signature : Bytes
  proofs : List InclusionProof

/-- The parts of a receipt: the protected header, the unprotected one and the signature. -/
def receiptParts (value : Cbor) : Result (Bytes × Cbor × Bytes) :=
  match value with
  | .tag 18 (.array [protectedPart, unprotectedPart, payload, signaturePart]) => do
    let protectedBytes ← orError (asBytes (some protectedPart)) "receipt is not a COSE_Sign1 message"
    check (isNil payload = true) "receipt payload is attached; a receipt's payload must be detached"
    let signature ← orError (asBytes (some signaturePart)) "receipt signature is not a byte string"
    .ok (protectedBytes, unprotectedPart, signature)
  | _ => .error "receipt is not a COSE_Sign1 message"

/-- The protected header of a receipt. -/
def decodeProtected (protectedBytes : Bytes) : Result (List (Cbor × Cbor)) :=
  if protectedBytes = [] then .ok []
  else do
    let value ← strictReceiptItem D protectedBytes false
    orError (asMap (some value)) "receipt protected header is not a map"

/-- The checks of the protected header. -/
def checkProtected (protected_ : List (Cbor × Cbor)) : Result Unit := do
  check (asUint64 (lookup protected_ 395) = some 1) "receipt protected header requires RFC9162 VDS"
  check (asInt (lookup protected_ 1) = some algorithmEdDsa) "receipt must use EdDSA"
  checkCritical protected_

/-- The inclusion proofs that the unprotected header of a receipt carries. -/
def proofBlobs (unprotectedPart : Cbor) : Result (List Cbor) := do
  let unprotected ← orError (asMap (some unprotectedPart)) "receipt unprotected header is not a map"
  let vdp ← orError (asMap (lookup unprotected 396)) "receipt missing VDP"
  let blobs ← orError (asArray (lookup vdp (-1))) "receipt missing inclusion proof"
  check (blobs ≠ []) "receipt missing inclusion proof"
  check (blobs.length ≤ maxInclusionProofs) "receipt has more than 16 inclusion proofs"
  .ok blobs

/-- The inclusion proofs, decoded. -/
def decodeProofs : List Cbor → Call (List InclusionProof)
  | [] => return []
  | entry :: blobs => do
    let blob ← (orError (asBytes (some entry)) "receipt proof is not bytes").call
    let proof ← decodeInclusionProof D blob
    let proofs ← decodeProofs blobs
    return proof :: proofs

/-- `decodeReceipt`. -/
def decodeReceipt (raw : Bytes) : Call DecodedReceipt := do
  let value ← (strictReceiptItem D raw true).call
  let (protectedBytes, unprotectedPart, signature) ← (receiptParts value).call
  let protected_ ← (decodeProtected D protectedBytes).call
  (checkProtected protected_).call
  let blobs ← (proofBlobs unprotectedPart).call
  let proofs ← decodeProofs D blobs
  return ⟨protectedBytes, signature, proofs⟩

variable (H : HashFunction) (G : Packages)

/-- `sigStructure`; a call that panics does not return. -/
def sigStructure (protectedBytes root : Bytes) : Option Bytes :=
  D.marshal (.array [.str (Str.lit "Signature1"), .bytes protectedBytes, .bytes [], .bytes root])

/-- `Receipt`. -/
structure Receipt where
  bytes : Bytes
  entryHash : Str
  entryHashScheme : Str
  leafIndex : Int64
  treeSize : Int64

/-- `EntryHashSchemeCheckpointDigest`. -/
def entryHashSchemeCheckpointDigest : Str := Str.lit "legacy"

/-- `ReceiptVerifier`. -/
structure ReceiptVerifier where
  public_ : Bytes
  length_public : public_.length = 32

/-- `NewReceiptVerifier`. -/
def newReceiptVerifier (public_ : Bytes) : Result ReceiptVerifier :=
  if length : public_.length = 32 then .ok ⟨public_, length⟩
  else .error "pinned Ed25519 authority key is required"

/-- The loop of `Verify`. -/
def ReceiptVerifier.verifyProofs (v : ReceiptVerifier) (entry : Bytes) (receipt : Receipt)
    (decoded : DecodedReceipt) : List InclusionProof → Call Unit
  | [] => throw "receipt signature did not verify over any reconstructed root"
  | proof :: proofs => do
    let root ← ExceptT.lift (rootFromProof H entry proof.index proof.size proof.path)
    match root with
    | none => verifyProofs v entry receipt decoded proofs
    | some root => do
      let content ← ExceptT.lift (sigStructure D decoded.protected_ root)
      if verifyStrict G v.public_ content decoded.signature then
        if proof.size ≠ receipt.treeSize ∨ proof.index ≠ receipt.leafIndex then
          throw "receipt position mismatch"
        else return ()
      else verifyProofs v entry receipt decoded proofs

/-- The checks of `Verify` before the receipt is decoded: the entry hash of the statement. -/
def boundEntry (statement : Bytes) (receipt : Receipt) : Result Bytes := do
  check (receipt.bytes ≠ [] ∧ receipt.bytes.length ≤ maxResponseBytes) "receipt size is invalid"
  check (receipt.entryHashScheme = entryHashSchemeCheckpointDigest) "unsupported receipt entry hash scheme"
  let record ← parseRecord H G statement
  record.verifySignature G
  let entry ← record.entryHash H
  check (toHex entry = receipt.entryHash) "entry hash does not bind signed checkpoint"
  .ok entry

/-- `ReceiptVerifier.Verify`. -/
def ReceiptVerifier.verify (v : ReceiptVerifier) (statement : Bytes) (receipt : Receipt) : Call Unit := do
  let entry ← (boundEntry H G statement receipt).call
  let decoded ← decodeReceipt D receipt.bytes
  v.verifyProofs D H G entry receipt decoded decoded.proofs

/-- A list is walked item by item. -/
lemma walkItems_eq_ok {walk : Cbor → Result Unit} {items : List Cbor} :
    walkItems walk items = .ok () ↔ ∀ x ∈ items, walk x = .ok () := by
  induction items with
  | nil => exact iff_of_true rfl nofun
  | cons x items ih =>
    rw [walkItems, bind_eq_ok, List.forall_mem_cons, ← ih]
    exact ⟨fun ⟨_, ok⟩ => ok, fun ok => ⟨(), ok⟩⟩

/-- A map is walked field by field, under the labels of a receipt. -/
lemma walkFields_eq_ok {walk : Cbor → Result Unit} {fields : List (Cbor × Cbor)} :
    walkFields walk fields = .ok () ↔ ∀ f ∈ fields, isReceiptLabel f.1 = true ∧ walk f.2 = .ok () := by
  induction fields with
  | nil => exact iff_of_true rfl nofun
  | cons f fields ih =>
    rw [walkFields, bind_eq_ok, List.forall_mem_cons, ← ih]
    constructor
    · rintro ⟨_, label, rest⟩
      obtain ⟨_, ok, others⟩ := bind_eq_ok.mp rest
      exact ⟨⟨check_eq_ok.mp label, ok⟩, others⟩
    · rintro ⟨⟨label, ok⟩, others⟩
      exact ⟨(), check_eq_ok.mpr label, bind_eq_ok.mpr ⟨(), ok, others⟩⟩

/-- A strict label is a label of a receipt. -/
lemma isReceiptLabel_of_strict {tagged : Bool} {levels : ℕ} {k : Cbor} (isLabel : IsLabel k)
    (strict : Strict tagged levels k) : isReceiptLabel k = true := by
  cases levels with
  | zero => exact strict.elim
  | succ levels =>
    cases k with
    | int n => exact decide_eq_true strict
    | str s => rfl
    | _ => exact isLabel.elim

/-- A label of a receipt is one of the known ones. -/
lemma label_of_isReceiptLabel {k : Cbor} (ok : isReceiptLabel k = true) : ∃ l : Label, k = l.item := by
  cases k with
  | int n => exact ⟨.int n, rfl⟩
  | str s => exact ⟨.str s, rfl⟩
  | _ => cases ok

/-- Keys that are labels differ when the labels do. -/
lemma nodup_keys {fields : List (Cbor × Cbor)} (labels : ∀ f ∈ fields, isReceiptLabel f.1 = true)
    (nodup : (fields.filterMap fun f => label? f.1).Nodup) : (fields.map (·.1)).Nodup := by
  rw [← map_item_labels fun f mem => label_of_isReceiptLabel (labels f mem)]
  exact nodup.map Label.item_injective

/-- A label of any encoding is a strict item, at any level. -/
lemma strict_label {k : Cbor} {b : Bytes} (loose : Loose k b) (ok : isReceiptLabel k = true) (levels : ℕ) :
    IsLabel k ∧ Strict false (levels + 1) k := by
  cases k with
  | int n =>
    have bounds : -2 ^ 63 ≤ n ∧ n < 2 ^ 64 := by simpa [isReceiptLabel] using ok
    exact ⟨trivial, bounds⟩
  | str s => exact ⟨trivial, fitsText_of_loose loose⟩
  | _ => cases ok

/-- An item that some encoding was decoded to is strict when the walk accepts it. -/
lemma strict_of_walk {topTag : Bool} {left : ℕ} {v : Cbor} {b : Bytes} (small : left ≤ maxReceiptDepth + 1)
    (loose : Loose v b) (walked : walk topTag left v = .ok ()) :
    Strict (decide (left = maxReceiptDepth + 1) && topTag) left v := by
  induction left generalizing v b with
  | zero => cases walked
  | succ left ih =>
    have inner {x : Cbor} {c : Bytes} (loose : Loose x c) (walked : walk topTag left x = .ok ()) :
        Strict false left x := by
      have strict := ih (by omega) loose walked
      have below : decide (left = maxReceiptDepth + 1) = false := decide_eq_false (by omega)
      rwa [below, Bool.false_and] at strict
    cases v with
    | null => trivial
    | bool c => trivial
    | float x => cases walked
    | object i => cases walked
    | int n =>
      have bounds : -2 ^ 63 ≤ n ∧ n < 2 ^ 64 := check_eq_ok.mp walked
      exact bounds
    | bytes x =>
      obtain ⟨w, c, -, -, headed⟩ := loose
      exact headed.lt
    | str s => exact fitsText_of_loose loose
    | array xs =>
      obtain ⟨w, c, -, -, headed⟩ := loose
      have lt := headed.lt
      obtain ⟨h, d, -, -, items⟩ := headed
      refine ⟨lt, fun x mem => ?_⟩
      obtain ⟨e, looseX⟩ := items.each mem
      exact inner looseX (walkItems_eq_ok.mp walked x mem)
    | map fields =>
      have each := walkFields_eq_ok.mp walked
      obtain ⟨⟨w, c, -, -, headed⟩, nodup⟩ := loose
      have lt := headed.lt
      obtain ⟨h, d, -, -, items⟩ := headed
      refine ⟨lt, nodup_keys (fun f mem => (each f mem).1) nodup, fun f mem => ?_⟩
      obtain ⟨⟨k, looseKey⟩, e, looseValue⟩ := items.each mem
      have strictValue := inner looseValue (each f mem).2
      cases left with
      | zero => exact strictValue.elim
      | succ left =>
        obtain ⟨isLabel, strictKey⟩ := strict_label looseKey (each f mem).1 left
        exact ⟨isLabel, strictKey, strictValue⟩
    -- A tag is allowed at the top only, where it is the tag of a signed message.
    | tag number content =>
      obtain ⟨w, c, -, -, h, d, -, -, looseContent⟩ := loose
      obtain ⟨_, outer, rest⟩ := bind_eq_ok.mp walked
      obtain ⟨top, isTop, isSign1⟩ := check_eq_ok.mp outer
      refine ⟨?_, isSign1, inner looseContent rest⟩
      rw [isTop, Bool.and_true, decide_eq_true (by rw [top])]

/-- A strict item is walked. -/
lemma walk_of_strict {topTag : Bool} {left : ℕ} {v : Cbor} (small : left ≤ maxReceiptDepth + 1)
    (strict : Strict (decide (left = maxReceiptDepth + 1) && topTag) left v) :
    walk topTag left v = .ok () := by
  induction left generalizing v with
  | zero => exact strict.elim
  | succ left ih =>
    have inner {x : Cbor} (strict : Strict false left x) : walk topTag left x = .ok () := by
      have below : decide (left = maxReceiptDepth + 1) = false := decide_eq_false (by omega)
      exact ih (by omega) (by rwa [below, Bool.false_and])
    cases v with
    | null => rfl
    | bool c => rfl
    | float x => exact strict.elim
    | object i => exact strict.elim
    | int n =>
      have bounds : -2 ^ 63 ≤ n ∧ n < 2 ^ 64 := strict
      exact check_eq_ok.mpr bounds
    | bytes x => rfl
    | str s => rfl
    | array xs => exact walkItems_eq_ok.mpr fun x mem => inner (strict.2 x mem)
    | map fields =>
      refine walkFields_eq_ok.mpr fun f mem => ?_
      obtain ⟨isLabel, strictKey, strictValue⟩ := strict.2.2 f mem
      exact ⟨isReceiptLabel_of_strict isLabel strictKey, inner strictValue⟩
    | tag number content =>
      obtain ⟨top, isSign1, strictContent⟩ := strict
      obtain ⟨isTop, isTagged⟩ := Bool.and_eq_true_iff.mp top
      have outer : left = maxReceiptDepth ∧ topTag = true ∧ number = 18 :=
        ⟨Nat.succ.inj (of_decide_eq_true isTop), isTagged, isSign1⟩
      exact bind_eq_ok.mpr ⟨(), check_eq_ok.mpr outer, inner strictContent⟩

/-- `strictReceiptItem` accepts the encodings of strict items and nothing else. -/
theorem strictReceiptItem_eq_ok (lawful : D.Lawful) {data : Bytes} (small : data.length ≤ maxResponseBytes)
    {topTag : Bool} {v : Cbor} :
    strictReceiptItem D data topTag = .ok v ↔ Strict topTag (maxReceiptDepth + 1) v ∧ data = encode v := by
  have length {w : Cbor} (same : w.canonical = v.canonical) : (encode w).length = (encode v).length := by
    rw [← (encode_canonical_perm w).length_eq, same, (encode_canonical_perm v).length_eq]
  constructor
  · intro ok
    obtain ⟨value, read, ok⟩ := bind_eq_ok.mp ok
    obtain ⟨_, shortest, ok⟩ := bind_eq_ok.mp ok
    obtain ⟨_, walked, ok⟩ := bind_eq_ok.mp ok
    cases ok
    have loose := lawful.loose data v (orError_eq_ok.mp read)
    have strict := strict_of_walk le_rfl loose walked
    rw [decide_eq_true rfl, Bool.true_and] at strict
    obtain ⟨w, same, written⟩ := lawful.marshal_strict v strict.tagged
    obtain ⟨canonical, isWritten, len⟩ := check_eq_ok.mp shortest
    rw [written] at isWritten
    cases isWritten
    rw [length same] at len
    exact ⟨strict, (shortest_encode strict data loose).2 len⟩
  · rintro ⟨strict, rfl⟩
    obtain ⟨w, same, written⟩ := lawful.marshal_strict v strict.tagged
    have read : orError (D.unmarshal (encode v)) "cbor" = .ok v :=
      orError_eq_ok.mpr (lawful.unmarshal_encode v strict.tagged small)
    have shortest : ∃ canonical ∈ D.marshal v, canonical.length = (encode v).length :=
      ⟨_, written, length same⟩
    have walked : walk topTag (maxReceiptDepth + 1) v = .ok () :=
      walk_of_strict le_rfl (by rwa [decide_eq_true rfl, Bool.true_and])
    exact bind_eq_ok.mpr ⟨v, read, bind_eq_ok.mpr ⟨(), check_eq_ok.mpr shortest,
      bind_eq_ok.mpr ⟨(), walked, rfl⟩⟩⟩

/-- What is read as a number is one. -/
lemma asUint64_eq_some {o : Option Cbor} {n : ℕ} : asUint64 o = some n ↔ o = some (.int n) := by
  constructor
  · intro ok
    unfold asUint64 at ok
    split at ok
    · next m =>
      split_ifs at ok with nonneg
      rw [← Option.some.inj ok, Int.toNat_of_nonneg nonneg]
    · cases ok
  · rintro rfl
    rw [asUint64, if_pos (Int.natCast_nonneg n), Int.toNat_natCast]

/-- What is read as an array is one. -/
lemma asArray_eq_some {o : Option Cbor} {xs : List Cbor} : asArray o = some xs ↔ o = some (.array xs) := by
  constructor
  · intro ok
    unfold asArray at ok
    split at ok
    · cases ok
      rfl
    · cases ok
  · rintro rfl
    rfl

/-- The parts of an inclusion proof. -/
lemma proofParts_eq_ok {value : Cbor} {n m : ℕ} {path : List Bytes} :
    proofParts value = .ok (n, m, path) ↔ ∃ nodes, value = .array [.int n, .int m, .array nodes] ∧
      nodes.length ≤ maxAuditPath ∧ nodes.mapM asNode = some path := by
  constructor
  · intro ok
    unfold proofParts at ok
    split at ok
    · obtain ⟨size, hs, ok⟩ := bind_eq_ok.mp ok
      obtain ⟨index, hi, ok⟩ := bind_eq_ok.mp ok
      obtain ⟨nodes, hn, ok⟩ := bind_eq_ok.mp ok
      obtain ⟨_, short, ok⟩ := bind_eq_ok.mp ok
      obtain ⟨path', hp, ok⟩ := bind_eq_ok.mp ok
      cases ok
      cases asUint64_eq_some.mp (orError_eq_ok.mp hs)
      cases asUint64_eq_some.mp (orError_eq_ok.mp hi)
      cases asArray_eq_some.mp (orError_eq_ok.mp hn)
      exact ⟨nodes, rfl, check_eq_ok.mp short, orError_eq_ok.mp hp⟩
    · cases ok
  · rintro ⟨nodes, rfl, short, found⟩
    have size : asUint64 (some (.int n)) = some n := asUint64_eq_some.mpr rfl
    have index : asUint64 (some (.int m)) = some m := asUint64_eq_some.mpr rfl
    have array : asArray (some (.array nodes)) = some nodes := rfl
    simp [proofParts, size, index, array, check, short, found, orError]

/-- A proof is accepted when its path has a sibling for every level. -/
lemma checkProof_eq {n m : ℕ} (inside : m < n) (small : n ≤ 2 ^ 62) {path : List Bytes}
    (short : path.length < 2 ^ 63) :
    checkProof n m path = if path.length = AuditPath.depth n m then return ⟨.ofNat n, .ofNat m, path⟩
      else throw "invalid inclusion proof position or path length" := by
  have valid : ¬ (n ≤ m ∨ 1 <<< 62 < n) := by
    rw [Nat.one_shiftLeft]
    omega
  have toInt {k : ℕ} (lt : k < 2 ^ 63) : (Int64.ofNat k).toInt = k := Int64.toInt_ofNat_of_lt lt
  have start : (0 : Int64).toInt = (0 : ℕ) := rfl
  obtain ⟨r, expected, depth⟩ := expectedPathLoop_eq (toInt (by omega : n < 2 ^ 63))
    (toInt (by omega : m < 2 ^ 63)) start small le_rfl (by decide) (show 62 < 64 by decide)
  have same : Int64.ofNat path.length = r ↔ path.length = AuditPath.depth n m := by
    rw [← Int64.toInt_inj, toInt short, depth, Nat.zero_add]
    exact Nat.cast_inj
  rw [checkProof, if_neg valid, expectedPath, expected]
  by_cases len : path.length = AuditPath.depth n m
  · rw [if_pos len]
    exact if_neg (not_not.mpr (same.mpr len))
  · rw [if_neg len]
    exact if_pos (mt same.mp len)

end CLL.Go
