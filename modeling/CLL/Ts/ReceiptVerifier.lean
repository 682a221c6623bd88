import CLL.Go.ReceiptVerifier
import CLL.Ts.Receipt

/-!
# The receipt verifier in TypeScript

`ReceiptVerifier.verify` of `ts/src/receipt.ts`. Whatever its `try` block throws makes it return `false`.
`receipt_together` says that Go and TypeScript decode the same receipts, to the same proofs.
-/

namespace CLL.Ts
open CLL.Core Cbor

/-- A call in the `try` block: it may not return, and it has no value where `verify` returns `false`. -/
abbrev Attempt (α : Type) := OptionT Option α

/-- A call that returns a value or throws. -/
def Js.attempt {α : Type} (x : Js α) : Attempt α := some x.toOption

/-- A value that the code checks for. -/
def expect {α : Type} (x : Option α) : Attempt α := some x

/-- `if (!cond) return false`. -/
def require (cond : Prop) [Decidable cond] : Attempt Unit := expect (if cond then some () else none)

/-- The parts of an inclusion proof. -/
def proofParts (value : Cbor) : Js (ℤ × ℤ × List Bytes) :=
  match value with
  | .array [size, index, path] =>
    match size, index with
    | .int size, .int index =>
      match path with
      | .array nodes =>
        match nodes.mapM asDigest with
        | some path => .ok (size, index, path)
        | none => syntaxError "inclusion proof path nodes must be 32 bytes"
      | _ => syntaxError "inclusion proof path nodes must be 32 bytes"
    | _, _ => syntaxError "inclusion proof sizes must be integers"
  | _ => syntaxError "inclusion proof must be [tree_size, leaf_index, [path]]"

/-- `inclusionProof`. -/
def inclusionProof (blob : Bytes) : Attempt InclusionProof := do
  let value ← (decodeReceiptItem blob false).attempt
  let (size, index, path) ← (proofParts value).attempt
  let proof ← OptionT.lift (checkProof size index path)
  proof.attempt

/-- `UNDERSTOOD`. -/
def understood : List ℤ := [1, 2, 395, 15]

/-- The test of a label of `crit`. -/
def isCritical (headers : List (Cbor × Cbor)) : Cbor → Bool
  | .int n => decide (0 ≤ n ∧ n ∈ understood) && (get headers (.int n)).isSome
  | _ => false

/-- `criticalUnderstood`. -/
def criticalUnderstood (headers : List (Cbor × Cbor)) : Bool :=
  match get headers (.int 2) with
  | none => true
  | some (.array crit) => !crit.isEmpty && crit.all (isCritical headers)
  | some _ => false

/-- `MAX_INCLUSION_PROOFS`. -/
def maxInclusionProofs : ℕ := 16

/-- `limits.receipt`. -/
def receiptLimit : ℕ := 2 <<< 20

/-- `WitnessReceipt`. -/
structure WitnessReceipt where
  bytes : Bytes
  entryHash : Option Str
  entryHashScheme : Option Str
  leafIndex : Option CborFloat
  treeSize : Option CborFloat

/-- `/^[0-9a-f]{64}$/u.test(text)`. -/
def isHashHex (text : Str) : Bool :=
  text.length == 64 && text.all fun c => (48 ≤ c && c ≤ 57) || (97 ≤ c && c ≤ 102)

/-- The checks of a receipt before its statement is read: the entry hash and the position. -/
def receiptFields (receipt : WitnessReceipt) : Option (Str × ℤ × ℤ) := do
  guard (receipt.bytes ≠ [] ∧ receipt.bytes.length ≤ receiptLimit)
  guard (receipt.entryHashScheme = some (Str.lit "legacy"))
  let entryHash ← receipt.entryHash
  guard (isHashHex entryHash = true)
  let treeSize ← receipt.treeSize.bind safeInteger
  let leafIndex ← receipt.leafIndex.bind safeInteger
  some (entryHash, treeSize, leafIndex)

/-- The parts of a receipt: the protected header, the unprotected one and the signature. -/
def receiptParts (message : Cbor) : Option (Bytes × List (Cbor × Cbor) × Bytes) :=
  match message with
  | .tag 18 (.array [.bytes protectedBytes, .map unprotected, .null, .bytes signature]) =>
    some (protectedBytes, unprotected, signature)
  | _ => none

/-- `protectedHeaders`. -/
def protectedHeaders (protectedBytes : Bytes) : Js Cbor :=
  if protectedBytes = [] then .ok (.map []) else decodeReceiptItem protectedBytes false

/-- A `bigint`. -/
def asBigint : Option Cbor → Option ℤ
  | some (.int n) => some n
  | _ => none

/-- The protected header is a map that the verifier understands. -/
def understoodHeaders (headers : Cbor) : Option Unit := do
  let headers ← asMap (some headers)
  guard (asBigint (get headers (.int 1)) = some (-8))
  guard (asBigint (get headers (.int 395)) = some 1)
  guard (criticalUnderstood headers = true)

/-- The inclusion proofs that the unprotected header of a receipt carries. -/
def proofBlobs (unprotected : List (Cbor × Cbor)) : Option (List Bytes) := do
  let vdp ← asMap (get unprotected (.int 396))
  match get vdp (.int (-1)) with
  | some (.array blobs) => do
    guard (blobs ≠ [] ∧ blobs.length ≤ maxInclusionProofs)
    blobs.mapM fun blob => asBytes (some blob)
  | _ => none

variable (C : Cborg) (H : HashFunction) (K : Curve) (parse : Str → Option TimeValue)

/-- `ReceiptVerifier`. -/
structure ReceiptVerifier where
  publicKey : Bytes
  length_publicKey : publicKey.length = 32

/-- The constructor of `ReceiptVerifier`. -/
def newReceiptVerifier (publicKey : Bytes) : Js ReceiptVerifier :=
  if length : publicKey.length = 32 then .ok ⟨publicKey, length⟩
  else .error (.error "pinned Ed25519 authority key must be 32 bytes")

/-- The inclusion proofs, decoded. -/
def inclusionProofList : List Bytes → Attempt (List InclusionProof)
  | [] => return []
  | blob :: blobs => do
    let proof ← inclusionProof blob
    let proofs ← inclusionProofList blobs
    return proof :: proofs

/-- A receipt as `verify` decodes it: the protected header, the signature and the inclusion proofs. -/
def receiptProofs (bytes : Bytes) : Attempt (Bytes × Bytes × List InclusionProof) := do
  let message ← (decodeReceiptItem bytes true).attempt
  let (protectedBytes, unprotected, signature) ← expect (receiptParts message)
  let headers ← (protectedHeaders protectedBytes).attempt
  expect (understoodHeaders headers)
  let blobs ← expect (proofBlobs unprotected)
  let proofs ← inclusionProofList blobs
  return (protectedBytes, signature, proofs)

/-- The loop of `verify`. -/
def ReceiptVerifier.verifyProofs (v : ReceiptVerifier) (entry protectedBytes signature : Bytes)
    (treeSize leafIndex : ℤ) : List InclusionProof → Attempt Unit
  | [] => expect none
  | proof :: proofs => do
    let root ← OptionT.lift (proofRoot H entry proof)
    let root ← root.attempt
    let content ← expect (C.encode (sigStructure protectedBytes root))
    if verifyEd25519 K v.publicKey content signature then
      require (proof.size = treeSize ∧ proof.index = leafIndex)
    else verifyProofs v entry protectedBytes signature treeSize leafIndex proofs

/-- The `try` block of `verify`. -/
def ReceiptVerifier.attempt (v : ReceiptVerifier) (checkpoint : Bytes) (receipt : WitnessReceipt) :
    Attempt Unit := do
  let (entryHash, treeSize, leafIndex) ← expect (receiptFields receipt)
  let entry ← expect (checkpointEntryHash C H (verifyEd25519 K) parse checkpoint)
  require (toHex entry = entryHash)
  let (protectedBytes, signature, proofs) ← receiptProofs receipt.bytes
  v.verifyProofs C H K entry protectedBytes signature treeSize leafIndex proofs

/-- `ReceiptVerifier.verify`; `none` where it does not return. -/
def ReceiptVerifier.verify (v : ReceiptVerifier) (checkpoint : Bytes) (receipt : WitnessReceipt) :
    Option Bool :=
  (v.attempt C H K parse checkpoint receipt).run.map Option.isSome

/-- Both calls return, related values or none. -/
def Together {α β : Type} (R : α → β → Prop) (x : Go.Call α) (y : Attempt β) : Prop :=
  (∃ a b, x.run = some (.ok a) ∧ y.run = some (some b) ∧ R a b) ∨
    (∃ e, x.run = some (.error e)) ∧ y.run = some none

variable {α β γ δ : Type} {R : α → β → Prop} {S : γ → δ → Prop}

/-- Composed calls stay together. -/
lemma Together.bind {x : Go.Call α} {y : Attempt β} {f : α → Go.Call γ} {g : β → Attempt δ}
    (first : Together R x y) (next : ∀ a b, R a b → Together S (f a) (g b)) :
    Together S (x >>= f) (y >>= g) := by
  rcases first with ⟨a, b, left, right, related⟩ | ⟨⟨e, left⟩, right⟩
  · have go : (x >>= f).run = (f a).run := by
      rw [ExceptT.run_bind, left]
      rfl
    have ts : (y >>= g).run = (g b).run := by
      rw [OptionT.run_bind, right]
      rfl
    rcases next a b related with ⟨c, d, left', right', related'⟩ | ⟨⟨e, left'⟩, right'⟩
    · exact .inl ⟨c, d, go.trans left', ts.trans right', related'⟩
    · exact .inr ⟨⟨e, go.trans left'⟩, ts.trans right'⟩
  · refine .inr ⟨⟨e, ?_⟩, ?_⟩
    · rw [ExceptT.run_bind, left]
      rfl
    · rw [OptionT.run_bind, right]
      rfl

/-- Returned values stay together. -/
lemma together_pure {a : α} {b : β} (related : R a b) : Together R (pure a) (pure b) :=
  .inl ⟨a, b, rfl, rfl, related⟩

/-- Failures stay together. -/
lemma together_fail (e : String) : Together R (throw e) (expect none) := .inr ⟨⟨e, rfl⟩, rfl⟩

/-- A call that returns and a value that the code checks for. -/
lemma together_call {x : Go.Result α} {y : Option β} (ok : ∀ b, y = some b → ∃ a, x = .ok a ∧ R a b)
    (fail : ∀ a, x = .ok a → y ≠ none) : Together R x.call (expect y) := by
  cases y with
  | some b =>
    obtain ⟨a, rfl, related⟩ := ok b rfl
    exact .inl ⟨a, b, rfl, rfl, related⟩
  | none =>
    cases x with
    | ok a => exact absurd rfl (fail a rfl)
    | error e => exact .inr ⟨⟨e, rfl⟩, rfl⟩

/-- A call that returns before one that fails. -/
lemma fails_of_next {x : Go.Result α} {f : α → Go.Call γ} (next : ∀ a, ∃ e, (f a).run = some (.error e)) :
    ∃ e, (x.call >>= f).run = some (.error e) := by
  cases x with
  | error e => exact ⟨e, rfl⟩
  | ok a => exact next a

variable {D : Go.ReceiptCodec}

/-- Both languages read the same strict items. -/
lemma item_together (lawful : D.Lawful) {data : Bytes} (small : data.length ≤ Go.maxResponseBytes)
    (topTag : Bool) :
    Together (fun v w => v = w ∧ Strict topTag (maxDepth + 1) v ∧ data = encode v)
      (Go.Result.call (Go.strictReceiptItem D data topTag)) (Js.attempt (decodeReceiptItem data topTag)) := by
  have go {v : Cbor} : Go.strictReceiptItem D data topTag = .ok v ↔ _ :=
    Go.strictReceiptItem_eq_ok D lawful small
  have ts {v : Cbor} : decodeReceiptItem data topTag = .ok v ↔ _ := decodeReceiptItem_eq_ok
  cases read : decodeReceiptItem data topTag with
  | ok w =>
    have strict := ts.mp read
    rw [go.mpr strict]
    exact .inl ⟨w, w, rfl, rfl, rfl, strict⟩
  | error e =>
    cases read' : Go.strictReceiptItem D data topTag with
    | ok v =>
      rw [ts.mpr (go.mp read')] at read
      cases read
    | error e' => exact .inr ⟨⟨e', rfl⟩, rfl⟩

/-- A node of the path is a digest. -/
lemma asNode_eq (node : Cbor) : Go.asNode node = asDigest node := by
  cases node with
  | bytes b =>
    by_cases len : b.length = 32 <;> simp [Go.asNode, Go.asBytes, asDigest, asBytes, len, guard]
  | _ => rfl

/-- The two languages accept the same position and path. -/
structure SameProof (p : Go.InclusionProof) (q : InclusionProof) : Prop where
  inside : q.index < q.size
  nonneg : 0 ≤ q.index
  small : q.size ≤ (2 ^ 62 : ℕ)
  length : q.path.length = AuditPath.depth q.size.toNat q.index.toNat
  same : p = ⟨.ofNat q.size.toNat, .ofNat q.index.toNat, q.path⟩

/-- Proofs of the same parts are the same. -/
lemma sameProof {n m : ℕ} (inside : m < n) (small : n ≤ 2 ^ 62) {path : List Bytes}
    (length : path.length = AuditPath.depth n m) :
    SameProof ⟨.ofNat n, .ofNat m, path⟩ ⟨n, m, path⟩ where
  inside := Int.ofNat_lt.mpr inside
  nonneg := Int.natCast_nonneg m
  small := Int.ofNat_le.mpr small
  length := length
  same := rfl

/-- The check of a position and a path. -/
lemma checkProof_together (size index : ℤ) (path : List Bytes) :
    Together SameProof
      (if 0 ≤ size ∧ 0 ≤ index ∧ path.length ≤ Go.maxAuditPath then
        Go.checkProof size.toNat index.toNat path else throw "")
      (OptionT.lift (checkProof size index path) >>= Js.attempt) := by
  by_cases valid : index < 0 ∨ size ≤ index ∨ maxTreeSize < size
  · have ts : (OptionT.lift (checkProof size index path) >>= Js.attempt) = expect none := by
      rw [checkProof, if_pos valid]
      rfl
    rw [ts]
    split
    · next bounds =>
      have invalid : size.toNat ≤ index.toNat ∨ 1 <<< 62 < size.toNat := by
        rw [Nat.one_shiftLeft]
        rw [maxTreeSize] at valid
        omega
      rw [Go.checkProof, if_pos invalid]
      exact together_fail _
    · exact together_fail _
  · rw [maxTreeSize] at valid
    push Not at valid
    obtain ⟨nonneg, inside, small⟩ := valid
    lift index to ℕ using nonneg
    lift size to ℕ using by omega
    have inside' : index < size := by exact_mod_cast inside
    have small' : size ≤ 2 ^ 62 := by exact_mod_cast small
    have depth := AuditPath.depth_le small' index
    rw [checkProof_eq inside' small', Int.toNat_natCast, Int.toNat_natCast]
    by_cases len : path.length = AuditPath.depth size index
    · have short : path.length ≤ Go.maxAuditPath := by
        rw [Go.maxAuditPath]
        omega
      rw [if_pos ⟨by omega, by omega, short⟩, if_pos len, Go.checkProof_eq inside' small' (by omega), if_pos len]
      exact together_pure (sameProof inside' small' len)
    · rw [if_neg len]
      split
      · next bounds =>
        have short : path.length < 2 ^ 63 := by
          have le := bounds.2.2
          rw [Go.maxAuditPath] at le
          omega
        rw [Go.checkProof_eq inside' small' short, if_neg len]
        exact together_fail _
      · exact together_fail _

/-- A proof is read from the parts of an array. -/
lemma proofParts_eq_ok {value : Cbor} {size index : ℤ} {path : List Bytes} :
    proofParts value = .ok (size, index, path) ↔ ∃ nodes, value = .array [.int size, .int index, .array nodes] ∧
      nodes.mapM asDigest = some path := by
  constructor
  · intro ok
    unfold proofParts at ok
    repeat' split at ok
    all_goals first | cases ok; done | skip
    next nodes found =>
      cases ok
      exact ⟨_, rfl, found⟩
  · rintro ⟨nodes, rfl, found⟩
    simp [proofParts, found]

/-- The parts of an inclusion proof and the check of them. -/
lemma proofParts_together (value : Cbor) :
    Together SameProof
      (Go.Result.call (Go.proofParts value) >>= fun parts => Go.checkProof parts.1 parts.2.1 parts.2.2)
      (Js.attempt (proofParts value) >>= fun parts =>
        OptionT.lift (checkProof parts.1 parts.2.1 parts.2.2) >>= Js.attempt) := by
  cases ts : proofParts value with
  | ok parts =>
    obtain ⟨size, index, path⟩ := parts
    obtain ⟨nodes, rfl, found⟩ := proofParts_eq_ok.mp ts
    have both := checkProof_together size index path
    have len : path.length = nodes.length := Table.length_of_mapM found
    by_cases bounds : 0 ≤ size ∧ 0 ≤ index ∧ path.length ≤ Go.maxAuditPath
    · obtain ⟨n, rfl⟩ := Int.eq_ofNat_of_zero_le bounds.1
      obtain ⟨m, rfl⟩ := Int.eq_ofNat_of_zero_le bounds.2.1
      have short : nodes.length ≤ Go.maxAuditPath := len ▸ bounds.2.2
      have found' : nodes.mapM Go.asNode = some path := by rwa [funext asNode_eq]
      rw [if_pos bounds, Int.toNat_natCast, Int.toNat_natCast] at both
      rw [Go.proofParts_eq_ok.mpr ⟨nodes, rfl, short, found'⟩]
      exact both
    · rw [if_neg bounds] at both
      have refused : ∃ e, Go.proofParts (.array [.int size, .int index, .array nodes]) = .error e := by
        cases go : Go.proofParts (.array [.int size, .int index, .array nodes]) with
        | ok parts =>
          obtain ⟨n, m, path'⟩ := parts
          obtain ⟨nodes', same, short, found'⟩ := Go.proofParts_eq_ok.mp go
          cases same
          exact absurd ⟨Int.natCast_nonneg n, Int.natCast_nonneg m, len ▸ short⟩ bounds
        | error e => exact ⟨e, rfl⟩
      obtain ⟨e, go⟩ := refused
      rw [go]
      rcases both with ⟨a, b, failed, -⟩ | ⟨-, failed⟩
      · cases failed
      · exact .inr ⟨⟨e, rfl⟩, failed⟩
  | error e =>
    cases go : Go.proofParts value with
    | ok parts =>
      obtain ⟨n, m, path⟩ := parts
      obtain ⟨nodes, rfl, -, found⟩ := Go.proofParts_eq_ok.mp go
      rw [funext asNode_eq] at found
      rw [proofParts_eq_ok.mpr ⟨nodes, rfl, found⟩] at ts
      cases ts
    | error e' => exact together_fail e'

/-- Both languages decode the same inclusion proof. -/
lemma inclusionProof_together (lawful : D.Lawful) {blob : Bytes} (small : blob.length ≤ Go.maxResponseBytes) :
    Together SameProof (Go.decodeInclusionProof D blob) (inclusionProof blob) := by
  refine (item_together lawful small false).bind fun v w related => ?_
  rw [related.1]
  exact proofParts_together w

/-- All proofs are decoded, in whichever order their types are checked. -/
lemma proofs_together (lawful : D.Lawful) {blobs : List Cbor}
    (small : ∀ b, .bytes b ∈ blobs → b.length ≤ Go.maxResponseBytes) :
    Together (List.Forall₂ SameProof) (Go.decodeProofs D blobs)
      (expect (blobs.mapM fun blob => asBytes (some blob)) >>= inclusionProofList) := by
  induction blobs with
  | nil => exact together_pure .nil
  | cons entry blobs ih =>
    have others := ih fun b mem => small b (List.mem_cons_of_mem _ mem)
    rw [Go.decodeProofs, List.mapM_cons]
    cases entry with
    | bytes b =>
      have first := inclusionProof_together lawful (small b List.mem_cons_self)
      have start : (Go.Result.call (Go.orError (Go.asBytes (some (.bytes b))) "receipt proof is not bytes") >>=
          fun blob => Go.decodeInclusionProof D blob >>= fun proof => Go.decodeProofs D blobs >>=
            fun proofs => pure (proof :: proofs)) =
          (Go.decodeInclusionProof D b >>= fun proof => Go.decodeProofs D blobs >>=
            fun proofs => pure (proof :: proofs)) := rfl
      rw [start]
      cases found : blobs.mapM fun blob => asBytes (some blob) with
      | some bytes =>
        rw [found] at others
        refine first.bind fun p q same => ?_
        refine others.bind fun ps qs sames => ?_
        exact together_pure (.cons same sames)
      | none =>
        rw [found] at others
        obtain ⟨e, failed⟩ : ∃ e, (Go.decodeProofs D blobs).run = some (.error e) := by
          rcases others with ⟨a, b, -, failed, -⟩ | ⟨failed, -⟩
          · cases failed
          · exact failed
        rcases first with ⟨p, q, read, -⟩ | ⟨⟨e', read⟩, -⟩
        · refine .inr ⟨⟨e, ?_⟩, rfl⟩
          rw [ExceptT.run_bind, read]
          show (Go.decodeProofs D blobs >>= fun proofs => pure (p :: proofs)).run = _
          rw [ExceptT.run_bind, failed]
          rfl
        · refine .inr ⟨⟨e', ?_⟩, rfl⟩
          rw [ExceptT.run_bind, read]
          rfl
    | _ => exact .inr ⟨⟨_, rfl⟩, rfl⟩

/-- A header is looked up as in Go. -/
lemma lookup_eq_get (fields : List (Cbor × Cbor)) (label : ℤ) :
    Go.lookup fields label = get fields (.int label) := by
  unfold Go.lookup get
  congr 2
  funext f
  cases f.1 <;> rfl

/-- A header is listed exactly where it is there. -/
lemma isListed_iff {fields : List (Cbor × Cbor)} {n : ℤ} :
    Go.isListed fields (.int n) = true ↔ (get fields (.int n)).isSome := by
  rw [get, Option.isSome_map, List.find?_isSome, Go.isListed, List.any_eq_true]
  refine exists_congr fun f => and_congr_right fun _ => ?_
  cases f.1 <;> rfl

/-- A critical label is an understood one that is listed. -/
lemma critLabel_iff {fields : List (Cbor × Cbor)} {x : Cbor} :
    (Go.isReceiptLabel x = true ∧ Go.isListed fields x = true ∧
      ∃ value ∈ Go.asUint64 (some x), (value : ℤ) ∈ Go.understoodLabels) ↔
    isCritical fields x = true := by
  constructor
  · rintro ⟨-, listed, n, isInt, known⟩
    cases Go.asUint64_eq_some.mp isInt
    rw [isCritical, Bool.and_eq_true, decide_eq_true_eq]
    exact ⟨⟨Int.natCast_nonneg n, known⟩, isListed_iff.mp listed⟩
  · intro ok
    cases x with
    | int n =>
      rw [isCritical, Bool.and_eq_true, decide_eq_true_eq] at ok
      obtain ⟨⟨nonneg, known⟩, listed⟩ := ok
      lift n to ℕ using nonneg
      have small : (n : ℤ) ≤ 395 := by
        have all : ∀ m ∈ understood, m ≤ 395 := by decide
        exact all _ known
      refine ⟨?_, isListed_iff.mpr listed, n, Go.asUint64_eq_some.mpr rfl, known⟩
      rw [Go.isReceiptLabel, decide_eq_true_eq]
      omega
    | _ => cases ok

/-- The critical labels are checked one by one. -/
lemma checkLabels_iff {fields : List (Cbor × Cbor)} {crit : List Cbor} :
    Go.checkLabels fields crit = .ok () ↔ crit.all (isCritical fields) = true := by
  induction crit with
  | nil => exact iff_of_true rfl rfl
  | cons x crit ih =>
    rw [Go.checkLabels, List.all_cons, Bool.and_eq_true, ← ih, ← critLabel_iff]
    constructor
    · intro ok
      obtain ⟨_, label, ok⟩ := bind_eq_ok.mp ok
      obtain ⟨_, listed, ok⟩ := bind_eq_ok.mp ok
      obtain ⟨_, known, ok⟩ := bind_eq_ok.mp ok
      exact ⟨⟨Go.check_eq_ok.mp label, Go.check_eq_ok.mp listed, Go.check_eq_ok.mp known⟩, ok⟩
    · rintro ⟨⟨label, listed, known⟩, ok⟩
      exact bind_eq_ok.mpr ⟨(), Go.check_eq_ok.mpr label, bind_eq_ok.mpr ⟨(), Go.check_eq_ok.mpr listed,
        bind_eq_ok.mpr ⟨(), Go.check_eq_ok.mpr known, ok⟩⟩⟩

/-- The two `crit` rules. -/
lemma critical_iff {fields : List (Cbor × Cbor)} :
    Go.checkCritical fields = .ok () ↔ criticalUnderstood fields = true := by
  rw [Go.checkCritical, lookup_eq_get, criticalUnderstood]
  cases get fields (.int 2) with
  | none => exact iff_of_true rfl rfl
  | some raw =>
    cases raw with
    | array crit =>
      dsimp only
      rw [Bool.and_eq_true, ← checkLabels_iff]
      constructor
      · intro ok
        obtain ⟨labels, isArray, ok⟩ := bind_eq_ok.mp ok
        obtain ⟨_, some_, ok⟩ := bind_eq_ok.mp ok
        cases isArray
        exact ⟨by simpa using Go.check_eq_ok.mp some_, ok⟩
      · rintro ⟨some_, ok⟩
        have nonempty : crit ≠ [] := by simpa using some_
        exact bind_eq_ok.mpr ⟨crit, rfl, bind_eq_ok.mpr ⟨(), Go.check_eq_ok.mpr nonempty, ok⟩⟩
    | _ => exact iff_of_false nofun nofun

/-- The checks of a protected header. -/
lemma checkProtected_iff {fields : List (Cbor × Cbor)} :
    Go.checkProtected fields = .ok () ↔ understoodHeaders (.map fields) = some () := by
  have vds : Go.asUint64 (Go.lookup fields 395) = some 1 ↔ asBigint (get fields (.int 395)) = some 1 := by
    rw [Go.asUint64_eq_some, lookup_eq_get]
    cases get fields (.int 395) with
    | none => exact iff_of_false nofun nofun
    | some v => cases v <;> simp [asBigint]
  have alg : Go.asInt (Go.lookup fields 1) = some Go.algorithmEdDsa ↔
      asBigint (get fields (.int 1)) = some (-8) := by
    rw [lookup_eq_get]
    cases get fields (.int 1) with
    | none => exact iff_of_false nofun nofun
    | some v => cases v <;> simp [asBigint, Go.asInt, Go.algorithmEdDsa]
  have parts : Go.checkProtected fields = .ok () ↔ Go.asUint64 (Go.lookup fields 395) = some 1 ∧
      Go.asInt (Go.lookup fields 1) = some Go.algorithmEdDsa ∧ Go.checkCritical fields = .ok () := by
    rw [Go.checkProtected]
    constructor
    · intro ok
      obtain ⟨_, hv, ok⟩ := bind_eq_ok.mp ok
      obtain ⟨_, ha, ok⟩ := bind_eq_ok.mp ok
      exact ⟨Go.check_eq_ok.mp hv, Go.check_eq_ok.mp ha, ok⟩
    · rintro ⟨hv, ha, ok⟩
      exact bind_eq_ok.mpr ⟨(), Go.check_eq_ok.mpr hv, bind_eq_ok.mpr ⟨(), Go.check_eq_ok.mpr ha, ok⟩⟩
  rw [parts, vds, alg, critical_iff]
  by_cases h1 : asBigint (get fields (.int 1)) = some (-8) <;>
    by_cases h2 : asBigint (get fields (.int 395)) = some 1 <;>
    by_cases h3 : criticalUnderstood fields = true <;>
    simp [understoodHeaders, asMap, guard, h1, h2, h3]

/-- The protected header of a receipt. -/
lemma protected_together (lawful : D.Lawful) {protectedBytes : Bytes}
    (small : protectedBytes.length ≤ Go.maxResponseBytes) :
    Together (fun _ _ => True)
      (Go.Result.call (Go.decodeProtected D protectedBytes) >>= fun fields =>
        Go.Result.call (Go.checkProtected fields))
      (Js.attempt (protectedHeaders protectedBytes) >>= fun headers => expect (understoodHeaders headers)) := by
  have checked (fields : List (Cbor × Cbor)) :
      Together (fun _ _ => True) (Go.Result.call (Go.checkProtected fields))
        (expect (understoodHeaders (.map fields))) :=
    together_call (fun _ ok => ⟨(), checkProtected_iff.mpr ok, trivial⟩) fun _ ok => by
      rw [checkProtected_iff.mp ok]
      exact Option.some_ne_none ()
  rw [Go.decodeProtected, protectedHeaders]
  by_cases empty : protectedBytes = []
  · rw [if_pos empty, if_pos empty]
    exact checked []
  · rw [if_neg empty, if_neg empty]
    rcases item_together lawful small false with ⟨v, w, left, right, rfl, -⟩ | ⟨⟨e, left⟩, right⟩
    · have go : Go.strictReceiptItem D protectedBytes false = .ok v := Option.some.inj left
      have ts : Js.attempt (decodeReceiptItem protectedBytes false) = expect (some v) := right
      rw [go, ts]
      cases v with
      | map fields => exact checked fields
      | _ => exact .inr ⟨⟨_, rfl⟩, rfl⟩
    · have go : Go.strictReceiptItem D protectedBytes false = .error e := Option.some.inj left
      have ts : Js.attempt (decodeReceiptItem protectedBytes false) = expect none := right
      rw [go, ts]
      exact .inr ⟨⟨_, rfl⟩, rfl⟩

/-- A header that is found is in the map. -/
lemma mem_of_get {fields : List (Cbor × Cbor)} {key v : Cbor} (found : get fields key = some v) :
    ∃ f ∈ fields, f.2 = v := by
  obtain ⟨f, at_, rfl⟩ := Option.map_eq_some_iff.mp found
  exact ⟨f, List.mem_of_find?_eq_some at_, rfl⟩

/-- Both languages look for the blobs in the same place. -/
lemma proofBlobs_cases (unprotected : List (Cbor × Cbor)) :
    (∃ blobs vdp, get unprotected (.int 396) = some (.map vdp) ∧ get vdp (.int (-1)) = some (.array blobs) ∧
      Go.proofBlobs (.map unprotected) = .ok blobs ∧
      proofBlobs unprotected = blobs.mapM fun blob => asBytes (some blob)) ∨
    (∃ e, Go.proofBlobs (.map unprotected) = .error e) ∧ proofBlobs unprotected = none := by
  have go : Go.proofBlobs (.map unprotected) = (do
      let vdp ← Go.orError (Go.asMap (get unprotected (.int 396))) "receipt missing VDP"
      let blobs ← Go.orError (Go.asArray (get vdp (.int (-1)))) "receipt missing inclusion proof"
      Go.check (blobs ≠ []) "receipt missing inclusion proof"
      Go.check (blobs.length ≤ Go.maxInclusionProofs) "receipt has more than 16 inclusion proofs"
      .ok blobs) := by
    simp only [← lookup_eq_get]
    rfl
  rw [go, proofBlobs]
  cases found : get unprotected (.int 396) with
  | none => exact .inr ⟨⟨_, rfl⟩, rfl⟩
  | some raw =>
    cases raw with
    | map vdp =>
      cases found' : get vdp (.int (-1)) with
      | none => exact .inr ⟨⟨_, by simp [Go.orError, Go.asMap, Go.asArray, found']; rfl⟩, by simp [asMap, found']⟩
      | some raw =>
        cases raw with
        | array blobs =>
          by_cases some_ : blobs = []
          · refine .inr ⟨⟨_, by simp [Go.orError, Go.asMap, Go.asArray, found', Go.check, some_]; rfl⟩, ?_⟩
            simp [asMap, found', some_, guard]
          · by_cases few : blobs.length ≤ 16
            · refine .inl ⟨blobs, vdp, rfl, found', ?_, ?_⟩
              · simp [Go.orError, Go.asMap, Go.asArray, found', Go.check, some_, few, Go.maxInclusionProofs]
              · simp [asMap, found', some_, guard, maxInclusionProofs, few]
            · refine .inr ⟨⟨_, by simp [Go.orError, Go.asMap, Go.asArray, found', Go.check, some_, few, Go.maxInclusionProofs]; rfl⟩, ?_⟩
              simp [asMap, found', some_, guard, maxInclusionProofs, few]
        | _ => exact .inr ⟨⟨_, by simp [Go.orError, Go.asMap, Go.asArray, found']; rfl⟩, by simp [asMap, found']⟩
    | _ => exact .inr ⟨⟨_, rfl⟩, rfl⟩

/-- The inclusion proofs that a receipt carries. -/
lemma blobs_together (lawful : D.Lawful) {unprotected : List (Cbor × Cbor)}
    (small : (encode (.map unprotected)).length ≤ Go.maxResponseBytes) :
    Together (List.Forall₂ SameProof)
      (Go.Result.call (Go.proofBlobs (.map unprotected)) >>= Go.decodeProofs D)
      (expect (proofBlobs unprotected) >>= inclusionProofList) := by
  rcases proofBlobs_cases unprotected with ⟨blobs, vdp, outer, inner, go, ts⟩ | ⟨⟨e, go⟩, ts⟩
  · rw [go, ts]
    refine proofs_together lawful fun b mem => ?_
    obtain ⟨f, hf, isVdp⟩ := mem_of_get outer
    obtain ⟨g, hg, isBlobs⟩ := mem_of_get inner
    calc b.length ≤ (encode (.bytes b)).length := length_le_encode_bytes b
      _ ≤ (encode (.array blobs)).length := length_encode_le_array mem
      _ = (encode g.2).length := by rw [isBlobs]
      _ ≤ (encode (.map vdp)).length := length_encode_le_map hg
      _ = (encode f.2).length := by rw [isVdp]
      _ ≤ (encode (.map unprotected)).length := length_encode_le_map hf
      _ ≤ Go.maxResponseBytes := small
  · rw [go, ts]
    exact .inr ⟨⟨e, rfl⟩, rfl⟩

/-- Go reads the parts of a receipt from its envelope. -/
lemma receiptParts_go {v u : Cbor} {protectedBytes signature : Bytes} :
    Go.receiptParts v = .ok (protectedBytes, u, signature) ↔
      v = .tag 18 (.array [.bytes protectedBytes, u, .null, .bytes signature]) := by
  constructor
  · intro ok
    unfold Go.receiptParts at ok
    split at ok
    · next protectedPart unprotectedPart payload signaturePart =>
      obtain ⟨p, hp, ok⟩ := bind_eq_ok.mp ok
      obtain ⟨_, hn, ok⟩ := bind_eq_ok.mp ok
      obtain ⟨q, hq, ok⟩ := bind_eq_ok.mp ok
      cases ok
      have isNull := Go.check_eq_ok.mp hn
      cases protectedPart <;> cases hp
      cases signaturePart <;> cases hq
      cases payload <;> cases isNull
      rfl
    · cases ok
  · rintro rfl
    rfl

/-- TypeScript reads the parts of a receipt from its envelope. -/
lemma receiptParts_ts {v : Cbor} {fields : List (Cbor × Cbor)} {protectedBytes signature : Bytes} :
    receiptParts v = some (protectedBytes, fields, signature) ↔
      v = .tag 18 (.array [.bytes protectedBytes, .map fields, .null, .bytes signature]) := by
  constructor
  · intro ok
    unfold receiptParts at ok
    split at ok
    · cases ok
      rfl
    · cases ok
  · rintro rfl
    rfl

/-- The same header, signature and proofs. -/
structure SameReceipt (d : Go.DecodedReceipt) (r : Bytes × Bytes × List InclusionProof) : Prop where
  protected_ : d.protected_ = r.1
  short : r.1.length ≤ Go.maxResponseBytes
  signature : d.signature = r.2.1
  proofs : List.Forall₂ SameProof d.proofs r.2.2

/-- Both languages decode a receipt to the same. -/
lemma receipt_together (lawful : D.Lawful) {bytes : Bytes} (small : bytes.length ≤ Go.maxResponseBytes) :
    Together SameReceipt (Go.decodeReceipt D bytes) (receiptProofs bytes) := by
  refine (item_together lawful small true).bind fun v w related => ?_
  obtain ⟨rfl, strict, rfl⟩ := related
  cases ts : receiptParts v with
  | some parts =>
    obtain ⟨protectedBytes, unprotected, signature⟩ := parts
    obtain rfl := receiptParts_ts.mp ts
    have item {x : Cbor} (mem : x ∈ [Cbor.bytes protectedBytes, .map unprotected, .null, .bytes signature]) :
        (encode x).length ≤ Go.maxResponseBytes := by
      have inner := length_encode_le_array mem
      rw [encode, List.length_append] at small
      omega
    have short : protectedBytes.length ≤ Go.maxResponseBytes :=
      (length_le_encode_bytes protectedBytes).trans (item (by simp))
    have made {ps : List Go.InclusionProof} {qs : List InclusionProof} (same : List.Forall₂ SameProof ps qs) :
        SameReceipt ⟨protectedBytes, signature, ps⟩ (protectedBytes, signature, qs) := ⟨rfl, short, rfl, same⟩
    have outer : (encode (.map unprotected)).length ≤ Go.maxResponseBytes := item (by simp)
    have blobs := blobs_together lawful outer
    have whole := (protected_together lawful short).bind fun _ _ _ => blobs.bind fun ps qs same =>
      together_pure (made same)
    rw [receiptParts_go.mpr rfl]
    simp only [bind_assoc] at whole
    exact whole
  | none =>
    refine .inr ⟨?_, rfl⟩
    cases go : Go.receiptParts v with
    | error e => exact ⟨e, rfl⟩
    | ok parts =>
      obtain ⟨protectedBytes, u, signature⟩ := parts
      obtain rfl := receiptParts_go.mp go
      have noMap : ∃ e, Go.proofBlobs u = .error e := by
        cases u with
        | map fields => cases ts
        | _ => exact ⟨_, rfl⟩
      obtain ⟨e, noBlobs⟩ := noMap
      show ∃ e, (Go.Result.call (Go.decodeProtected D protectedBytes) >>= fun fields =>
        Go.Result.call (Go.checkProtected fields) >>= fun _ => Go.Result.call (Go.proofBlobs u) >>= fun blobs =>
          Go.decodeProofs D blobs >>= fun proofs =>
            pure (⟨protectedBytes, signature, proofs⟩ : Go.DecodedReceipt)).run = some (.error e)
      refine fails_of_next fun fields => fails_of_next fun _ => ?_
      rw [noBlobs]
      exact ⟨e, rfl⟩

end CLL.Ts
