import CLL.Go.Reference
import CLL.Ts.ReceiptVerifier
import CLL.Ts.RoundTrip

/-!
# Receipt verifiers that agree

`verify_agrees`: Go and TypeScript accept the same receipts of a checkpoint statement that both accept.
-/

namespace CLL.Ts
open CLL.Core Cbor

variable {α β : Type} {D : Go.ReceiptCodec}

variable {C : Cborg} {H : HashFunction} {G : Go.Packages} {K : Curve}

/-- `cborg` can write a strict item. -/
def Cborg.Writes (C : Cborg) : Prop :=
  ∀ v, Strict false (maxDepth + 1) v → Writable v → (C.encode v).isSome = true

/-- A value whose canonical form is a text is that text. -/
lemma eq_of_canonical_str {x : Cbor} {s : Str} (same : x.canonical = .str s) : x = .str s := by
  cases x <;> simp_all [canonical]

/-- A value whose canonical form is a byte string is that byte string. -/
lemma eq_of_canonical_bytes {x : Cbor} {b : Bytes} (same : x.canonical = .bytes b) : x = .bytes b := by
  cases x <;> simp_all [canonical]

/-- An array of a text and byte strings is in order. -/
lemma eq_sigStructure {w : Cbor} {protectedBytes root : Bytes}
    (same : w.canonical = (sigStructure protectedBytes root).canonical) : w = sigStructure protectedBytes root := by
  simp only [sigStructure, name, canonical, canonicalItems] at same
  cases w with
  | array xs =>
    rw [canonical, canonicalItems_eq_map, Cbor.array.injEq] at same
    rcases xs with _ | ⟨a, _ | ⟨b, _ | ⟨c, _ | ⟨d, _ | ⟨_, _⟩⟩⟩⟩⟩ <;> simp only [List.map_cons, List.map_nil,
      List.cons.injEq, reduceCtorEq, and_false, and_true] at same
    obtain ⟨ha, hb, hc, hd⟩ := same
    rw [eq_of_canonical_str ha, eq_of_canonical_bytes hb, eq_of_canonical_bytes hc, eq_of_canonical_bytes hd]
    rfl
  | _ => simp [canonical] at same

/-- Both languages sign the same bytes. -/
lemma sigStructure_agrees (lawfulD : D.Lawful) (lawful : C.Lawful) (writes : C.Writes)
    {protectedBytes root : Bytes} (short : protectedBytes.length < 2 ^ 64) (short' : root.length < 2 ^ 64) :
    ∃ content, Go.sigStructure D protectedBytes root = some content ∧
      C.encode (sigStructure protectedBytes root) = some content := by
  have strict : Strict false (maxDepth + 1) (sigStructure protectedBytes root) := by
    refine ⟨by simp, fun x mem => ?_⟩
    simp only [List.mem_cons, List.not_mem_nil, or_false] at mem
    rcases mem with rfl | rfl | rfl | rfl
    · exact (by decide : fitsText (Str.lit "Signature1") = true)
    · exact short
    · exact Nat.two_pow_pos 64
    · exact short'
  have writable : Writable (sigStructure protectedBytes root) :=
    ⟨(by decide : (Utf8.encode (Str.lit "Signature1")).isSome = true), trivial, trivial, trivial, trivial⟩
  obtain ⟨w, same, written⟩ := lawfulD.marshal_strict _ strict.tagged
  obtain ⟨b, written'⟩ := Option.isSome_iff_exists.mp (writes _ strict writable)
  have canonical_eq : (sigStructure protectedBytes root).canonical = sigStructure protectedBytes root := by
    simp [sigStructure, name, canonical, canonicalItems]
  rw [eq_sigStructure same] at written
  have b_eq := lawful.encode_eq _ b strict.plain writable written'
  rw [canonical_eq] at b_eq
  exact ⟨_, written, b_eq ▸ written'⟩

/-- The loops over the same proofs. -/
lemma verifyProofs_together (lawfulD : D.Lawful) (lawful : C.Lawful) (writes : C.Writes)
    (same : ∀ key message signature, Go.verifyStrict G key message signature = verifyEd25519 K key message signature)
    {go : Go.ReceiptVerifier} {ts : ReceiptVerifier} (key : go.public_ = ts.publicKey) (entry : Bytes)
    (receipt : Go.Receipt) {d : Go.DecodedReceipt} (short : d.protected_.length < 2 ^ 64)
    {ps : List Go.InclusionProof} {qs : List InclusionProof} (proofs : List.Forall₂ SameProof ps qs) :
    Together (fun _ _ => True) (go.verifyProofs D H G entry receipt d ps)
      (ts.verifyProofs C H K entry d.protected_ d.signature receipt.treeSize.toInt receipt.leafIndex.toInt qs) := by
  induction proofs with
  | nil => exact together_fail _
  | @cons p q ps qs first _ ih =>
    obtain ⟨inside, nonneg, small, length, rfl⟩ := first
    obtain ⟨size, index, path⟩ := q
    dsimp only at inside nonneg small length ⊢
    lift index to ℕ using nonneg
    lift size to ℕ using by omega
    rw [Int.toNat_natCast, Int.toNat_natCast] at length ⊢
    have inside' : index < size := by exact_mod_cast inside
    have small' : size ≤ 2 ^ 62 := by exact_mod_cast small
    -- A proof that was decoded has the length of its path, so its root is computed.
    rcases rootFromProof_cases H entry inside' small' path with ⟨-, root, goRoot, -, tsRoot⟩ | ⟨other, -⟩
    swap
    · exact absurd length other
    have rebuilt := Go.rootFromProof_eq H entry (Int64.toInt_ofNat_of_lt (by omega : index < 2 ^ 63))
      (Int64.toInt_ofNat_of_lt (by omega : size < 2 ^ 63)) inside' small' path
    rw [goRoot] at rebuilt
    have digest := Go.length_of_climb H (Option.some.inj rebuilt).symm
    obtain ⟨content, goContent, tsContent⟩ := sigStructure_agrees lawfulD lawful writes short
      (show root.length < 2 ^ 64 by omega)
    have goStep : go.verifyProofs D H G entry receipt d (⟨.ofNat size, .ofNat index, path⟩ :: ps) =
        if Go.verifyStrict G go.public_ content d.signature then
          if Int64.ofNat size ≠ receipt.treeSize ∨ Int64.ofNat index ≠ receipt.leafIndex then
            throw "receipt position mismatch"
          else return ()
        else go.verifyProofs D H G entry receipt d ps := by
      rw [Go.ReceiptVerifier.verifyProofs, goRoot]
      show (ExceptT.lift (Go.sigStructure D d.protected_ root) >>= _) = _
      rw [goContent]
      rfl
    have tsStep : ts.verifyProofs C H K entry d.protected_ d.signature receipt.treeSize.toInt
          receipt.leafIndex.toInt (⟨size, index, path⟩ :: qs) =
        if verifyEd25519 K ts.publicKey content d.signature then
          require ((size : ℤ) = receipt.treeSize.toInt ∧ (index : ℤ) = receipt.leafIndex.toInt)
        else ts.verifyProofs C H K entry d.protected_ d.signature receipt.treeSize.toInt
          receipt.leafIndex.toInt qs := by
      rw [ReceiptVerifier.verifyProofs, tsRoot]
      show (expect (C.encode (sigStructure d.protected_ root)) >>= _) = _
      rw [tsContent]
      rfl
    rw [goStep, tsStep, same, key]
    by_cases verified : verifyEd25519 K ts.publicKey content d.signature = true
    -- The first proof whose signature holds decides: its position has to be that of the receipt.
    · rw [if_pos verified, if_pos verified, require]
      have position {n : ℕ} (lt : n < 2 ^ 63) (x : Int64) : Int64.ofNat n = x ↔ (n : ℤ) = x.toInt := by
        rw [← Int64.toInt_inj, Int64.toInt_ofNat_of_lt lt]
      have isSize := position (by omega : size < 2 ^ 63) receipt.treeSize
      have isIndex := position (by omega : index < 2 ^ 63) receipt.leafIndex
      by_cases at_ : (size : ℤ) = receipt.treeSize.toInt ∧ (index : ℤ) = receipt.leafIndex.toInt
      · have bound : ¬ (Int64.ofNat size ≠ receipt.treeSize ∨ Int64.ofNat index ≠ receipt.leafIndex) := by
          rw [← not_and_or, not_not]
          exact ⟨isSize.mpr at_.1, isIndex.mpr at_.2⟩
        rw [if_neg bound, if_pos at_]
        exact together_pure trivial
      · have mismatch : Int64.ofNat size ≠ receipt.treeSize ∨ Int64.ofNat index ≠ receipt.leafIndex := by
          rw [← not_and_or]
          exact fun both => at_ ⟨isSize.mp both.1, isIndex.mp both.2⟩
        rw [if_pos mismatch, if_neg at_]
        exact together_fail _
    · rw [if_neg verified, if_neg verified]
      exact ih

/-- A composed attempt succeeds where both parts do. -/
lemma attempt_bind {x : Attempt α} {f : α → Attempt β} {b : β} (ok : (x >>= f).run = some (some b)) :
    ∃ a, x.run = some (some a) ∧ (f a).run = some (some b) := by
  rw [OptionT.run_bind] at ok
  obtain ⟨a, run, ok⟩ := Option.bind_eq_some_iff.mp ok
  cases a with
  | none => cases ok
  | some a => exact ⟨a, run, ok⟩

/-- A position that is verified is not negative. -/
lemma nonneg_of_verifyProofs {ts : ReceiptVerifier} {entry protectedBytes signature : Bytes}
    {treeSize leafIndex : ℤ} {ps : List Go.InclusionProof} {qs : List InclusionProof}
    (proofs : List.Forall₂ SameProof ps qs)
    (ok : (ts.verifyProofs C H K entry protectedBytes signature treeSize leafIndex qs).run = some (some ())) :
    0 ≤ treeSize ∧ 0 ≤ leafIndex := by
  induction proofs with
  | nil => cases ok
  | @cons p q ps qs first _ ih =>
    rw [ReceiptVerifier.verifyProofs] at ok
    obtain ⟨root, -, ok⟩ := attempt_bind ok
    obtain ⟨root', -, ok⟩ := attempt_bind ok
    obtain ⟨content, -, ok⟩ := attempt_bind ok
    split at ok
    · rw [require] at ok
      split at ok
      · next at_ =>
        rw [← at_.1, ← at_.2]
        exact ⟨first.nonneg.trans first.inside.le, first.nonneg⟩
      · cases ok
    · exact ih ok

/-- The receipt in TypeScript. -/
def ofGo (receipt : Go.Receipt) : WitnessReceipt where
  bytes := receipt.bytes
  entryHash := some receipt.entryHash
  entryHashScheme := some receipt.entryHashScheme
  leafIndex := some (.finite receipt.leafIndex.toInt)
  treeSize := some (.finite receipt.treeSize.toInt)

variable {parse : Str → Option TimeValue}

/-- An integer is safe within the bounds. -/
lemma safeInteger_intCast (n : ℤ) :
    safeInteger (.finite n) = if n.natAbs ≤ maxSafeInteger then some n else none := by
  simp [safeInteger]

/-- The text of a digest is one. -/
lemma isHashHex_toHex {b : Bytes} (len : b.length = 32) : isHashHex (toHex b) = true := by
  have digit : ∀ n < 16, ((48 ≤ hexDigit n && hexDigit n ≤ 57) || (97 ≤ hexDigit n && hexDigit n ≤ 102)) = true := by
    decide
  rw [isHashHex, length_toHex, len, Bool.and_eq_true, List.all_eq_true]
  refine ⟨rfl, fun c mem => ?_⟩
  obtain ⟨x, -, mem⟩ := List.mem_flatMap.mp mem
  have lt := x.toNat_lt
  simp only [List.mem_cons, List.not_mem_nil, or_false] at mem
  rcases mem with rfl | rfl
  · exact digit _ (by omega)
  · exact digit _ (by omega)

/-- What is checked of a receipt before it is decoded. -/
structure Bound (entry : Bytes) (receipt : Go.Receipt) : Prop where
  bytes : receipt.bytes ≠ [] ∧ receipt.bytes.length ≤ Go.maxResponseBytes
  scheme : receipt.entryHashScheme = Go.entryHashSchemeCheckpointDigest
  hash : toHex entry = receipt.entryHash

/-- The positions are safe integers. -/
def SafePosition (receipt : Go.Receipt) : Prop :=
  receipt.treeSize.toInt.natAbs ≤ maxSafeInteger ∧ receipt.leafIndex.toInt.natAbs ≤ maxSafeInteger

/-- The bound entry is that of the record where the expected one is. -/
lemma boundEntry_eq_ok {statement entry entry' : Bytes} {record : Go.Record} {receipt : Go.Receipt}
    (parsed : Go.parseRecord H G statement = .ok record) (verified : record.verifySignature G = .ok ())
    (hashed : record.entryHash H = .ok entry) :
    Go.boundEntry H G statement receipt = .ok entry' ↔ entry' = entry ∧ Bound entry receipt := by
  rw [Go.boundEntry]
  constructor
  · intro ok
    obtain ⟨_, bytes, ok⟩ := bind_eq_ok.mp ok
    obtain ⟨_, scheme, ok⟩ := bind_eq_ok.mp ok
    obtain ⟨record', parsed', ok⟩ := bind_eq_ok.mp ok
    obtain ⟨_, -, ok⟩ := bind_eq_ok.mp ok
    obtain ⟨entry'', hashed', ok⟩ := bind_eq_ok.mp ok
    obtain ⟨_, hash, ok⟩ := bind_eq_ok.mp ok
    cases Except.ok.inj (parsed.symm.trans parsed')
    cases Except.ok.inj (hashed.symm.trans hashed')
    cases ok
    exact ⟨rfl, Go.check_eq_ok.mp bytes, Go.check_eq_ok.mp scheme, Go.check_eq_ok.mp hash⟩
  · rintro ⟨rfl, bound⟩
    exact bind_eq_ok.mpr ⟨(), Go.check_eq_ok.mpr bound.bytes, bind_eq_ok.mpr ⟨(), Go.check_eq_ok.mpr bound.scheme,
      bind_eq_ok.mpr ⟨record, parsed, bind_eq_ok.mpr ⟨(), verified, bind_eq_ok.mpr ⟨entry', hashed,
        bind_eq_ok.mpr ⟨(), Go.check_eq_ok.mpr bound.hash, rfl⟩⟩⟩⟩⟩⟩

/-- The fields of a receipt are those of Go. -/
lemma receiptFields_ofGo {receipt : Go.Receipt} {fields : Str × ℤ × ℤ} :
    receiptFields (ofGo receipt) = some fields ↔
      (receipt.bytes ≠ [] ∧ receipt.bytes.length ≤ receiptLimit) ∧ receipt.entryHashScheme = Str.lit "legacy" ∧
      isHashHex receipt.entryHash = true ∧ SafePosition receipt ∧
      fields = (receipt.entryHash, receipt.treeSize.toInt, receipt.leafIndex.toInt) := by
  unfold receiptFields
  constructor
  · intro ok
    obtain ⟨_, bytes, ok⟩ := Option.bind_eq_some_iff.mp ok
    obtain ⟨_, scheme, ok⟩ := Option.bind_eq_some_iff.mp ok
    obtain ⟨hash, isHash, ok⟩ := Option.bind_eq_some_iff.mp ok
    obtain ⟨_, hex, ok⟩ := Option.bind_eq_some_iff.mp ok
    obtain ⟨t, treeSize, ok⟩ := Option.bind_eq_some_iff.mp ok
    obtain ⟨l, leafIndex, ok⟩ := Option.bind_eq_some_iff.mp ok
    have treeSize : safeInteger (.finite receipt.treeSize.toInt) = some t := treeSize
    have leafIndex : safeInteger (.finite receipt.leafIndex.toInt) = some l := leafIndex
    rw [safeInteger_intCast, Option.ite_none_right_eq_some] at treeSize leafIndex
    cases treeSize.2
    cases leafIndex.2
    cases isHash
    cases ok
    exact ⟨(Option.guard_eq_some' _).mp bytes, Option.some.inj ((Option.guard_eq_some' _).mp scheme),
      (Option.guard_eq_some' _).mp hex, ⟨treeSize.1, leafIndex.1⟩, rfl⟩
  · rintro ⟨bytes, scheme, hex, safe, rfl⟩
    have treeSize : safeInteger (.finite receipt.treeSize.toInt) = some receipt.treeSize.toInt := by
      rw [safeInteger_intCast, if_pos safe.1]
    have leafIndex : safeInteger (.finite receipt.leafIndex.toInt) = some receipt.leafIndex.toInt := by
      rw [safeInteger_intCast, if_pos safe.2]
    exact Option.bind_eq_some_iff.mpr ⟨(), (Option.guard_eq_some' ()).mpr bytes, Option.bind_eq_some_iff.mpr ⟨(),
      (Option.guard_eq_some' ()).mpr (congrArg some scheme), Option.bind_eq_some_iff.mpr ⟨_, rfl,
        Option.bind_eq_some_iff.mpr ⟨(), (Option.guard_eq_some' ()).mpr hex, Option.bind_eq_some_iff.mpr ⟨_, treeSize,
          Option.bind_eq_some_iff.mpr ⟨_, leafIndex, rfl⟩⟩⟩⟩⟩⟩

/-- What TypeScript does with a receipt of a statement with an entry hash. -/
lemma attempt_ofGo {statement entry : Bytes} (len : entry.length = 32)
    (hashed : checkpointEntryHash C H (verifyEd25519 K) parse statement = some entry) (ts : ReceiptVerifier)
    (receipt : Go.Receipt) :
    (Bound entry receipt ∧ SafePosition receipt ∧
      ts.attempt C H K parse statement (ofGo receipt) = (receiptProofs receipt.bytes >>= fun r =>
        ts.verifyProofs C H K entry r.1 r.2.1 receipt.treeSize.toInt receipt.leafIndex.toInt r.2.2)) ∨
    ¬ (Bound entry receipt ∧ SafePosition receipt) ∧
      ts.attempt C H K parse statement (ofGo receipt) = expect none := by
  by_cases bound : Bound entry receipt ∧ SafePosition receipt
  · obtain ⟨⟨bytes, scheme, hash⟩, treeSize, leafIndex⟩ := bound
    refine .inl ⟨⟨bytes, scheme, hash⟩, ⟨treeSize, leafIndex⟩, ?_⟩
    have fields := receiptFields_ofGo.mpr
      ⟨bytes, scheme, hash ▸ isHashHex_toHex len, ⟨treeSize, leafIndex⟩, rfl⟩
    rw [ReceiptVerifier.attempt, fields]
    show (expect (checkpointEntryHash C H (verifyEd25519 K) parse statement) >>= _) = _
    rw [hashed]
    show (require (toHex entry = receipt.entryHash) >>= _) = _
    rw [require, if_pos hash]
    rfl
  · refine .inr ⟨bound, ?_⟩
    rw [ReceiptVerifier.attempt]
    cases read : receiptFields (ofGo receipt) with
    | none => rfl
    | some fields =>
      obtain ⟨bytes, scheme, -, safe, rfl⟩ := receiptFields_ofGo.mp read
      have other : toHex entry ≠ receipt.entryHash := fun hash => bound ⟨⟨bytes, scheme, hash⟩, safe⟩
      show (expect (checkpointEntryHash C H (verifyEd25519 K) parse statement) >>= _) = _
      rw [hashed]
      show (require (toHex entry = receipt.entryHash) >>= _) = _
      rw [require, if_neg other]
      rfl

/-- What Go does with it. -/
lemma verify_go {statement entry : Bytes} {record : Go.Record}
    (parsed : Go.parseRecord H G statement = .ok record) (verified : record.verifySignature G = .ok ())
    (hashed : record.entryHash H = .ok entry) (go : Go.ReceiptVerifier) (receipt : Go.Receipt) :
    (Bound entry receipt ∧ go.verify D H G statement receipt = (Go.decodeReceipt D receipt.bytes >>= fun d =>
        go.verifyProofs D H G entry receipt d d.proofs)) ∨
    ¬ Bound entry receipt ∧ ∃ e, (go.verify D H G statement receipt).run = some (.error e) := by
  have checks {entry' : Bytes} : Go.boundEntry H G statement receipt = .ok entry' ↔ _ :=
    boundEntry_eq_ok parsed verified hashed
  rw [Go.ReceiptVerifier.verify]
  cases read : Go.boundEntry H G statement receipt with
  | ok entry' =>
    obtain ⟨rfl, bound⟩ := checks.mp read
    exact .inl ⟨bound, rfl⟩
  | error e =>
    refine .inr ⟨fun bound => ?_, e, rfl⟩
    rw [checks.mpr ⟨rfl, bound⟩] at read
    cases read

/-- Both languages decode a receipt and look for a proof that is signed. -/
lemma decoded_together (lawfulD : D.Lawful) (lawful : C.Lawful) (writes : C.Writes)
    (same : ∀ key message signature, Go.verifyStrict G key message signature = verifyEd25519 K key message signature)
    {go : Go.ReceiptVerifier} {ts : ReceiptVerifier} (key : go.public_ = ts.publicKey) (entry : Bytes)
    {receipt : Go.Receipt} (small : receipt.bytes.length ≤ Go.maxResponseBytes) :
    Together (fun _ _ => 0 ≤ receipt.treeSize.toInt ∧ 0 ≤ receipt.leafIndex.toInt)
      (Go.decodeReceipt D receipt.bytes >>= fun d => go.verifyProofs D H G entry receipt d d.proofs)
      (receiptProofs receipt.bytes >>= fun r =>
        ts.verifyProofs C H K entry r.1 r.2.1 receipt.treeSize.toInt receipt.leafIndex.toInt r.2.2) := by
  refine (receipt_together lawfulD small).bind fun d r decoded => ?_
  have short : d.protected_.length < 2 ^ 64 := by
    rw [decoded.protected_]
    exact decoded.short.trans_lt (by decide)
  have both := verifyProofs_together (H := H) lawfulD lawful writes same key entry receipt short decoded.proofs
  rw [← decoded.protected_, ← decoded.signature]
  rcases both with ⟨a, b, left, right, -⟩ | fails
  · exact .inl ⟨a, b, left, right, nonneg_of_verifyProofs decoded.proofs right⟩
  · exact .inr fails

/-- Both languages accept the same receipts of a statement that both accept. -/
theorem verify_agrees (lawfulD : D.Lawful) (lawful : C.Lawful) (writes : C.Writes)
    (same : ∀ key message signature, Go.verifyStrict G key message signature = verifyEd25519 K key message signature)
    {statement entry : Bytes} {record : Go.Record} (parsed : Go.parseRecord H G statement = .ok record)
    (verified : record.verifySignature G = .ok ()) (hashed : record.entryHash H = .ok entry)
    (hashed' : checkpointEntryHash C H (verifyEd25519 K) parse statement = some entry) {key : Bytes}
    {go : Go.ReceiptVerifier} {ts : ReceiptVerifier} (made : Go.newReceiptVerifier key = .ok go)
    (made' : newReceiptVerifier key = .ok ts) (receipt : Go.Receipt)
    (small : receipt.treeSize.toInt ≤ maxSafeInteger ∧ receipt.leafIndex.toInt ≤ maxSafeInteger) :
    ∃ g t, (go.verify D H G statement receipt).run = some g ∧
      ts.verify C H K parse statement (ofGo receipt) = some t ∧ (g = .ok () ↔ t = true) := by
  have key : go.public_ = ts.publicKey := by
    unfold Go.newReceiptVerifier at made
    unfold newReceiptVerifier at made'
    split at made
    · next len =>
      rw [dif_pos len] at made'
      cases made
      cases made'
      rfl
    · cases made
  have len : entry.length = 32 := by
    obtain ⟨digest, -, hash⟩ := bind_eq_ok.mp hashed
    cases hash
    exact H.length_digest' _
  rw [ReceiptVerifier.verify]
  rcases verify_go (D := D) parsed verified hashed go receipt with ⟨bound, goRun⟩ | ⟨unbound, e, goRun⟩
  · have both := decoded_together (H := H) lawfulD lawful writes same key entry bound.bytes.2
    rcases attempt_ofGo len hashed' ts receipt with ⟨-, -, tsRun⟩ | ⟨unsafePosition, tsRun⟩
    · rw [goRun, tsRun]
      rcases both with ⟨⟨⟩, ⟨⟩, left, right, -⟩ | ⟨⟨e, left⟩, right⟩
      · exact ⟨_, _, left, congrArg (Option.map Option.isSome) right, by simp⟩
      · exact ⟨_, _, left, congrArg (Option.map Option.isSome) right, by simp⟩
    · rw [goRun, tsRun]
      rcases both with ⟨⟨⟩, ⟨⟩, -, -, nonneg⟩ | ⟨⟨e, left⟩, -⟩
      · exact absurd ⟨bound, by omega, by omega⟩ unsafePosition
      · exact ⟨_, _, left, rfl, by simp⟩
  · rcases attempt_ofGo len hashed' ts receipt with ⟨bound, -⟩ | ⟨-, tsRun⟩
    · exact absurd bound unbound
    · rw [tsRun]
      exact ⟨_, _, goRun, rfl, by simp⟩

/-- A codec of strict items. -/
def referenceReceiptCodec : Go.ReceiptCodec where
  unmarshal data := (readStrict true (Go.maxReceiptDepth + 1) data).bind fun r => if r.2 = [] then some r.1 else none
  marshal v := some v.canonical.encode

/-- The reference codec of receipts is lawful. -/
lemma referenceReceiptCodec_lawful : referenceReceiptCodec.Lawful where
  unmarshal_encode v strict _ := by
    have read := (readStrict_reads true (Go.maxReceiptDepth + 1) (encode v) v []).mpr
      ⟨strict, (List.append_nil _).symm⟩
    show (readStrict true (Go.maxReceiptDepth + 1) (encode v)).bind _ = _
    rw [read]
    rfl
  loose data v read := by
    obtain ⟨⟨w, rest⟩, item, whole⟩ := Option.bind_eq_some_iff.mp read
    rw [Option.ite_none_right_eq_some] at whole
    obtain ⟨rfl, same⟩ := whole
    cases same
    obtain ⟨strict, rfl⟩ := (readStrict_reads _ _ _ _ _).mp item
    rw [List.append_nil]
    exact loose_encode strict
  marshal_strict v _ := ⟨v.canonical, canonical_canonical v, rfl⟩

/-- The reference package writes CBOR. -/
lemma referenceCborg_writes : referenceCborg.Writes := by
  intro v strict _
  show (Cbor.write v).isSome = true
  rw [Cbor.write, if_pos strict.fits]
  rfl

/-- The points that Go accepts are the points of this curve, whose equation holds. -/
def acceptingCurve : Curve :=
  { sampleCurve with fromBytes := fun b => if Ed25519.acceptablePoint b then some b else none }

/-- Go's packages, which verify what this curve verifies. -/
def acceptingPackages : Go.Packages := Go.referencePackages sha256Hash (verifyEd25519 acceptingCurve)

/-- The curve that accepts refuses points that are not acceptable. -/
lemma verifyEd25519_accepting {key message signature : Bytes}
    (other : ¬ (Ed25519.acceptablePoint key = true ∧ Ed25519.acceptablePoint (signature.take 32) = true)) :
    verifyEd25519 acceptingCurve key message signature = false := by
  unfold verifyEd25519
  split
  · rfl
  · dsimp only
    split
    · rfl
    by_cases isKey : Ed25519.acceptablePoint key = true
    · have isR : Ed25519.acceptablePoint (signature.take 32) = false := by simpa [isKey] using other
      simp [acceptingCurve, isKey, isR]
    · simp [acceptingCurve, isKey]

/-- Go and TypeScript verify signatures alike on the curve that accepts. -/
lemma verifyStrict_accepting (key message signature : Bytes) :
    Go.verifyStrict acceptingPackages key message signature = verifyEd25519 acceptingCurve key message signature := by
  show (key.length == 32 && signature.length == 64 && Ed25519.acceptablePoint key &&
    Ed25519.acceptablePoint (signature.take 32) && verifyEd25519 acceptingCurve key message signature) = _
  by_cases len : key.length ≠ 32 ∨ signature.length ≠ 64
  · rw [verifyEd25519, if_pos len, Bool.and_false]
  · rw [not_or, not_not, not_not] at len
    by_cases points : Ed25519.acceptablePoint key = true ∧ Ed25519.acceptablePoint (signature.take 32) = true
    · simp [len.1, len.2, points.1, points.2]
    · rw [verifyEd25519_accepting points, Bool.and_false]

/-- The statement of the sample tree. -/
def receiptStatement : Bytes := ((sampleStatement epoch).map fun s => s.2.cose).getD []

/-- The bytes of the statement. -/
lemma receiptStatement_eq : receiptStatement =
    Cbor.bigEndian 32 0xd2845856a4012703781f6170706c69636174696f6e2f636c6c2d636865636b70 ++
      Cbor.bigEndian 32 0x6f696e742b63626f7204582003a107bff3ce10be1d70dd18e74bc09967e4d630 ++
      Cbor.bigEndian 32 0x9ba50d5f1ddc8664125531b80fa201636c6f6702656c6f672333a0590160a864 ++
      Cbor.bigEndian 32 0x6b696e646e636c6c2d636865636b706f696e7467636164656e636502686c6f67 ++
      Cbor.bigEndian 32 0x5f73697a6503696973737565645f617474313937302d30312d30315430303a30 ++
      Cbor.bigEndian 32 0x303a30305a69707265765f73697a65016a636f6d6d69746d656e745823815820 ++
      Cbor.bigEndian 32 0x510704c5a7336a3796cf4e418f3bac9004ac6a7fa735c3a952ab626435e32b1b ++
      Cbor.bigEndian 32 0x6f707265765f636f6d6d69746d656e745823815820dcffe786ded16d283c6638 ++
      Cbor.bigEndian 32 0x46ad0c4ff26558fccde36ca9d30b2ea19eade9fc0e71636f6e73697374656e63 ++
      Cbor.bigEndian 32 0x795f70726f6f66a56673697a655f61016673697a655f6203677769746e657373 ++
      Cbor.bigEndian 32 0x81815820cba8c596120bdb69debbd923d92cba948bde7c7d06a465a1bb7d98d3 ++
      Cbor.bigEndian 32 0x116038fa696e65775f7065616b73815820510704c5a7336a3796cf4e418f3bac ++
      Cbor.bigEndian 32 0x9004ac6a7fa735c3a952ab626435e32b1b696f6c645f7065616b73815820dcff ++
      Cbor.bigEndian 32 0xe786ded16d283c663846ad0c4ff26558fccde36ca9d30b2ea19eade9fc0e5840 ++
      Cbor.bigEndian 32 0xbd477b1ddd1b57d9f824c10eaba4e51f2da8452454dda9248a9c3959fd4c15d8 ++
      Cbor.bigEndian 32 0x62194c9badcd3ae41978282efe0d9645c497acb42c8c66395b36da31d0ff4101 := by
  rw [receiptStatement, sampleStatement, sampleInput, sampleTree, sampleIdentity, samplePublicKey_eq,
    sampleSignature_eq, lateSignature_eq, sha256Hash_eq]
  decide +kernel

/-- The public key of an authority. -/
def authorityKey : Bytes := fromText "6e7a1cdd29b0b78fd13af4c5598feff4ef2a97166e3ca6f2e4fbfccd80505bf1"

/-- The bytes of the authority's key. -/
lemma authorityKey_eq : authorityKey =
    Cbor.bigEndian 32 0x6e7a1cdd29b0b78fd13af4c5598feff4ef2a97166e3ca6f2e4fbfccd80505bf1 := by
  rw [authorityKey, fromText, Str.lit_ofList]
  rfl

/-- The authority's key has 32 bytes. -/
lemma length_authorityKey : authorityKey.length = 32 := by rw [authorityKey_eq, Cbor.length_bigEndian]

/-- Its receipt for the statement, the first of two entries. -/
def sampleReceipt : Go.Receipt where
  bytes := fromText ("d28447a2012719018b01a119018ca1208158268302008158200707070707070707070707070707070707" ++
    "070707070707070707070707070707f65840936096c585330c1f700dce7a85bb17150e45b489d9fe7c463b96e24bdd7b97ee" ++
    "b331d7f499f4add4f5bdcc2bb9da3140d34f98b4adc5a199b74cd9e5eff45e06")
  entryHash := .lit "e882de08e6e01ccd17e3fe733ca7c64ea7e1ad99d29e7899385f7e8f686616ba"
  entryHashScheme := .lit "legacy"
  leafIndex := 0
  treeSize := 2

set_option maxRecDepth 8000 in
/-- The bytes of the receipt. -/
lemma sampleReceipt_bytes : sampleReceipt.bytes =
    Cbor.bigEndian 28 0xd28447a2012719018b01a119018ca120815826830200815820070707 ++
      Cbor.bigEndian 32 0x0707070707070707070707070707070707070707070707070707070707f65840 ++
      Cbor.bigEndian 32 0x936096c585330c1f700dce7a85bb17150e45b489d9fe7c463b96e24bdd7b97ee ++
      Cbor.bigEndian 32 0xb331d7f499f4add4f5bdcc2bb9da3140d34f98b4adc5a199b74cd9e5eff45e06 := by
  simp only [sampleReceipt, fromText, Str.lit_append]
  rw [Str.lit_ofList, Str.lit_ofList, Str.lit_ofList]
  rfl

/-- The entry hash of a statement that both languages accept. -/
def acceptedEntry (H : HashFunction) (P : Go.Packages) (statement : Bytes) : Option Bytes :=
  match Go.parseRecord H P statement with
  | .ok record =>
    if record.verifySignature P = .ok () then
      match record.entryHash H,
        checkpointEntryHash referenceCborg H (verifyEd25519 acceptingCurve) parseIso statement with
      | .ok entry, some entry' => if entry = entry' then some entry else none
      | _, _ => none
    else none
  | _ => none

/-- The entry of an accepted statement is that of its record. -/
lemma acceptedEntry_eq_some {H : HashFunction} {P : Go.Packages} {statement entry : Bytes}
    (accepted : acceptedEntry H P statement = some entry) :
    ∃ record, Go.parseRecord H P statement = .ok record ∧ record.verifySignature P = .ok () ∧
      record.entryHash H = .ok entry ∧
      checkpointEntryHash referenceCborg H (verifyEd25519 acceptingCurve) parseIso statement =
        some entry := by
  unfold acceptedEntry at accepted
  split at accepted
  · next record parsed =>
    rw [Option.ite_none_right_eq_some] at accepted
    obtain ⟨verified, accepted⟩ := accepted
    split at accepted
    · next hashed hashed' =>
      rw [Option.ite_none_right_eq_some] at accepted
      obtain ⟨rfl, same⟩ := accepted
      cases same
      exact ⟨record, parsed, verified, hashed, hashed'⟩
    · cases accepted
  · cases accepted

/-- The statement is accepted with its entry. -/
lemma acceptedEntry_receiptStatement : acceptedEntry sha256Hash acceptingPackages receiptStatement =
    some (Cbor.bigEndian 32 0xe882de08e6e01ccd17e3fe733ca7c64ea7e1ad99d29e7899385f7e8f686616ba) := by
  rw [receiptStatement_eq, acceptingPackages, sha256Hash_eq]
  decide +kernel

/-- The receipt is accepted by both. -/
theorem verify_agrees_sample : ∃ go ts, Go.newReceiptVerifier authorityKey = .ok go ∧
    newReceiptVerifier authorityKey = .ok ts ∧
    (go.verify referenceReceiptCodec sha256Hash acceptingPackages receiptStatement sampleReceipt).run =
      some (.ok ()) ∧
    ts.verify referenceCborg sha256Hash acceptingCurve parseIso receiptStatement (ofGo sampleReceipt) =
      some true := by
  obtain ⟨record, parsed, verified, hashed, hashed'⟩ := acceptedEntry_eq_some acceptedEntry_receiptStatement
  have made : Go.newReceiptVerifier authorityKey = .ok ⟨authorityKey, length_authorityKey⟩ :=
    dif_pos length_authorityKey
  have made' : newReceiptVerifier authorityKey = .ok ⟨authorityKey, length_authorityKey⟩ :=
    dif_pos length_authorityKey
  obtain ⟨g, t, goRun, tsRun, agrees⟩ := verify_agrees referenceReceiptCodec_lawful referenceCborg_lawful
    referenceCborg_writes verifyStrict_accepting parsed verified hashed hashed' made made' sampleReceipt
    (by decide)
  have accepted : ReceiptVerifier.verify referenceCborg sha256Hash acceptingCurve parseIso
      ⟨authorityKey, length_authorityKey⟩ receiptStatement (ofGo sampleReceipt) = some true := by
    rw [ReceiptVerifier.verify, ReceiptVerifier.attempt, hashed', ofGo, sampleReceipt_bytes]
    simp only [authorityKey_eq, sha256Hash_eq]
    decide +kernel
  obtain rfl : t = true := Option.some.inj (tsRun.symm.trans accepted)
  exact ⟨_, _, made, made', goRun.trans (congrArg some (agrees.mpr rfl)), tsRun⟩

end CLL.Ts
