import CLL.Lib.JsonDict
import CLL.Log.Validate

/-!
# Round trips and canonical encodings

The encoders of `log/wire.py` on any object, where `Log/Wire` has them on the values that the engine stores.
A value that passes its check is encoded as the copy that the check returns, so it is read back as itself
with its times normalised. The other direction is about every JSON object a decoder accepts:
`witnessObjToWire_witnessFromWire` says that encoding what was decoded gives the object back less its fields
that are `null`.
-/

namespace CLL.Log
open CLL.Core (Digest)
open Json (Same nonNull OnlyKeys)

/-- `str(value)`. A `float` that is a whole number below `10 ** 16` is written with one fraction digit;
`other` is the text of the values that have no rule here. -/
def strOf (other : Obj → Str) : Obj → Str
  | .int n => Json.dumpInt n
  | .bool b => Str.lit (if b then "True" else "False")
  | .float x =>
    if x.den = 1 ∧ x.num.natAbs < 10 ^ 16 then Json.dumpInt x.num ++ Str.lit ".0" else other (.float x)
  | value => other value

/-- `format_decimal` of any object. -/
def formatDecimalObj (other : Obj → Str) (value : Obj) : Json := .str (strOf other value)

/-- `encode_bytes` of any object. -/
def encodeBytesObj (value : Obj) : Py Json :=
  match value.buf? with
  | some b => .ok (.str (encodeBytes b))
  | none => raise .typeError "a bytes-like object is required"

/-- `format_time` of any object. -/
def formatTimeObj (value : Obj) : Py Json :=
  (normalizeTime .invalid value).map fun t => .str (formatTime t)

/-- A value placed in a `dict` as it is. One that JSON has no form for, which `dumps` refuses, is refused
here. -/
def jsonOf : Obj → Py Json
  | .none => .ok .null
  | .bool b => .ok (.bool b)
  | .int n => .ok (.int n)
  | .str s => .ok (.str s)
  | _ => raise .typeError "object is not JSON serializable"

/-- `if value is not None: wire[key] = …`. -/
def fieldObj? (key : String) (toJson : Obj → Py Json) : Obj → Py Fields
  | .none => .ok []
  | value => (toJson value).map fun json => [(Str.lit key, json)]

/-- The items of a sequence that a comprehension goes over. -/
def iterate (value : Obj) : Py (List Obj) := orRaise .typeError "object is not iterable" value.seq?

/-- `entry_to_wire` of any object. -/
def entryObjToWire (other : Obj → Str) (entry : Obj) : Py Json :=
  entry.attr "seq" >>= fun seq =>
  entry.attr "value" >>= encodeBytesObj >>= fun value =>
  entry.attr "appended_at" >>= formatTimeObj >>= fun appendedAt =>
  .ok (.obj [(Str.lit "seq", formatDecimalObj other seq), (Str.lit "value", value),
    (Str.lit "appendedAt", appendedAt)])

/-- The fields of a receipt object. -/
def receiptObjFields : Obj → Py Fields
  | .none => .ok []
  | receipt =>
    receipt.attr "bytes" >>= encodeBytesObj >>= fun bytes =>
    receipt.attr "entry_hash" >>= fieldObj? "entryHash" jsonOf >>= fun entryHash =>
    receipt.attr "entry_hash_scheme" >>= fieldObj? "entryHashScheme" jsonOf >>= fun scheme =>
    receipt.attr "leaf_index" >>= fieldObj? "leafIndex" jsonOf >>= fun leafIndex =>
    receipt.attr "tree_size" >>= fieldObj? "treeSize" jsonOf >>= fun treeSize =>
    .ok ((Str.lit "receipt", bytes) :: (entryHash ++ (scheme ++ (leafIndex ++ treeSize))))

/-- `witness_to_wire` of any object. -/
def witnessObjToWire (other : Obj → Str) (value : Obj) : Py Json :=
  value.attr "witness_id" >>= jsonOf >>= fun witnessId =>
  value.attr "checkpoint_size" >>= fun checkpointSize =>
  value.attr "checkpoint" >>= encodeBytesObj >>= fun checkpoint =>
  value.attr "attempts" >>= jsonOf >>= fun attempts =>
  value.attr "next_attempt_at" >>= formatTimeObj >>= fun nextAttemptAt =>
  value.attr "receipt" >>= receiptObjFields >>= fun receipt =>
  value.attr "permanent" >>= jsonOf >>= fun permanent =>
  value.attr "last_error" >>= fieldObj? "lastError" jsonOf >>= fun lastError =>
  .ok (.obj ((Str.lit "witnessId", witnessId) ::
    (Str.lit "checkpointSize", formatDecimalObj other checkpointSize) ::
    (Str.lit "checkpoint", checkpoint) :: (Str.lit "attempts", attempts) ::
    (Str.lit "nextAttemptAt", nextAttemptAt) ::
    (receipt ++ ((Str.lit "permanent", permanent) :: lastError))))

/-- The fields of a checkpoint object. -/
def checkpointObjFields (other : Obj → Str) : Obj → Py Fields
  | .none => .ok []
  | checkpoint =>
    checkpoint.attr "bytes" >>= encodeBytesObj >>= fun bytes =>
    checkpoint.attr "size" >>= fun size =>
    checkpoint.attr "indexed_seq" >>= fun indexedSeq =>
    checkpoint.attr "peaks" >>= iterate >>= fun peaks =>
    peaks.mapM encodeBytesObj >>= fun peaks =>
    .ok [(Str.lit "checkpoint", bytes), (Str.lit "checkpointSize", formatDecimalObj other size),
      (Str.lit "checkpointIndexedSeq", formatDecimalObj other indexedSeq),
      (Str.lit "checkpointPeaks", .arr peaks)]

/-- `state_to_wire` of any object. -/
def stateObjToWire (other : Obj → Str) (value : Obj) : Py Json :=
  value.attr "size" >>= fun size =>
  value.attr "indexed_seq" >>= fun indexedSeq =>
  value.attr "nodes" >>= iterate >>= fun nodes =>
  nodes.mapM encodeBytesObj >>= fun nodes =>
  value.attr "first_pending_at" >>= fieldObj? "firstPendingAt" formatTimeObj >>= fun firstPendingAt =>
  value.attr "checkpoint" >>= checkpointObjFields other >>= fun checkpoint =>
  value.attr "witnesses" >>= iterate >>= fun witnesses =>
  witnesses.mapM (witnessObjToWire other) >>= fun witnesses =>
  .ok (.obj ((Str.lit "size", formatDecimalObj other size) ::
    (Str.lit "indexedSeq", formatDecimalObj other indexedSeq) :: (Str.lit "nodes", .arr nodes) ::
    (firstPendingAt ++ (checkpoint ++ [(Str.lit "witnesses", .arr witnesses)]))))

/-- `hash(value)` returns. -/
def hashable : Obj → Bool
  | .bytearray _ => false
  | _ => true

/-- `validate_entries` from `index` on, with the values seen before. -/
def validateEntriesFrom (error : ErrorKind) : ℕ → List Bytes → List Obj → Py Unit
  | _, _, [] => .ok ()
  | index, seen, entry :: entries =>
    entry.attr "seq" >>= fun seq =>
    require (seq.eq (natObj (index + 1)) = true ∧ index + 1 ≤ maxPortableInteger) error
      "stored CLL entries are not contiguous and valid" >>= fun _ =>
    entry.attr "value" >>= fun value =>
    orRaise error "stored CLL entries are not contiguous and valid"
      (width entryBytes entryBytes value) >>= fun data =>
    entry.attr "appended_at" >>= normalizeTime error >>= fun _ =>
    require (hashable value = true) .typeError "unhashable type" >>= fun _ =>
    require (data.1 ∉ seen) error "stored CLL entries contain duplicates" >>= fun _ =>
    validateEntriesFrom error (index + 1) (data.1 :: seen) entries

/-- `validate_entries`. -/
def validateEntries (error : ErrorKind) (entries : List Obj) : Py Unit :=
  validateEntriesFrom error 0 [] entries

/-- An identifier is its text. -/
lemma identifier_eq_some {value : Obj} {s : Identifier} (ok : identifier value = some s) :
    value = .str s.1 := by
  cases value with
  | str t =>
    simp only [identifier] at ok
    split at ok
    · cases ok
      rfl
    · cases ok
  | _ => cases ok

/-- A counter is its number. -/
lemma counter_eq_some {lo hi : ℕ} {value : Obj} {n : Counter lo hi} (ok : counter lo hi value = some n) :
    value = .int (n.1 : ℕ) := by
  cases value with
  | int m =>
    simp only [counter, Obj.int?, Option.bind_some] at ok
    split at ok
    · rename_i range
      cases ok
      congr 1
      exact (Int.toNat_of_nonneg (by omega)).symm
    · cases ok
  | _ => cases ok

/-- What is read as a number is one. -/
lemma int?_eq_some {value : Obj} {n : ℤ} (ok : value.int? = some n) : value = .int n := by
  cases value with
  | int m =>
    cases ok
    rfl
  | _ => cases ok

/-- A sized byte string is a buffer of its bytes. -/
lemma width_eq_some {lo hi : ℕ} {value : Obj} {b : Sized lo hi} (ok : width lo hi value = some b) :
    value.buf? = some b.1 := by
  obtain ⟨data, buf, ok⟩ := Option.bind_eq_some_iff.mp ok
  split at ok
  · cases ok
    exact buf
  · cases ok

/-- A digest is a buffer of its bytes. -/
lemma digest_eq_some {value : Obj} {d : Digest} (ok : digest value = some d) :
    value.buf? = some d.1 := by
  obtain ⟨data, buf, ok⟩ := Option.bind_eq_some_iff.mp ok
  split at ok
  · cases ok
    exact buf
  · cases ok

/-- A flag is its truth value. -/
lemma boolean_eq_some {value : Obj} {b : Bool} (ok : boolean value = some b) : value = .bool b := by
  cases value with
  | bool c =>
    cases ok
    rfl
  | _ => cases ok

/-- A reason is its text. -/
lemma reason_eq_some {value : Obj} {r : Reason} (ok : reason value = some r) : value = .str r.1 := by
  cases value with
  | str t =>
    simp only [reason] at ok
    split at ok
    · cases ok
      rfl
    · cases ok
  | _ => cases ok

/-- An entry hash is its text. -/
lemma entryHash_eq_some {value : Obj} {h : EntryHash} (ok : entryHash value = some h) :
    value = .str h.1 := by
  cases value with
  | str t =>
    simp only [entryHash] at ok
    split at ok
    · cases ok
      rfl
    · cases ok
  | _ => cases ok

/-- Only a `str` equals a `str`. -/
lemma entryHashScheme_eq_some {value : Obj} {s : EntryHashScheme} (ok : entryHashScheme value = some s) :
    value = .str s.name := by
  unfold entryHashScheme at ok
  split at ok
  · rename_i same
    cases ok
    cases value with
    | str t =>
      rw [Obj.eq_str, beq_iff_eq] at same
      rw [same]
      rfl
    | _ => simp [Obj.eq, Obj.num?, Obj.buf?] at same
  · cases ok

/-- The error class does not matter to a time that is one. -/
lemma normalizeTime_of_ok {error : ErrorKind} {value : Obj} {t : Time} (ok : normalizeTime error value = .ok t)
    (error' : ErrorKind) : normalizeTime error' value = .ok t := by
  cases value with
  | datetime d =>
    obtain ⟨clock, lt, offset⟩ := d
    cases offset with
    | none => exact absurd ok raise_ne_ok
    | some offset =>
      simp only [normalizeTime] at ok ⊢
      split at ok
      · rename_i range
        rw [dif_pos range]
        exact ok
      · exact absurd ok raise_ne_ok
  | _ => exact absurd ok raise_ne_ok

/-- A buffer is encoded in its bytes. -/
lemma encodeBytesObj_of_buf? {value : Obj} {b : Bytes} (buf : value.buf? = some b) :
    encodeBytesObj value = .ok (.str (encodeBytes b)) := by
  rw [encodeBytesObj, buf]

/-- A time is formatted after it was normalized. -/
lemma formatTimeObj_of_ok {error : ErrorKind} {value : Obj} {t : Time}
    (ok : normalizeTime error value = .ok t) : formatTimeObj value = .ok (.str (formatTime t)) := by
  rw [formatTimeObj, normalizeTime_of_ok ok]
  rfl

/-- A number that is not negative is formatted. -/
@[simp] lemma formatDecimalObj_nat (other : Obj → Str) (n : ℕ) :
    formatDecimalObj other (.int n) = .str (formatDecimal n) := by
  simp [formatDecimalObj, strOf, Json.dumpInt, formatDecimal]

/-- An optional field that passes its check is encoded as the copy is. -/
lemma fieldObj?_of_orNone {α : Type} {error : ErrorKind} {text key : String} {check : Obj → Option α}
    {toJson : Obj → Py Json} {write : α → Json} {value : Obj} {o : Option α}
    (ok : orNone error text check value = .ok o)
    (encoded : ∀ value a, check value = some a → toJson value = .ok (write a)) :
    fieldObj? key toJson value = .ok (field? key write o) := by
  cases value with
  | none =>
    cases ok
    rfl
  | _ =>
    obtain ⟨a, found, rfl⟩ := map_eq_ok.mp ok
    simp only [fieldObj?, encoded _ a (orRaise_eq_ok.mp found)]
    rfl

/-- An optional time is written in its field. -/
lemma fieldObj?_of_timeOrNone {error : ErrorKind} {key : String} {value : Obj} {o : Option Time}
    (ok : timeOrNone error value = .ok o) :
    fieldObj? key formatTimeObj value = .ok (field? key (fun t => .str (formatTime t)) o) := by
  unfold timeOrNone at ok
  split at ok
  · cases ok
    rfl
  · rename_i present
    obtain ⟨t, found, rfl⟩ := map_eq_ok.mp ok
    rw [fieldObj?, formatTimeObj_of_ok found]
    · rfl
    · exact present

/-- A receipt that passes its check is encoded as the copy is. -/
lemma receiptObjFields_of_validateReceipt {error : ErrorKind} {value : Obj} {receipt : WitnessReceipt}
    (ok : validateReceipt error value = .ok receipt) :
    receiptObjFields value = .ok (receiptFields receipt) := by
  have position {key : String} {value : Obj} {o : Option (Counter 0 maxPortableInteger)}
      (ok : orNone error "witness receipt position is invalid" (counter 0 maxPortableInteger) value = .ok o) :
      fieldObj? key jsonOf value = .ok (field? key (fun n => .int (n.1 : ℕ)) o) := by
    apply fieldObj?_of_orNone ok
    intro value n found
    rw [counter_eq_some found]
    rfl
  unfold validateReceipt at ok
  obtain ⟨-, -, ok⟩ := bind_eq_ok.mp ok
  obtain ⟨bytes, found, ok⟩ := bind_eq_ok.mp ok
  obtain ⟨b, attrBytes, found⟩ := bind_eq_ok.mp found
  obtain ⟨hash, foundHash, ok⟩ := bind_eq_ok.mp ok
  obtain ⟨h, attrHash, foundHash⟩ := bind_eq_ok.mp foundHash
  obtain ⟨scheme, foundScheme, ok⟩ := bind_eq_ok.mp ok
  obtain ⟨s, attrScheme, foundScheme⟩ := bind_eq_ok.mp foundScheme
  obtain ⟨leaf, foundLeaf, ok⟩ := bind_eq_ok.mp ok
  obtain ⟨l, attrLeaf, foundLeaf⟩ := bind_eq_ok.mp foundLeaf
  obtain ⟨size, foundSize, ok⟩ := bind_eq_ok.mp ok
  obtain ⟨z, attrSize, foundSize⟩ := bind_eq_ok.mp foundSize
  cases ok
  have bytes := encodeBytesObj_of_buf? (width_eq_some (orRaise_eq_ok.mp found))
  have hash : fieldObj? "entryHash" jsonOf h = .ok (field? "entryHash" (fun h => .str h.1) hash) :=
    fieldObj?_of_orNone foundHash fun _ _ found => by rw [entryHash_eq_some found]; rfl
  have scheme : fieldObj? "entryHashScheme" jsonOf s =
      .ok (field? "entryHashScheme" (fun s => .str s.name) scheme) :=
    fieldObj?_of_orNone foundScheme fun _ _ found => by rw [entryHashScheme_eq_some found]; rfl
  have present : value ≠ .none := by
    rintro rfl
    exact absurd attrBytes raise_ne_ok
  unfold receiptObjFields
  split
  · contradiction
  · rw [attrBytes, ok_bind, bytes, ok_bind, attrHash, ok_bind, hash, ok_bind, attrScheme, ok_bind, scheme,
      ok_bind, attrLeaf, ok_bind, position foundLeaf, ok_bind, attrSize, ok_bind, position foundSize, ok_bind]
    rfl

/-- An optional receipt is written in its fields. -/
lemma receiptObjFields_of_ok {error : ErrorKind} {value : Obj} {r : Option WitnessReceipt}
    (ok : receiptOrNone error value = .ok r) :
    receiptObjFields value = .ok (r.elim [] receiptFields) := by
  unfold receiptOrNone at ok
  split at ok
  · cases ok
    rfl
  · obtain ⟨receipt, valid, rfl⟩ := map_eq_ok.mp ok
    exact receiptObjFields_of_validateReceipt valid

/-- A row that passes `validate_witness` is encoded as the copy is. -/
lemma witnessObjToWire_of_validateWitness (other : Obj → Str) {error : ErrorKind} {value : Obj}
    {w : WitnessState} (ok : validateWitness error value = .ok w) :
    witnessObjToWire other value = .ok (witnessToWire w) := by
  unfold validateWitness at ok
  obtain ⟨-, -, ok⟩ := bind_eq_ok.mp ok
  obtain ⟨checkpoint, attrCheckpoint, ok⟩ := bind_eq_ok.mp ok
  obtain ⟨witnessId, attrId, ok⟩ := bind_eq_ok.mp ok
  obtain ⟨checkpointSize, attrSize, ok⟩ := bind_eq_ok.mp ok
  obtain ⟨attempts, attrAttempts, ok⟩ := bind_eq_ok.mp ok
  obtain ⟨permanent, attrPermanent, ok⟩ := bind_eq_ok.mp ok
  split at ok
  · rename_i i s c a p foundId foundSize foundCheckpoint foundAttempts foundPermanent
    obtain ⟨reason, foundReason, ok⟩ := bind_eq_ok.mp ok
    obtain ⟨e, attrError, foundReason⟩ := bind_eq_ok.mp foundReason
    obtain ⟨next, foundNext, ok⟩ := bind_eq_ok.mp ok
    obtain ⟨n, attrNext, foundNext⟩ := bind_eq_ok.mp foundNext
    obtain ⟨receipt, foundReceipt, ok⟩ := bind_eq_ok.mp ok
    obtain ⟨r, attrReceipt, foundReceipt⟩ := bind_eq_ok.mp foundReceipt
    cases ok
    obtain rfl := identifier_eq_some foundId
    obtain rfl := counter_eq_some foundSize
    obtain rfl := counter_eq_some foundAttempts
    obtain rfl := boolean_eq_some foundPermanent
    have lastError : fieldObj? "lastError" jsonOf e = .ok (field? "lastError" (fun r => .str r.1) reason) :=
      fieldObj?_of_orNone foundReason fun _ _ found => by rw [reason_eq_some found]; rfl
    rw [witnessObjToWire, attrId, ok_bind, jsonOf, ok_bind, attrSize, ok_bind, attrCheckpoint, ok_bind,
      encodeBytesObj_of_buf? (width_eq_some foundCheckpoint), ok_bind, attrAttempts, ok_bind, jsonOf, ok_bind,
      attrNext, ok_bind, formatTimeObj_of_ok foundNext, ok_bind, attrReceipt, ok_bind,
      receiptObjFields_of_ok foundReceipt, ok_bind, attrPermanent, ok_bind, jsonOf, ok_bind, attrError,
      ok_bind, lastError, ok_bind, formatDecimalObj_nat]
    rfl
  · exact absurd ok raise_ne_ok

/-- Digests are encoded one by one. -/
lemma mapM_encodeBytesObj {items : List Obj} {nodes : {nodes : List Digest // nodes.length = items.length}}
    (ok : digests items = some nodes) :
    items.mapM encodeBytesObj = .ok (nodes.1.map fun n => .str (encodeBytes n.1)) := by
  induction items with
  | nil =>
    cases ok
    rfl
  | cons item items ih =>
    obtain ⟨d, found, ok⟩ := Option.bind_eq_some_iff.mp ok
    obtain ⟨rest, found', rfl⟩ := Option.map_eq_some_iff.mp ok
    rw [List.mapM_cons, encodeBytesObj_of_buf? (digest_eq_some found), ok_bind, ih found', ok_bind]
    rfl

/-- A checkpoint that passes its check is encoded as the copy is. -/
lemma checkpointObjFields_of_validateCheckpoint (other : Obj → Str) {error : ErrorKind}
    {size indexedSeq : ℕ} {value : Obj} {c : CheckpointWithin size indexedSeq}
    (ok : validateCheckpoint error size indexedSeq value = .ok c) :
    checkpointObjFields other value = .ok (checkpointFields c.1) := by
  unfold validateCheckpoint at ok
  obtain ⟨-, -, ok⟩ := bind_eq_ok.mp ok
  obtain ⟨bytes, attrBytes, ok⟩ := bind_eq_ok.mp ok
  obtain ⟨cpSize, attrSize, ok⟩ := bind_eq_ok.mp ok
  obtain ⟨cpSeq, attrSeq, ok⟩ := bind_eq_ok.mp ok
  obtain ⟨peaks, attrPeaks, ok⟩ := bind_eq_ok.mp ok
  split at ok
  · rename_i b s q items foundBytes foundSize foundSeq foundPeaks
    obtain ⟨nodes, digests, ok⟩ := bind_eq_ok.mp ok
    cases ok
    obtain rfl := counter_eq_some foundSize
    obtain rfl := counter_eq_some foundSeq
    have items : iterate peaks = .ok items := orRaise_eq_ok.mpr foundPeaks
    have present : value ≠ .none := by
      rintro rfl
      exact absurd attrBytes raise_ne_ok
    unfold checkpointObjFields
    split
    · contradiction
    · rw [attrBytes, ok_bind, encodeBytesObj_of_buf? (width_eq_some foundBytes), ok_bind, attrSize, ok_bind,
        attrSeq, ok_bind, attrPeaks, ok_bind, items, ok_bind, mapM_encodeBytesObj (orRaise_eq_ok.mp digests),
        ok_bind, formatDecimalObj_nat, formatDecimalObj_nat]
      rfl
  · exact absurd ok raise_ne_ok

/-- An optional checkpoint is written in its fields. -/
lemma checkpointObjFields_of_ok (other : Obj → Str) {error : ErrorKind} {size indexedSeq : ℕ}
    {value : Obj} {c : Option (CheckpointWithin size indexedSeq)}
    (ok : checkpointOrNone error size indexedSeq value = .ok c) :
    checkpointObjFields other value = .ok ((c.map Subtype.val).elim [] checkpointFields) := by
  unfold checkpointOrNone at ok
  split at ok
  · cases ok
    rfl
  · obtain ⟨checkpoint, valid, rfl⟩ := map_eq_ok.mp ok
    exact checkpointObjFields_of_validateCheckpoint other valid

/-- Rows are written as they were validated. -/
lemma mapM_witnessObjToWire (other : Obj → Str) {error : ErrorKind} {seen all : Rows} {rows : List Obj}
    (ok : validateRows error seen rows = .ok all) :
    ∃ added, all.1 = seen.1 ++ added ∧
      rows.mapM (witnessObjToWire other) = .ok (added.map witnessToWire) := by
  induction rows generalizing seen with
  | nil =>
    cases ok
    exact ⟨[], (List.append_nil _).symm, rfl⟩
  | cons row rows ih =>
    obtain ⟨w, valid, ok⟩ := bind_eq_ok.mp ok
    split at ok
    · exact absurd ok raise_ne_ok
    · obtain ⟨added, e, encoded⟩ := ih ok
      refine ⟨w :: added, by rw [e, List.append_assoc]; rfl, ?_⟩
      rw [List.mapM_cons, witnessObjToWire_of_validateWitness other valid, ok_bind, encoded, ok_bind]
      rfl

/-- A state that passes `validate_state` is encoded as the copy is. -/
lemma stateObjToWire_of_validateState (other : Obj → Str) {error : ErrorKind} {value : Obj} {s : CllState}
    (ok : validateState error value = .ok s) :
    stateObjToWire other value = .ok (stateToWire s.toDelta) := by
  unfold validateState at ok
  obtain ⟨-, -, ok⟩ := bind_eq_ok.mp ok
  obtain ⟨items, foundItems, ok⟩ := bind_eq_ok.mp ok
  obtain ⟨nodes, attrNodes, foundItems⟩ := bind_eq_ok.mp foundItems
  obtain ⟨count, -, ok⟩ := bind_eq_ok.mp ok
  obtain ⟨header, metadata, ok⟩ := bind_eq_ok.mp ok
  obtain ⟨digests, foundNodes, ok⟩ := bind_eq_ok.mp ok
  cases ok
  unfold validateMetadata at metadata
  obtain ⟨size, attrSize, metadata⟩ := bind_eq_ok.mp metadata
  obtain ⟨_, sizeOk, metadata⟩ := bind_eq_ok.mp metadata
  obtain ⟨seq, attrSeq, metadata⟩ := bind_eq_ok.mp metadata
  split at metadata
  · rename_i indexed leaves
    obtain ⟨_, seqOk, metadata⟩ := bind_eq_ok.mp metadata
    obtain ⟨pending, foundPending, metadata⟩ := bind_eq_ok.mp metadata
    obtain ⟨p, attrPending, foundPending⟩ := bind_eq_ok.mp foundPending
    obtain ⟨checkpoint, foundCheckpoint, metadata⟩ := bind_eq_ok.mp metadata
    obtain ⟨c, attrCheckpoint, foundCheckpoint⟩ := bind_eq_ok.mp foundCheckpoint
    obtain ⟨rows, foundRows, metadata⟩ := bind_eq_ok.mp metadata
    obtain ⟨w, attrWitnesses, foundRows⟩ := bind_eq_ok.mp foundRows
    obtain ⟨all, valid, metadata⟩ := bind_eq_ok.mp metadata
    cases metadata
    obtain ⟨added, e, encoded⟩ := mapM_witnessObjToWire other valid
    rw [List.nil_append] at e
    subst e
    obtain rfl := int?_eq_some (require_eq_ok.mp sizeOk)
    obtain rfl := int?_eq_some (require_eq_ok.mp seqOk)
    have nodeItems : iterate nodes = .ok items := orRaise_eq_ok.mpr (orRaise_eq_ok.mp foundItems)
    have rowItems : iterate w = .ok rows := orRaise_eq_ok.mpr (orRaise_eq_ok.mp foundRows)
    rw [stateObjToWire, attrSize, ok_bind, attrSeq, ok_bind, attrNodes, ok_bind, nodeItems, ok_bind,
      mapM_encodeBytesObj (orRaise_eq_ok.mp foundNodes), ok_bind, attrPending, ok_bind,
      fieldObj?_of_timeOrNone foundPending, ok_bind, attrCheckpoint, ok_bind,
      checkpointObjFields_of_ok other foundCheckpoint, ok_bind, attrWitnesses, ok_bind, rowItems, ok_bind,
      encoded, ok_bind, formatDecimalObj_nat, formatDecimalObj_nat]
    rfl
  · exact absurd metadata raise_ne_ok

/-- Different bytes are encoded differently. -/
lemma encodeBytes_injective : Function.Injective encodeBytes := by
  intro a b e
  have decoded := Base64.decode_encode a
  rw [show Base64.encode a = Base64.encode b from e, Base64.decode_encode] at decoded
  exact (Option.some.inj decoded).symm

/-- Bytes are equal exactly where their encodings are. -/
@[simp] lemma encodeBytes_inj {a b : Bytes} : encodeBytes a = encodeBytes b ↔ a = b :=
  encodeBytes_injective.eq_iff

/-- Times are equal exactly where their texts are. -/
@[simp] lemma formatTime_inj {s t : Time} : formatTime s = formatTime t ↔ s = t := by
  constructor
  · intro e
    have parsed := parseTime_formatTime .corrupt s
    rw [e, parseTime_formatTime] at parsed
    exact (Except.ok.inj parsed).symm
  · rintro rfl
    rfl

/-- The receipt fields of a row. -/
lemma get?_receipt (w : WitnessState) :
    Json.get? (witnessFields w) (Str.lit "receipt") =
        w.receipt.map (fun r => .str (encodeBytes r.bytes)) ∧
      Json.get? (witnessFields w) (Str.lit "entryHash") =
        (w.receipt.bind (·.entryHash)).map (fun h => .str h.1) ∧
      Json.get? (witnessFields w) (Str.lit "entryHashScheme") =
        (w.receipt.bind (·.entryHashScheme)).map (fun s => .str s.name) ∧
      Json.get? (witnessFields w) (Str.lit "leafIndex") =
        (w.receipt.bind (·.leafIndex)).map (fun n => .int (n.1 : ℕ)) ∧
      Json.get? (witnessFields w) (Str.lit "treeSize") =
        (w.receipt.bind (·.treeSize)).map (fun n => .int (n.1 : ℕ)) := by
  cases e : w.receipt with
  | none => simp [witnessFields, e]
  | some r => simp [witnessFields, receiptFields, e]

/-- Rows with the same receipt fields have the same receipt. -/
lemma receipt_eq_of_same {v w : WitnessState} (same : Same (witnessToWire v) (witnessToWire w)) :
    v.receipt = w.receipt := by
  obtain ⟨vBytes, vHash, vScheme, vLeaf, vSize⟩ := get?_receipt v
  obtain ⟨wBytes, wHash, wScheme, wLeaf, wSize⟩ := get?_receipt w
  have bytes := Same.fields same (Str.lit "receipt")
  have hash := Same.fields same (Str.lit "entryHash")
  have scheme := Same.fields same (Str.lit "entryHashScheme")
  have leaf := Same.fields same (Str.lit "leafIndex")
  have size := Same.fields same (Str.lit "treeSize")
  rw [vBytes, wBytes] at bytes
  rw [vHash, wHash] at hash
  rw [vScheme, wScheme] at scheme
  rw [vLeaf, wLeaf] at leaf
  rw [vSize, wSize] at size
  have hash := Json.eq_of_rel_map (fun a b same => by simpa [Subtype.ext_iff] using same) hash
  have scheme := Json.eq_of_rel_map (fun a b _ => by cases a; cases b; rfl) scheme
  have leaf := Json.eq_of_rel_map (fun a b same => by simpa [Subtype.ext_iff] using same) leaf
  have size := Json.eq_of_rel_map (fun a b same => by simpa [Subtype.ext_iff] using same) size
  cases ev : v.receipt with
  | none =>
    cases ew : w.receipt with
    | none => rfl
    | some s =>
      rw [ev, ew] at bytes
      cases bytes
  | some r =>
    cases ew : w.receipt with
    | none =>
      rw [ev, ew] at bytes
      cases bytes
    | some s =>
      rw [ev, ew] at bytes hash scheme leaf size
      obtain ⟨rBytes, rHash, rScheme, rLeaf, rSize⟩ := r
      obtain ⟨sBytes, sHash, sScheme, sLeaf, sSize⟩ := s
      simp only [Option.map_some, Option.rel_some_some, Json.same_str, encodeBytes_inj] at bytes
      cases Subtype.ext bytes
      cases hash
      cases scheme
      cases leaf
      cases size
      rfl

/-- Rows are equal where they are written the same. -/
lemma witnessToWire_injective {v w : WitnessState} (same : Same (witnessToWire v) (witnessToWire w)) :
    v = w := by
  have receipt := receipt_eq_of_same same
  have lastError (u : WitnessState) : Json.get? (witnessFields u) (Str.lit "lastError") =
      u.lastError.map (fun r => .str r.1) := by
    cases e : u.receipt <;> simp [witnessFields, receiptFields, e]
  have permanent (u : WitnessState) : Json.get? (witnessFields u) (Str.lit "permanent") =
      some (.bool u.permanent) := by
    cases e : u.receipt <;> simp [witnessFields, receiptFields, e]
  have witnessId := Same.fields same (Str.lit "witnessId")
  have size := Same.fields same (Str.lit "checkpointSize")
  have checkpoint := Same.fields same (Str.lit "checkpoint")
  have attempts := Same.fields same (Str.lit "attempts")
  have next := Same.fields same (Str.lit "nextAttemptAt")
  have flag := same.get?_eq_some (permanent v) (permanent w)
  have error := Same.fields same (Str.lit "lastError")
  rw [lastError, lastError] at error
  have error := Json.eq_of_rel_map (fun a b same => by simpa [Subtype.ext_iff] using same) error
  simp only [witnessFields, get?_cons, String.reduceEq, if_true, if_false, Option.rel_some_some,
    Json.same_str, Json.same_int, encodeBytes_inj, formatDecimal_inj, formatTime_inj, Nat.cast_inj]
    at witnessId size checkpoint attempts next
  obtain ⟨vId, vSize, vCheckpoint, vAttempts, vNext, vReceipt, vPermanent, vError⟩ := v
  obtain ⟨wId, wSize, wCheckpoint, wAttempts, wNext, wReceipt, wPermanent, wError⟩ := w
  cases Subtype.ext witnessId
  cases Subtype.ext size
  cases Subtype.ext checkpoint
  cases Subtype.ext attempts
  cases next
  cases receipt
  cases Json.same_bool.mp flag
  cases error
  rfl

/-- The checkpoint fields of a state. -/
lemma get?_checkpoint (s : Delta) :
    Json.get? (stateFields s) (Str.lit "checkpoint") =
        s.checkpoint.map (fun c => .str (encodeBytes c.bytes)) ∧
      Json.get? (stateFields s) (Str.lit "checkpointSize") =
        s.checkpoint.map (fun c => .str (formatDecimal c.size)) ∧
      Json.get? (stateFields s) (Str.lit "checkpointIndexedSeq") =
        s.checkpoint.map (fun c => .str (formatDecimal c.indexedSeq)) ∧
      Json.get? (stateFields s) (Str.lit "checkpointPeaks") =
        s.checkpoint.map (fun c => .arr (c.peaks.map fun p => .str (encodeBytes p.1))) := by
  cases e : s.checkpoint with
  | none => simp [stateFields, e]
  | some c => simp [stateFields, checkpointFields, e]

/-- Digests are equal where they are written the same. -/
lemma digests_eq_of_same {ds es : List Digest}
    (same : Same (.arr (ds.map fun d => .str (encodeBytes d.1))) (.arr (es.map fun d => .str (encodeBytes d.1)))) :
    ds = es :=
  Json.eq_of_same_map (fun a b same => by simpa [Subtype.ext_iff] using same) same

/-- States with the same checkpoint fields have the same checkpoint. -/
lemma checkpoint_eq_of_same {s t : Delta} (same : Same (stateToWire s) (stateToWire t)) :
    s.checkpoint = t.checkpoint := by
  obtain ⟨sBytes, sSize, sSeq, sPeaks⟩ := get?_checkpoint s
  obtain ⟨tBytes, tSize, tSeq, tPeaks⟩ := get?_checkpoint t
  have bytes := Same.fields same (Str.lit "checkpoint")
  have size := Same.fields same (Str.lit "checkpointSize")
  have seq := Same.fields same (Str.lit "checkpointIndexedSeq")
  have peaks := Same.fields same (Str.lit "checkpointPeaks")
  rw [sBytes, tBytes] at bytes
  rw [sSize, tSize] at size
  rw [sSeq, tSeq] at seq
  rw [sPeaks, tPeaks] at peaks
  cases es : s.checkpoint with
  | none =>
    cases et : t.checkpoint with
    | none => rfl
    | some d =>
      rw [es, et] at bytes
      cases bytes
  | some c =>
    cases et : t.checkpoint with
    | none =>
      rw [es, et] at bytes
      cases bytes
    | some d =>
      rw [es, et] at bytes size seq peaks
      obtain ⟨cBytes, cSize, cSeq, cPeaks⟩ := c
      obtain ⟨dBytes, dSize, dSeq, dPeaks⟩ := d
      simp only [Option.map_some, Option.rel_some_some, Json.same_str, encodeBytes_inj, formatDecimal_inj]
        at bytes size seq peaks
      cases Subtype.ext bytes
      cases size
      cases seq
      cases digests_eq_of_same peaks
      rfl

/-- `state_to_wire` is injective on the stored states, and on what a commit adds. -/
theorem stateToWire_injective {s t : Delta} (same : Same (stateToWire s) (stateToWire t)) : s = t := by
  have checkpoint := checkpoint_eq_of_same same
  have witnesses (u : Delta) : Json.get? (stateFields u) (Str.lit "witnesses") =
      some (.arr (u.witnesses.map witnessToWire)) := by
    cases e : u.checkpoint <;> simp [stateFields, checkpointFields, e]
  have pending (u : Delta) : Json.get? (stateFields u) (Str.lit "firstPendingAt") =
      u.firstPendingAt.map (fun t => .str (formatTime t)) := by
    cases e : u.checkpoint <;> simp [stateFields, checkpointFields, e]
  have size := Same.fields same (Str.lit "size")
  have seq := Same.fields same (Str.lit "indexedSeq")
  have nodes := Same.fields same (Str.lit "nodes")
  have first := Same.fields same (Str.lit "firstPendingAt")
  rw [pending, pending] at first
  have first := Json.eq_of_rel_map (fun a b same => by simpa using same) first
  have rows := Json.eq_of_same_map (fun _ _ => witnessToWire_injective)
    (same.get?_eq_some (witnesses s) (witnesses t))
  simp only [stateFields, get?_cons, String.reduceEq, if_true, if_false, Option.rel_some_some, Json.same_str,
    formatDecimal_inj] at size seq nodes
  have nodes := digests_eq_of_same nodes
  have header : s.toHeader = t.toHeader := Header.ext size seq first checkpoint rows
  obtain ⟨sHeader, sNodes⟩ := s
  obtain ⟨tHeader, tNodes⟩ := t
  cases header
  cases nodes
  rfl

/-- Digits before a mark are padded to their width. -/
lemma digitsThen_eq_some {w c n : ℕ} {s rest : Str} (pos : 0 < w)
    (ok : digitsThen w c s = some (n, rest)) : s = Decimal.pad w n ++ c :: rest := by
  unfold digitsThen at ok
  split at ok
  · rename_i digits
    obtain ⟨length, all⟩ := digits
    cases e : s.drop w with
    | nil => simp [e] at ok
    | cons d tail =>
      simp only [e] at ok
      split at ok
      · rename_i mark
        cases ok
        rw [Decimal.pad_value pos length (List.all_eq_true.mp all), ← mark, ← e, List.take_append_drop]
      · cases ok
  · cases ok

/-- A time that matches is the text of its fields. -/
lemma matchTime_eq_some {s : Str} {f : TimeFields} (ok : matchTime s = some f) : s = f.text := by
  unfold matchTime at ok
  obtain ⟨⟨year, s1⟩, ok1, ok⟩ := Option.bind_eq_some_iff.mp ok
  obtain ⟨⟨month, s2⟩, ok2, ok⟩ := Option.bind_eq_some_iff.mp ok
  obtain ⟨⟨day, s3⟩, ok3, ok⟩ := Option.bind_eq_some_iff.mp ok
  obtain ⟨⟨hour, s4⟩, ok4, ok⟩ := Option.bind_eq_some_iff.mp ok
  obtain ⟨⟨minute, s5⟩, ok5, ok⟩ := Option.bind_eq_some_iff.mp ok
  obtain ⟨⟨second, s6⟩, ok6, ok⟩ := Option.bind_eq_some_iff.mp ok
  obtain ⟨⟨millis, s7⟩, ok7, ok⟩ := Option.bind_eq_some_iff.mp ok
  dsimp only at ok1 ok2 ok3 ok4 ok5 ok6 ok7 ok
  split at ok
  · rename_i done
    cases ok
    rw [digitsThen_eq_some (by norm_num) ok1, digitsThen_eq_some (by norm_num) ok2,
      digitsThen_eq_some (by norm_num) ok3, digitsThen_eq_some (by norm_num) ok4,
      digitsThen_eq_some (by norm_num) ok5, digitsThen_eq_some (by norm_num) ok6,
      digitsThen_eq_some (by norm_num) ok7, done]
    rfl
  · cases ok

/-- The fields of a time are those that it was made of. -/
lemma timeFields_toTime {f : TimeFields} {t : Time} (ok : f.toTime = some t) : timeFields t = f := by
  unfold TimeFields.toTime at ok
  split at ok
  · rename_i valid
    cases ok
    simp only [TimeFields.valid, Bool.and_eq_true, decide_eq_true_eq] at valid
    obtain ⟨⟨⟨⟨date, hour⟩, minute⟩, second⟩, millis⟩ := valid
    have pos := (Calendar.toOrdinal_le date).1
    have day : f.toMillis / 86400000 + 1 = Calendar.toOrdinal ⟨f.year, f.month, f.day⟩ := by
      unfold TimeFields.toMillis
      omega
    obtain ⟨year, month, d, h, m, s, ms⟩ := f
    dsimp only at day hour minute second millis date pos
    simp only [timeFields, day, Calendar.fromOrdinal_toOrdinal date]
    simp only [TimeFields.toMillis]
    congr 1 <;> omega
  · cases ok

/-- A time that parses is written in its text. -/
lemma parseTime_eq_ok {error : ErrorKind} {wire : Json} {t : Time} (ok : parseTime error wire = .ok t) :
    wire = .str (formatTime t) := by
  cases wire with
  | str s =>
    simp only [parseTime] at ok
    cases e : (matchTime s).bind TimeFields.toTime with
    | none =>
      rw [e] at ok
      exact absurd ok raise_ne_ok
    | some u =>
      rw [e] at ok
      cases ok
      obtain ⟨f, found, time⟩ := Option.bind_eq_some_iff.mp e
      rw [matchTime_eq_some found, formatTime, timeFields_toTime time]
  | _ => exact absurd ok raise_ne_ok

/-- A number that parses is written in its text. -/
lemma parseDecimal_eq_ok {error : ErrorKind} {wire : Json} {n : ℕ}
    (ok : parseDecimal error wire = .ok n) : wire = .str (formatDecimal n) := by
  cases wire with
  | str s =>
    obtain ⟨_, canonical, ok⟩ := bind_eq_ok.mp ok
    obtain ⟨_, -, ok⟩ := bind_eq_ok.mp ok
    cases ok
    rw [formatDecimal, Decimal.text_value (require_eq_ok.mp canonical).2]
  | _ => exact absurd ok raise_ne_ok

/-- Bytes that are decoded are written in their encoding. -/
lemma decodeBytes_eq_ok {error : ErrorKind} {wire : Json} {b : Bytes}
    (ok : decodeBytes error wire = .ok b) : wire = .str (encodeBytes b) := by
  cases wire with
  | str s =>
    simp only [decodeBytes] at ok
    cases e : Base64.decode s with
    | none =>
      rw [e] at ok
      exact absurd ok raise_ne_ok
    | some c =>
      rw [e] at ok
      obtain ⟨_, canonical, ok⟩ := bind_eq_ok.mp ok
      cases ok
      rw [encodeBytes, require_eq_ok.mp canonical]
  | _ => exact absurd ok raise_ne_ok

/-- What is read as a string is one. -/
lemma string_eq_ok {error : ErrorKind} {what : String} {wire : Json} {s : Str}
    (ok : string error what wire = .ok s) : wire = .str s := by
  cases wire with
  | str t =>
    cases ok
    rfl
  | _ => exact absurd ok raise_ne_ok

/-- What is read as an integer is one. -/
lemma integer_eq_ok {error : ErrorKind} {what : String} {wire : Json} {n : ℤ}
    (ok : integer error what wire = .ok n) : wire = .int n := by
  cases wire with
  | int m =>
    cases ok
    rfl
  | _ => exact absurd ok raise_ne_ok

/-- What is read as a flag is one. -/
lemma permanentFlag_eq_ok {error : ErrorKind} {wire : Json} {b : Bool}
    (ok : permanentFlag error wire = .ok b) : wire = .bool b := by
  cases wire with
  | bool c =>
    cases ok
    rfl
  | _ => exact absurd ok raise_ne_ok

/-- A required field is there. -/
lemma required_eq_ok {error : ErrorKind} {fields : Fields} {key : String} {value : Json}
    (ok : required error fields key = .ok value) : Json.get? fields (Str.lit key) = some value := by
  unfold required at ok
  split at ok
  · cases ok
    assumption
  · exact absurd ok raise_ne_ok

/-- What is read as an object is one. -/
lemma object_eq_ok {error : ErrorKind} {what : String} {wire : Json} {fields : Fields}
    (ok : object error what wire = .ok fields) : wire = .obj fields := by
  cases wire with
  | obj fs =>
    cases ok
    rfl
  | _ => exact absurd ok raise_ne_ok

/-- What is read as a list is one. -/
lemma items?_eq_some {wire : Json} {xs : List Json} (ok : items? wire = some xs) : wire = .arr xs := by
  cases wire with
  | arr ys =>
    cases ok
    rfl
  | _ => cases ok

/-- The value of a field that is there and not `null`. -/
def present (fields : Fields) (key : String) : Option Json :=
  (Json.get? fields (Str.lit key)).filter nonNull

/-- The fields of these names, in their order, less those that are absent or `null`. -/
def canonical (names : List String) (fields : Fields) : Fields :=
  names.flatMap fun name => field? name id (present fields name)

/-- A canonical object has the named fields that are present. -/
lemma get?_canonical {names : List String} (nodup : names.Nodup) (fields : Fields) (name : String) :
    Json.get? (canonical names fields) (Str.lit name) = if name ∈ names then present fields name else none := by
  induction names with
  | nil => rfl
  | cons n names ih =>
    have ih := ih (List.nodup_cons.mp nodup).2
    rw [canonical, List.flatMap_cons, get?_append_field?]
    rw [canonical] at ih
    rw [ih, Option.map_id]
    by_cases same : n = name
    · subst same
      simp [(List.nodup_cons.mp nodup).1]
    · simp [same, Ne.symm same]

/-- A canonical object has no other key. -/
lemma onlyKeys_canonical (names : List String) (fields : Fields) :
    OnlyKeys (names.map Str.lit) (canonical names fields) := by
  intro f mem
  obtain ⟨name, named, mem⟩ := List.mem_flatMap.mp mem
  cases e : present fields name with
  | none =>
    rw [e] at mem
    cases mem
  | some v =>
    rw [e] at mem
    obtain rfl := List.mem_singleton.mp mem
    exact List.mem_map_of_mem named

/-- An object without other keys is encoded less its `null` fields. -/
lemma get?_canonical_of_only {names : List String} (nodup : names.Nodup) {fields : Fields}
    (only : OnlyKeys (names.map Str.lit) fields) (key : Str) :
    Json.get? (canonical names fields) key = (Json.get? fields key).filter nonNull := by
  by_cases mem : key ∈ names.map Str.lit
  · obtain ⟨name, named, rfl⟩ := List.mem_map.mp mem
    rw [get?_canonical nodup, if_pos named]
    rfl
  · rw [(onlyKeys_canonical names fields).get?_eq_none mem, only.get?_eq_none mem]
    rfl

/-- A present field is written. -/
lemma field?_present {fields : Fields} {key : String} {value : Json}
    (found : Json.get? fields (Str.lit key) = some value) (nonNull : nonNull value = true) :
    field? key id (present fields key) = [(Str.lit key, value)] := by
  rw [present, found, Option.filter_some, if_pos nonNull]
  rfl

/-- A null field is not present. -/
lemma get_eq_null {fields : Fields} {key : String} (null : fields.get key = .null) :
    present fields key = none := by
  unfold Fields.get at null
  unfold present
  cases e : Json.get? fields (Str.lit key) with
  | none => rfl
  | some v =>
    rw [e] at null
    cases null
    rfl

/-- A field that is not null is there. -/
lemma get_ne_null {fields : Fields} {key : String} (ne : fields.get key ≠ .null) :
    Json.get? fields (Str.lit key) = some (fields.get key) := by
  unfold Fields.get at ne ⊢
  cases e : Json.get? fields (Str.lit key) with
  | none =>
    rw [e] at ne
    exact absurd rfl ne
  | some v => rfl

/-- An optional field is encoded again unless it is absent or `null`. -/
lemma fieldObj?_of_nullable {α : Type} {fields : Fields} {key : String} {toObj : α → Obj}
    {read : Json → Py α} {toJson : Obj → Py Json} {o : Obj}
    (ok : nullable toObj read (fields.get key) = .ok o)
    (back : ∀ json a, read json = .ok a → toObj a ≠ .none ∧ toJson (toObj a) = .ok json) :
    fieldObj? key toJson o = .ok (field? key id (present fields key)) := by
  unfold nullable at ok
  split at ok
  · rename_i null
    cases ok
    rw [get_eq_null null]
    rfl
  · rename_i ne
    obtain ⟨a, found, rfl⟩ := map_eq_ok.mp ok
    obtain ⟨some_, encoded⟩ := back _ a found
    rw [field?_present (get_ne_null ne) (Json.nonNull_iff.mpr ne), fieldObj?, encoded]
    · rfl
    · exact some_

/-- The fields of a receipt. -/
def receiptNames : List String := ["receipt", "entryHash", "entryHashScheme", "leafIndex", "treeSize"]

/-- The fields of `witness_to_wire`. -/
def witnessNames : List String :=
  ["witnessId", "checkpointSize", "checkpoint", "attempts", "nextAttemptAt"] ++
    (receiptNames ++ ["permanent", "lastError"])

/-- `_CHECKPOINT_FIELDS`. -/
def checkpointNames : List String :=
  ["checkpoint", "checkpointSize", "checkpointIndexedSeq", "checkpointPeaks"]

/-- The fields of `state_to_wire`. -/
def stateNames : List String :=
  ["size", "indexedSeq", "nodes", "firstPendingAt"] ++ (checkpointNames ++ ["witnesses"])

/-- The fields of `entry_to_wire`. -/
def entryNames : List String := ["seq", "value", "appendedAt"]

/-- Canonical fields are written one list of names after the other. -/
lemma canonical_append (names more : List String) (fields : Fields) :
    canonical (names ++ more) fields = canonical names fields ++ canonical more fields :=
  List.flatMap_append

/-- The first name is written first. -/
lemma canonical_cons (name : String) (names : List String) (fields : Fields) :
    canonical (name :: names) fields = field? name id (present fields name) ++ canonical names fields := rfl

/-- No names write no fields. -/
lemma canonical_nil (fields : Fields) : canonical [] fields = [] := rfl

/-- A receipt is written back in canonical form. -/
lemma receiptObjFields_receiptFromWire {error : ErrorKind} {fields : Fields} {receipt : Obj}
    (ok : receiptFromWire error fields = .ok receipt) :
    receiptObjFields receipt = .ok (canonical receiptNames fields) := by
  unfold receiptFromWire at ok
  split at ok
  · rename_i null
    split at ok
    · rename_i hash scheme leaf size
      cases ok
      simp only [receiptNames, canonical_cons, canonical_nil, get_eq_null null, get_eq_null hash,
        get_eq_null scheme, get_eq_null leaf, get_eq_null size]
      rfl
    · exact absurd ok raise_ne_ok
  · rename_i ne
    obtain ⟨hash, foundHash, ok⟩ := bind_eq_ok.mp ok
    obtain ⟨scheme, foundScheme, ok⟩ := bind_eq_ok.mp ok
    obtain ⟨leaf, foundLeaf, ok⟩ := bind_eq_ok.mp ok
    obtain ⟨size, foundSize, ok⟩ := bind_eq_ok.mp ok
    obtain ⟨bytes, foundBytes, ok⟩ := bind_eq_ok.mp ok
    cases ok
    have text {what : String} (json : Json) (s : Str) (found : string error what json = .ok s) :
        Obj.str s ≠ .none ∧ jsonOf (.str s) = .ok json := by
      rw [string_eq_ok found]
      exact ⟨nofun, rfl⟩
    have position {what : String} (json : Json) (n : ℤ) (found : integer error what json = .ok n) :
        Obj.int n ≠ .none ∧ jsonOf (.int n) = .ok json := by
      rw [integer_eq_ok found]
      exact ⟨nofun, rfl⟩
    have encoded : encodeBytesObj (.bytes bytes) = .ok (fields.get "receipt") := by
      rw [decodeBytes_eq_ok foundBytes]
      rfl
    simp only [receiptObjFields, receiptObj, Obj.attr, List.lookup_cons]
    simp [encoded, fieldObj?_of_nullable foundHash text, fieldObj?_of_nullable foundScheme text,
      fieldObj?_of_nullable foundLeaf position, fieldObj?_of_nullable foundSize position, receiptNames,
      canonical_cons, canonical_nil, field?_present (get_ne_null ne) (Json.nonNull_iff.mpr ne)]

/-- Encoding a decoded row gives the row less its `null` fields and unknown fields. -/
theorem witnessObjToWire_witnessFromWire (other : Obj → Str) {error : ErrorKind} {wire : Json} {row : Obj}
    (ok : witnessFromWire error wire = .ok row) :
    ∃ fields, wire = .obj fields ∧
      witnessObjToWire other row = .ok (.obj (canonical witnessNames fields)) := by
  unfold witnessFromWire at ok
  obtain ⟨fields, found, ok⟩ := bind_eq_ok.mp ok
  obtain ⟨attempts, foundAttempts, ok⟩ := bind_eq_ok.mp ok
  obtain ⟨attemptsJson, getAttempts, foundAttempts⟩ := bind_eq_ok.mp foundAttempts
  obtain ⟨_, -, ok⟩ := bind_eq_ok.mp ok
  obtain ⟨permanent, foundPermanent, ok⟩ := bind_eq_ok.mp ok
  obtain ⟨permanentJson, getPermanent, foundPermanent⟩ := bind_eq_ok.mp foundPermanent
  obtain ⟨lastError, foundError, ok⟩ := bind_eq_ok.mp ok
  obtain ⟨receipt, foundReceipt, ok⟩ := bind_eq_ok.mp ok
  obtain ⟨witnessId, foundId, ok⟩ := bind_eq_ok.mp ok
  obtain ⟨idJson, getId, foundId⟩ := bind_eq_ok.mp foundId
  obtain ⟨size, foundSize, ok⟩ := bind_eq_ok.mp ok
  obtain ⟨sizeJson, getSize, foundSize⟩ := bind_eq_ok.mp foundSize
  obtain ⟨checkpoint, foundCheckpoint, ok⟩ := bind_eq_ok.mp ok
  obtain ⟨checkpointJson, getCheckpoint, foundCheckpoint⟩ := bind_eq_ok.mp foundCheckpoint
  obtain ⟨next, foundNext, ok⟩ := bind_eq_ok.mp ok
  obtain ⟨nextJson, getNext, foundNext⟩ := bind_eq_ok.mp foundNext
  cases ok
  refine ⟨fields, object_eq_ok found, ?_⟩
  obtain rfl := integer_eq_ok foundAttempts
  obtain rfl := permanentFlag_eq_ok foundPermanent
  obtain rfl := string_eq_ok foundId
  obtain rfl := parseDecimal_eq_ok foundSize
  obtain rfl := decodeBytes_eq_ok foundCheckpoint
  obtain rfl := parseTime_eq_ok foundNext
  have text (json : Json) (s : Str) (found : string error "lastError" json = .ok s) :
      Obj.str s ≠ .none ∧ jsonOf (.str s) = .ok json := by
    rw [string_eq_ok found]
    exact ⟨nofun, rfl⟩
  have time : formatTimeObj (timeObj next) = .ok (.str (formatTime next)) :=
    formatTimeObj_of_ok (normalizeTime_timeObj error next)
  have bytes : encodeBytesObj (.bytes checkpoint) = .ok (.str (encodeBytes checkpoint)) := rfl
  have attrs (name : String) (value : Obj)
      (there : [("witness_id", Obj.str witnessId), ("checkpoint_size", natObj size),
        ("checkpoint", .bytes checkpoint), ("attempts", .int attempts), ("next_attempt_at", timeObj next),
        ("receipt", receipt), ("permanent", .bool permanent), ("last_error", lastError)].lookup name =
          some value) :
      (witnessObj (.str witnessId) (natObj size) (.bytes checkpoint) (.int attempts) (timeObj next) receipt
        (.bool permanent) lastError).attr name = .ok value := by
    rw [witnessObj, Obj.attr, there]
  rw [witnessObjToWire, attrs "witness_id" _ rfl, ok_bind, jsonOf, ok_bind, attrs "checkpoint_size" _ rfl,
    ok_bind, attrs "checkpoint" _ rfl, ok_bind, bytes, ok_bind, attrs "attempts" _ rfl, ok_bind, jsonOf,
    ok_bind, attrs "next_attempt_at" _ rfl, ok_bind, time, ok_bind, attrs "receipt" _ rfl, ok_bind,
    receiptObjFields_receiptFromWire foundReceipt, ok_bind, attrs "permanent" _ rfl, ok_bind, jsonOf, ok_bind,
    attrs "last_error" _ rfl, ok_bind, fieldObj?_of_nullable foundError text, ok_bind, natObj,
    formatDecimalObj_nat, witnessNames, canonical_append, canonical_append]
  simp only [canonical_cons, canonical_nil, field?_present (required_eq_ok getAttempts) rfl,
    field?_present (required_eq_ok getPermanent) rfl, field?_present (required_eq_ok getId) rfl,
    field?_present (required_eq_ok getSize) rfl, field?_present (required_eq_ok getCheckpoint) rfl,
    field?_present (required_eq_ok getNext) rfl, List.append_nil, List.cons_append, List.nil_append]

/-- Decoded byte strings are encoded back. -/
lemma mapM_encodeBytesObj_decoded {error : ErrorKind} {wires : List Json} {bs : List Bytes}
    (ok : wires.mapM (decodeBytes error) = .ok bs) :
    (bs.map Obj.bytes).mapM encodeBytesObj = .ok wires := by
  induction wires generalizing bs with
  | nil =>
    cases ok
    rfl
  | cons wire wires ih =>
    rw [List.mapM_cons] at ok
    obtain ⟨b, found, ok⟩ := bind_eq_ok.mp ok
    obtain ⟨rest, found', ok⟩ := bind_eq_ok.mp ok
    cases ok
    rw [List.map_cons, List.mapM_cons, ih found', decodeBytes_eq_ok found]
    rfl

/-- A checkpoint is written back in canonical form. -/
lemma checkpointObjFields_checkpointFromWire (other : Obj → Str) {error : ErrorKind} {fields : Fields}
    {checkpoint : Obj} (ok : checkpointFromWire error fields = .ok checkpoint) :
    checkpointObjFields other checkpoint = .ok (canonical checkpointNames fields) := by
  unfold checkpointFromWire at ok
  split at ok
  · rename_i bytes size seq peaks
    cases ok
    simp only [checkpointNames, canonical_cons, canonical_nil, get_eq_null bytes, get_eq_null size,
      get_eq_null seq, get_eq_null peaks]
    rfl
  iterate 4 exact absurd ok raise_ne_ok
  · rename_i items peaks _ _ _
    obtain ⟨bytes, foundBytes, ok⟩ := bind_eq_ok.mp ok
    obtain ⟨size, foundSize, ok⟩ := bind_eq_ok.mp ok
    obtain ⟨seq, foundSeq, ok⟩ := bind_eq_ok.mp ok
    obtain ⟨nodes, foundPeaks, ok⟩ := bind_eq_ok.mp ok
    cases ok
    have bytesJson := decodeBytes_eq_ok foundBytes
    have sizeJson := parseDecimal_eq_ok foundSize
    have seqJson := parseDecimal_eq_ok foundSeq
    have encoded : encodeBytesObj (.bytes bytes) = .ok (.str (encodeBytes bytes)) := rfl
    have some_ {key : String} {value : Json} (e : fields.get key = value) (ne : value.nonNull = true) :
        field? key id (present fields key) = [(Str.lit key, value)] := by
      subst e
      exact field?_present (get_ne_null (Json.nonNull_iff.mp ne)) ne
    simp only [checkpointObjFields, checkpointObj, Obj.attr, List.lookup_cons]
    simp [encoded, iterate, Obj.seq?, natObj, mapM_encodeBytesObj_decoded foundPeaks, checkpointNames,
      canonical_cons, canonical_nil, some_ bytesJson rfl, some_ sizeJson rfl, some_ seqJson rfl,
      some_ peaks rfl]
  · exact absurd ok raise_ne_ok

/-- The rows of a state. -/
def rowsOf : Json → List Json
  | .obj fields =>
    match Json.get? fields (Str.lit "witnesses") with
    | some (.arr rows) => rows
    | _ => []
  | _ => []

/-- Decoded rows are written back in canonical form. -/
lemma mapM_witnessObjToWire_decoded (other : Obj → Str) {error : ErrorKind} {wires : List Json}
    {rows : List Obj} (ok : wires.mapM (witnessFromWire error) = .ok rows) :
    ∃ again, rows.mapM (witnessObjToWire other) = .ok again ∧
      List.Forall₂ (fun wire json => ∃ fields, wire = .obj fields ∧
        json = .obj (canonical witnessNames fields)) wires again := by
  induction wires generalizing rows with
  | nil =>
    cases ok
    exact ⟨[], rfl, .nil⟩
  | cons wire wires ih =>
    rw [List.mapM_cons] at ok
    obtain ⟨row, found, ok⟩ := bind_eq_ok.mp ok
    obtain ⟨rest, found', ok⟩ := bind_eq_ok.mp ok
    cases ok
    obtain ⟨again, encoded, all⟩ := ih found'
    obtain ⟨fields, e, encodedRow⟩ := witnessObjToWire_witnessFromWire other found
    refine ⟨_ :: again, ?_, .cons ⟨fields, e, rfl⟩ all⟩
    rw [List.mapM_cons, encodedRow, ok_bind, encoded, ok_bind]
    rfl

/-- Encoding a decoded state gives the state less its `null` fields and unknown fields, with its rows
encoded again. -/
theorem stateObjToWire_stateFromWire (other : Obj → Str) {error : ErrorKind} {wire : Json} {state : Obj}
    (ok : stateFromWire error wire = .ok state) :
    ∃ fields again, wire = .obj fields ∧
      Json.get? fields (Str.lit "witnesses") = some (.arr (rowsOf wire)) ∧
      List.Forall₂ (fun wire json => ∃ fields, wire = .obj fields ∧
        json = .obj (canonical witnessNames fields)) (rowsOf wire) again ∧
      stateObjToWire other state =
        .ok (.obj (canonical stateNames ((Str.lit "witnesses", .arr again) :: fields))) := by
  unfold stateFromWire at ok
  obtain ⟨fields, found, ok⟩ := bind_eq_ok.mp ok
  obtain ⟨nodesJson, getNodes, ok⟩ := bind_eq_ok.mp ok
  obtain ⟨rowsJson, getRows, ok⟩ := bind_eq_ok.mp ok
  split at ok
  · rename_i nodeItems rowItems nodesArr rowsArr
    obtain ⟨checkpoint, foundCheckpoint, ok⟩ := bind_eq_ok.mp ok
    obtain ⟨size, foundSize, ok⟩ := bind_eq_ok.mp ok
    obtain ⟨sizeJson, getSize, foundSize⟩ := bind_eq_ok.mp foundSize
    obtain ⟨seq, foundSeq, ok⟩ := bind_eq_ok.mp ok
    obtain ⟨seqJson, getSeq, foundSeq⟩ := bind_eq_ok.mp foundSeq
    obtain ⟨nodes, foundNodes, ok⟩ := bind_eq_ok.mp ok
    obtain ⟨pending, foundPending, ok⟩ := bind_eq_ok.mp ok
    obtain ⟨rows, foundRows, ok⟩ := bind_eq_ok.mp ok
    cases ok
    obtain rfl := items?_eq_some nodesArr
    obtain rfl := items?_eq_some rowsArr
    obtain rfl := parseDecimal_eq_ok foundSize
    obtain rfl := parseDecimal_eq_ok foundSeq
    obtain rfl := object_eq_ok found
    have rowsOf_ : rowsOf (.obj fields) = rowItems := by
      rw [rowsOf, required_eq_ok getRows]
    obtain ⟨again, encodedRows, all⟩ := mapM_witnessObjToWire_decoded other foundRows
    rw [rowsOf_]
    refine ⟨fields, again, rfl, required_eq_ok getRows, all, ?_⟩
    have time (json : Json) (t : Time) (found : parseTime error json = .ok t) :
        timeObj t ≠ .none ∧ formatTimeObj (timeObj t) = .ok json := by
      rw [parseTime_eq_ok found]
      exact ⟨nofun, formatTimeObj_of_ok (normalizeTime_timeObj error t)⟩
    have other_ {name : String} (ne : name ≠ "witnesses") :
        present ((Str.lit "witnesses", .arr again) :: fields) name = present fields name := by
      rw [present, get?_cons, if_neg (Ne.symm ne), present]
    -- The rows are encoded again, so they replace the field that was decoded.
    have last : present ((Str.lit "witnesses", .arr again) :: fields) "witnesses" = some (.arr again) := by
      rw [present, get?_cons, if_pos rfl]
      rfl
    have middle : canonical checkpointNames ((Str.lit "witnesses", .arr again) :: fields) =
        canonical checkpointNames fields := by
      simp only [checkpointNames, canonical_cons, canonical_nil, other_ (show "checkpoint" ≠ _ by decide),
        other_ (show "checkpointSize" ≠ _ by decide), other_ (show "checkpointIndexedSeq" ≠ _ by decide),
        other_ (show "checkpointPeaks" ≠ _ by decide)]
    rw [stateNames, canonical_append, canonical_append, middle]
    simp only [stateObjToWire, cllStateObj, Obj.attr, List.lookup_cons]
    simp [iterate, Obj.seq?, natObj, mapM_encodeBytesObj_decoded foundNodes,
      fieldObj?_of_nullable foundPending time, checkpointObjFields_checkpointFromWire other foundCheckpoint,
      encodedRows, canonical_cons, canonical_nil, other_, last,
      field?_present (required_eq_ok getSize) rfl, field?_present (required_eq_ok getSeq) rfl,
      field?_present (required_eq_ok getNodes) rfl]
    rfl
  · exact absurd ok raise_ne_ok

/-- Every field of an object has one of these names. -/
def onlyNames (names : List String) : Json → Prop
  | .obj fields => OnlyKeys (names.map Str.lit) fields
  | _ => True

instance (names : List String) : (wire : Json) → Decidable (onlyNames names wire)
  | .obj fields => inferInstanceAs (Decidable (∀ f ∈ fields, f.1 ∈ names.map Str.lit))
  | .null | .bool _ | .int _ | .float _ | .str _ | .arr _ => isTrue trivial

/-- No field of these names is `null`. -/
def noNulls (names : List String) : Json → Prop
  | .obj fields => ∀ name ∈ names, Json.get? fields (Str.lit name) ≠ some .null
  | _ => True

/-- Encoding `value` gives the dictionary `wire`. -/
def Reencodes (toWire : Obj → Py Json) (value : Obj) (wire : Json) : Prop :=
  ∃ again, toWire value = .ok again ∧ Same again wire

/-- There are no nulls exactly where no key has one. -/
lemma noNulls_iff {names : List String} {fields : Fields} (only : onlyNames names (.obj fields)) :
    noNulls names (.obj fields) ↔ ∀ key, Json.get? fields key ≠ some .null := by
  constructor
  · intro full key null
    by_cases mem : key ∈ names.map Str.lit
    · obtain ⟨name, named, rfl⟩ := List.mem_map.mp mem
      exact full name named null
    · rw [OnlyKeys.get?_eq_none only mem] at null
      cases null
  · intro full name _
    exact full _

/-- The names of a row are distinct. -/
lemma nodup_witnessNames : witnessNames.Nodup := by decide

/-- The names of a state are distinct. -/
lemma nodup_stateNames : stateNames.Nodup := by decide

/-- A row less its `null` fields is the row when it has none, and only then. -/
lemma same_canonical_iff {fields : Fields} (only : onlyNames witnessNames (.obj fields)) :
    Same (.obj (canonical witnessNames fields)) (.obj fields) ↔ noNulls witnessNames (.obj fields) := by
  rw [noNulls_iff only]
  exact Json.same_less_nulls_iff (get?_canonical_of_only nodup_witnessNames only)

/-- A row is written back exactly where it has no null. -/
theorem reencodes_witness_iff (other : Obj → Str) {error : ErrorKind} {wire : Json} {row : Obj}
    (ok : witnessFromWire error wire = .ok row) (only : onlyNames witnessNames wire) :
    Reencodes (witnessObjToWire other) row wire ↔ noNulls witnessNames wire := by
  obtain ⟨fields, rfl, encoded⟩ := witnessObjToWire_witnessFromWire other ok
  rw [← same_canonical_iff only]
  constructor
  · rintro ⟨again, e, same⟩
    rw [encoded] at e
    cases e
    exact same
  · intro same
    exact ⟨_, encoded, same⟩

/-- Rows are the same exactly where none has a null. -/
lemma forall₂_same_iff {rows again : List Json}
    (all : List.Forall₂ (fun wire json => ∃ fields, wire = .obj fields ∧
      json = .obj (canonical witnessNames fields)) rows again)
    (only : ∀ row ∈ rows, onlyNames witnessNames row) :
    List.Forall₂ Same again rows ↔ ∀ row ∈ rows, noNulls witnessNames row := by
  induction all with
  | nil => simp
  | @cons row json rows again head tail ih =>
    obtain ⟨fields, rfl, rfl⟩ := head
    have ih := ih fun row mem => only row (List.mem_cons_of_mem _ mem)
    rw [List.forall₂_cons, List.forall_mem_cons, ih, same_canonical_iff (only _ List.mem_cons_self)]

/-- A state is written back exactly where nothing in it is null. -/
theorem reencodes_state_iff (other : Obj → Str) {error : ErrorKind} {wire : Json} {state : Obj}
    (ok : stateFromWire error wire = .ok state) (only : onlyNames stateNames wire)
    (rowsOnly : ∀ row ∈ rowsOf wire, onlyNames witnessNames row) :
    Reencodes (stateObjToWire other) state wire ↔
      noNulls stateNames wire ∧ ∀ row ∈ rowsOf wire, noNulls witnessNames row := by
  obtain ⟨fields, again, rfl, rows, all, encoded⟩ := stateObjToWire_stateFromWire other ok
  have same : Same (.obj (canonical stateNames ((Str.lit "witnesses", .arr again) :: fields))) (.obj fields) ↔
      noNulls stateNames (.obj fields) ∧ ∀ row ∈ rowsOf (.obj fields), noNulls witnessNames row := by
    rw [noNulls_iff only, ← forall₂_same_iff all rowsOnly, ← Json.same_arr]
    have only' : OnlyKeys (stateNames.map Str.lit) ((Str.lit "witnesses", .arr again) :: fields) := by
      intro f mem
      rcases List.mem_cons.mp mem with rfl | mem
      · exact List.mem_map_of_mem (by decide)
      · exact only f mem
    have less := get?_canonical_of_only nodup_stateNames only'
    refine Json.same_replaced_iff ?_ rows nofun fun key ne => ?_
    · rw [less, get?_cons, if_pos rfl]
      rfl
    · have head : Json.get? ((Str.lit "witnesses", .arr again) :: fields) key = Json.get? fields key := by
        unfold Json.get?
        rw [List.lookup_cons, show (key == Str.lit "witnesses") = false by simpa using ne]
      rw [less, head]
  rw [← same]
  constructor
  · rintro ⟨json, e, same⟩
    rw [encoded] at e
    cases e
    exact same
  · intro same
    exact ⟨_, encoded, same⟩

/-- An entry has no optional field, so its encoding is the only one. -/
theorem same_entryToWire {error : ErrorKind} {wire : Json} {entry : Entry}
    (ok : entryFromWire error wire = .ok entry) (only : onlyNames entryNames wire) :
    Same (entryToWire entry) wire := by
  unfold entryFromWire at ok
  obtain ⟨fields, found, ok⟩ := bind_eq_ok.mp ok
  obtain ⟨seq, foundSeq, ok⟩ := bind_eq_ok.mp ok
  obtain ⟨seqJson, getSeq, foundSeq⟩ := bind_eq_ok.mp foundSeq
  obtain ⟨value, foundValue, ok⟩ := bind_eq_ok.mp ok
  obtain ⟨valueJson, getValue, foundValue⟩ := bind_eq_ok.mp foundValue
  obtain ⟨time, foundTime, ok⟩ := bind_eq_ok.mp ok
  obtain ⟨timeJson, getTime, foundTime⟩ := bind_eq_ok.mp foundTime
  cases ok
  obtain rfl := object_eq_ok found
  obtain rfl := parseDecimal_eq_ok foundSeq
  obtain rfl := decodeBytes_eq_ok foundValue
  obtain rfl := parseTime_eq_ok foundTime
  have getSeq := required_eq_ok getSeq
  have getValue := required_eq_ok getValue
  have getTime := required_eq_ok getTime
  have encoded : entryToWire ⟨seq, value, time⟩ = .obj (canonical entryNames fields) := by
    simp only [entryToWire, entryNames, canonical_cons, canonical_nil, field?_present getSeq rfl,
      field?_present getValue rfl, field?_present getTime rfl, List.append_nil, List.singleton_append]
  rw [encoded, Json.same_less_nulls_iff (get?_canonical_of_only (by decide) only), ← noNulls_iff only]
  intro name mem
  simp only [entryNames, List.mem_cons, List.not_mem_nil, or_false] at mem
  rcases mem with rfl | rfl | rfl
  · rw [getSeq]
    intro absent
    cases absent
  · rw [getValue]
    intro absent
    cases absent
  · rw [getTime]
    intro absent
    cases absent

/-- What `validate_entries` accepts about one entry. -/
lemma exists_of_validateEntriesFrom {error : ErrorKind} {index : ℕ} {seen : List Bytes} {entries : List Obj}
    (ok : validateEntriesFrom error index seen entries = .ok ()) {entry : Obj} (mem : entry ∈ entries) :
    ∃ n seq value data time t, entry.attr "seq" = .ok seq ∧ seq.eq (natObj (n + 1)) = true ∧
      n + 1 ≤ maxPortableInteger ∧ entry.attr "value" = .ok value ∧ value.buf? = some data ∧
      entry.attr "appended_at" = .ok time ∧ normalizeTime error time = .ok t := by
  induction entries generalizing index seen with
  | nil => cases mem
  | cons e entries ih =>
    unfold validateEntriesFrom at ok
    obtain ⟨seq, attrSeq, ok⟩ := bind_eq_ok.mp ok
    obtain ⟨_, seqOk, ok⟩ := bind_eq_ok.mp ok
    obtain ⟨value, attrValue, ok⟩ := bind_eq_ok.mp ok
    obtain ⟨data, valueOk, ok⟩ := bind_eq_ok.mp ok
    obtain ⟨t, stamped, ok⟩ := bind_eq_ok.mp ok
    obtain ⟨time, attrTime, timeOk⟩ := bind_eq_ok.mp stamped
    obtain ⟨_, -, ok⟩ := bind_eq_ok.mp ok
    obtain ⟨_, -, ok⟩ := bind_eq_ok.mp ok
    rcases List.mem_cons.mp mem with rfl | mem
    · obtain ⟨same, le⟩ := require_eq_ok.mp seqOk
      exact ⟨index, seq, value, data.1, time, t, attrSeq, same, le, attrValue,
        width_eq_some (orRaise_eq_ok.mp valueOk), attrTime, timeOk⟩
    · exact ih ok mem

/-- `entry` is the entry object `x` with its time normalised. -/
structure IsNormal (x : Obj) (entry : Entry) : Prop where
  seq : ∃ o, x.attr "seq" = .ok o ∧ o.eq (natObj entry.seq) = true
  value : ∃ o, x.attr "value" = .ok o ∧ o.buf? = some entry.value
  appendedAt : ∃ o, x.attr "appended_at" = .ok o ∧ normalizeTime .invalid o = .ok entry.appendedAt

/-- `entry_from_wire(entry_to_wire(x))` is `x` with its time normalised. -/
def EntryRoundTrips (other : Obj → Str) (error : ErrorKind) (x : Obj) : Prop :=
  ∃ wire entry, entryObjToWire other x = .ok wire ∧ entryFromWire error wire = .ok entry ∧ IsNormal x entry

/-- A text with another mark is no formatted number. -/
lemma text_ne_of_mem {n c : ℕ} {s : Str} (mem : c ∈ s) (mark : Decimal.isDigit c = false) :
    s ≠ formatDecimal n := by
  rintro rfl
  rw [Decimal.isDigit_text mem] at mark
  cases mark

/-- Of the values that equal a number, only the text of an `int` is a decimal. -/
lemma eq_int_of_strOf {other : Obj → Str} {value : Obj} {n m : ℕ} (small : n < 10 ^ 16)
    (same : value.eq (natObj n) = true) (text : strOf other value = formatDecimal m) :
    value = .int n := by
  cases value with
  | int k =>
    rw [natObj, Obj.eq_int, beq_iff_eq] at same
    rw [same]
  | bool b =>
    exfalso
    cases b with
    | true => exact text_ne_of_mem (show 84 ∈ Str.lit "True" by decide) (by decide) text
    | false => exact text_ne_of_mem (show 70 ∈ Str.lit "False" by decide) (by decide) text
  | float x =>
    exfalso
    have whole : x = (n : ℤ) := by
      simpa [Obj.eq, natObj, Obj.num?] using same
    subst whole
    rw [strOf, if_pos ⟨Rat.den_intCast n, by simpa using small⟩] at text
    exact text_ne_of_mem (c := 46) (List.mem_append_right _ (by decide)) (by decide) text
  | _ => simp [Obj.eq, natObj, Obj.num?, Obj.buf?] at same

/-- An accepted entry is read back as itself exactly when its number is an `int`. A `bool` or a `float`
equals its number as well, and is written as a text that is no decimal. -/
theorem entryRoundTrips_iff (other : Obj → Str) {error : ErrorKind} {entries : List Obj}
    (ok : validateEntries error entries = .ok ()) {x : Obj} (mem : x ∈ entries) :
    EntryRoundTrips other error x ↔ ∃ n, x.attr "seq" = .ok (.int n) := by
  obtain ⟨n, seq, value, data, time, t, attrSeq, same, le, attrValue, buf, attrTime, timeOk⟩ :=
    exists_of_validateEntriesFrom ok mem
  have encoded : entryObjToWire other x = .ok (.obj [(Str.lit "seq", formatDecimalObj other seq),
      (Str.lit "value", .str (encodeBytes data)), (Str.lit "appendedAt", .str (formatTime t))]) := by
    rw [entryObjToWire, attrSeq, ok_bind, attrValue, ok_bind, encodeBytesObj_of_buf? buf, ok_bind, attrTime,
      ok_bind, formatTimeObj_of_ok timeOk, ok_bind]
  unfold maxPortableInteger at le
  constructor
  · rintro ⟨wire, entry, e, read, -⟩
    rw [encoded] at e
    cases e
    obtain ⟨m, found⟩ : ∃ m, parseDecimal error (formatDecimalObj other seq) = .ok m := by
      obtain ⟨fields, found, read⟩ := bind_eq_ok.mp read
      cases found
      obtain ⟨m, found, -⟩ := bind_eq_ok.mp read
      exact ⟨m, found⟩
    have text := Json.str.inj (parseDecimal_eq_ok found)
    rw [eq_int_of_strOf (by omega) same text] at attrSeq
    exact ⟨_, attrSeq⟩
  · rintro ⟨k, attr⟩
    rw [attrSeq] at attr
    cases attr
    rw [natObj, Obj.eq_int, beq_iff_eq] at same
    subst same
    rw [formatDecimalObj_nat] at encoded
    let entry : Entry := ⟨n + 1, data, t⟩
    have read : entryFromWire error (entryToWire entry) = .ok entry :=
      entryFromWire_entryToWire error (show n + 1 < 2 ^ 64 by omega)
    exact ⟨entryToWire entry, entry, encoded, read, ⟨_, attrSeq, by simp [natObj, entry]⟩,
      ⟨_, attrValue, buf⟩, ⟨_, attrTime, normalizeTime_of_ok timeOk .invalid⟩⟩

/-- The round trips, injectivity and canonical encodings of `log/wire.py`, each under the exact condition
where it needs one. -/
theorem wire_roundTrip_iff (other : Obj → Str) (error : ErrorKind) :
    (∀ entries, validateEntries error entries = .ok () → ∀ x ∈ entries,
      (EntryRoundTrips other error x ↔ ∃ n, x.attr "seq" = .ok (.int n))) ∧
    (∀ x w, validateWitness error x = .ok w →
      witnessObjToWire other x >>= witnessFromWire error = .ok w.toObj) ∧
    (∀ x s, validateState error x = .ok s →
      stateObjToWire other x >>= stateFromWire error = .ok s.toDelta.toObj) ∧
    (∀ (s t : CllState) (a b : Json), stateObjToWire other s.toDelta.toObj = .ok a →
      stateObjToWire other t.toDelta.toObj = .ok b → Same a b → s = t) ∧
    (∀ wire entry, entryFromWire error wire = .ok entry → onlyNames entryNames wire →
      Same (entryToWire entry) wire) ∧
    (∀ wire row, witnessFromWire error wire = .ok row → onlyNames witnessNames wire →
      (Reencodes (witnessObjToWire other) row wire ↔ noNulls witnessNames wire)) ∧
    ∀ wire state, stateFromWire error wire = .ok state → onlyNames stateNames wire →
      (∀ row ∈ rowsOf wire, onlyNames witnessNames row) →
      (Reencodes (stateObjToWire other) state wire ↔
        noNulls stateNames wire ∧ ∀ row ∈ rowsOf wire, noNulls witnessNames row) := by
  refine ⟨fun entries ok x mem => entryRoundTrips_iff other ok mem, fun x w ok => ?_, fun x s ok => ?_,
    fun s t a b left right same => ?_, fun wire entry ok only => same_entryToWire ok only,
    fun wire row ok only => reencodes_witness_iff other ok only,
    fun wire state ok only rows => reencodes_state_iff other ok only rows⟩
  · rw [witnessObjToWire_of_validateWitness other ok, ok_bind, witnessFromWire_witnessToWire]
  · rw [stateObjToWire_of_validateState other ok, ok_bind, stateFromWire_stateToWire]
  · rw [stateObjToWire_of_validateState other (validateState_toObj .invalid s)] at left
    rw [stateObjToWire_of_validateState other (validateState_toObj .invalid t)] at right
    cases left
    cases right
    have delta := stateToWire_injective same
    exact CllState.ext (congrArg Delta.toHeader delta) (congrArg Delta.nodes delta)

/-- A row without a receipt. `lastError` is absent when it is `none`. -/
def rowSample (lastError : Option Json) : Json :=
  .obj ([(Str.lit "witnessId", .str (Str.lit "w")), (Str.lit "checkpointSize", .str (Str.lit "1")),
    (Str.lit "checkpoint", .str (Str.lit "AA==")), (Str.lit "attempts", .int 0),
    (Str.lit "nextAttemptAt", .str (Str.lit "2026-09-01T12:00:00.000Z")),
    (Str.lit "permanent", .bool false)] ++ field? "lastError" id lastError)

/-- The sample row is decoded. -/
lemma rowSample_decodes (lastError : Option Json) (known : lastError = none ∨ lastError = some .null) :
    ∃ row, witnessFromWire .corrupt (rowSample lastError) = .ok row := by
  have returns : (witnessFromWire .corrupt (rowSample lastError)).toBool = true := by
    rcases known with rfl | rfl <;> decide +kernel
  exact ⟨_, Py.eq_ok_val returns⟩

/-- The sample row has only the names of a row. -/
lemma rowSample_only (lastError : Option Json) (known : lastError = none ∨ lastError = some .null) :
    onlyNames witnessNames (rowSample lastError) := by
  rcases known with rfl | rfl <;> decide +kernel

/-- A row that leaves out what it does not have has no `null`. -/
lemma rowSample_full : noNulls witnessNames (rowSample none) := by
  simp [noNulls, rowSample, witnessNames, receiptNames, field?]

/-- An entry. -/
def entrySample : Json :=
  .obj [(Str.lit "seq", .str (Str.lit "1")),
    (Str.lit "value", .str (Base64.encode (List.replicate entryBytes 7))),
    (Str.lit "appendedAt", .str (Str.lit "2026-09-01T12:00:00.000Z"))]

/-- A state without a checkpoint whose one row is that row. -/
def stateSample : Json :=
  .obj [(Str.lit "size", .str (Str.lit "0")), (Str.lit "indexedSeq", .str (Str.lit "0")), (Str.lit "nodes", .arr []),
    (Str.lit "witnesses", .arr [rowSample none])]

/-- The sample state has no null. -/
lemma stateSample_full : noNulls stateNames stateSample := by
  simp [noNulls, stateSample, stateNames, checkpointNames]

/-- They are decoded. -/
lemma samples_decode : (entryFromWire .corrupt entrySample).toBool = true ∧
    (stateFromWire .corrupt stateSample).toBool = true := by
  constructor <;> decide +kernel

/-- The first millisecond after the epoch. -/
def earlyTime : Time := ⟨1, Nat.succ_lt_succ (Nat.zero_lt_succ _)⟩

/-- An entry as an object. -/
def entryObjSample : Obj :=
  .inst .appendInput [("seq", .int 1), ("value", .bytes (List.replicate entryBytes 7)),
    ("appended_at", timeObj earlyTime)]

/-- It is a valid log. -/
lemma entryObjSample_valid : validateEntries .corrupt [entryObjSample] = .ok () := by
  have valid : (validateEntries .corrupt [entryObjSample]).toBool = true := by decide +kernel
  exact Py.eq_ok_val valid

/-- A row of a checkpoint of one node. -/
def storedRow : WitnessState where
  witnessId := ⟨Str.lit "near", by decide⟩
  checkpointSize := ⟨1, by decide⟩
  checkpoint := ⟨[2], by decide⟩
  attempts := ⟨1, by decide⟩
  nextAttemptAt := earlyTime
  receipt := none
  permanent := false
  lastError := none

/-- A state of one node with that row. -/
def storedState : CllState where
  size := 1
  indexedSeq := 1
  firstPendingAt := some earlyTime
  checkpoint := none
  witnesses := [storedRow]
  size_lt := by decide
  leafCount_eq := by decide
  checkpoint_le := by simp
  nodup_keys := by simp
  nodes := [⟨List.replicate 32 7, rfl⟩]
  length_eq := rfl
  size_le := by decide

/-- The entry, the row, the state and their encodings. -/
theorem wire_roundTrip_iff_sample :
    let other : Obj → Str := fun _ => []
    EntryRoundTrips other .corrupt entryObjSample ∧
    (witnessObjToWire other storedRow.toObj >>= witnessFromWire .corrupt) = .ok storedRow.toObj ∧
    (stateObjToWire other storedState.toObj >>= stateFromWire .corrupt) = .ok storedState.toDelta.toObj ∧
    (∀ t a b, stateObjToWire other storedState.toDelta.toObj = .ok a →
      stateObjToWire other (t : CllState).toDelta.toObj = .ok b → Same a b → storedState = t) ∧
    (∃ entry, entryFromWire .corrupt entrySample = .ok entry ∧ Same (entryToWire entry) entrySample) ∧
    (∃ row, witnessFromWire .corrupt (rowSample none) = .ok row ∧
      Reencodes (witnessObjToWire other) row (rowSample none)) ∧
    ∃ state, stateFromWire .corrupt stateSample = .ok state ∧
      Reencodes (stateObjToWire other) state stateSample := by
  obtain ⟨entries, rows, states, injective, entry, row, state⟩ := wire_roundTrip_iff (fun _ => []) .corrupt
  obtain ⟨entryOk, stateOk⟩ := samples_decode
  refine ⟨?_, rows _ _ (validateWitness_toObj .corrupt storedRow), states _ _ (validateState_toObj .corrupt storedState),
    fun t => injective storedState t, ?_, ?_, ?_⟩
  · exact (entries _ entryObjSample_valid _ List.mem_cons_self).mpr ⟨1, rfl⟩
  · exact ⟨_, Py.eq_ok_val entryOk, entry _ _ (Py.eq_ok_val entryOk) (by decide +kernel)⟩
  · obtain ⟨decoded, ok⟩ := rowSample_decodes none (.inl rfl)
    exact ⟨decoded, ok, (row _ _ ok (rowSample_only none (.inl rfl))).mpr rowSample_full⟩
  · refine ⟨_, Py.eq_ok_val stateOk, (state _ _ (Py.eq_ok_val stateOk) (by decide +kernel) ?_).mpr
      ⟨stateSample_full, ?_⟩⟩
    · exact List.forall_mem_singleton.mpr (rowSample_only none (.inl rfl))
    · exact List.forall_mem_singleton.mpr rowSample_full

/-- A row whose `lastError` is `null` is accepted, and encoded without the field. -/
theorem witness_reencoding_drops_null :
    ¬ ∀ wire row, witnessFromWire .corrupt wire = .ok row → onlyNames witnessNames wire →
      Reencodes (witnessObjToWire fun _ => []) row wire := by
  intro all
  obtain ⟨row, ok⟩ := rowSample_decodes (some .null) (.inr rfl)
  have only := rowSample_only (some .null) (.inr rfl)
  have full := (reencodes_witness_iff _ ok only).mp (all _ row ok only)
  exact full "lastError" (by decide) (by simp [field?])

end CLL.Log
