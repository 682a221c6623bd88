import CLL.Log.Values
import CLL.Lib.Base64
import CLL.Lib.Calendar
import CLL.Lib.Json

/-!
# Portable encodings

`log/wire.py`: the JSON form of entries, witness rows and states. Decoders take the error they raise.
They return the values as objects, since the rules for widths and ranges belong to the engine. An error
text leaves out the `repr` of the value it reports.
-/

namespace CLL.Log
open CLL.Core (Digest)

/-- `normalize_time`. -/
def normalizeTime (error : ErrorKind) : Obj → Py Time
  | .datetime t =>
    match t.offset with
    | none => raise error "time must be a timezone-aware datetime"
    | some offset =>
      if h : 0 ≤ (t.clock : ℤ) - offset ∧ (t.clock : ℤ) - offset < maxMicros then
        .ok ⟨((t.clock : ℤ) - offset).toNat / 1000, by simp only [maxMicros, maxMillis] at *; omega⟩
      else raise error "time is outside the representable range"
  | _ => raise error "time must be a timezone-aware datetime"

/-- The groups of `_TIME`. -/
structure TimeFields where
  year : ℕ
  month : ℕ
  day : ℕ
  hour : ℕ
  minute : ℕ
  second : ℕ
  millis : ℕ
  deriving DecidableEq, Repr

/-- The calendar reading of a time. -/
def timeFields (value : Time) : TimeFields where
  year := (Calendar.fromOrdinal (value.millis / 86400000 + 1)).year
  month := (Calendar.fromOrdinal (value.millis / 86400000 + 1)).month
  day := (Calendar.fromOrdinal (value.millis / 86400000 + 1)).day
  hour := value.millis / 3600000 % 24
  minute := value.millis / 60000 % 60
  second := value.millis / 1000 % 60
  millis := value.millis % 1000

/-- `"%04d-%02d-%02dT%02d:%02d:%02d.%03dZ" % fields`. -/
def TimeFields.text (f : TimeFields) : Str :=
  Decimal.pad 4 f.year ++ 45 :: (Decimal.pad 2 f.month ++ 45 :: (Decimal.pad 2 f.day ++ 84 ::
    (Decimal.pad 2 f.hour ++ 58 :: (Decimal.pad 2 f.minute ++ 58 :: (Decimal.pad 2 f.second ++ 46 ::
      (Decimal.pad 3 f.millis ++ [90]))))))

/-- `format_time`. -/
def formatTime (value : Time) : Str := (timeFields value).text

/-- `[0-9]{w}` followed by the code point `c`. -/
def digitsThen (w c : ℕ) (s : Str) : Option (ℕ × Str) :=
  if (s.take w).length = w ∧ (s.take w).all Decimal.isDigit then
    match s.drop w with
    | d :: rest => if d = c then some (Decimal.value (s.take w), rest) else none
    | [] => none
  else none

/-- `_TIME.fullmatch`. -/
def matchTime (s : Str) : Option TimeFields :=
  (digitsThen 4 45 s).bind fun (year, s) =>
  (digitsThen 2 45 s).bind fun (month, s) =>
  (digitsThen 2 84 s).bind fun (day, s) =>
  (digitsThen 2 58 s).bind fun (hour, s) =>
  (digitsThen 2 58 s).bind fun (minute, s) =>
  (digitsThen 2 46 s).bind fun (second, s) =>
  (digitsThen 3 90 s).bind fun (millis, s) =>
  if s = [] then some ⟨year, month, day, hour, minute, second, millis⟩ else none

/-- `datetime` takes the fields. -/
def TimeFields.valid (f : TimeFields) : Bool :=
  (Calendar.Date.mk f.year f.month f.day).valid && f.hour < 24 && f.minute < 60 && f.second < 60 &&
    f.millis < 1000

/-- Milliseconds since `0001-01-01T00:00:00Z`. -/
def TimeFields.toMillis (f : TimeFields) : ℕ :=
  (((Calendar.toOrdinal ⟨f.year, f.month, f.day⟩ - 1) * 24 + f.hour) * 60 + f.minute) * 60000 +
    f.second * 1000 + f.millis

/-- A valid time is before the last one. -/
lemma TimeFields.toMillis_lt {f : TimeFields} (valid : f.valid = true) : f.toMillis < maxMillis := by
  simp only [TimeFields.valid, Bool.and_eq_true, decide_eq_true_eq] at valid
  obtain ⟨⟨⟨⟨date, hour⟩, minute⟩, second⟩, millis⟩ := valid
  obtain ⟨pos, le⟩ := Calendar.toOrdinal_le date
  unfold Calendar.maxOrdinal at le
  unfold TimeFields.toMillis maxMillis
  omega

/-- `datetime(year, …, tzinfo=timezone.utc)`, `none` where it raises. -/
def TimeFields.toTime (f : TimeFields) : Option Time :=
  if valid : f.valid = true then some ⟨f.toMillis, f.toMillis_lt valid⟩ else none

/-- `parse_time`. -/
def parseTime (error : ErrorKind) : Json → Py Time
  | .str s =>
    match (matchTime s).bind TimeFields.toTime with
    | some t => .ok t
    | none => raise error "invalid portable time"
  | _ => raise error "invalid portable time"

/-- `format_decimal`. -/
def formatDecimal (value : ℕ) : Str := Decimal.text value

/-- Different numbers have different texts. -/
@[simp] lemma formatDecimal_inj {m n : ℕ} : formatDecimal m = formatDecimal n ↔ m = n := by
  constructor
  · intro e
    have value := congrArg Decimal.value e
    rwa [formatDecimal, formatDecimal, Decimal.value_text, Decimal.value_text] at value
  · rintro rfl
    rfl

/-- `parse_decimal`. -/
def parseDecimal (error : ErrorKind) : Json → Py ℕ
  | .str s => do
    require (s.length ≤ 20 ∧ Decimal.isCanonical s = true) error "invalid decimal"
    require (Decimal.value s < 2 ^ 64) error "decimal exceeds 64 bits"
    .ok (Decimal.value s)
  | _ => raise error "invalid decimal"

/-- `encode_bytes`. -/
def encodeBytes (value : Bytes) : Str := Base64.encode value

/-- `decode_bytes`. -/
def decodeBytes (error : ErrorKind) : Json → Py Bytes
  | .str s =>
    match Base64.decode s with
    | some decoded => do
      require (Base64.encode decoded = s) error "non-canonical base64"
      .ok decoded
    | none => raise error "invalid base64"
  | _ => raise error "base64 value must be a string"

/-- `dumps`. -/
def dumps (value : Json) : Py Bytes :=
  match Utf8.encode (Json.dumps value) with
  | some bytes => .ok bytes
  | none => raise .valueError "surrogates not allowed"

/-- The fields of a JSON object. -/
abbrev Fields := List (Str × Json)

/-- `wire.get(key)`. -/
def Fields.get (fields : Fields) (key : String) : Json :=
  (Json.get? fields (Str.lit key)).getD .null

/-- A field that is absent when its value is. -/
def field? {α : Type} (key : String) (toJson : α → Json) : Option α → Fields
  | some a => [(Str.lit key, toJson a)]
  | none => []

/-- `_object`. -/
def object (error : ErrorKind) (what : String) : Json → Py Fields
  | .obj fields => .ok fields
  | _ => raise error s!"{what} must be a JSON object"

/-- `_required`. -/
def required (error : ErrorKind) (fields : Fields) (key : String) : Py Json :=
  match Json.get? fields (Str.lit key) with
  | some value => .ok value
  | none => raise error s!"missing field {key}"

/-- `_string`. -/
def string (error : ErrorKind) (what : String) : Json → Py Str
  | .str s => .ok s
  | _ => raise error s!"{what} must be a string"

/-- `_integer`. -/
def integer (error : ErrorKind) (what : String) : Json → Py ℤ
  | .int n => .ok n
  | _ => raise error s!"{what} must be an integer"

/-- `None`, or a value that `read` takes. -/
def nullable {α : Type} (toObj : α → Obj) (read : Json → Py α) : Json → Py Obj
  | .null => .ok .none
  | value => (read value).map toObj

/-- The items of an array. -/
def items? : Json → Option (List Json)
  | .arr xs => some xs
  | _ => none

/-- `entry_to_wire`. -/
def entryToWire (entry : Entry) : Json :=
  .obj [(Str.lit "seq", .str (formatDecimal entry.seq)),
    (Str.lit "value", .str (encodeBytes entry.value)),
    (Str.lit "appendedAt", .str (formatTime entry.appendedAt))]

/-- `entry_from_wire`. -/
def entryFromWire (error : ErrorKind) (wire : Json) : Py Entry :=
  object error "entry" wire >>= fun fields =>
  required error fields "seq" >>= parseDecimal error >>= fun seq =>
  required error fields "value" >>= decodeBytes error >>= fun value =>
  required error fields "appendedAt" >>= parseTime error >>= fun appendedAt =>
  .ok ⟨seq, value, appendedAt⟩

/-- The fields of a receipt. -/
def receiptFields (receipt : WitnessReceipt) : Fields :=
  (Str.lit "receipt", .str (encodeBytes receipt.bytes)) ::
    (field? "entryHash" (fun h => .str h.1) receipt.entryHash ++
      (field? "entryHashScheme" (fun s => .str s.name) receipt.entryHashScheme ++
        (field? "leafIndex" (fun n => .int (n.1 : ℕ)) receipt.leafIndex ++
          field? "treeSize" (fun n => .int (n.1 : ℕ)) receipt.treeSize)))

/-- The fields of `witness_to_wire`. -/
def witnessFields (value : WitnessState) : Fields :=
  (Str.lit "witnessId", .str value.witnessId) ::
    (Str.lit "checkpointSize", .str (formatDecimal value.checkpointSize)) ::
    (Str.lit "checkpoint", .str (encodeBytes value.checkpoint)) ::
    (Str.lit "attempts", .int (value.attempts.1 : ℕ)) ::
    (Str.lit "nextAttemptAt", .str (formatTime value.nextAttemptAt)) ::
    ((value.receipt.elim [] receiptFields) ++
      ((Str.lit "permanent", .bool value.permanent) ::
        field? "lastError" (fun r => .str r.1) value.lastError))

/-- `witness_to_wire`. -/
def witnessToWire (value : WitnessState) : Json := .obj (witnessFields value)

/-- The receipt of `witness_from_wire`. -/
def receiptFromWire (error : ErrorKind) (fields : Fields) : Py Obj :=
  match fields.get "receipt" with
  | .null =>
    match fields.get "entryHash", fields.get "entryHashScheme", fields.get "leafIndex",
      fields.get "treeSize" with
    | .null, .null, .null, .null => .ok .none
    | _, _, _, _ => raise error "witness receipt metadata without receipt bytes"
  | receipt =>
    nullable .str (string error "entry_hash") (fields.get "entryHash") >>= fun entryHash =>
    nullable .str (string error "entry_hash_scheme") (fields.get "entryHashScheme") >>= fun scheme =>
    nullable .int (integer error "leaf_index") (fields.get "leafIndex") >>= fun leafIndex =>
    nullable .int (integer error "tree_size") (fields.get "treeSize") >>= fun treeSize =>
    decodeBytes error receipt >>= fun bytes =>
    .ok (receiptObj (.bytes bytes) entryHash scheme leafIndex treeSize)

/-- The `permanent` flag of `witness_from_wire`. -/
def permanentFlag (error : ErrorKind) : Json → Py Bool
  | .bool b => .ok b
  | _ => raise error "permanent must be a boolean"

/-- `witness_from_wire`. -/
def witnessFromWire (error : ErrorKind) (wire : Json) : Py Obj :=
  object error "witness" wire >>= fun fields =>
  required error fields "attempts" >>= integer error "attempts" >>= fun attempts =>
  require (0 ≤ attempts ∧ attempts ≤ maxAttempts) error "attempts is outside 0..4294967295" >>= fun _ =>
  required error fields "permanent" >>= permanentFlag error >>= fun permanent =>
  nullable .str (string error "lastError") (fields.get "lastError") >>= fun lastError =>
  receiptFromWire error fields >>= fun receipt =>
  required error fields "witnessId" >>= string error "witnessId" >>= fun witnessId =>
  required error fields "checkpointSize" >>= parseDecimal error >>= fun checkpointSize =>
  required error fields "checkpoint" >>= decodeBytes error >>= fun checkpoint =>
  required error fields "nextAttemptAt" >>= parseTime error >>= fun nextAttemptAt =>
  .ok (witnessObj (.str witnessId) (natObj checkpointSize) (.bytes checkpoint) (.int attempts)
    (timeObj nextAttemptAt) receipt (.bool permanent) lastError)

/-- The fields of a checkpoint. -/
def checkpointFields (checkpoint : CheckpointState) : Fields :=
  [(Str.lit "checkpoint", .str (encodeBytes checkpoint.bytes)),
    (Str.lit "checkpointSize", .str (formatDecimal checkpoint.size)),
    (Str.lit "checkpointIndexedSeq", .str (formatDecimal checkpoint.indexedSeq)),
    (Str.lit "checkpointPeaks", .arr (checkpoint.peaks.map fun p => .str (encodeBytes p.1)))]

/-- The fields of `state_to_wire`. -/
def stateFields (value : Delta) : Fields :=
  (Str.lit "size", .str (formatDecimal value.size)) ::
    (Str.lit "indexedSeq", .str (formatDecimal value.indexedSeq)) ::
    (Str.lit "nodes", .arr (value.nodes.map fun n => .str (encodeBytes n.1))) ::
    (field? "firstPendingAt" (fun t => .str (formatTime t)) value.firstPendingAt ++
      (value.checkpoint.elim [] checkpointFields ++
        [(Str.lit "witnesses", .arr (value.witnesses.map witnessToWire))]))

/-- `state_to_wire`. -/
def stateToWire (value : Delta) : Json := .obj (stateFields value)

/-- The checkpoint of `state_from_wire`. -/
def checkpointFromWire (error : ErrorKind) (fields : Fields) : Py Obj :=
  match fields.get "checkpoint", fields.get "checkpointSize", fields.get "checkpointIndexedSeq",
    fields.get "checkpointPeaks" with
  | .null, .null, .null, .null => .ok .none
  | .null, _, _, _ | _, .null, _, _ | _, _, .null, _ | _, _, _, .null =>
    raise error "checkpoint tuple is incomplete"
  | bytes, size, indexedSeq, .arr peaks =>
    decodeBytes error bytes >>= fun bytes =>
    parseDecimal error size >>= fun size =>
    parseDecimal error indexedSeq >>= fun indexedSeq =>
    peaks.mapM (decodeBytes error) >>= fun peaks =>
    .ok (checkpointObj (.bytes bytes) (natObj size) (natObj indexedSeq) (.tuple (peaks.map .bytes)))
  | _, _, _, _ => raise error "checkpointPeaks must be an array"

/-- `state_from_wire`. -/
def stateFromWire (error : ErrorKind) (wire : Json) : Py Obj :=
  object error "state" wire >>= fun fields =>
  required error fields "nodes" >>= fun nodes =>
  required error fields "witnesses" >>= fun witnesses =>
  match items? nodes, items? witnesses with
  | some nodes, some witnesses =>
    checkpointFromWire error fields >>= fun checkpoint =>
    required error fields "size" >>= parseDecimal error >>= fun size =>
    required error fields "indexedSeq" >>= parseDecimal error >>= fun indexedSeq =>
    nodes.mapM (decodeBytes error) >>= fun nodes =>
    nullable timeObj (parseTime error) (fields.get "firstPendingAt") >>= fun firstPendingAt =>
    witnesses.mapM (witnessFromWire error) >>= fun witnesses =>
    .ok (cllStateObj (natObj size) (.tuple (nodes.map .bytes)) (natObj indexedSeq) firstPendingAt
      checkpoint (.tuple witnesses))
  | _, _ => raise error "nodes and witnesses must be arrays"

/-- A stored time is its own normal form. -/
@[simp] lemma normalizeTime_timeObj (error : ErrorKind) (t : Time) :
    normalizeTime error (timeObj t) = .ok t := by
  have lt := t.millis_lt
  have range : 0 ≤ ((t.millis * 1000 : ℕ) : ℤ) - 0 ∧
      ((t.millis * 1000 : ℕ) : ℤ) - 0 < maxMicros := by
    simp only [maxMillis, maxMicros] at *
    omega
  simp only [normalizeTime, timeObj, Time.toDateTime]
  rw [dif_pos range]
  congr 1
  ext
  simp only [sub_zero, Int.toNat_natCast]
  omega

/-- Padded digits are read up to the mark. -/
lemma digitsThen_pad {w n c : ℕ} (pos : 0 < w) (lt : n < 10 ^ w) (rest : Str) :
    digitsThen w c (Decimal.pad w n ++ c :: rest) = some (n, rest) := by
  have len := Decimal.length_pad pos lt
  have take : (Decimal.pad w n ++ c :: rest).take w = Decimal.pad w n := List.take_left' len
  have drop : (Decimal.pad w n ++ c :: rest).drop w = c :: rest := List.drop_left' len
  have digits : (Decimal.pad w n).all Decimal.isDigit = true :=
    List.all_eq_true.mpr fun c hc => Decimal.isDigit_pad hc
  rw [digitsThen, take, drop, if_pos ⟨len, digits⟩]
  simp

/-- The text of a valid time matches. -/
lemma matchTime_text {f : TimeFields} (valid : f.valid = true) : matchTime f.text = some f := by
  simp only [TimeFields.valid, Calendar.Date.valid, Bool.and_eq_true, decide_eq_true_eq] at valid
  obtain ⟨⟨⟨⟨⟨⟨⟨⟨⟨-, year⟩, -⟩, month⟩, -⟩, day⟩, hour⟩, minute⟩, second⟩, millis⟩ := valid
  have short : ∀ leap : Bool, ∀ month ≤ 12, Calendar.daysInMonth leap month ≤ 31 := by decide
  have day' := day.trans (short _ _ month)
  have two {n : ℕ} (lt : n < 100) (c : ℕ) (rest : Str) :
      digitsThen 2 c (Decimal.pad 2 n ++ c :: rest) = some (n, rest) :=
    digitsThen_pad (by norm_num) lt rest
  have four := fun rest => digitsThen_pad (w := 4) (n := f.year) (c := 45) (by norm_num) (by omega) rest
  have three := digitsThen_pad (w := 3) (n := f.millis) (c := 90) (by norm_num) (by omega) []
  simp only [TimeFields.text, matchTime, four, three, two (show f.month < 100 by omega),
    two (show f.day < 100 by omega), two (show f.hour < 100 by omega),
    two (show f.minute < 100 by omega), two (show f.second < 100 by omega), Option.bind_some]
  rfl

/-- The fields of a time are valid. -/
lemma timeFields_valid (t : Time) : (timeFields t).valid = true := by
  have lt := t.millis_lt
  have date : (Calendar.fromOrdinal (t.millis / 86400000 + 1)).valid = true := by
    apply Calendar.valid_fromOrdinal (Nat.succ_pos _)
    unfold maxMillis at lt
    unfold Calendar.maxOrdinal
    omega
  simp only [TimeFields.valid, timeFields, Bool.and_eq_true]
  exact ⟨⟨⟨⟨date, decide_eq_true (Nat.mod_lt _ (by norm_num))⟩,
    decide_eq_true (Nat.mod_lt _ (by norm_num))⟩, decide_eq_true (Nat.mod_lt _ (by norm_num))⟩,
    decide_eq_true (Nat.mod_lt _ (by norm_num))⟩

/-- A time is made from its fields. -/
lemma toTime_timeFields (t : Time) : (timeFields t).toTime = some t := by
  rw [TimeFields.toTime, dif_pos (timeFields_valid t)]
  congr 1
  ext
  simp only [TimeFields.toMillis, timeFields]
  rw [Calendar.toOrdinal_fromOrdinal (Nat.succ_pos _)]
  omega

/-- A written time is read back. -/
@[simp] theorem parseTime_formatTime (error : ErrorKind) (t : Time) :
    parseTime error (.str (formatTime t)) = .ok t := by
  simp [parseTime, formatTime, matchTime_text (timeFields_valid t), toTime_timeFields]

/-- A written number is read back. -/
theorem parseDecimal_formatDecimal (error : ErrorKind) {n : ℕ} (lt : n < 2 ^ 64) :
    parseDecimal error (.str (formatDecimal n)) = .ok n := by
  have len : (Decimal.text n).length ≤ 20 := Decimal.length_text_le (by norm_num) (by omega)
  rw [parseDecimal, formatDecimal, require_of ⟨len, Decimal.isCanonical_text n⟩, ok_bind,
    Decimal.value_text, require_of lt, ok_bind]

/-- Written bytes are read back. -/
@[simp] theorem decodeBytes_encodeBytes (error : ErrorKind) (b : Bytes) :
    decodeBytes error (.str (encodeBytes b)) = .ok b := by
  rw [decodeBytes, encodeBytes, Base64.decode_encode]
  dsimp only
  rw [require_of rfl, ok_bind]

/-- Encoded byte strings are decoded one by one. -/
lemma mapM_decodeBytes {α : Type} (error : ErrorKind) (bytes : α → Bytes) (xs : List α) :
    (xs.map fun x => Json.str (encodeBytes (bytes x))).mapM (decodeBytes error) =
      .ok (xs.map bytes) := by
  induction xs with
  | nil => rfl
  | cons x xs ih =>
    rw [List.map_cons, List.mapM_cons, decodeBytes_encodeBytes, ok_bind, ih]
    rfl

/-- Nothing is found in no fields. -/
@[simp] lemma get?_nil (key : Str) : Json.get? [] key = none := rfl

/-- A name is looked up field by field. -/
@[simp] lemma get?_cons (k key : String) (v : Json) (fields : Fields) :
    Json.get? ((Str.lit k, v) :: fields) (Str.lit key) =
      if k = key then some v else Json.get? fields (Str.lit key) := by
  unfold Json.get?
  rw [List.lookup_cons]
  by_cases e : k = key
  · simp [e]
  · have ne : (Str.lit key == Str.lit k) = false := by simpa using Ne.symm e
    simp [e, ne]

/-- A name is looked up after an optional field. -/
@[simp] lemma get?_append_field? {α : Type} (k key : String) (toJson : α → Json) (o : Option α)
    (fields : Fields) :
    Json.get? (field? k toJson o ++ fields) (Str.lit key) =
      if k = key then (o.map toJson).or (Json.get? fields (Str.lit key))
      else Json.get? fields (Str.lit key) := by
  cases o with
  | none => simp [field?]
  | some a =>
    rw [field?, List.singleton_append, get?_cons]
    rfl

/-- An optional field is looked up. -/
@[simp] lemma get?_field? {α : Type} (k key : String) (toJson : α → Json) (o : Option α) :
    Json.get? (field? k toJson o) (Str.lit key) = if k = key then o.map toJson else none := by
  have e := get?_append_field? k key toJson o []
  rw [List.append_nil] at e
  simpa using e

/-- An optional field that was written is read back. -/
lemma nullable_map {α β : Type} (toObj : β → Obj) {read : Json → Py β} (toJson : α → Json)
    (value : α → β) (null : ∀ a, toJson a ≠ .null) (ok : ∀ a, read (toJson a) = .ok (value a))
    (o : Option α) :
    nullable toObj read ((o.map toJson).getD .null) = .ok (optional (fun a => toObj (value a)) o) := by
  cases o with
  | none => rfl
  | some a =>
    have present := null a
    have read := ok a
    simp only [Option.map_some, Option.getD_some, optional]
    cases e : toJson a with
    | null => exact absurd e present
    | _ =>
      rw [e] at read
      simp only [nullable, read]
      rfl

/-- An optional text is read back. -/
lemma nullable_string {α : Type} (error : ErrorKind) (what : String) (value : α → Str) (o : Option α) :
    nullable .str (string error what) ((o.map fun a => Json.str (value a)).getD .null) =
      .ok (optional (fun a => .str (value a)) o) :=
  nullable_map .str (fun a => .str (value a)) value (fun _ => nofun) (fun _ => rfl) o

/-- An optional number is read back. -/
lemma nullable_integer {α : Type} (error : ErrorKind) (what : String) (value : α → ℕ) (o : Option α) :
    nullable .int (integer error what) ((o.map fun a => Json.int (value a)).getD .null) =
      .ok (optional (fun a => natObj (value a)) o) :=
  nullable_map .int (fun a => .int (value a)) (fun a => value a) (fun _ => nofun) (fun _ => rfl) o

/-- A field that is found is returned. -/
lemma required_of_get? {error : ErrorKind} {fields : Fields} {key : String} {value : Json}
    (found : Json.get? fields (Str.lit key) = some value) :
    required error fields key = .ok value := by
  rw [required, found]

/-- A written entry is read back. -/
theorem entryFromWire_entryToWire (error : ErrorKind) {entry : Entry} (lt : entry.seq < 2 ^ 64) :
    entryFromWire error (entryToWire entry) = .ok entry := by
  simp [entryFromWire, entryToWire, object, required, parseDecimal_formatDecimal error lt]

/-- A written receipt is read back. -/
lemma receiptFromWire_of_get {error : ErrorKind} {fields : Fields} {r : WitnessReceipt}
    (receipt : fields.get "receipt" = .str (encodeBytes r.bytes))
    (entryHash : fields.get "entryHash" = (r.entryHash.map fun h => Json.str h.1).getD .null)
    (scheme : fields.get "entryHashScheme" =
      (r.entryHashScheme.map fun s => Json.str s.name).getD .null)
    (leafIndex : fields.get "leafIndex" = (r.leafIndex.map fun n => Json.int (n.1 : ℕ)).getD .null)
    (treeSize : fields.get "treeSize" = (r.treeSize.map fun n => Json.int (n.1 : ℕ)).getD .null) :
    receiptFromWire error fields = .ok r.toObj := by
  rw [receiptFromWire, receipt]
  dsimp only
  rw [entryHash, nullable_string, ok_bind, scheme, nullable_string, ok_bind, leafIndex,
    nullable_integer, ok_bind, treeSize, nullable_integer, ok_bind, decodeBytes_encodeBytes, ok_bind]
  rfl

/-- A written witness row is read back. -/
theorem witnessFromWire_witnessToWire (error : ErrorKind) (w : WitnessState) :
    witnessFromWire error (witnessToWire w) = .ok w.toObj := by
  have size : w.checkpointSize.1 < 2 ^ 64 := by
    have := w.checkpointSize.2
    unfold maxUint64 at this
    omega
  have receipt : receiptFromWire error (witnessFields w) =
      .ok (optional WitnessReceipt.toObj w.receipt) := by
    cases e : w.receipt with
    | none => simp [receiptFromWire, Fields.get, witnessFields, e, optional]
    | some r => apply receiptFromWire_of_get <;> simp [Fields.get, witnessFields, receiptFields, e]
  have lastError : (witnessFields w).get "lastError" =
      (w.lastError.map fun r => Json.str r.1).getD .null := by
    cases e : w.receipt <;> simp [Fields.get, witnessFields, receiptFields, e]
  have permanent : Json.get? (witnessFields w) (Str.lit "permanent") = some (.bool w.permanent) := by
    cases e : w.receipt <;> simp [witnessFields, receiptFields, e]
  have range : (0 : ℤ) ≤ (w.attempts.1 : ℕ) ∧ ((w.attempts.1 : ℕ) : ℤ) ≤ maxAttempts := by
    have := w.attempts.2
    omega
  rw [witnessFromWire, witnessToWire, object, ok_bind, required_of_get? (by simp [witnessFields]; rfl),
    ok_bind, integer, ok_bind, require_of range, ok_bind, required_of_get? permanent, ok_bind,
    permanentFlag, ok_bind, lastError, nullable_string, ok_bind, receipt, ok_bind,
    required_of_get? (by simp [witnessFields]; rfl), ok_bind, string, ok_bind,
    required_of_get? (by simp [witnessFields]; rfl), ok_bind, parseDecimal_formatDecimal error size,
    ok_bind, required_of_get? (by simp [witnessFields]; rfl), ok_bind, decodeBytes_encodeBytes, ok_bind,
    required_of_get? (by simp [witnessFields]; rfl), ok_bind, parseTime_formatTime, ok_bind]
  rfl

/-- Rows are read back. -/
lemma mapM_witnessFromWire (error : ErrorKind) (rows : List WitnessState) :
    (rows.map witnessToWire).mapM (witnessFromWire error) = .ok (rows.map WitnessState.toObj) := by
  induction rows with
  | nil => rfl
  | cons w rows ih =>
    rw [List.map_cons, List.mapM_cons, witnessFromWire_witnessToWire, ok_bind, ih]
    rfl

/-- A written checkpoint is read back. -/
lemma checkpointFromWire_of_get {error : ErrorKind} {fields : Fields} {c : CheckpointState}
    (size_lt : c.size < 2 ^ 64) (seq_lt : c.indexedSeq < 2 ^ 64)
    (bytes : fields.get "checkpoint" = .str (encodeBytes c.bytes))
    (size : fields.get "checkpointSize" = .str (formatDecimal c.size))
    (indexedSeq : fields.get "checkpointIndexedSeq" = .str (formatDecimal c.indexedSeq))
    (peaks : fields.get "checkpointPeaks" = .arr (c.peaks.map fun p => .str (encodeBytes p.1))) :
    checkpointFromWire error fields = .ok c.toObj := by
  rw [checkpointFromWire, bytes, size, indexedSeq, peaks]
  dsimp only
  rw [decodeBytes_encodeBytes, ok_bind, parseDecimal_formatDecimal error size_lt, ok_bind,
    parseDecimal_formatDecimal error seq_lt, ok_bind, mapM_decodeBytes error (fun p : Digest => p.1),
    ok_bind, List.map_map]
  rfl

/-- A written state is read back. -/
theorem stateFromWire_stateToWire (error : ErrorKind) (s : Delta) :
    stateFromWire error (stateToWire s) = .ok s.toObj := by
  have size := s.size_lt
  have seq := le_of_mmrLeafCount s.leafCount_eq
  have checkpoint : checkpointFromWire error (stateFields s) =
      .ok (optional CheckpointState.toObj s.checkpoint) := by
    cases e : s.checkpoint with
    | none => simp [checkpointFromWire, Fields.get, stateFields, e, optional]
    | some c =>
      obtain ⟨-, le, le'⟩ := s.checkpoint_le c e
      apply checkpointFromWire_of_get (by omega) (by omega) <;>
        simp [Fields.get, stateFields, checkpointFields, e]
  have pending : (stateFields s).get "firstPendingAt" =
      (s.firstPendingAt.map fun t => Json.str (formatTime t)).getD .null := by
    cases e : s.checkpoint <;> simp [Fields.get, stateFields, checkpointFields, e]
  have witnesses : Json.get? (stateFields s) (Str.lit "witnesses") =
      some (.arr (s.witnesses.map witnessToWire)) := by
    cases e : s.checkpoint <;> simp [stateFields, checkpointFields, e]
  have nodes : Json.get? (stateFields s) (Str.lit "nodes") =
      some (.arr (s.nodes.map fun n => .str (encodeBytes n.1))) := by
    simp [stateFields]
  rw [stateFromWire, stateToWire, object, ok_bind, required_of_get? nodes, ok_bind,
    required_of_get? witnesses, ok_bind, items?, items?]
  dsimp only
  rw [checkpoint, ok_bind, required_of_get? (by simp [stateFields]; rfl), ok_bind,
    parseDecimal_formatDecimal error size, ok_bind, required_of_get? (by simp [stateFields]; rfl),
    ok_bind, parseDecimal_formatDecimal error (by omega), ok_bind,
    mapM_decodeBytes error (fun n : Digest => n.1), ok_bind, pending,
    nullable_map timeObj (fun t => .str (formatTime t)) id (fun _ => nofun)
      (fun t => parseTime_formatTime error t),
    ok_bind, mapM_witnessFromWire, ok_bind, List.map_map]
  rfl

/-- A number below `2 ^ 64` is plain. -/
lemma plain_nat {n : ℕ} (lt : n < 2 ^ 64) : Json.plain (.int n) = true := by
  have len : (Decimal.text n).length ≤ 20 := Decimal.length_text_le (by norm_num) (by omega)
  rw [Json.plain, Int.natAbs_natCast]
  exact decide_eq_true (len.trans (by decide))

/-- Fields are plain where both parts are. -/
lemma plainFields_append (fields more : Fields) :
    Json.plainFields (fields ++ more) = (Json.plainFields fields && Json.plainFields more) := by
  induction fields with
  | nil => rfl
  | cons f fields ih => simp [Json.plainFields, ih, Bool.and_assoc]

/-- An optional field is plain. -/
lemma plainFields_field? {α : Type} {key : String} {toJson : α → Json}
    (plain : ∀ a, Json.plain (toJson a) = true) (o : Option α) :
    Json.plainFields (field? key toJson o) = true := by
  cases o with
  | none => rfl
  | some a => simp [field?, Json.plainFields, plain a]

/-- Items are plain where each is. -/
lemma plainItems_map {α : Type} {toJson : α → Json} (plain : ∀ a, Json.plain (toJson a) = true)
    (xs : List α) : Json.plainItems (xs.map toJson) = true := by
  induction xs with
  | nil => rfl
  | cons x xs ih => simp [Json.plainItems, plain x, ih]

/-- An optional field has its key only. -/
lemma keys_field? {α : Type} (key : String) (toJson : α → Json) (o : Option α) :
    ((field? key toJson o).map Prod.fst).Sublist ([key].map Str.lit) := by
  cases o with
  | none => exact List.nil_sublist _
  | some a => exact List.Sublist.refl _

/-- Some of distinct names are distinct keys. -/
lemma nodup_of_sublist {fields : Fields} {names : List String}
    (sub : (fields.map Prod.fst).Sublist (names.map Str.lit)) (nodup : names.Nodup) :
    (fields.map Prod.fst).Nodup :=
  sub.nodup (nodup.map Str.lit_injective)

/-- An entry is plain. -/
lemma plain_entryToWire (entry : Entry) : Json.plain (entryToWire entry) = true := by
  have nodup : (["seq", "value", "appendedAt"].map Str.lit).Nodup :=
    List.Nodup.map Str.lit_injective (by decide)
  simp only [entryToWire, Json.plain, Json.plainFields, Bool.and_true, decide_eq_true_eq]
  exact nodup

/-- A receipt has its keys only. -/
lemma keys_receiptFields (r : WitnessReceipt) : ((receiptFields r).map Prod.fst).Sublist
    (["receipt", "entryHash", "entryHashScheme", "leafIndex", "treeSize"].map Str.lit) := by
  simp only [receiptFields, List.map_cons, List.map_append]
  exact .cons_cons _ ((keys_field? _ _ _).append ((keys_field? _ _ _).append
    ((keys_field? _ _ _).append (keys_field? _ _ _))))

/-- A receipt is plain. -/
lemma plain_receiptFields (r : WitnessReceipt) : Json.plainFields (receiptFields r) = true := by
  have position (n : Counter 0 maxPortableInteger) : Json.plain (.int (n.1 : ℕ)) = true := by
    apply plain_nat
    have := n.2.2
    unfold maxPortableInteger at this
    omega
  simp only [receiptFields, Json.plainFields, plainFields_append, Bool.and_eq_true]
  exact ⟨rfl, plainFields_field? (fun _ => rfl) _, plainFields_field? (fun _ => rfl) _,
    plainFields_field? position _, plainFields_field? position _⟩

/-- A row is plain. -/
lemma plain_witnessToWire (w : WitnessState) : Json.plain (witnessToWire w) = true := by
  have attempts : w.attempts.1 < 2 ^ 64 := by
    have := w.attempts.2.2
    unfold maxAttempts at this
    omega
  have receiptKeys : ((w.receipt.elim [] receiptFields).map Prod.fst).Sublist
      (["receipt", "entryHash", "entryHashScheme", "leafIndex", "treeSize"].map Str.lit) := by
    cases w.receipt with
    | none => exact List.nil_sublist _
    | some r => exact keys_receiptFields r
  have keys : ((witnessFields w).map Prod.fst).Sublist
      (["witnessId", "checkpointSize", "checkpoint", "attempts", "nextAttemptAt", "receipt",
        "entryHash", "entryHashScheme", "leafIndex", "treeSize", "permanent",
        "lastError"].map Str.lit) := by
    simp only [witnessFields, List.map_cons, List.map_append]
    exact .cons_cons _ (.cons_cons _ (.cons_cons _ (.cons_cons _ (.cons_cons _
      (receiptKeys.append (.cons_cons _ (keys_field? _ _ _)))))))
  have receipt : Json.plainFields (w.receipt.elim [] receiptFields) = true := by
    cases w.receipt with
    | none => rfl
    | some r => exact plain_receiptFields r
  have nodup := nodup_of_sublist keys (by decide)
  simp only [witnessToWire, Json.plain, Bool.and_eq_true, decide_eq_true_eq]
  refine ⟨nodup, ?_⟩
  simp only [witnessFields, Json.plainFields, plainFields_append, Bool.and_eq_true]
  exact ⟨rfl, rfl, rfl, plain_nat attempts, rfl, receipt, rfl, plainFields_field? (fun _ => rfl) _⟩

/-- A state is plain. -/
lemma plain_stateToWire (s : Delta) : Json.plain (stateToWire s) = true := by
  have checkpointKeys : ((s.checkpoint.elim [] checkpointFields).map Prod.fst).Sublist
      (["checkpoint", "checkpointSize", "checkpointIndexedSeq", "checkpointPeaks"].map Str.lit) := by
    cases s.checkpoint with
    | none => exact List.nil_sublist _
    | some c => exact List.Sublist.refl _
  have keys : ((stateFields s).map Prod.fst).Sublist
      (["size", "indexedSeq", "nodes", "firstPendingAt", "checkpoint", "checkpointSize",
        "checkpointIndexedSeq", "checkpointPeaks", "witnesses"].map Str.lit) := by
    simp only [stateFields, List.map_cons, List.map_append]
    exact .cons_cons _ (.cons_cons _ (.cons_cons _ ((keys_field? _ _ _).append
      (checkpointKeys.append (List.Sublist.refl _)))))
  have checkpoint : Json.plainFields (s.checkpoint.elim [] checkpointFields) = true := by
    cases s.checkpoint with
    | none => rfl
    | some c =>
      simp only [Option.elim, checkpointFields, Json.plainFields, Json.plain, Bool.and_true,
        Bool.true_and]
      exact plainItems_map (fun _ => rfl) _
  have nodup := nodup_of_sublist keys (by decide)
  simp only [stateToWire, Json.plain, Bool.and_eq_true, decide_eq_true_eq]
  refine ⟨nodup, ?_⟩
  simp only [stateFields, Json.plainFields, plainFields_append, Json.plain, Bool.and_eq_true]
  exact ⟨trivial, trivial, plainItems_map (fun _ => rfl) _, plainFields_field? (fun _ => rfl) _,
    checkpoint, plainItems_map plain_witnessToWire _, trivial⟩

/-- The bytes of a plain value decode and parse to it, and hold no line feed. -/
theorem loads_dumps {value : Json} {bytes : Bytes} (plain : Json.plain value = true)
    (ok : dumps value = .ok bytes) :
    (Utf8.decode bytes).bind Json.loads = some value ∧ 10 ∉ bytes := by
  unfold dumps at ok
  cases e : Utf8.encode (Json.dumps value) with
  | none => simp [e] at ok
  | some b =>
    rw [e] at ok
    cases ok
    constructor
    · rw [Utf8.decode_encode e, Option.bind_some, Json.loads_dumps plain]
    · intro mem
      exact Json.newline_notMem_dumps value plain (Utf8.newline_mem_encode e mem)

/-- A literal has scalar values only. -/
lemma isScalar_lit (s : String) : (Str.lit s).all Utf8.isScalar = true := by
  rw [List.all_eq_true]
  intro n mem
  obtain ⟨c, -, rfl⟩ := List.mem_map.mp mem
  have valid := c.valid
  simp only [UInt32.isValidChar, Nat.isValidChar] at valid
  have same : c.toNat = c.val.toNat := rfl
  simp only [Utf8.isScalar, Bool.or_eq_true, Bool.and_eq_true, decide_eq_true_eq]
  omega

/-- ASCII characters are scalar values. -/
lemma isScalar_of_ascii {s : Str} (ascii : ∀ c ∈ s, c < 128) : s.all Utf8.isScalar = true :=
  List.all_eq_true.mpr fun c hc => Utf8.isScalar_of_lt (ascii c hc)

/-- Encoded bytes are scalar values. -/
lemma isScalar_encodeBytes (b : Bytes) : (encodeBytes b).all Utf8.isScalar = true :=
  isScalar_of_ascii (Base64.lt_of_mem_encode b)

/-- A formatted number has scalar values only. -/
lemma isScalar_formatDecimal (n : ℕ) : (formatDecimal n).all Utf8.isScalar = true :=
  isScalar_of_ascii fun _ hc => Decimal.lt_of_isDigit (Decimal.isDigit_text hc)

/-- A formatted time has scalar values only. -/
lemma isScalar_formatTime (t : Time) : (formatTime t).all Utf8.isScalar = true := by
  have pad (w n : ℕ) : (Decimal.pad w n).all Utf8.isScalar = true :=
    isScalar_of_ascii fun _ hc => Decimal.lt_of_isDigit (Decimal.isDigit_pad hc)
  have sep (c : ℕ) (lt : c < 128) : Utf8.isScalar c = true := Utf8.isScalar_of_lt lt
  simp [-List.all_eq_true, formatTime, TimeFields.text, List.all_append, List.all_cons, pad, sep]

/-- An identifier has scalar values only. -/
lemma isScalar_identifier (i : Identifier) : i.1.all Utf8.isScalar = true := by
  apply isScalar_of_ascii
  intro c hc
  have valid := i.2
  simp only [isIdentifier, Bool.and_eq_true, List.all_eq_true] at valid
  have char := valid.1.2 c hc
  simp only [isIdentifierChar, Bool.or_eq_true, Bool.and_eq_true, decide_eq_true_eq, beq_iff_eq] at char
  omega

/-- An entry hash has scalar values only. -/
lemma isScalar_entryHash (h : EntryHash) : h.1.all Utf8.isScalar = true := by
  apply isScalar_of_ascii
  intro c hc
  have valid := h.2
  simp only [isEntryHash, Bool.and_eq_true, List.all_eq_true] at valid
  have char := valid.2 c hc
  simp only [Bool.or_eq_true, Bool.and_eq_true, decide_eq_true_eq] at char
  omega

/-- A reason has scalar values only. -/
lemma isScalar_reason (r : Reason) : r.1.all Utf8.isScalar = true := by
  have valid := r.2
  unfold isReason utf8Length at valid
  cases e : Utf8.encode r.1 with
  | none => simp [e] at valid
  | some bytes => exact List.all_eq_true.mpr (Utf8.isScalar_of_encode e)

/-- Fields have allowed characters where both parts have. -/
lemma charsFields_append (p : ℕ → Bool) (fields more : Fields) :
    Json.charsFields p (fields ++ more) = (Json.charsFields p fields && Json.charsFields p more) := by
  induction fields with
  | nil => rfl
  | cons f fields ih => simp [Json.charsFields, ih, Bool.and_assoc]

/-- An optional field has scalar values only. -/
lemma charsFields_field? {α : Type} {key : String} {toJson : α → Json}
    (scalar : ∀ a, Json.chars Utf8.isScalar (toJson a) = true) (o : Option α) :
    Json.charsFields Utf8.isScalar (field? key toJson o) = true := by
  cases o with
  | none => rfl
  | some a => simp only [field?, Json.charsFields, isScalar_lit, scalar a, Bool.and_self]

/-- An optional text field has scalar values only. -/
lemma charsFields_field?_str {α : Type} (key : String) (text : α → Str)
    (scalar : ∀ a, (text a).all Utf8.isScalar = true) (o : Option α) :
    Json.charsFields Utf8.isScalar (field? key (fun a => .str (text a)) o) = true := by
  apply charsFields_field?
  intro a
  rw [Json.chars]
  exact scalar a

/-- Items have allowed characters where each has. -/
lemma charsItems_map {α : Type} {p : ℕ → Bool} {toJson : α → Json}
    (scalar : ∀ a, Json.chars p (toJson a) = true) (xs : List α) :
    Json.charsItems p (xs.map toJson) = true := by
  induction xs with
  | nil => rfl
  | cons x xs ih => simp [Json.charsItems, scalar x, ih]

/-- Digests have scalar values only. -/
lemma charsItems_digests (ds : List Digest) :
    Json.charsItems Utf8.isScalar (ds.map fun d => .str (encodeBytes d.1)) = true := by
  apply charsItems_map
  intro d
  rw [Json.chars]
  exact isScalar_encodeBytes d.1

/-- A row has scalar values only. -/
lemma chars_witnessToWire (w : WitnessState) :
    Json.chars Utf8.isScalar (witnessToWire w) = true := by
  have scheme (s : EntryHashScheme) : s.name.all Utf8.isScalar = true := by
    cases s
    exact isScalar_lit _
  have receipt : Json.charsFields Utf8.isScalar (w.receipt.elim [] receiptFields) = true := by
    cases w.receipt with
    | none => rfl
    | some r =>
      simp only [Option.elim, receiptFields, Json.charsFields, Json.chars, charsFields_append,
        Bool.and_eq_true]
      exact ⟨isScalar_lit _, isScalar_encodeBytes _, charsFields_field?_str _ _ isScalar_entryHash _,
        charsFields_field?_str _ _ scheme _, charsFields_field? (fun _ => rfl) _,
        charsFields_field? (fun _ => rfl) _⟩
  have lastError := charsFields_field?_str "lastError" (·.1) isScalar_reason w.lastError
  simp only [witnessToWire, Json.chars, witnessFields, Json.charsFields, charsFields_append,
    isScalar_lit, isScalar_encodeBytes, isScalar_formatDecimal, isScalar_formatTime,
    isScalar_identifier, receipt, lastError, Bool.and_self]

/-- A state has scalar values only. -/
lemma chars_stateToWire (s : Delta) : Json.chars Utf8.isScalar (stateToWire s) = true := by
  have checkpoint : Json.charsFields Utf8.isScalar (s.checkpoint.elim [] checkpointFields) = true := by
    cases s.checkpoint with
    | none => rfl
    | some c =>
      simp only [Option.elim, checkpointFields, Json.charsFields, Json.chars, isScalar_lit,
        isScalar_encodeBytes, isScalar_formatDecimal, charsItems_digests, Bool.and_self]
  have pending := charsFields_field?_str "firstPendingAt" formatTime isScalar_formatTime s.firstPendingAt
  simp only [stateToWire, Json.chars, stateFields, Json.charsFields, charsFields_append,
    isScalar_lit, isScalar_formatDecimal, charsItems_digests, checkpoint,
    charsItems_map chars_witnessToWire, pending, Bool.and_self]

/-- A value whose strings have an encoding is written. -/
lemma exists_dumps {value : Json} (scalar : Json.chars Utf8.isScalar value = true) :
    ∃ bytes, dumps value = .ok bytes := by
  have all := Json.all_dumps (fun _ lt => Utf8.isScalar_of_lt lt) value scalar
  obtain ⟨bytes, e⟩ := Utf8.exists_encode (List.all_eq_true.mp all)
  exact ⟨bytes, by rw [dumps, e]⟩

end CLL.Log
