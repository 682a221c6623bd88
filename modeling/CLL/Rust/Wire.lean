import CLL.Lib.Base64
import CLL.Rust.Time

/-!
# Portable encodings in Rust

`log/wire.rs`: the structs that `serde_json` writes and reads, and the values they stand for. A text that
the code checks character by character is a list of code points.
-/

namespace CLL.Rust.Log

/-- `WireWitness`. -/
structure WireWitness where
  witnessId : Text
  checkpointSize : Str
  checkpoint : Str
  attempts : UInt32
  nextAttemptAt : Str
  receipt : Option Str
  entryHash : Option Text
  entryHashScheme : Option Text
  leafIndex : Option Int64
  treeSize : Option Int64
  permanent : Bool
  lastError : Option Text
deriving DecidableEq

/-- `WireState`. -/
structure WireState where
  size : Str
  indexedSeq : Str
  nodes : List Str
  firstPendingAt : Option Str
  checkpoint : Option Str
  checkpointSize : Option Str
  checkpointIndexedSeq : Option Str
  checkpointPeaks : Option (List Str)
  witnesses : List WireWitness
deriving DecidableEq

/-- `serde_json::to_vec` and `serde_json::from_slice` at these structs; `none` is an error. -/
structure SerdeJson where
  stateToVec : WireState → Option Bytes
  stateFromSlice : Bytes → Option WireState
  witnessToVec : WireWitness → Option Bytes
  witnessFromSlice : Bytes → Option WireWitness

/-- `encode_bytes`. -/
def encodeBytes (value : Bytes) : Str := Base64.encode value

/-- `to_string` of a `u64`. -/
def decimal (n : UInt64) : Str := Decimal.text n.toNat

/-- `transpose` of a mapped option. -/
def transpose {α β : Type} (f : α → Res β) : Option α → Res (Option β)
  | none => .ok none
  | some a => (f a).map some

/-- `witness_to_wire`. -/
def witnessToWire (value : WitnessState) : Res WireWitness := do
  let nextAttemptAt ← value.nextAttemptAt.toIsoString
  .ok {
    witnessId := value.witnessId
    checkpointSize := decimal value.checkpointSize
    checkpoint := encodeBytes value.checkpoint
    attempts := value.attempts
    nextAttemptAt := nextAttemptAt
    receipt := value.receipt.map fun r => encodeBytes r.bytes
    entryHash := value.receipt.bind (·.entryHash)
    entryHashScheme := value.receipt.bind (·.entryHashScheme)
    leafIndex := value.receipt.bind (·.leafIndex)
    treeSize := value.receipt.bind (·.treeSize)
    permanent := value.permanent
    lastError := value.lastError }

/-- `state_to_wire`. -/
def stateToWire (value : State) : Res WireState := do
  let firstPendingAt ← transpose Timestamp.toIsoString value.firstPendingAt
  let witnesses ← value.witnesses.mapM witnessToWire
  .ok {
    size := decimal value.size
    indexedSeq := decimal value.indexedSeq
    nodes := value.nodes.map encodeBytes
    firstPendingAt := firstPendingAt
    checkpoint := value.checkpoint.map fun c => encodeBytes c.bytes
    checkpointSize := value.checkpoint.map fun c => decimal c.size
    checkpointIndexedSeq := value.checkpoint.map fun c => decimal c.indexedSeq
    checkpointPeaks := value.checkpoint.map fun c => c.peaks.map encodeBytes
    witnesses := witnesses }

/-- `decode_bytes`. The engine refuses bits beyond the last byte. -/
def decodeBytes (value : Str) (code : ErrorCode) : Res Bytes :=
  match Base64.decode value with
  | some bytes =>
    if Base64.encode bytes = value then .ok bytes
    else .error ⟨code, "value is not canonical standard base64"⟩
  | none => .error ⟨code, "value is not canonical standard base64"⟩

/-- `decode_decimal`. -/
def decodeDecimal (value : Str) (code : ErrorCode) : Res UInt64 :=
  if Decimal.isCanonical value = true ∧ Decimal.value value < 2 ^ 64 then .ok (.ofNat (Decimal.value value))
  else .error ⟨code, "counter is not a canonical decimal"⟩

/-- `recode`. -/
def recode {α : Type} (x : Res α) (code : ErrorCode) : Res α :=
  match x with
  | .ok a => .ok a
  | .error error => .error { error with code := code }

/-- `receipt` of `decode_witness`. -/
def decodeReceipt (wire : WireWitness) (code : ErrorCode) : Res (Option WitnessReceiptState) :=
  match wire.receipt with
  | some bytes => do
    let bytes ← decodeBytes bytes code
    .ok (some ⟨bytes, wire.entryHash, wire.entryHashScheme, wire.leafIndex, wire.treeSize⟩)
  | none =>
    if wire.entryHash.isSome ∨ wire.entryHashScheme.isSome ∨ wire.leafIndex.isSome ∨
        wire.treeSize.isSome then
      .error ⟨code, "receipt metadata without receipt bytes"⟩
    else .ok none

/-- `decode_witness`. -/
def decodeWitness (wire : WireWitness) (code : ErrorCode) : Res WitnessState := do
  let receipt ← decodeReceipt wire code
  let checkpointSize ← decodeDecimal wire.checkpointSize code
  let checkpoint ← decodeBytes wire.checkpoint code
  let nextAttemptAt ← recode (Timestamp.parse wire.nextAttemptAt) code
  .ok {
    witnessId := wire.witnessId
    checkpointSize := checkpointSize
    checkpoint := checkpoint
    attempts := wire.attempts
    nextAttemptAt := nextAttemptAt
    receipt := receipt
    permanent := wire.permanent
    lastError := wire.lastError }

/-- `checkpoint` of `decode_state`. -/
def decodeCheckpoint (wire : WireState) (code : ErrorCode) : Res (Option CheckpointState) :=
  match wire.checkpoint, wire.checkpointSize, wire.checkpointIndexedSeq, wire.checkpointPeaks with
  | none, none, none, none => .ok none
  | some bytes, some size, some indexed, some peaks => do
    let bytes ← decodeBytes bytes code
    let size ← decodeDecimal size code
    let indexed ← decodeDecimal indexed code
    let peaks ← peaks.mapM (decodeBytes · code)
    .ok (some ⟨bytes, size, indexed, peaks⟩)
  | _, _, _, _ => .error ⟨code, "checkpoint tuple is incomplete"⟩

/-- `decode_state`. -/
def decodeState (wire : WireState) (code : ErrorCode) : Res State := do
  let checkpoint ← decodeCheckpoint wire code
  let size ← decodeDecimal wire.size code
  let nodes ← wire.nodes.mapM (decodeBytes · code)
  let indexedSeq ← decodeDecimal wire.indexedSeq code
  let firstPendingAt ← transpose (fun t => recode (Timestamp.parse t) code) wire.firstPendingAt
  let witnesses ← wire.witnesses.mapM (decodeWitness · code)
  .ok ⟨size, nodes, indexedSeq, firstPendingAt, checkpoint, witnesses⟩

end CLL.Rust.Log
