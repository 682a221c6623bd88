import CLL.Rust.Mmr

/-!
# Values of the log in Rust

The limits, errors and structs of `log/mod.rs`. A `Vec` holds at most `isize::MAX` bytes, so its length is
a `u64`.
-/

namespace CLL.Rust.Log

/-- `ErrorCode`. -/
inductive ErrorCode where
  | notFound
  | invalid
  | corrupt
  | closed
  | contention
  | rejected
  | unsupported
  | storage
deriving DecidableEq

/-- The text of an error: a literal, or the `Debug` form of an argument (its quotes and escapes) before one. -/
inductive Message where
  | text (s : String)
  | debug (argument : Str) (s : String)
deriving DecidableEq

instance : Coe String Message := ⟨.text⟩

/-- `Error`, without its source. -/
structure Error where
  code : ErrorCode
  message : Message
deriving DecidableEq

/-- `Result`. -/
abbrev Res (α : Type) := Except Error α

/-- `Error::invalid`. -/
def invalid (message : Message) : Error := ⟨.invalid, message⟩

/-- `Error::corrupt`. -/
def corrupt (message : Message) : Error := ⟨.corrupt, message⟩

/-- `Error::contention`. -/
def contention (message : Message) : Error := ⟨.contention, message⟩

/-- `if cond { return Err(error); }`. -/
def reject (cond : Prop) [Decidable cond] (error : Error) : Res Unit :=
  if cond then .error error else .ok ()

/-- A rejection passes exactly where its condition fails. -/
@[simp] lemma reject_eq_ok {cond : Prop} [Decidable cond] {error : Error} {u : Unit} :
    reject cond error = .ok u ↔ ¬cond := by
  unfold reject
  split <;> simp_all

/-- What does not hold is not rejected. -/
lemma reject_of_not {cond : Prop} [Decidable cond] (not : ¬cond) (error : Error) :
    reject cond error = .ok () := if_neg not

/-- Equivalent conditions are rejected alike. -/
lemma reject_congr {p q : Prop} [Decidable p] [Decidable q] (same : p ↔ q) (error : Error) :
    reject p error = reject q error := by
  unfold reject
  split <;> split <;> simp_all

/-- `ok_or_else`. -/
def okOr {α : Type} (x : Option α) (error : Error) : Res α :=
  match x with
  | some a => .ok a
  | none => .error error

/-- `ENTRY_BYTES`. -/
def entryBytes : ℕ := 32

/-- `MAX_CHECKPOINT_BYTES`. -/
def maxCheckpointBytes : ℕ := 65536

/-- `MAX_WITNESS_RESPONSE_BYTES`. -/
def maxWitnessResponseBytes : ℕ := 2097152

/-- `MAX_IDENTIFIER_BYTES`. -/
def maxIdentifierBytes : ℕ := 191

/-- `MAX_REASON_BYTES`. -/
def maxReasonBytes : ℕ := 4096

/-- `MAX_PORTABLE_INTEGER`. -/
def maxPortableInteger : ℕ := 9007199254740991

/-- `MAX_PORTABLE_UNIX_MILLIS`; `MIN_PORTABLE_UNIX_MILLIS` is its negative. -/
def maxPortableUnixMillis : ℤ := 8640000000000000

/-- `isize::MAX`. -/
def isizeMax : ℕ := 2 ^ 63 - 1

/-- `String::len`. -/
def len (s : Text) : ℕ := (s.1.flatMap Utf8.encodeChar).length

/-- A byte that `validate_identifier` takes; it is a character of its own. -/
def isIdentifierByte (c : ℕ) : Bool :=
  (48 ≤ c && c ≤ 57) || (65 ≤ c && c ≤ 90) || (97 ≤ c && c ≤ 122) || c == 46 || c == 95 || c == 58 ||
    c == 47 || c == 45

/-- `validate_identifier`. -/
def validateIdentifier (value : Text) : Res Unit :=
  if ¬value.1.isEmpty ∧ len value ≤ maxIdentifierBytes ∧ value.1.all isIdentifierByte then .ok ()
  else .error (invalid "identifier must be 1..=191 bytes of [A-Za-z0-9._:/-]")

/-- `Timestamp`. -/
structure Timestamp where
  millis : Int64
deriving DecidableEq

/-- `is_portable`. -/
def Timestamp.isPortable (t : Timestamp) : Bool :=
  -maxPortableUnixMillis ≤ t.millis.toInt && t.millis.toInt ≤ maxPortableUnixMillis

/-- `CheckpointState`. -/
structure CheckpointState where
  bytes : Bytes
  size : UInt64
  indexedSeq : UInt64
  peaks : List Bytes
deriving DecidableEq

/-- `WitnessReceiptState`. -/
structure WitnessReceiptState where
  bytes : Bytes
  entryHash : Option Text
  entryHashScheme : Option Text
  leafIndex : Option Int64
  treeSize : Option Int64
deriving DecidableEq

/-- `WitnessState`. -/
structure WitnessState where
  witnessId : Text
  checkpointSize : UInt64
  checkpoint : Bytes
  attempts : UInt32
  nextAttemptAt : Timestamp
  receipt : Option WitnessReceiptState
  permanent : Bool
  lastError : Option Text
deriving DecidableEq

/-- `(row.witness_id.as_str(), row.checkpoint_size)`. -/
def WitnessState.key (row : WitnessState) : Text × UInt64 := (row.witnessId, row.checkpointSize)

/-- `State`. -/
structure State where
  size : UInt64
  nodes : List Bytes
  indexedSeq : UInt64
  firstPendingAt : Option Timestamp
  checkpoint : Option CheckpointState
  witnesses : List WitnessState
deriving DecidableEq

/-- `clone_header`. -/
def State.cloneHeader (s : State) : State := { s with nodes := [], witnesses := [] }

/-- `StateAppend`. -/
structure StateAppend where
  nodes : List Bytes
  indexedSeq : UInt64
  firstPendingAt : Option Timestamp
  checkpoint : Option CheckpointState
  witnesses : List WitnessState
  length_nodes : nodes.length ≤ isizeMax

/-- `checked_add`. -/
def checkedAdd (a : UInt64) (n : ℕ) : Option UInt64 :=
  if a.toNat + n < 2 ^ 64 then some (.ofNat (a.toNat + n)) else none

/-- A checked sum is the sum. -/
lemma checkedAdd_eq_some {a b : UInt64} {n : ℕ} : checkedAdd a n = some b ↔ b.toNat = a.toNat + n := by
  unfold checkedAdd
  split
  · next lt =>
    rw [Option.some_inj]
    constructor
    · rintro rfl
      exact UInt64.toNat_ofNat_of_lt' lt
    · intro same
      rw [← same, UInt64.ofNat_toNat]
  · next ge =>
    have := b.toNat_lt
    simp
    omega

end CLL.Rust.Log
