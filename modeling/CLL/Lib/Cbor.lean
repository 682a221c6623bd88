import CLL.Lib.Table
import CLL.Lib.Utf8
import Mathlib.Data.List.Lex
import Mathlib.Data.List.Sort
import Mathlib.Data.Nat.Size
import Mathlib.Data.Rat.Defs

/-!
# CBOR

The data items of RFC 8949 and their deterministic encoding: shortest heads, definite lengths, the
fields of a map in the order of their keys, big integers as tags 2 and 3. `decode_encode` says that a
decoder gives back every item that was encoded, whatever follows it.
-/

namespace CLL

/-- A floating-point number. -/
inductive CborFloat where
  | finite (x : ℚ)
  | infinity (negative : Bool)
  | nan
  deriving DecidableEq

/-- A data item. `object` stands for what a decoder builds from a tag or a simple value that it has a
class of its own for. -/
inductive Cbor where
  | null
  | bool (b : Bool)
  | int (n : ℤ)
  | float (x : CborFloat)
  | bytes (b : List UInt8)
  | str (s : List ℕ)
  | array (xs : List Cbor)
  | map (fields : List (Cbor × Cbor))
  | tag (number : ℕ) (value : Cbor)
  | object (id : ℕ)

namespace Cbor

/-- `n` as `w` bytes, the most significant first. -/
def bigEndian : ℕ → ℕ → List UInt8
  | 0, _ => []
  | w + 1, n => bigEndian w (n / 256) ++ [UInt8.ofNat n]

/-- The number that `b` spells, the most significant byte first. -/
def ofBigEndian (b : List UInt8) : ℕ := b.foldl (fun n x => 256 * n + x.toNat) 0

/-- A number of `w` bytes has `w` bytes. -/
@[simp] lemma length_bigEndian (w n : ℕ) : (bigEndian w n).length = w := by
  induction w generalizing n with
  | zero => rfl
  | succ w ih => simp [bigEndian, ih]

/-- The last byte is the lowest one. -/
lemma ofBigEndian_append (b : List UInt8) (x : UInt8) :
    ofBigEndian (b ++ [x]) = 256 * ofBigEndian b + x.toNat := by
  simp [ofBigEndian]

/-- A number that fits is read back from its bytes. -/
lemma ofBigEndian_bigEndian {w n : ℕ} (lt : n < 256 ^ w) : ofBigEndian (bigEndian w n) = n := by
  induction w generalizing n with
  | zero =>
    obtain rfl : n = 0 := by simpa using lt
    rfl
  | succ w ih =>
    have high : n / 256 < 256 ^ w := Nat.div_lt_of_lt_mul (by rwa [pow_succ, mul_comm] at lt)
    rw [bigEndian, ofBigEndian_append, ih high, UInt8.toNat_ofNat']
    exact Nat.div_add_mod n 256

/-- The bytes of `n` without leading zeros. -/
def magnitude (n : ℕ) : List UInt8 := bigEndian ((n.size + 7) / 8) n

/-- A magnitude is read back. -/
lemma ofBigEndian_magnitude (n : ℕ) : ofBigEndian (magnitude n) = n := by
  apply ofBigEndian_bigEndian
  have bits : n < 2 ^ n.size := Nat.lt_size_self n
  have le : n.size ≤ 8 * ((n.size + 7) / 8) := by omega
  calc n < 2 ^ n.size := bits
    _ ≤ 2 ^ (8 * ((n.size + 7) / 8)) := Nat.pow_le_pow_right (by decide) le
    _ = 256 ^ ((n.size + 7) / 8) := pow_mul 2 8 _

/-- The shortest head with a major type and an argument below `2 ** 64`. -/
def head (major n : ℕ) : List UInt8 :=
  if n < 24 then [UInt8.ofNat (32 * major + n)]
  else if n < 2 ^ 8 then UInt8.ofNat (32 * major + 24) :: bigEndian 1 n
  else if n < 2 ^ 16 then UInt8.ofNat (32 * major + 25) :: bigEndian 2 n
  else if n < 2 ^ 32 then UInt8.ofNat (32 * major + 26) :: bigEndian 4 n
  else UInt8.ofNat (32 * major + 27) :: bigEndian 8 n

/-- The first `n` bytes and the rest, if there are as many. -/
def takeBytes (n : ℕ) (b : List UInt8) : Option (List UInt8 × List UInt8) :=
  if n ≤ b.length then some (b.take n, b.drop n) else none

/-- The major type, the argument and the rest of a head of definite length. -/
def readHead : List UInt8 → Option (ℕ × ℕ × List UInt8)
  | [] => none
  | initial :: b =>
    let major := initial.toNat / 32
    let info := initial.toNat % 32
    if info < 24 then some (major, info, b)
    else if info ≤ 27 then do
      let (arg, b) ← takeBytes (2 ^ (info - 24)) b
      some (major, ofBigEndian arg, b)
    else none

/-- The bytes in front are taken. -/
lemma takeBytes_append (a b : List UInt8) : takeBytes a.length (a ++ b) = some (a, b) := by
  simp [takeBytes]

/-- A head with `2 ** k` more bytes. -/
lemma readHead_long {major n k : ℕ} (hm : major < 8) (hk : k < 4) (hn : n < 256 ^ 2 ^ k)
    (rest : List UInt8) :
    readHead (UInt8.ofNat (32 * major + (24 + k)) :: (bigEndian (2 ^ k) n ++ rest)) =
      some (major, n, rest) := by
  have initial : (UInt8.ofNat (32 * major + (24 + k))).toNat = 32 * major + (24 + k) :=
    Utf8.toNat_ofNat (by omega)
  have hmajor : (32 * major + (24 + k)) / 32 = major := by omega
  have hinfo : (32 * major + (24 + k)) % 32 = 24 + k := by omega
  have take := takeBytes_append (bigEndian (2 ^ k) n) rest
  rw [length_bigEndian] at take
  simp only [readHead, initial, hmajor, hinfo]
  rw [if_neg (by omega), if_pos (by omega), Nat.add_sub_cancel_left, take]
  simp [ofBigEndian_bigEndian hn]

/-- A head is read back. -/
theorem readHead_head {major n : ℕ} (hm : major < 8) (hn : n < 2 ^ 64) (rest : List UInt8) :
    readHead (head major n ++ rest) = some (major, n, rest) := by
  unfold head
  split_ifs with h0 h1 h2 h3
  · have initial : (UInt8.ofNat (32 * major + n)).toNat = 32 * major + n :=
      Utf8.toNat_ofNat (by omega)
    have hmajor : (32 * major + n) / 32 = major := by omega
    have hinfo : (32 * major + n) % 32 = n := by omega
    simp only [List.singleton_append, readHead, initial, hmajor, hinfo]
    rw [if_pos h0]
  · exact readHead_long (k := 0) hm (by decide) h1 rest
  · exact readHead_long (k := 1) hm (by decide) h2 rest
  · exact readHead_long (k := 2) hm (by decide) h3 rest
  · exact readHead_long (k := 3) hm (by decide) hn rest

/-- A head is not empty. -/
lemma head_ne_nil (major n : ℕ) : head major n ≠ [] := by
  unfold head
  split_ifs <;> simp

/-- An integer; one beyond 64 bits is a tagged byte string. -/
def encodeInt (n : ℤ) : List UInt8 :=
  match n with
  | .ofNat n =>
    if n < 2 ^ 64 then head 0 n
    else head 6 2 ++ (head 2 (magnitude n).length ++ magnitude n)
  | .negSucc n =>
    if n < 2 ^ 64 then head 1 n
    else head 6 3 ++ (head 2 (magnitude n).length ++ magnitude n)

mutual

/-- The encoding of an item with its fields as they stand. -/
def encode : Cbor → List UInt8
  | .null => [0xF6]
  | .bool false => [0xF4]
  | .bool true => [0xF5]
  | .int n => encodeInt n
  | .float _ => []
  | .bytes b => head 2 b.length ++ b
  | .str s => head 3 ((Utf8.encode s).getD []).length ++ (Utf8.encode s).getD []
  | .array xs => head 4 xs.length ++ encodeItems xs
  | .map fields => head 5 fields.length ++ encodeFields fields
  | .tag number value => head 6 number ++ encode value
  | .object _ => []

def encodeItems : List Cbor → List UInt8
  | [] => []
  | x :: xs => encode x ++ encodeItems xs

def encodeFields : List (Cbor × Cbor) → List UInt8
  | [] => []
  | (k, v) :: fields => encode k ++ (encode v ++ encodeFields fields)

end

/-- A label of a map. -/
def IsLabel : Cbor → Prop
  | .int _ | .str _ => True
  | _ => False

mutual

/-- An item that decodes to itself: no float and no object, distinct integers or texts as labels, and no
tag but the one of COSE_Sign1. -/
def Plain : Cbor → Prop
  | .null | .bool _ | .int _ | .bytes _ | .str _ => True
  | .float _ | .object _ => False
  | .array xs => PlainItems xs
  | .map fields => (fields.map (·.1)).Nodup ∧ PlainFields fields
  | .tag number value => number = 18 ∧ Plain value

def PlainItems : List Cbor → Prop
  | [] => True
  | x :: xs => Plain x ∧ PlainItems xs

def PlainFields : List (Cbor × Cbor) → Prop
  | [] => True
  | (k, v) :: fields => IsLabel k ∧ Plain v ∧ PlainFields fields

end

/-- A number is plain. -/
@[simp] lemma plain_int (n : ℤ) : Plain (.int n) := by rw [Plain]; trivial

/-- A byte string is plain. -/
@[simp] lemma plain_bytes (b : List UInt8) : Plain (.bytes b) := by rw [Plain]; trivial

/-- A text is plain. -/
@[simp] lemma plain_str (s : List ℕ) : Plain (.str s) := by rw [Plain]; trivial

/-- A label is plain. -/
lemma IsLabel.plain {k : Cbor} (label : IsLabel k) : Plain k := by
  cases k with
  | int n => exact plain_int n
  | str s => exact plain_str s
  | _ => exact label.elim

/-- The bytes of a big integer fit their head. -/
def fitsInt : ℤ → Bool
  | .ofNat n | .negSucc n => (magnitude n).length < 2 ^ 64

/-- The text is encodable and its bytes fit their head. -/
def fitsText (s : List ℕ) : Bool :=
  match Utf8.encode s with
  | some b => b.length < 2 ^ 64
  | none => false

mutual

/-- An item whose texts are encodable and whose lengths fit their heads. -/
def fits : Cbor → Bool
  | .null | .bool _ | .float _ | .object _ => true
  | .int n => fitsInt n
  | .bytes b => b.length < 2 ^ 64
  | .str s => fitsText s
  | .array xs => decide (xs.length < 2 ^ 64) && fitsItems xs
  | .map fields => decide (fields.length < 2 ^ 64) && fitsFields fields
  | .tag number value => decide (number < 2 ^ 64) && fits value

def fitsItems : List Cbor → Bool
  | [] => true
  | x :: xs => fits x && fitsItems xs

def fitsFields : List (Cbor × Cbor) → Bool
  | [] => true
  | (k, v) :: fields => fits k && (fits v && fitsFields fields)

end

/-- A text fits where its encoding does. -/
lemma fitsText_eq_true {s : List ℕ} :
    fitsText s = true ↔ ∃ b, Utf8.encode s = some b ∧ b.length < 2 ^ 64 := by
  unfold fitsText
  cases Utf8.encode s <;> simp

/-- A tagged item; the tags 2 and 3 of a byte string are integers. -/
def untag : ℕ → Cbor → Cbor
  | 2, .bytes x => .int (ofBigEndian x)
  | 3, .bytes x => .int (Int.negSucc (ofBigEndian x))
  | number, v => .tag number v

mutual

/-- The first item of a byte string and what follows it; `fuel` bounds the nesting. -/
def decode : ℕ → List UInt8 → Option (Cbor × List UInt8)
  | 0, _ => none
  | fuel + 1, b => do
    let (major, arg, b) ← readHead b
    match major with
    | 0 => some (.int arg, b)
    | 1 => some (.int (Int.negSucc arg), b)
    | 2 => do
      let (x, b) ← takeBytes arg b
      some (.bytes x, b)
    | 3 => do
      let (x, b) ← takeBytes arg b
      let s ← Utf8.decode x
      some (.str s, b)
    | 4 => do
      let (xs, b) ← decodeItems fuel arg b
      some (.array xs, b)
    | 5 => do
      let (fields, b) ← decodeFields fuel arg b
      some (.map fields, b)
    | 6 => do
      let (v, b) ← decode fuel b
      some (untag arg v, b)
    | _ =>
      match arg with
      | 20 => some (.bool false, b)
      | 21 => some (.bool true, b)
      | 22 => some (.null, b)
      | _ => none

def decodeItems : ℕ → ℕ → List UInt8 → Option (List Cbor × List UInt8)
  | 0, _, _ => none
  | _ + 1, 0, b => some ([], b)
  | fuel + 1, n + 1, b => do
    let (x, b) ← decode fuel b
    let (xs, b) ← decodeItems fuel n b
    some (x :: xs, b)

def decodeFields : ℕ → ℕ → List UInt8 → Option (List (Cbor × Cbor) × List UInt8)
  | 0, _, _ => none
  | _ + 1, 0, b => some ([], b)
  | fuel + 1, n + 1, b => do
    let (k, b) ← decode fuel b
    let (v, b) ← decode fuel b
    let (fields, b) ← decodeFields fuel n b
    some ((k, v) :: fields, b)

end

mutual

/-- The fuel that decodes an item. -/
def fuelFor : Cbor → ℕ
  | .array xs => fuelForItems xs + 1
  | .map fields => fuelForFields fields + 1
  | .tag _ value => fuelFor value + 1
  | .int _ => 2
  | _ => 1

def fuelForItems : List Cbor → ℕ
  | [] => 1
  | x :: xs => fuelFor x + fuelForItems xs + 1

def fuelForFields : List (Cbor × Cbor) → ℕ
  | [] => 1
  | (k, v) :: fields => fuelFor k + fuelFor v + fuelForFields fields + 1

end

/-- A byte string is read back. -/
lemma decode_bytes {b : List UInt8} (lt : b.length < 2 ^ 64) (fuel : ℕ) (rest : List UInt8) :
    decode (fuel + 1) (head 2 b.length ++ (b ++ rest)) = some (.bytes b, rest) := by
  rw [decode, readHead_head (by decide) lt, Option.bind_eq_bind, Option.bind_some]
  dsimp only
  rw [takeBytes_append]
  rfl

/-- A tagged item is read back when its content is. -/
lemma decode_tagged {number fuel : ℕ} (lt : number < 2 ^ 64) {b rest : List UInt8} {v : Cbor}
    (ok : decode fuel b = some (v, rest)) :
    decode (fuel + 1) (head 6 number ++ b) = some (untag number v, rest) := by
  have step : decode (fuel + 1) (head 6 number ++ b) =
      (decode fuel b).bind fun r => some (untag number r.1, r.2) := by
    rw [decode, readHead_head (by decide) lt]
    rfl
  rw [step, ok, Option.bind_some]

/-- A text is decoded after its head. -/
lemma decode_text {s : List ℕ} {b : List UInt8} (hb : Utf8.encode s = some b) (lt : b.length < 2 ^ 64)
    (fuel : ℕ) (rest : List UInt8) :
    decode (fuel + 1) (head 3 b.length ++ (b ++ rest)) = some (.str s, rest) := by
  have step : decode (fuel + 1) (head 3 b.length ++ (b ++ rest)) =
      (takeBytes b.length (b ++ rest)).bind fun r =>
        (Utf8.decode r.1).bind fun s => some (.str s, r.2) := by
    rw [decode, readHead_head (by decide) lt]
    rfl
  rw [step, takeBytes_append, Option.bind_some, Utf8.decode_encode hb, Option.bind_some]

/-- An array is decoded after its head. -/
lemma decode_array {n fuel : ℕ} (lt : n < 2 ^ 64) {b rest : List UInt8} {xs : List Cbor}
    (ok : decodeItems fuel n b = some (xs, rest)) :
    decode (fuel + 1) (head 4 n ++ b) = some (.array xs, rest) := by
  have step : decode (fuel + 1) (head 4 n ++ b) =
      (decodeItems fuel n b).bind fun r => some (.array r.1, r.2) := by
    rw [decode, readHead_head (by decide) lt]
    rfl
  rw [step, ok, Option.bind_some]

/-- A map is decoded after its head. -/
lemma decode_map {n fuel : ℕ} (lt : n < 2 ^ 64) {b rest : List UInt8} {fields : List (Cbor × Cbor)}
    (ok : decodeFields fuel n b = some (fields, rest)) :
    decode (fuel + 1) (head 5 n ++ b) = some (.map fields, rest) := by
  have step : decode (fuel + 1) (head 5 n ++ b) =
      (decodeFields fuel n b).bind fun r => some (.map r.1, r.2) := by
    rw [decode, readHead_head (by decide) lt]
    rfl
  rw [step, ok, Option.bind_some]

/-- A number is decoded. -/
lemma decode_int {n : ℤ} (fit : fitsInt n = true) (fuel : ℕ) (rest : List UInt8) :
    decode (fuel + 2) (encodeInt n ++ rest) = some (.int n, rest) := by
  cases n with
  | ofNat n =>
    by_cases lt : n < 2 ^ 64
    · rw [encodeInt, if_pos lt, decode, readHead_head (by decide) lt]
      rfl
    · rw [encodeInt, if_neg lt, List.append_assoc, List.append_assoc,
        decode_tagged (by decide) (decode_bytes (of_decide_eq_true fit) fuel rest), untag, ofBigEndian_magnitude]
      rfl
  | negSucc n =>
    by_cases lt : n < 2 ^ 64
    · rw [encodeInt, if_pos lt, decode, readHead_head (by decide) lt]
      rfl
    · rw [encodeInt, if_neg lt, List.append_assoc, List.append_assoc,
        decode_tagged (by decide) (decode_bytes (of_decide_eq_true fit) fuel rest), untag, ofBigEndian_magnitude]

mutual

/-- An encoded item is read back, whatever follows it. -/
theorem decode_encode : ∀ (v : Cbor) (fuel : ℕ) (rest : List UInt8), Plain v → fits v = true →
    fuelFor v ≤ fuel → decode fuel (encode v ++ rest) = some (v, rest)
  | v, 0, _, _, _, enough => by cases v <;> simp [fuelFor] at enough
  | .null, fuel + 1, rest, _, _, _ => rfl
  | .bool true, fuel + 1, rest, _, _, _ => rfl
  | .bool false, fuel + 1, rest, _, _, _ => rfl
  | .int n, 1, rest, _, _, enough => by simp [fuelFor] at enough
  | .int n, fuel + 2, rest, _, fit, _ => by
    rw [fits] at fit
    rw [encode, decode_int fit]
  | .float _, _ + 1, _, plain, _, _ => by rw [Plain] at plain; exact plain.elim
  | .object _, _ + 1, _, plain, _, _ => by rw [Plain] at plain; exact plain.elim
  | .bytes b, fuel + 1, rest, _, fit, _ => by
    rw [fits, decide_eq_true_eq] at fit
    rw [encode, List.append_assoc, decode_bytes fit]
  | .str s, fuel + 1, rest, _, fit, _ => by
    rw [fits, fitsText_eq_true] at fit
    obtain ⟨b, hb, lt⟩ := fit
    rw [encode, hb, Option.getD_some, List.append_assoc, decode_text hb lt]
  | .array xs, fuel + 1, rest, plain, fit, enough => by
    rw [Plain] at plain
    rw [fits, Bool.and_eq_true, decide_eq_true_eq] at fit
    rw [fuelFor] at enough
    have items := decodeItems_encodeItems xs fuel rest plain fit.2 (by omega)
    rw [encode, List.append_assoc, decode_array fit.1 items]
  | .map fields, fuel + 1, rest, plain, fit, enough => by
    rw [Plain] at plain
    rw [fits, Bool.and_eq_true, decide_eq_true_eq] at fit
    rw [fuelFor] at enough
    have pairs := decodeFields_encodeFields fields fuel rest plain.2 fit.2 (by omega)
    rw [encode, List.append_assoc, decode_map fit.1 pairs]
  | .tag number value, fuel + 1, rest, plain, fit, enough => by
    rw [Plain] at plain
    rw [fits, Bool.and_eq_true, decide_eq_true_eq] at fit
    rw [fuelFor] at enough
    obtain ⟨rfl, plain⟩ := plain
    have inner := decode_encode value fuel rest plain fit.2 (by omega)
    rw [encode, List.append_assoc, decode_tagged fit.1 inner]
    rfl

/-- Items are decoded one by one. -/
theorem decodeItems_encodeItems : ∀ (xs : List Cbor) (fuel : ℕ) (rest : List UInt8),
    PlainItems xs → fitsItems xs = true → fuelForItems xs ≤ fuel →
      decodeItems fuel xs.length (encodeItems xs ++ rest) = some (xs, rest)
  | xs, 0, _, _, _, enough => by cases xs <;> simp [fuelForItems] at enough
  | [], fuel + 1, rest, _, _, _ => rfl
  | x :: xs, fuel + 1, rest, plain, fit, enough => by
    rw [PlainItems] at plain
    rw [fitsItems, Bool.and_eq_true] at fit
    rw [fuelForItems] at enough
    have first := decode_encode x fuel (encodeItems xs ++ rest) plain.1 fit.1 (by omega)
    have others := decodeItems_encodeItems xs fuel rest plain.2 fit.2 (by omega)
    rw [encodeItems, List.append_assoc, List.length_cons, decodeItems, first, Option.bind_eq_bind,
      Option.bind_some]
    dsimp only
    rw [others]
    rfl

/-- Fields are decoded one by one. -/
theorem decodeFields_encodeFields : ∀ (fields : List (Cbor × Cbor)) (fuel : ℕ) (rest : List UInt8),
    PlainFields fields → fitsFields fields = true → fuelForFields fields ≤ fuel →
      decodeFields fuel fields.length (encodeFields fields ++ rest) = some (fields, rest)
  | fields, 0, _, _, _, enough => by
    cases fields with
    | nil => simp [fuelForFields] at enough
    | cons field fields => simp [fuelForFields] at enough
  | [], fuel + 1, rest, _, _, _ => rfl
  | (k, v) :: fields, fuel + 1, rest, plain, fit, enough => by
    rw [PlainFields] at plain
    rw [fitsFields, Bool.and_eq_true, Bool.and_eq_true] at fit
    rw [fuelForFields] at enough
    have key := decode_encode k fuel (encode v ++ (encodeFields fields ++ rest)) plain.1.plain fit.1
      (by omega)
    have value := decode_encode v fuel (encodeFields fields ++ rest) plain.2.1 fit.2.1 (by omega)
    have others := decodeFields_encodeFields fields fuel rest plain.2.2 fit.2.2 (by omega)
    rw [encodeFields, List.append_assoc, List.append_assoc, List.length_cons, decodeFields, key,
      Option.bind_eq_bind, Option.bind_some]
    dsimp only
    rw [value, Option.bind_some]
    dsimp only
    rw [others]
    rfl

end

/-- A head has bytes. -/
lemma length_head_pos (major n : ℕ) : 0 < (head major n).length :=
  List.length_pos_of_ne_nil (head_ne_nil major n)

/-- A number has bytes. -/
lemma length_encodeInt_pos (n : ℤ) : 0 < (encodeInt n).length := by
  cases n with
  | ofNat n =>
    simp only [encodeInt]
    split_ifs <;> simp [length_head_pos]
  | negSucc n =>
    simp only [encodeInt]
    split_ifs <;> simp [length_head_pos]

mutual

/-- Three times its length is fuel enough to decode an item. -/
theorem fuelFor_lt : ∀ v : Cbor, Plain v → fuelFor v < 3 * (encode v).length
  | .null, _ => by simp [fuelFor, encode]
  | .bool true, _ => by simp [fuelFor, encode]
  | .bool false, _ => by simp [fuelFor, encode]
  | .int n, _ => by
    have := length_encodeInt_pos n
    rw [fuelFor, encode]
    omega
  | .float _, plain => by rw [Plain] at plain; exact plain.elim
  | .object _, plain => by rw [Plain] at plain; exact plain.elim
  | .bytes b, _ => by
    have := length_head_pos 2 b.length
    simp only [fuelFor, encode, List.length_append]
    omega
  | .str s, _ => by
    have := length_head_pos 3 ((Utf8.encode s).getD []).length
    simp only [fuelFor, encode, List.length_append]
    omega
  | .array xs, plain => by
    rw [Plain] at plain
    have items := fuelForItems_le xs plain
    have := length_head_pos 4 xs.length
    simp only [fuelFor, encode, List.length_append]
    omega
  | .map fields, plain => by
    rw [Plain] at plain
    have pairs := fuelForFields_le fields plain.2
    have := length_head_pos 5 fields.length
    simp only [fuelFor, encode, List.length_append]
    omega
  | .tag number value, plain => by
    rw [Plain] at plain
    have inner := fuelFor_lt value plain.2
    have := length_head_pos 6 number
    simp only [fuelFor, encode, List.length_append]
    omega

/-- The fuel of items is bounded by their length. -/
theorem fuelForItems_le : ∀ xs : List Cbor, PlainItems xs →
    fuelForItems xs ≤ 3 * (encodeItems xs).length + 1
  | [], _ => by simp [fuelForItems, encodeItems]
  | x :: xs, plain => by
    rw [PlainItems] at plain
    have first := fuelFor_lt x plain.1
    have others := fuelForItems_le xs plain.2
    simp only [fuelForItems, encodeItems, List.length_append]
    omega

/-- The fuel of fields is bounded by their length. -/
theorem fuelForFields_le : ∀ fields : List (Cbor × Cbor), PlainFields fields →
    fuelForFields fields ≤ 3 * (encodeFields fields).length + 1
  | [], _ => by simp [fuelForFields, encodeFields]
  | (k, v) :: fields, plain => by
    rw [PlainFields] at plain
    have key := fuelFor_lt k plain.1.plain
    have value := fuelFor_lt v plain.2.1
    have others := fuelForFields_le fields plain.2.2
    simp only [fuelForFields, encodeFields, List.length_append]
    omega

end

/-- The item that a byte string begins with. -/
def read (b : List UInt8) : Option Cbor := (decode (3 * b.length) b).map (·.1)

/-- An encoded plain value is read back. -/
theorem read_encode {v : Cbor} (plain : Plain v) (fit : fits v = true) : read (encode v) = some v := by
  have back := decode_encode v _ [] plain fit (fuelFor_lt v plain).le
  rw [List.append_nil] at back
  rw [read, back, Option.map_some]

/-- The order of the fields: shorter labels first, then byte by byte. -/
abbrev LabelLe (a b : Cbor × Cbor) : Prop :=
  (encode a.1).length < (encode b.1).length ∨
    (encode a.1).length = (encode b.1).length ∧
      (encode a.1).map UInt8.toNat ≤ (encode b.1).map UInt8.toNat

mutual

/-- The item with the fields of every map in order. -/
def canonical : Cbor → Cbor
  | .array xs => .array (canonicalItems xs)
  | .map fields => .map ((canonicalFields fields).insertionSort LabelLe)
  | .tag number value => .tag number (canonical value)
  | v => v

def canonicalItems : List Cbor → List Cbor
  | [] => []
  | x :: xs => canonical x :: canonicalItems xs

def canonicalFields : List (Cbor × Cbor) → List (Cbor × Cbor)
  | [] => []
  | (k, v) :: fields => (k, canonical v) :: canonicalFields fields

end

/-- A number has one form only. -/
@[simp] lemma canonical_int (n : ℤ) : canonical (.int n) = .int n := by rw [canonical] <;> simp

/-- A byte string has one form only. -/
@[simp] lemma canonical_bytes (b : List UInt8) : canonical (.bytes b) = .bytes b := by
  rw [canonical] <;> simp

/-- A text has one form only. -/
@[simp] lemma canonical_str (s : List ℕ) : canonical (.str s) = .str s := by rw [canonical] <;> simp

/-- A byte string that is written in the deterministic encoding. -/
def write (v : Cbor) : Option (List UInt8) :=
  if fits v then some (encode (canonical v)) else none

/-- Items are made canonical one by one. -/
lemma canonicalItems_eq_map (xs : List Cbor) : canonicalItems xs = xs.map canonical := by
  induction xs with
  | nil => rfl
  | cons x xs ih => rw [canonicalItems, ih, List.map_cons]

/-- Fields are made canonical one by one. -/
lemma canonicalFields_eq_map (fields : List (Cbor × Cbor)) :
    canonicalFields fields = fields.map fun f => (f.1, canonical f.2) := by
  induction fields with
  | nil => rfl
  | cons f fields ih => rw [canonicalFields, ih, List.map_cons]

/-- Fields are plain where each label and value is. -/
lemma plainFields_iff {fields : List (Cbor × Cbor)} :
    PlainFields fields ↔ ∀ f ∈ fields, IsLabel f.1 ∧ Plain f.2 := by
  induction fields with
  | nil => simp [PlainFields]
  | cons f fields ih =>
    rw [PlainFields, ih, List.forall_mem_cons, and_assoc]

/-- Fields fit where each label and value does. -/
lemma fitsFields_iff {fields : List (Cbor × Cbor)} :
    fitsFields fields = true ↔ ∀ f ∈ fields, fits f.1 = true ∧ fits f.2 = true := by
  induction fields with
  | nil => simp [fitsFields]
  | cons f fields ih =>
    rw [fitsFields, Bool.and_eq_true, Bool.and_eq_true, ih, List.forall_mem_cons, and_assoc]

/-- The fields in order are the fields. -/
lemma perm_canonicalFields (fields : List (Cbor × Cbor)) :
    ((canonicalFields fields).insertionSort LabelLe).Perm
      (fields.map fun f => (f.1, canonical f.2)) := by
  rw [← canonicalFields_eq_map]
  exact List.perm_insertionSort _ _

/-- A list of byte strings is plain. -/
lemma plain_strings (ps : List (List UInt8)) : Plain (.array (ps.map .bytes)) := by
  rw [Plain]
  induction ps with
  | nil => trivial
  | cons p ps ih =>
    rw [List.map_cons, PlainItems, Plain]
    exact ⟨trivial, ih⟩

/-- A list of lists of byte strings is plain. -/
lemma plain_paths (ws : List (List (List UInt8))) :
    Plain (.array (ws.map fun w => .array (w.map .bytes))) := by
  rw [Plain]
  induction ws with
  | nil => trivial
  | cons w ws ih =>
    rw [List.map_cons, PlainItems]
    exact ⟨plain_strings w, ih⟩

/-- A list of byte strings has one form only. -/
lemma canonical_strings (ps : List (List UInt8)) :
    canonical (.array (ps.map .bytes)) = .array (ps.map .bytes) := by
  rw [canonical, canonicalItems_eq_map, List.map_map]
  exact congrArg Cbor.array (List.map_congr_left fun p _ => canonical_bytes p)

/-- A list of lists of byte strings has one form only. -/
lemma canonical_paths (ws : List (List (List UInt8))) :
    canonical (.array (ws.map fun w => .array (w.map .bytes))) = .array (ws.map fun w => .array (w.map .bytes)) := by
  rw [canonical, canonicalItems_eq_map, List.map_map]
  exact congrArg Cbor.array (List.map_congr_left fun w _ => canonical_strings w)

/-- The value that a search finds under its label in a map, and in the map with its fields in order. -/
lemma find?_canonical {fields sorted : List (Cbor × Cbor)} (plain : Plain (.map fields))
    (eq : canonical (.map fields) = .map sorted) {k : Cbor} {p : Cbor → Bool}
    (isLabel : ∀ a : Cbor, a.IsLabel → (p a = true ↔ a = k)) :
    (sorted.find? fun f => p f.1).map (·.2) = ((fields.find? fun f => p f.1).map (·.2)).map canonical := by
  rw [Plain, plainFields_iff] at plain
  rw [canonical, Cbor.map.injEq] at eq
  have perm : sorted.Perm (fields.map fun f => (f.1, canonical f.2)) := by
    rw [← eq]
    exact perm_canonicalFields fields
  have labels : ∀ f ∈ sorted, f.1.IsLabel := by
    intro f mem
    obtain ⟨g, hg, rfl⟩ := List.mem_map.mp (perm.mem_iff.mp mem)
    exact (plain.2 g hg).1
  have keys : (sorted.map (·.1)).Nodup := by
    rw [(perm.map (·.1)).nodup_iff, List.map_map]
    exact plain.1
  have unique : ∀ a ∈ sorted, ∀ b ∈ sorted, p a.1 = true → p b.1 = true → a = b := by
    intro a ha b hb ea eb
    apply List.inj_on_of_nodup_map keys ha hb
    rw [(isLabel _ (labels a ha)).mp ea, (isLabel _ (labels b hb)).mp eb]
  rw [Table.find?_perm perm unique, List.find?_map, Option.map_map, Option.map_map]
  rfl

mutual

/-- The canonical form of a plain value is plain. -/
theorem canonical_plain : ∀ v : Cbor, Plain v → Plain (canonical v)
  | .null, plain | .bool _, plain | .int _, plain | .bytes _, plain | .str _, plain
  | .float _, plain | .object _, plain => by rwa [canonical] <;> simp
  | .array xs, plain => by
    rw [Plain] at plain
    rw [canonical, Plain]
    exact canonicalItems_plain xs plain
  | .map fields, plain => by
    rw [Plain] at plain
    have pairs := canonicalFields_plain fields plain.2
    have perm := perm_canonicalFields fields
    rw [canonical, Plain]
    constructor
    · have keys := perm.map (·.1)
      rw [List.map_map] at keys
      exact keys.nodup_iff.mpr plain.1
    · rw [plainFields_iff] at pairs ⊢
      intro f mem
      exact pairs f ((List.perm_insertionSort _ _).mem_iff.mp mem)
  | .tag number value, plain => by
    rw [Plain] at plain
    rw [canonical, Plain]
    exact ⟨plain.1, canonical_plain value plain.2⟩

/-- The canonical forms of plain items are plain. -/
theorem canonicalItems_plain : ∀ xs : List Cbor, PlainItems xs → PlainItems (canonicalItems xs)
  | [], plain => plain
  | x :: xs, plain => by
    rw [PlainItems] at plain
    rw [canonicalItems, PlainItems]
    exact ⟨canonical_plain x plain.1, canonicalItems_plain xs plain.2⟩

/-- The canonical forms of plain fields are plain. -/
theorem canonicalFields_plain : ∀ fields : List (Cbor × Cbor), PlainFields fields →
    PlainFields (canonicalFields fields)
  | [], plain => plain
  | (k, v) :: fields, plain => by
    rw [PlainFields] at plain
    rw [canonicalFields, PlainFields]
    exact ⟨plain.1, canonical_plain v plain.2.1, canonicalFields_plain fields plain.2.2⟩

end

mutual

/-- The canonical form of a value that fits fits. -/
theorem canonical_fits : ∀ v : Cbor, fits v = true → fits (canonical v) = true
  | .null, fit | .bool _, fit | .int _, fit | .bytes _, fit | .str _, fit
  | .float _, fit | .object _, fit => by rwa [canonical] <;> simp
  | .array xs, fit => by
    rw [fits, Bool.and_eq_true] at fit
    rw [canonical, fits, Bool.and_eq_true, canonicalItems_eq_map, List.length_map,
      ← canonicalItems_eq_map]
    exact ⟨fit.1, canonicalItems_fits xs fit.2⟩
  | .map fields, fit => by
    rw [fits, Bool.and_eq_true] at fit
    have pairs := canonicalFields_fits fields fit.2
    rw [canonical, fits, Bool.and_eq_true, (perm_canonicalFields fields).length_eq, List.length_map]
    refine ⟨fit.1, ?_⟩
    rw [fitsFields_iff] at pairs ⊢
    intro f mem
    exact pairs f ((List.perm_insertionSort _ _).mem_iff.mp mem)
  | .tag number value, fit => by
    rw [fits, Bool.and_eq_true] at fit
    rw [canonical, fits, Bool.and_eq_true]
    exact ⟨fit.1, canonical_fits value fit.2⟩

/-- The canonical forms of items that fit fit. -/
theorem canonicalItems_fits : ∀ xs : List Cbor, fitsItems xs = true →
    fitsItems (canonicalItems xs) = true
  | [], fit => fit
  | x :: xs, fit => by
    rw [fitsItems, Bool.and_eq_true] at fit
    rw [canonicalItems, fitsItems, Bool.and_eq_true]
    exact ⟨canonical_fits x fit.1, canonicalItems_fits xs fit.2⟩

/-- The canonical forms of fields that fit fit. -/
theorem canonicalFields_fits : ∀ fields : List (Cbor × Cbor), fitsFields fields = true →
    fitsFields (canonicalFields fields) = true
  | [], fit => fit
  | (k, v) :: fields, fit => by
    rw [fitsFields, Bool.and_eq_true, Bool.and_eq_true] at fit
    rw [canonicalFields, fitsFields, Bool.and_eq_true, Bool.and_eq_true]
    exact ⟨fit.1, canonical_fits v fit.2.1, canonicalFields_fits fields fit.2.2⟩

end

/-- Labels are ordered totally. -/
lemma labelLe_total (a b : Cbor × Cbor) : LabelLe a b ∨ LabelLe b a := by
  rcases lt_trichotomy (encode a.1).length (encode b.1).length with lt | eq | lt
  · exact .inl (.inl lt)
  · rcases le_total ((encode a.1).map UInt8.toNat) ((encode b.1).map UInt8.toNat) with le | le
    · exact .inl (.inr ⟨eq, le⟩)
    · exact .inr (.inr ⟨eq.symm, le⟩)
  · exact .inr (.inl lt)

/-- The order of labels is transitive. -/
lemma labelLe_trans {a b c : Cbor × Cbor} (ab : LabelLe a b) (bc : LabelLe b c) : LabelLe a c := by
  rcases ab with lt | ⟨eq, le⟩ <;> rcases bc with lt' | ⟨eq', le'⟩
  · exact .inl (lt.trans lt')
  · exact .inl (eq' ▸ lt)
  · exact .inl (eq ▸ lt')
  · exact .inr ⟨eq.trans eq', le_trans le le'⟩

instance : Std.Total LabelLe := ⟨labelLe_total⟩

instance : IsTrans (Cbor × Cbor) LabelLe := ⟨fun _ _ _ => labelLe_trans⟩

mutual

/-- The canonical form is canonical. -/
theorem canonical_canonical : ∀ v : Cbor, canonical (canonical v) = canonical v
  | .null | .bool _ | .int _ | .bytes _ | .str _ | .float _ | .object _ => by simp [canonical]
  | .array xs => by
    rw [canonical, canonical, canonicalItems_canonical xs]
  | .map fields => by
    have same : canonicalFields ((canonicalFields fields).insertionSort LabelLe) =
        (canonicalFields fields).insertionSort LabelLe := by
      rw [canonicalFields_eq_map]
      refine (List.map_congr_left fun f mem => ?_).trans (List.map_id _)
      have held := canonicalFields_canonical fields f ((List.perm_insertionSort _ _).mem_iff.mp mem)
      rw [held, id]
    rw [canonical, canonical, same, (List.pairwise_insertionSort _ _).insertionSort_eq]
  | .tag number value => by
    rw [canonical, canonical, canonical_canonical value]

/-- Canonical items are canonical. -/
theorem canonicalItems_canonical : ∀ xs : List Cbor, canonicalItems (canonicalItems xs) = canonicalItems xs
  | [] => rfl
  | x :: xs => by
    rw [canonicalItems, canonicalItems, canonical_canonical x, canonicalItems_canonical xs]

/-- The values of canonical fields are canonical. -/
theorem canonicalFields_canonical : ∀ fields : List (Cbor × Cbor), ∀ f ∈ canonicalFields fields,
    canonical f.2 = f.2
  | [], f, mem => absurd mem List.not_mem_nil
  | (k, v) :: fields, f, mem => by
    rw [canonicalFields, List.mem_cons] at mem
    rcases mem with rfl | mem
    · exact canonical_canonical v
    · exact canonicalFields_canonical fields f mem

end

end Cbor
end CLL
