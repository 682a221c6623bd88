import CLL.Lib.Cbor
import Mathlib.Data.List.Induction
import Mathlib.Tactic.IntervalCases

/-!
# A strict profile of CBOR

The items that leave an encoder no choice but the order of the fields of a map: integers of 64 bits, byte
strings, texts, arrays, maps whose keys are distinct integers or texts, `false`, `true` and `null`, at most
one outer tag, and a bounded nesting. Every head is the shortest with its argument: `head_of_short` and
`head_of_long` read one, `head_cases` writes one. `readStrict` reads an item of the profile, and
`readStrict_eq_some` says that it reads the encoding of an item and nothing else.
-/

namespace CLL.Cbor

/-- The least argument of a head with `2 ** k` more bytes. -/
def least : ℕ → ℕ
  | 0 => 24
  | 1 => 2 ^ 8
  | 2 => 2 ^ 16
  | _ => 2 ^ 32

/-- Bytes are worth less than the next power of 256. -/
lemma ofBigEndian_lt (b : List UInt8) : ofBigEndian b < 256 ^ b.length := by
  induction b using List.reverseRecOn with
  | nil => decide
  | append_singleton b x ih =>
    have digit := x.toNat_lt
    rw [ofBigEndian_append, List.length_append, List.length_singleton, pow_succ]
    omega

/-- Bytes are written back from their number. -/
lemma bigEndian_ofBigEndian (b : List UInt8) : bigEndian b.length (ofBigEndian b) = b := by
  induction b using List.reverseRecOn with
  | nil => rfl
  | append_singleton b x ih =>
    have digit := x.toNat_lt
    have high : (256 * ofBigEndian b + x.toNat) / 256 = ofBigEndian b := by omega
    have low : UInt8.ofNat (256 * ofBigEndian b + x.toNat) = x := by
      apply UInt8.toNat_inj.mp
      rw [UInt8.toNat_ofNat']
      omega
    rw [ofBigEndian_append, List.length_append, List.length_singleton, bigEndian, high, low, ih]

/-- The initial byte of a head, from its major type and its additional information. -/
lemma ofNat_initial (initial : UInt8) :
    UInt8.ofNat (32 * (initial.toNat / 32) + initial.toNat % 32) = initial := by
  rw [Nat.div_add_mod]
  exact UInt8.ofNat_toNat

/-- A short head is one byte. -/
lemma head_short {n : ℕ} (short : n < 24) (major : ℕ) :
    head major n = [UInt8.ofNat (32 * major + n)] := if_pos short

/-- A long head is one byte and the number. -/
lemma head_long {n k : ℕ} (hk : k < 4) (ge : least k ≤ n) (lt : n < 256 ^ 2 ^ k) (major : ℕ) :
    head major n = UInt8.ofNat (32 * major + (24 + k)) :: bigEndian (2 ^ k) n := by
  unfold head
  interval_cases k <;> simp only [least] at ge lt <;> split_ifs <;> first | rfl | omega

/-- A head of one byte. -/
lemma head_of_short {initial : UInt8} (short : initial.toNat % 32 < 24) :
    head (initial.toNat / 32) (initial.toNat % 32) = [initial] := by
  rw [head_short short, ofNat_initial]

/-- A head with `2 ** k` more bytes. -/
lemma head_of_long {initial : UInt8} {arg : List UInt8} {k : ℕ} (info : initial.toNat % 32 = 24 + k)
    (hk : k < 4) (len : arg.length = 2 ^ k) (ge : least k ≤ ofBigEndian arg) :
    head (initial.toNat / 32) (ofBigEndian arg) = initial :: arg := by
  have lt := ofBigEndian_lt arg
  rw [len] at lt
  rw [head_long hk ge lt, ← info, ofNat_initial, ← len, bigEndian_ofBigEndian]

/-- What a head is written as. -/
lemma head_cases {major n : ℕ} (hm : major < 8) (hn : n < 2 ^ 64) :
    (n < 24 ∧ ∃ initial : UInt8, head major n = [initial] ∧ initial.toNat / 32 = major ∧
      initial.toNat % 32 = n) ∨
    ∃ k < 4, ∃ (initial : UInt8) (arg : List UInt8), head major n = initial :: arg ∧
      initial.toNat / 32 = major ∧ initial.toNat % 32 = 24 + k ∧ arg.length = 2 ^ k ∧
      ofBigEndian arg = n ∧ least k ≤ n := by
  by_cases short : n < 24
  · have initial : (UInt8.ofNat (32 * major + n)).toNat = 32 * major + n := Utf8.toNat_ofNat (by omega)
    exact .inl ⟨short, _, head_short short major, by omega, by omega⟩
  · have long : ∃ k < 4, least k ≤ n ∧ n < 256 ^ 2 ^ k := by
      by_cases h1 : n < 2 ^ 8
      · exact ⟨0, by decide, by simpa [least] using short, h1⟩
      · by_cases h2 : n < 2 ^ 16
        · exact ⟨1, by decide, by simpa [least] using h1, h2⟩
        · by_cases h3 : n < 2 ^ 32
          · exact ⟨2, by decide, by simpa [least] using h2, h3⟩
          · exact ⟨3, by decide, by simpa [least] using h3, hn⟩
    obtain ⟨k, hk, ge, lt⟩ := long
    have initial : (UInt8.ofNat (32 * major + (24 + k))).toNat = 32 * major + (24 + k) :=
      Utf8.toNat_ofNat (by omega)
    exact .inr ⟨k, hk, _, _, head_long hk ge lt major, by omega, by omega, length_bigEndian _ _,
      ofBigEndian_bigEndian lt, ge⟩

/-- An item of the profile with at most `levels` levels, its own among them; `tagged` allows an outer tag of
COSE_Sign1. -/
def Strict : Bool → ℕ → Cbor → Prop
  | _, 0, _ => False
  | _, _ + 1, .null | _, _ + 1, .bool _ => True
  | _, _ + 1, .int n => -2 ^ 63 ≤ n ∧ n < 2 ^ 64
  | _, _ + 1, .float _ | _, _ + 1, .object _ => False
  | _, _ + 1, .bytes b => b.length < 2 ^ 64
  | _, _ + 1, .str s => fitsText s = true
  | _, levels + 1, .array xs => xs.length < 2 ^ 64 ∧ ∀ x ∈ xs, Strict false levels x
  | _, levels + 1, .map fields => fields.length < 2 ^ 64 ∧ (fields.map (·.1)).Nodup ∧
      ∀ f ∈ fields, IsLabel f.1 ∧ Strict false levels f.1 ∧ Strict false levels f.2
  | tagged, levels + 1, .tag number value => tagged = true ∧ number = 18 ∧ Strict false levels value

/-- The outer tag may be missing. -/
lemma Strict.tagged {tagged : Bool} {levels : ℕ} {v : Cbor} (strict : Strict tagged levels v) :
    Strict true levels v := by
  cases levels with
  | zero => exact strict.elim
  | succ levels =>
    cases v with
    | tag number content => exact ⟨rfl, strict.2⟩
    | _ => exact strict

/-- Items are plain where each is. -/
lemma plainItems_iff {xs : List Cbor} : PlainItems xs ↔ ∀ x ∈ xs, Plain x := by
  induction xs with
  | nil => simp [PlainItems]
  | cons x xs ih => rw [PlainItems, ih, List.forall_mem_cons]

/-- Items fit where each does. -/
lemma fitsItems_iff {xs : List Cbor} : fitsItems xs = true ↔ ∀ x ∈ xs, fits x = true := by
  induction xs with
  | nil => simp [fitsItems]
  | cons x xs ih => rw [fitsItems, Bool.and_eq_true, ih, List.forall_mem_cons]

/-- A strict value is plain. -/
lemma Strict.plain {tagged : Bool} {levels : ℕ} {v : Cbor} (strict : Strict tagged levels v) : Plain v := by
  induction levels generalizing tagged v with
  | zero => exact strict.elim
  | succ levels ih =>
    cases v with
    | null => trivial
    | bool b => trivial
    | int n => exact plain_int n
    | float x => exact strict.elim
    | object i => exact strict.elim
    | bytes b => exact plain_bytes b
    | str s => exact plain_str s
    | array xs =>
      rw [Plain, plainItems_iff]
      exact fun x mem => ih (strict.2 x mem)
    | map fields =>
      rw [Plain, plainFields_iff]
      exact ⟨strict.2.1, fun f mem => ⟨(strict.2.2 f mem).1, ih (strict.2.2 f mem).2.2⟩⟩
    | tag number value =>
      rw [Plain]
      exact ⟨strict.2.1, ih strict.2.2⟩

/-- The bytes of an integer of 64 bits are few. -/
lemma fitsInt_of_lt {n : ℕ} (lt : n < 2 ^ 64) : (magnitude n).length < 2 ^ 64 := by
  have bits : n.size ≤ 64 := Nat.size_le.mpr lt
  rw [magnitude, length_bigEndian]
  omega

/-- A strict value fits. -/
lemma Strict.fits {tagged : Bool} {levels : ℕ} {v : Cbor} (strict : Strict tagged levels v) :
    v.fits = true := by
  induction levels generalizing tagged v with
  | zero => exact strict.elim
  | succ levels ih =>
    cases v with
    | null => rfl
    | bool b => rfl
    | float x => exact strict.elim
    | object i => exact strict.elim
    | int n =>
      obtain ⟨ge, lt⟩ : -2 ^ 63 ≤ n ∧ n < 2 ^ 64 := strict
      rw [Cbor.fits]
      cases n with
      | ofNat n =>
        rw [Int.ofNat_eq_natCast] at lt
        exact decide_eq_true (fitsInt_of_lt (by omega))
      | negSucc n => exact decide_eq_true (fitsInt_of_lt (by omega))
    | bytes b =>
      rw [Cbor.fits]
      exact decide_eq_true strict
    | str s =>
      rw [Cbor.fits]
      exact strict
    | array xs =>
      rw [Cbor.fits, Bool.and_eq_true, decide_eq_true_eq, fitsItems_iff]
      exact ⟨strict.1, fun x mem => ih (strict.2 x mem)⟩
    | map fields =>
      rw [Cbor.fits, Bool.and_eq_true, decide_eq_true_eq, fitsFields_iff]
      exact ⟨strict.1, fun f mem => ⟨ih (strict.2.2 f mem).2.1, ih (strict.2.2 f mem).2.2⟩⟩
    | tag number value =>
      obtain ⟨-, rfl, inner⟩ := strict
      rw [Cbor.fits, Bool.and_eq_true, decide_eq_true_eq]
      exact ⟨by decide, ih inner⟩

/-- A byte string begins with the encoding of one item only. -/
theorem encode_append_inj {v w : Cbor} (plainV : Plain v) (fitsV : fits v = true) (plainW : Plain w)
    (fitsW : fits w = true) {r s : List UInt8} (e : encode v ++ r = encode w ++ s) : v = w ∧ r = s := by
  have atV := decode_encode v (max (fuelFor v) (fuelFor w)) r plainV fitsV (le_max_left _ _)
  have atW := decode_encode w (max (fuelFor v) (fuelFor w)) s plainW fitsW (le_max_right _ _)
  rw [e, atW] at atV
  simpa [eq_comm] using atV

/-- Strict values before any bytes are equal where their encodings are. -/
lemma Strict.encode_append_inj {taggedV taggedW : Bool} {levelsV levelsW : ℕ} {v w : Cbor}
    (strictV : Strict taggedV levelsV v) (strictW : Strict taggedW levelsW w) {r s : List UInt8}
    (e : encode v ++ r = encode w ++ s) : v = w ∧ r = s :=
  Cbor.encode_append_inj strictV.plain strictV.fits strictW.plain strictW.fits e

/-- Strict values are equal where their encodings are. -/
lemma Strict.encode_inj {taggedV taggedW : Bool} {levelsV levelsW : ℕ} {v w : Cbor}
    (strictV : Strict taggedV levelsV v) (strictW : Strict taggedW levelsW w)
    (e : encode v = encode w) : v = w :=
  (strictV.encode_append_inj strictW (congrArg (· ++ []) e)).1

/-- The argument of a head with additional information `info`, in its shortest form, and what follows. -/
def readArgument (info : ℕ) (b : List UInt8) : Option (ℕ × List UInt8) :=
  if info < 24 then some (info, b)
  else if info ≤ 27 then do
    let (arg, b) ← takeBytes (2 ^ (info - 24)) b
    if least (info - 24) ≤ ofBigEndian arg then some (ofBigEndian arg, b) else none
  else none

/-- The bytes in front are taken. -/
lemma takeBytes_eq_some {n : ℕ} {b x rest : List UInt8} :
    takeBytes n b = some (x, rest) ↔ x.length = n ∧ b = x ++ rest := by
  constructor
  · intro taken
    unfold takeBytes at taken
    split at taken
    · next le =>
      cases taken
      exact ⟨List.length_take_of_le le, (List.take_append_drop n b).symm⟩
    · cases taken
  · rintro ⟨rfl, rfl⟩
    exact takeBytes_append x rest

/-- An argument is read when the head is the shortest one. -/
lemma readArgument_eq_some {initial : UInt8} {b rest : List UInt8} {arg : ℕ} :
    readArgument (initial.toNat % 32) b = some (arg, rest) ↔
      arg < 2 ^ 64 ∧ initial :: b = head (initial.toNat / 32) arg ++ rest := by
  constructor
  · intro ok
    unfold readArgument at ok
    split_ifs at ok with short long
    · cases ok
      exact ⟨by omega, by rw [head_of_short short]; rfl⟩
    · obtain ⟨⟨x, rest'⟩, taken, picked⟩ := Option.bind_eq_some_iff.mp ok
      obtain ⟨len, rfl⟩ := takeBytes_eq_some.mp taken
      dsimp only at picked
      split_ifs at picked with ge
      cases picked
      have lt := ofBigEndian_lt x
      have width : x.length ≤ 8 := by
        rw [len]
        exact Nat.pow_le_pow_right (n := 2) (j := 3) (by decide) (by omega)
      refine ⟨lt.trans_le (Nat.pow_le_pow_right (n := 256) (j := 8) (by decide) width), ?_⟩
      rw [head_of_long (by omega) (by omega) len ge]
      rfl
  · rintro ⟨lt, e⟩
    have major : initial.toNat / 32 < 8 := by
      have := initial.toNat_lt
      omega
    rcases head_cases major lt with ⟨short, first, written, -, info⟩ | ⟨k, hk, first, x, written, -, info, len, rfl, ge⟩
    · rw [written, List.cons_append] at e
      obtain ⟨rfl, rfl⟩ := List.cons.inj e
      rw [readArgument, if_pos (by omega), info]
    · rw [written, List.cons_append] at e
      obtain ⟨rfl, rfl⟩ := List.cons.inj e
      have taken : takeBytes (2 ^ (24 + k - 24)) (x ++ rest) = some (x, rest) :=
        takeBytes_eq_some.mpr ⟨by rw [len, Nat.add_sub_cancel_left], rfl⟩
      rw [readArgument, if_neg (by omega), if_pos (by omega), info, taken]
      simp [ge]

/-- The key of a field: an integer or a text. -/
inductive Label where
  | int (n : ℤ)
  | str (s : List ℕ)
  deriving DecidableEq

/-- The item that a key is. -/
def Label.item : Label → Cbor
  | .int n => .int n
  | .str s => .str s

/-- The key that an item is. -/
def label? : Cbor → Option Label
  | .int n => some (.int n)
  | .str s => some (.str s)
  | _ => none

/-- A label is read exactly where it is one. -/
lemma label?_eq_some {k : Cbor} {l : Label} : label? k = some l ↔ k = l.item := by
  cases l <;> cases k <;> simp [label?, Label.item]

/-- A label is an allowed key. -/
lemma Label.isLabel (l : Label) : IsLabel l.item := by
  cases l <;> trivial

/-- Labels of one item are equal. -/
lemma Label.item_injective : Function.Injective Label.item := by
  rintro (m | s) (n | t) e <;> simp_all [Label.item]

/-- `n` items, one after the other. -/
def readItems (read : List UInt8 → Option (Cbor × List UInt8)) :
    ℕ → List UInt8 → Option (List Cbor × List UInt8)
  | 0, b => some ([], b)
  | n + 1, b => do
    let (x, b) ← read b
    let (xs, b) ← readItems read n b
    some (x :: xs, b)

/-- `n` fields, whose keys differ from each other and from the earlier `keys`. -/
def readFields (read : List UInt8 → Option (Cbor × List UInt8)) :
    ℕ → List Label → List UInt8 → Option (List (Cbor × Cbor) × List UInt8)
  | 0, _, b => some ([], b)
  | n + 1, keys, b => do
    let (k, b) ← read b
    let l ← label? k
    if l ∈ keys then none
    else do
      let (v, b) ← read b
      let (fields, b) ← readFields read n (l :: keys) b
      some ((k, v) :: fields, b)

/-- `false`, `true` and `null`. -/
def readSimple (info : ℕ) (b : List UInt8) : Option (Cbor × List UInt8) :=
  if info = 20 then some (.bool false, b)
  else if info = 21 then some (.bool true, b)
  else if info = 22 then some (.null, b)
  else none

/-- What follows a head that is no simple value; `inner` reads the items inside. -/
def readContent (inner : List UInt8 → Option (Cbor × List UInt8)) (tagged : Bool) (major arg : ℕ)
    (b : List UInt8) : Option (Cbor × List UInt8) :=
  if major = 0 then some (.int arg, b)
  else if major = 1 then
    if arg < 2 ^ 63 then some (.int (Int.negSucc arg), b) else none
  else if major = 2 then do
    let (x, b) ← takeBytes arg b
    some (.bytes x, b)
  else if major = 3 then do
    let (x, b) ← takeBytes arg b
    let s ← Utf8.decode x
    some (.str s, b)
  else if major = 6 then
    if tagged ∧ arg = 18 then do
      let (v, b) ← inner b
      some (.tag 18 v, b)
    else none
  else if b.length < arg then none
  else if major = 4 then do
    let (xs, b) ← readItems inner arg b
    some (.array xs, b)
  else do
    let (fields, b) ← readFields inner arg [] b
    some (.map fields, b)

/-- The item of the profile that a byte string begins with, and what follows it. -/
def readStrict : Bool → ℕ → List UInt8 → Option (Cbor × List UInt8)
  | _, 0, _ => none
  | _, _ + 1, [] => none
  | tagged, levels + 1, initial :: b =>
    if initial.toNat / 32 = 7 then readSimple (initial.toNat % 32) b
    else do
      let (arg, b) ← readArgument (initial.toNat % 32) b
      readContent (readStrict false levels) tagged (initial.toNat / 32) arg b

/-- What a reader reads: the encoding of an item that `P` holds of. -/
def Reads (read : List UInt8 → Option (Cbor × List UInt8)) (P : Cbor → Prop) : Prop :=
  ∀ b v rest, read b = some (v, rest) ↔ P v ∧ b = encode v ++ rest

/-- A reader of strict values reads lists of them. -/
lemma Reads.items {read : List UInt8 → Option (Cbor × List UInt8)} {P : Cbor → Prop} (reads : Reads read P)
    {n : ℕ} {b : List UInt8} {xs : List Cbor} {rest : List UInt8} :
    readItems read n b = some (xs, rest) ↔
      xs.length = n ∧ (∀ x ∈ xs, P x) ∧ b = encodeItems xs ++ rest := by
  induction n generalizing b xs with
  | zero =>
    constructor
    · intro ok
      cases ok
      exact ⟨rfl, nofun, rfl⟩
    · rintro ⟨len, -, rfl⟩
      obtain rfl := List.length_eq_zero_iff.mp len
      rfl
  | succ n ih =>
    constructor
    · intro ok
      obtain ⟨⟨x, b'⟩, first, ok⟩ := Option.bind_eq_some_iff.mp ok
      obtain ⟨⟨xs', b''⟩, others, ok⟩ := Option.bind_eq_some_iff.mp ok
      cases ok
      obtain ⟨hx, rfl⟩ := (reads _ _ _).mp first
      obtain ⟨len, hxs, rfl⟩ := ih.mp others
      refine ⟨congrArg Nat.succ len, List.forall_mem_cons.mpr ⟨hx, hxs⟩, ?_⟩
      rw [encodeItems, List.append_assoc]
    · rintro ⟨len, all, rfl⟩
      cases xs with
      | nil => cases len
      | cons x xs =>
        obtain ⟨hx, hxs⟩ := List.forall_mem_cons.mp all
        have first := (reads (encode x ++ (encodeItems xs ++ rest)) x _).mpr ⟨hx, rfl⟩
        have others := ih.mpr ⟨Nat.succ.inj len, hxs, rfl⟩
        rw [encodeItems, List.append_assoc, readItems, first, Option.bind_eq_bind, Option.bind_some]
        dsimp only
        rw [others]
        rfl

/-- A reader of strict values reads fields of them. -/
lemma Reads.fields {read : List UInt8 → Option (Cbor × List UInt8)} {P : Cbor → Prop} (reads : Reads read P)
    {n : ℕ} {keys : List Label} {b : List UInt8} {fields : List (Cbor × Cbor)} {rest : List UInt8} :
    readFields read n keys b = some (fields, rest) ↔
      fields.length = n ∧ (fields.map (·.1)).Nodup ∧ (∀ f ∈ fields, ∀ l ∈ keys, f.1 ≠ l.item) ∧
      (∀ f ∈ fields, IsLabel f.1 ∧ P f.1 ∧ P f.2) ∧ b = encodeFields fields ++ rest := by
  induction n generalizing b fields keys with
  | zero =>
    constructor
    · intro ok
      cases ok
      exact ⟨rfl, List.nodup_nil, nofun, nofun, rfl⟩
    · rintro ⟨len, -, -, -, rfl⟩
      obtain rfl := List.length_eq_zero_iff.mp len
      rfl
  | succ n ih =>
    constructor
    · intro ok
      -- A label, its value and the other fields, with the label among the keys seen.
      obtain ⟨⟨k, b₁⟩, key, ok⟩ := Option.bind_eq_some_iff.mp ok
      obtain ⟨l, isLabel, ok⟩ := Option.bind_eq_some_iff.mp ok
      split_ifs at ok with old
      obtain ⟨⟨v, b₂⟩, value, ok⟩ := Option.bind_eq_some_iff.mp ok
      obtain ⟨⟨fields', b₃⟩, others, ok⟩ := Option.bind_eq_some_iff.mp ok
      cases ok
      obtain ⟨hk, rfl⟩ := (reads _ _ _).mp key
      obtain ⟨hv, rfl⟩ := (reads _ _ _).mp value
      obtain ⟨len, nodup, fresh, all, rfl⟩ := ih.mp others
      obtain rfl := label?_eq_some.mp isLabel
      refine ⟨congrArg Nat.succ len, ?_, ?_, List.forall_mem_cons.mpr ⟨⟨l.isLabel, hk, hv⟩, all⟩, ?_⟩
      · rw [List.map_cons, List.nodup_cons]
        refine ⟨fun mem => ?_, nodup⟩
        obtain ⟨f, hf, e⟩ := List.mem_map.mp mem
        exact fresh f hf l List.mem_cons_self e
      · intro f hf l' hl'
        cases List.mem_cons.mp hf with
        | inl e =>
          rw [e]
          intro same
          exact old (Label.item_injective same ▸ hl')
        | inr hf => exact fresh f hf l' (List.mem_cons_of_mem l hl')
      · rw [encodeFields, List.append_assoc, List.append_assoc]
    · rintro ⟨len, nodup, fresh, all, rfl⟩
      cases fields with
      | nil => cases len
      | cons f fields =>
        obtain ⟨k, v⟩ := f
        obtain ⟨⟨isLabel, hk, hv⟩, rest_ok⟩ := List.forall_mem_cons.mp all
        rw [List.map_cons, List.nodup_cons] at nodup
        obtain ⟨l, rfl⟩ : ∃ l : Label, k = l.item := by
          cases k with
          | int m => exact ⟨.int m, rfl⟩
          | str s => exact ⟨.str s, rfl⟩
          | _ => exact isLabel.elim
        have new : l ∉ keys := fun mem => fresh _ List.mem_cons_self l mem rfl
        have key := (reads (encode l.item ++ (encode v ++ (encodeFields fields ++ rest))) _ _).mpr ⟨hk, rfl⟩
        have value := (reads (encode v ++ (encodeFields fields ++ rest)) v _).mpr ⟨hv, rfl⟩
        have others : readFields read n (l :: keys) (encodeFields fields ++ rest) = some (fields, rest) := by
          refine ih.mpr ⟨Nat.succ.inj len, nodup.2, fun f hf l' hl' e => ?_, rest_ok, rfl⟩
          cases List.mem_cons.mp hl' with
          | inl same => exact nodup.1 (List.mem_map.mpr ⟨f, hf, same ▸ e⟩)
          | inr old => exact fresh f (List.mem_cons_of_mem _ hf) l' old e
        have isKey : label? l.item = some l := label?_eq_some.mpr rfl
        rw [encodeFields, List.append_assoc, List.append_assoc]
        simp [readFields, key, isKey, new, value, others]

/-- A plain value has bytes. -/
lemma length_le_encode {v : Cbor} (plain : Plain v) : 1 ≤ (encode v).length := by
  have enough := fuelFor_lt v plain
  omega

/-- There are no more plain items than bytes. -/
lemma length_le_encodeItems {xs : List Cbor} (plain : ∀ x ∈ xs, Plain x) :
    xs.length ≤ (encodeItems xs).length := by
  induction xs with
  | nil => exact Nat.zero_le _
  | cons x xs ih =>
    obtain ⟨hx, hxs⟩ := List.forall_mem_cons.mp plain
    have first := length_le_encode hx
    have others := ih hxs
    rw [encodeItems, List.length_append, List.length_cons]
    omega

/-- There are no more fields than bytes. -/
lemma length_le_encodeFields {fields : List (Cbor × Cbor)} (plain : ∀ f ∈ fields, Plain f.1) :
    fields.length ≤ (encodeFields fields).length := by
  induction fields with
  | nil => exact Nat.zero_le _
  | cons f fields ih =>
    obtain ⟨hf, hfs⟩ := List.forall_mem_cons.mp plain
    have first := length_le_encode hf
    have others := ih hfs
    rw [encodeFields, List.length_append, List.length_append, List.length_cons]
    omega

/-- What an item is made of is no longer than the item. -/
lemma length_encode_le_items {xs : List Cbor} {x : Cbor} (mem : x ∈ xs) :
    (encode x).length ≤ (encodeItems xs).length := by
  induction xs with
  | nil => cases mem
  | cons y xs ih =>
    rw [encodeItems, List.length_append]
    cases List.mem_cons.mp mem with
    | inl e =>
      rw [e]
      exact Nat.le_add_right _ _
    | inr mem => exact (ih mem).trans (Nat.le_add_left _ _)

/-- A value is no longer than the fields it stands in. -/
lemma length_encode_le_fields {fields : List (Cbor × Cbor)} {f : Cbor × Cbor} (mem : f ∈ fields) :
    (encode f.2).length ≤ (encodeFields fields).length := by
  induction fields with
  | nil => cases mem
  | cons g fields ih =>
    rw [encodeFields, List.length_append, List.length_append]
    cases List.mem_cons.mp mem with
    | inl e =>
      rw [e]
      exact (Nat.le_add_right _ _).trans (Nat.le_add_left _ _)
    | inr mem => exact ((ih mem).trans (Nat.le_add_left _ _)).trans (Nat.le_add_left _ _)

/-- A byte string is no longer than its encoding. -/
lemma length_le_encode_bytes (b : List UInt8) : b.length ≤ (encode (.bytes b)).length := by
  rw [encode, List.length_append]
  exact Nat.le_add_left _ _

/-- An item is no longer than its array. -/
lemma length_encode_le_array {xs : List Cbor} {x : Cbor} (mem : x ∈ xs) :
    (encode x).length ≤ (encode (.array xs)).length := by
  rw [encode, List.length_append]
  exact (length_encode_le_items mem).trans (Nat.le_add_left _ _)

/-- A value is no longer than its map. -/
lemma length_encode_le_map {fields : List (Cbor × Cbor)} {f : Cbor × Cbor} (mem : f ∈ fields) :
    (encode f.2).length ≤ (encode (.map fields)).length := by
  rw [encode, List.length_append]
  exact (length_encode_le_fields mem).trans (Nat.le_add_left _ _)

/-- A number that is not negative is a head of type zero. -/
lemma encode_natCast {n : ℕ} (lt : n < 2 ^ 64) : encode (.int n) = head 0 n := by
  rw [encode]
  exact if_pos lt

/-- A negative number is a head of type one. -/
lemma encode_negSucc {n : ℕ} (lt : n < 2 ^ 64) : encode (.int (Int.negSucc n)) = head 1 n := by
  rw [encode]
  exact if_pos lt

/-- Behind a head stands its content. -/
lemma readStrict_head {tagged : Bool} {levels major arg : ℕ} (hm : major < 7) (lt : arg < 2 ^ 64)
    (b : List UInt8) : readStrict tagged (levels + 1) (head major arg ++ b) =
      readContent (readStrict false levels) tagged major arg b := by
  obtain ⟨initial, x, written, isMajor⟩ : ∃ (initial : UInt8) (x : List UInt8),
      head major arg = initial :: x ∧ initial.toNat / 32 = major := by
    rcases head_cases (hm.trans (by decide)) lt with
      ⟨-, initial, written, isMajor, -⟩ | ⟨k, -, initial, x, written, isMajor, -⟩
    · exact ⟨initial, [], written, isMajor⟩
    · exact ⟨initial, x, written, isMajor⟩
  have argument : readArgument (initial.toNat % 32) (x ++ b) = some (arg, b) :=
    readArgument_eq_some.mpr ⟨lt, by rw [isMajor, written]; rfl⟩
  rw [written, List.cons_append, readStrict, if_neg (by omega), argument, isMajor]
  rfl

/-- An item is a simple value or has a head. -/
lemma readStrict_cases {tagged : Bool} {levels : ℕ} {b : List UInt8} {r : Cbor × List UInt8}
    (ok : readStrict tagged (levels + 1) b = some r) :
    (∃ initial rest, b = initial :: rest ∧ initial.toNat / 32 = 7 ∧
      readSimple (initial.toNat % 32) rest = some r) ∨
    ∃ major arg rest, major < 7 ∧ arg < 2 ^ 64 ∧ b = head major arg ++ rest ∧
      readContent (readStrict false levels) tagged major arg rest = some r := by
  cases b with
  | nil => cases ok
  | cons initial b =>
    rw [readStrict] at ok
    split_ifs at ok with simple
    · exact .inl ⟨initial, b, rfl, simple, ok⟩
    · obtain ⟨⟨arg, rest⟩, argument, content⟩ := Option.bind_eq_some_iff.mp ok
      obtain ⟨lt, written⟩ := readArgument_eq_some.mp argument
      have byte := initial.toNat_lt
      exact .inr ⟨_, arg, rest, by omega, lt, written, content⟩

/-- A simple value is its initial byte. -/
lemma readSimple_eq_some {initial : UInt8} {b rest : List UInt8} {v : Cbor} (simple : initial.toNat / 32 = 7)
    (ok : readSimple (initial.toNat % 32) b = some (v, rest)) :
    (v = .null ∨ ∃ c, v = .bool c) ∧ initial :: b = encode v ++ rest := by
  have same := ofNat_initial initial
  rw [simple] at same
  unfold readSimple at ok
  split_ifs at ok with h0 h1 h2 <;> cases ok
  · rw [h0] at same
    exact ⟨.inr ⟨false, rfl⟩, by rw [← same]; rfl⟩
  · rw [h1] at same
    exact ⟨.inr ⟨true, rfl⟩, by rw [← same]; rfl⟩
  · rw [h2] at same
    exact ⟨.inl rfl, by rw [← same]; rfl⟩

/-- What is read behind a head is an item of the profile. -/
lemma readContent_sound {tagged : Bool} {levels major arg : ℕ} {b rest : List UInt8} {v : Cbor}
    (ih : Reads (readStrict false levels) (Strict false levels)) (hm : major < 7) (lt : arg < 2 ^ 64)
    (ok : readContent (readStrict false levels) tagged major arg b = some (v, rest)) :
    Strict tagged (levels + 1) v ∧ head major arg ++ b = encode v ++ rest := by
  unfold readContent at ok
  split_ifs at ok with h0 h1 small h2 h3 h6 outer short h4
  · cases ok
    exact ⟨⟨by omega, by exact_mod_cast lt⟩, by rw [h0, encode_natCast lt]⟩
  · cases ok
    exact ⟨⟨by omega, by omega⟩, by rw [h1, encode_negSucc lt]⟩
  · obtain ⟨⟨x, b'⟩, taken, made⟩ := Option.bind_eq_some_iff.mp ok
    obtain ⟨rfl, rfl⟩ := takeBytes_eq_some.mp taken
    cases made
    exact ⟨lt, by rw [encode, h2, List.append_assoc]⟩
  · obtain ⟨⟨x, b'⟩, taken, made⟩ := Option.bind_eq_some_iff.mp ok
    obtain ⟨s, text, made⟩ := Option.bind_eq_some_iff.mp made
    obtain ⟨rfl, rfl⟩ := takeBytes_eq_some.mp taken
    cases made
    have written := Utf8.encode_of_decode text
    exact ⟨fitsText_eq_true.mpr ⟨x, written, lt⟩, by rw [encode, written, h3, Option.getD_some, List.append_assoc]⟩
  · obtain ⟨⟨w, b'⟩, inner, made⟩ := Option.bind_eq_some_iff.mp ok
    obtain ⟨strict, rfl⟩ := (ih _ _ _).mp inner
    cases made
    exact ⟨⟨outer.1, rfl, strict⟩, by rw [encode, h6, outer.2, List.append_assoc]⟩
  · obtain ⟨⟨xs, b'⟩, items, made⟩ := Option.bind_eq_some_iff.mp ok
    obtain ⟨rfl, strict, rfl⟩ := ih.items.mp items
    cases made
    exact ⟨⟨lt, strict⟩, by rw [encode, h4, List.append_assoc]⟩
  · obtain ⟨⟨fields, b'⟩, read, made⟩ := Option.bind_eq_some_iff.mp ok
    obtain ⟨rfl, nodup, -, strict, rfl⟩ := ih.fields.mp read
    cases made
    have isMap : major = 5 := by omega
    exact ⟨⟨lt, nodup, strict⟩, by rw [encode, isMap, List.append_assoc]⟩

/-- An item of the profile is read, whatever follows it. -/
lemma readStrict_encode {tagged : Bool} {levels : ℕ} {v : Cbor} (rest : List UInt8)
    (ih : Reads (readStrict false levels) (Strict false levels)) (strict : Strict tagged (levels + 1) v) :
    readStrict tagged (levels + 1) (encode v ++ rest) = some (v, rest) := by
  cases v with
  | null => rfl
  | bool c => cases c <;> rfl
  | float x => exact strict.elim
  | object i => exact strict.elim
  | int n =>
    obtain ⟨ge, lt⟩ : -2 ^ 63 ≤ n ∧ n < 2 ^ 64 := strict
    cases n with
    | ofNat n =>
      rw [Int.ofNat_eq_natCast] at lt ⊢
      rw [encode_natCast (by omega), readStrict_head (by decide) (by omega)]
      rfl
    | negSucc n =>
      have small : n < 2 ^ 63 := by omega
      rw [encode_negSucc (by omega), readStrict_head (by decide) (by omega)]
      exact if_pos small
  | bytes b =>
    have taken : takeBytes b.length (b ++ rest) = some (b, rest) := takeBytes_append b rest
    rw [encode, List.append_assoc, readStrict_head (by decide) strict]
    simp [readContent, taken]
  | str s =>
    obtain ⟨b, written, lt⟩ := fitsText_eq_true.mp strict
    have taken : takeBytes b.length (b ++ rest) = some (b, rest) := takeBytes_append b rest
    rw [encode, written, Option.getD_some, List.append_assoc, readStrict_head (by decide) lt]
    simp [readContent, taken, Utf8.decode_encode written]
  | array xs =>
    have items : readItems (readStrict false levels) xs.length (encodeItems xs ++ rest) = some (xs, rest) :=
      ih.items.mpr ⟨rfl, strict.2, rfl⟩
    have long := length_le_encodeItems fun x mem => (strict.2 x mem).plain
    have enough : ¬ (encodeItems xs ++ rest).length < xs.length := by
      rw [List.length_append]
      omega
    rw [encode, List.append_assoc, readStrict_head (by decide) strict.1]
    simp only [readContent, if_neg enough, items]
    rfl
  | map fields =>
    have fresh : ∀ f ∈ fields, ∀ l ∈ ([] : List Label), f.1 ≠ l.item := fun f _ l mem => by cases mem
    have read : readFields (readStrict false levels) fields.length [] (encodeFields fields ++ rest) =
        some (fields, rest) := ih.fields.mpr ⟨rfl, strict.2.1, fresh, strict.2.2, rfl⟩
    have long := length_le_encodeFields fun f mem => (strict.2.2 f mem).1.plain
    have enough : ¬ (encodeFields fields ++ rest).length < fields.length := by
      rw [List.length_append]
      omega
    rw [encode, List.append_assoc, readStrict_head (by decide) strict.1]
    simp only [readContent, if_neg enough, read]
    rfl
  | tag number value =>
    obtain ⟨rfl, rfl, strict⟩ := strict
    have inner := (ih (encode value ++ rest) value rest).mpr ⟨strict, rfl⟩
    rw [encode, List.append_assoc, readStrict_head (by decide) (by decide)]
    simp [readContent, inner]

/-- An item is read if it stands there in its one encoding. -/
theorem readStrict_reads (tagged : Bool) (levels : ℕ) :
    Reads (readStrict tagged levels) (Strict tagged levels) := by
  induction levels generalizing tagged with
  | zero =>
    intro b v rest
    constructor
    · nofun
    · exact fun ok => ok.1.elim
  | succ levels ih =>
    intro b v rest
    constructor
    · intro ok
      rcases readStrict_cases ok with
        ⟨initial, b, rfl, simple, value⟩ | ⟨major, arg, b, hm, lt, rfl, content⟩
      · obtain ⟨kind, written⟩ := readSimple_eq_some simple value
        refine ⟨?_, written⟩
        rcases kind with rfl | ⟨c, rfl⟩ <;> trivial
      · exact readContent_sound (ih false) hm lt content
    · rintro ⟨strict, rfl⟩
      exact readStrict_encode rest (ih false) strict

/-- Fields are written one by one. -/
lemma encodeFields_eq_flatMap (fields : List (Cbor × Cbor)) :
    encodeFields fields = fields.flatMap fun f => encode f.1 ++ encode f.2 := by
  induction fields with
  | nil => rfl
  | cons f fields ih => rw [encodeFields, ih, List.flatMap_cons, List.append_assoc]

mutual

/-- Putting the fields of maps in order moves bytes and changes none. -/
theorem encode_canonical_perm : ∀ v : Cbor, (encode (canonical v)).Perm (encode v)
  | .null | .bool _ | .int _ | .bytes _ | .str _ | .float _ | .object _ => by
    rw [canonical] <;> simp
  | .array xs => by
    rw [canonical, encode, encode, canonicalItems_eq_map, List.length_map, ← canonicalItems_eq_map]
    exact (encodeItems_canonical_perm xs).append_left _
  | .map fields => by
    have sorted := (List.perm_insertionSort LabelLe (canonicalFields fields)).flatMap_right
      fun f => encode f.1 ++ encode f.2
    have moved := encodeFields_canonical_perm fields
    rw [← encodeFields_eq_flatMap, ← encodeFields_eq_flatMap] at sorted
    rw [canonical, encode, encode, (perm_canonicalFields fields).length_eq, List.length_map]
    exact (sorted.trans moved).append_left _
  | .tag number value => by
    rw [canonical, encode, encode]
    exact (encode_canonical_perm value).append_left _

/-- The canonical items have the same bytes in another order. -/
theorem encodeItems_canonical_perm : ∀ xs : List Cbor,
    (encodeItems (canonicalItems xs)).Perm (encodeItems xs)
  | [] => .refl _
  | x :: xs => by
    rw [canonicalItems, encodeItems, encodeItems]
    exact (encode_canonical_perm x).append (encodeItems_canonical_perm xs)

/-- The canonical fields have the same bytes in another order. -/
theorem encodeFields_canonical_perm : ∀ fields : List (Cbor × Cbor),
    (encodeFields (canonicalFields fields)).Perm (encodeFields fields)
  | [] => .refl _
  | (k, v) :: fields => by
    rw [canonicalFields, encodeFields, encodeFields]
    exact ((encode_canonical_perm v).append (encodeFields_canonical_perm fields)).append_left _

end

end CLL.Cbor
