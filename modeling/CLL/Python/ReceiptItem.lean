import CLL.Lib.StrictCbor
import CLL.Python.Cbor

/-!
# The receipt encoding rule

`cbor.py`: `receipt_item` walks the bytes of an item under the receipt encoding rule and then decodes them
with `cbor2`. `receiptItem_exact` says that it accepts the encodings of strict items and nothing else.
-/

namespace CLL.Cbor

/-- `_MAX_RECEIPT_DEPTH`. -/
def maxReceiptDepth : ℕ := 16

/-- The argument of a head with additional information `info`, and what follows the head. -/
def receiptArgument (info : ℕ) (rest : Bytes) : Py (ℕ × Bytes) :=
  if info < 24 then .ok (info, rest)
  else
    match takeBytes (2 ^ (info - 24)) rest with
    | none => raise .valueError "CBOR item is truncated"
    | some (arg, rest) => do
      require (least (info - 24) ≤ ofBigEndian arg) .valueError "a CBOR argument not in its shortest form"
      .ok (ofBigEndian arg, rest)

/-- The items of an array. -/
def receiptItems (walk : Bytes → Py Bytes) : ℕ → Bytes → Py Bytes
  | 0, data => .ok data
  | count + 1, data => do
    let rest ← walk data
    receiptItems walk count rest

/-- The fields of a map, whose keys differ in their bytes from each other and from the earlier `keys`. -/
def receiptFields (walk : Bytes → Py Bytes) : ℕ → List Bytes → Bytes → Py Bytes
  | 0, _, data => .ok data
  | _ + 1, _, [] => raise .indexError "index out of range"
  | count + 1, keys, initial :: data => do
    require (initial.toNat / 32 ∈ [0, 1, 3]) .valueError "a map key that is not an integer or text"
    let rest ← walk (initial :: data)
    let key := (initial :: data).take ((initial :: data).length - rest.length)
    require (key ∉ keys) .valueError "a repeated CBOR map key"
    let rest ← walk rest
    receiptFields walk count (key :: keys) rest

/-- `_receipt_walk` behind a head that is no simple value; `walk` walks the items inside, `outer` is
`depth == 0 and top_tag`. -/
def receiptContent (walk : Bytes → Py Bytes) (outer : Bool) (major arg : ℕ) (rest : Bytes) : Py Bytes :=
  if major = 0 then .ok rest
  else if major = 1 then do
    require (arg < 2 ^ 63) .valueError "an integer below -2^63"
    .ok rest
  else if major = 2 ∨ major = 3 then
    match takeBytes arg rest with
    | none => raise .valueError "CBOR item is truncated"
    | some (text, rest) => do
      require (major = 3 → (Utf8.decode text).isSome) .valueError "a text string that is not valid UTF-8"
      .ok rest
  else if major = 6 then do
    require (outer ∧ arg = 18) .valueError s!"CBOR tag {arg} is not the outer tag 18"
    walk rest
  else do
    require (arg ≤ rest.length) .valueError "CBOR item is truncated"
    if major = 4 then receiptItems walk arg rest else receiptFields walk arg [] rest

/-- `_receipt_walk`: what follows the item that `data` begins with. `left` levels are left, that of the item
among them, so the item stands at depth 0 when all but its own are. -/
def receiptWalk : ℕ → Bytes → Bool → Py Bytes
  | 0, _, _ => raise .valueError s!"CBOR nested more than {maxReceiptDepth} levels deep"
  | _ + 1, [], _ => raise .indexError "index out of range"
  | left + 1, initial :: rest, topTag => do
    let major := initial.toNat / 32
    let info := initial.toNat % 32
    if major = 7 then do
      require (info ∈ [20, 21, 22]) .valueError "a float or a simple value other than false, true and null"
      .ok rest
    else do
      require (info ≤ 27) .valueError "an indefinite or reserved CBOR length"
      let (arg, rest) ← receiptArgument info rest
      receiptContent (receiptWalk left · false) (decide (left = maxReceiptDepth) && topTag) major arg rest

/-- `receipt_item`. -/
def receiptItem (cbor2 : Cbor2) (data : Bytes) (topTag : Bool) : Py Cbor :=
  match receiptWalk (maxReceiptDepth + 1) data topTag with
  | .error e => if e.kind = .indexError then raise .valueError "CBOR item is truncated" else .error e
  | .ok (_ :: _) => raise .valueError "trailing bytes after the CBOR item"
  | .ok [] =>
    match cbor2.loads data with
    | some value => .ok value
    | none => raise .valueError "malformed CBOR"

/-- `walk` ends where `read` ends, and fails where it does. -/
def Follows (walk : Bytes → Py Bytes) (read : Bytes → Option (Cbor × Bytes)) : Prop :=
  ∀ data, (walk data).toOption = (read data).map (·.2)

/-- A walk fails where nothing is read. -/
lemma Follows.of_none {walk : Bytes → Py Bytes} {read : Bytes → Option (Cbor × Bytes)}
    (follows : Follows walk read) {data : Bytes} (none : read data = none) : ∃ e, walk data = .error e := by
  have same := follows data
  rw [none] at same
  cases walked : walk data with
  | error e => exact ⟨e, rfl⟩
  | ok rest =>
    rw [walked] at same
    cases same

/-- A walk goes over what is read. -/
lemma Follows.of_some {walk : Bytes → Py Bytes} {read : Bytes → Option (Cbor × Bytes)}
    (follows : Follows walk read) {data : Bytes} {v : Cbor} {rest : Bytes} (ok : read data = some (v, rest)) :
    walk data = .ok rest := by
  have same := follows data
  rw [ok] at same
  cases e : walk data with
  | error e =>
    rw [e] at same
    cases same
  | ok rest' =>
    rw [e] at same
    exact congrArg Except.ok (Option.some.inj same)

/-- An error is passed on. -/
lemma error_bind {α β : Type} (e : Error) (f : α → Py β) : ((.error e : Py α) >>= f) = .error e := rfl

/-- An error has no value. -/
lemma toOption_error {α : Type} (e : Error) : (Except.error e : Py α).toOption = none := rfl

/-- A walk follows the reader over a list of items. -/
lemma Follows.items {walk : Bytes → Py Bytes} {read : Bytes → Option (Cbor × Bytes)}
    (follows : Follows walk read) (count : ℕ) (data : Bytes) :
    (receiptItems walk count data).toOption = (readItems read count data).map (·.2) := by
  induction count generalizing data with
  | zero => rfl
  | succ count ih =>
    cases first : read data with
    | none =>
      obtain ⟨e, failed⟩ := follows.of_none first
      rw [receiptItems, readItems, first, failed]
      rfl
    | some r =>
      rw [receiptItems, readItems, first, follows.of_some first, ok_bind, ih]
      cases others : readItems read count r.2 with
      | none => simp [others]
      | some s => simp [others]

/-- The key of a field is known from its first byte. -/
lemma label?_isSome_iff {levels : ℕ} {v : Cbor} (strict : Strict false levels v) {initial : UInt8}
    {b : Bytes} (written : encode v = initial :: b) :
    initial.toNat / 32 ∈ [0, 1, 3] ↔ ∃ l, label? v = some l := by
  -- The first byte holds the major type, which tells numbers and texts from the rest.
  have major {major arg : ℕ} {x : Bytes} (hm : major < 8) (lt : arg < 2 ^ 64)
      (e : head major arg ++ x = initial :: b) : initial.toNat / 32 = major := by
    rcases head_cases hm lt with ⟨-, first, e', isMajor, -⟩ | ⟨k, -, first, y, e', isMajor, -⟩
    · rw [e'] at e
      rw [← (List.cons.inj e).1, isMajor]
    · rw [e'] at e
      rw [← (List.cons.inj e).1, isMajor]
  cases levels with
  | zero => exact strict.elim
  | succ levels =>
    cases v with
    | null =>
      rw [← (List.cons.inj written).1]
      simp [label?]
    | bool c =>
      cases c <;> rw [← (List.cons.inj written).1] <;> simp [label?]
    | float x => exact strict.elim
    | object i => exact strict.elim
    | int n =>
      obtain ⟨ge, lt⟩ : -2 ^ 63 ≤ n ∧ n < 2 ^ 64 := strict
      have isInt : initial.toNat / 32 = 0 ∨ initial.toNat / 32 = 1 := by
        cases n with
        | ofNat n =>
          rw [Int.ofNat_eq_natCast] at lt written
          rw [encode_natCast (by omega), ← List.append_nil (head 0 n)] at written
          exact .inl (major (by decide) (by omega) written)
        | negSucc n =>
          rw [encode_negSucc (by omega), ← List.append_nil (head 1 n)] at written
          exact .inr (major (by decide) (by omega) written)
      exact ⟨fun _ => ⟨_, rfl⟩, fun _ => by rcases isInt with e | e <;> rw [e] <;> decide⟩
    | bytes x =>
      rw [encode] at written
      rw [major (by decide) strict written]
      simp [label?]
    | str s =>
      obtain ⟨x, text, lt⟩ := fitsText_eq_true.mp strict
      rw [encode, text] at written
      rw [major (by decide) lt written]
      exact ⟨fun _ => ⟨_, rfl⟩, fun _ => by decide⟩
    | array xs =>
      rw [encode] at written
      rw [major (by decide) strict.1 written]
      simp [label?]
    | map fields =>
      rw [encode] at written
      rw [major (by decide) strict.1 written]
      simp [label?]
    | tag number value => exact absurd strict.1 (by decide)

/-- A walk follows the reader over fields with distinct keys. -/
lemma Follows.fields {walk : Bytes → Py Bytes} {read : Bytes → Option (Cbor × Bytes)} {levels : ℕ}
    (follows : Follows walk read) (reads : Reads read (Strict false levels)) (count : ℕ) (keys : List Label)
    (strict : ∀ l ∈ keys, Strict false levels l.item) (data : Bytes) :
    (receiptFields walk count (keys.map (encode ·.item)) data).toOption =
      (readFields read count keys data).map (·.2) := by
  induction count generalizing keys data with
  | zero => rfl
  | succ count ih =>
    cases data with
    | nil =>
      -- No strict value is written in no bytes.
      have nothing : read [] = none := by
        cases e : read [] with
        | none => rfl
        | some r =>
          obtain ⟨hk, written⟩ := (reads [] r.1 r.2).mp e
          have long := length_le_encode hk.plain
          have := congrArg List.length written
          rw [List.length_append, List.length_nil] at this
          omega
      rw [receiptFields, readFields, nothing]
      rfl
    | cons initial data =>
      cases key : read (initial :: data) with
      | none =>
        obtain ⟨e, failed⟩ := follows.of_none key
        rw [receiptFields, readFields, key, failed]
        unfold require
        split <;> rfl
      | some r =>
        obtain ⟨k, rest⟩ := r
        obtain ⟨hk, written⟩ := (reads _ _ _).mp key
        have walked := follows.of_some key
        -- The source compares keys by the bytes that it walked over.
        have raw : (initial :: data).take ((initial :: data).length - rest.length) = encode k := by
          rw [written, List.length_append, Nat.add_sub_cancel, List.take_left]
        have first : ∃ b, encode k = initial :: b := by
          cases e : encode k with
          | nil =>
            have long := length_le_encode hk.plain
            rw [e] at long
            cases long
          | cons x b =>
            rw [e] at written
            exact ⟨b, by rw [(List.cons.inj written).1]⟩
        obtain ⟨b, first⟩ := first
        have isKey := label?_isSome_iff hk first
        rw [receiptFields, readFields, key, walked]
        cases label : label? k with
        | none =>
          have other : ¬ initial.toNat / 32 ∈ [0, 1, 3] := by
            rw [isKey, label]
            rintro ⟨l, absent⟩
            cases absent
          rw [require, if_neg other]
          simp [label, raise, error_bind, toOption_error]
        | some l =>
          have own : initial.toNat / 32 ∈ [0, 1, 3] := isKey.mpr ⟨l, label⟩
          obtain rfl := label?_eq_some.mp label
          have mem : encode l.item ∈ keys.map (encode ·.item) ↔ l ∈ keys := by
            constructor
            · intro mem
              obtain ⟨l', hl', e⟩ := List.mem_map.mp mem
              rw [← Label.item_injective ((strict l' hl').encode_inj hk e)]
              exact hl'
            · exact fun mem => List.mem_map.mpr ⟨l, mem, rfl⟩
          rw [require, if_pos own, ok_bind, ok_bind]
          dsimp only
          rw [raw]
          by_cases old : l ∈ keys
          · rw [require, if_neg (not_not.mpr (mem.mpr old))]
            simp [label, old, raise, error_bind, toOption_error]
          · rw [require, if_pos (mt mem.mp old), ok_bind]
            cases value : read rest with
            | none =>
              obtain ⟨e, failed⟩ := follows.of_none value
              simp [label, value, failed, error_bind, toOption_error]
            | some s =>
              have others := ih (l :: keys) (List.forall_mem_cons.mpr ⟨hk, strict⟩) s.2
              rw [follows.of_some value, ok_bind]
              rw [List.map_cons] at others
              rw [others]
              cases e : readFields read count (l :: keys) s.2 <;> simp [label, old, value, e]

/-- An argument is read as the strict reader reads it. -/
lemma receiptArgument_eq {info : ℕ} (small : info ≤ 27) (rest : Bytes) :
    (receiptArgument info rest).toOption = readArgument info rest := by
  unfold receiptArgument readArgument
  by_cases short : info < 24
  · rw [if_pos short, if_pos short]
    rfl
  · rw [if_neg short, if_neg short, if_pos small]
    cases takeBytes (2 ^ (info - 24)) rest with
    | none => rfl
    | some r =>
      by_cases ge : least (info - 24) ≤ ofBigEndian r.1
      · simp only [require, if_pos ge, ok_bind, Option.bind_eq_bind, Option.bind_some]
        rfl
      · simp only [require, if_neg ge, Option.bind_eq_bind, Option.bind_some]
        rfl

/-- Behind a head the walk follows the reader. -/
lemma receiptContent_follows {walk : Bytes → Py Bytes} {levels : ℕ}
    (follows : Follows walk (readStrict false levels)) (outer : Bool) (major arg : ℕ)
    (rest : Bytes) : (receiptContent walk outer major arg rest).toOption =
      (readContent (readStrict false levels) outer major arg rest).map (·.2) := by
  unfold receiptContent readContent
  -- One case for each major type, in the order of the source.
  by_cases h0 : major = 0
  · rw [if_pos h0, if_pos h0]
    rfl
  rw [if_neg h0, if_neg h0]
  by_cases h1 : major = 1
  · rw [if_pos h1, if_pos h1, require]
    by_cases bound : arg < 2 ^ 63
    · rw [if_pos bound, if_pos bound]
      rfl
    · rw [if_neg bound, if_neg bound]
      rfl
  rw [if_neg h1, if_neg h1]
  by_cases h2 : major = 2
  · rw [if_pos (Or.inl h2), if_pos h2]
    cases takeBytes arg rest with
    | none => rfl
    | some x =>
      simp only [require]
      rw [if_pos (fun h3 => absurd h3 (by omega))]
      rfl
  rw [if_neg h2]
  by_cases h3 : major = 3
  · rw [if_pos (Or.inr h3), if_pos h3]
    cases takeBytes arg rest with
    | none => rfl
    | some x =>
      cases text : Utf8.decode x.1 <;> simp [require, text, h3, raise, error_bind, toOption_error]
      rfl
  rw [if_neg (not_or.mpr ⟨h2, h3⟩), if_neg h3]
  by_cases h6 : major = 6
  · rw [if_pos h6, if_pos h6, require]
    by_cases isOuter : outer = true ∧ arg = 18
    · rw [if_pos isOuter, if_pos isOuter, ok_bind, follows]
      cases readStrict false levels rest <;> rfl
    · rw [if_neg isOuter, if_neg isOuter]
      rfl
  rw [if_neg h6, if_neg h6, require]
  by_cases enough : arg ≤ rest.length
  · rw [if_pos enough, if_neg (show ¬ rest.length < arg by omega), ok_bind]
    by_cases h4 : major = 4
    · rw [if_pos h4, if_pos h4, follows.items]
      cases readItems (readStrict false levels) arg rest <;> rfl
    · have fields := follows.fields (readStrict_reads false levels) arg []
        (List.forall_mem_nil _) rest
      rw [List.map_nil] at fields
      rw [if_neg h4, if_neg h4, fields]
      cases readFields (readStrict false levels) arg [] rest <;> rfl
  · rw [if_neg enough, if_pos (show rest.length < arg by omega)]
    rfl

/-- The walk follows the reader of strict items. -/
theorem receiptWalk_follows (levels : ℕ) (topTag : Bool) :
    Follows (receiptWalk levels · topTag)
      (readStrict (decide (levels = maxReceiptDepth + 1) && topTag) levels) := by
  induction levels generalizing topTag with
  | zero => exact fun data => rfl
  | succ left ih =>
    have inner : Follows (receiptWalk left · false) (readStrict false left) := by
      have := ih false
      rwa [Bool.and_false] at this
    intro data
    cases data with
    | nil => rfl
    | cons initial rest =>
      dsimp only
      rw [receiptWalk, readStrict]
      dsimp only
      by_cases h7 : initial.toNat / 32 = 7
      · rw [if_pos h7, if_pos h7, require, readSimple]
        split_ifs <;> simp_all <;> rfl
      rw [if_neg h7, if_neg h7, require]
      by_cases small : initial.toNat % 32 ≤ 27
      · have argument := receiptArgument_eq small rest
        rw [if_pos small, ok_bind, ← argument]
        cases receiptArgument (initial.toNat % 32) rest with
        | error e => rfl
        | ok r =>
          have content := receiptContent_follows inner (decide (left = maxReceiptDepth) && topTag)
            (initial.toNat / 32) r.1 r.2
          have same : decide (left + 1 = maxReceiptDepth + 1) = decide (left = maxReceiptDepth) := by simp
          obtain ⟨arg, rest⟩ := r
          rw [ok_bind, same]
          exact content
      · have nothing : readArgument (initial.toNat % 32) rest = none := by
          rw [readArgument, if_neg (by omega), if_neg small]
        rw [if_neg small, nothing]
        rfl

/-- The two classes a walk raises. -/
def Refuses {α : Type} (x : Py α) : Prop := ∀ e, x = .error e → e.kind = .valueError ∨ e.kind = .indexError

/-- A value refuses nothing. -/
lemma refuses_ok {α : Type} (a : α) : Refuses (.ok a : Py α) := nofun

/-- A value error refuses. -/
lemma refuses_value {α : Type} (text : String) : Refuses (raise .valueError text : Py α) := by
  intro e failed
  cases failed
  exact .inl rfl

/-- An index error refuses. -/
lemma refuses_index {α : Type} (text : String) : Refuses (raise .indexError text : Py α) := by
  intro e failed
  cases failed
  exact .inr rfl

/-- What follows a refusal refuses. -/
lemma Refuses.bind {α β : Type} {x : Py α} {f : α → Py β} (hx : Refuses x) (hf : ∀ a, Refuses (f a)) :
    Refuses (x >>= f) := by
  cases x with
  | error e => exact fun e' failed => hx e' (congrArg _ (Except.error.inj failed))
  | ok a => exact hf a

/-- A requirement refuses with a value error. -/
lemma refuses_require (cond : Prop) [Decidable cond] (text : String) :
    Refuses (require cond .valueError text) := by
  unfold require
  split
  · exact refuses_ok ()
  · exact refuses_value text

/-- A walk over items refuses only so. -/
lemma receiptItems_refuses {walk : Bytes → Py Bytes} (refuses : ∀ data, Refuses (walk data)) (count : ℕ)
    (data : Bytes) : Refuses (receiptItems walk count data) := by
  induction count generalizing data with
  | zero => exact refuses_ok data
  | succ count ih => exact (refuses data).bind ih

/-- A walk over fields refuses only so. -/
lemma receiptFields_refuses {walk : Bytes → Py Bytes} (refuses : ∀ data, Refuses (walk data)) (count : ℕ)
    (keys : List Bytes) (data : Bytes) : Refuses (receiptFields walk count keys data) := by
  induction count generalizing keys data with
  | zero => exact refuses_ok data
  | succ count ih =>
    cases data with
    | nil => exact refuses_index _
    | cons initial data =>
      refine (refuses_require _ _).bind fun _ => (refuses _).bind fun rest => ?_
      exact (refuses_require _ _).bind fun _ => (refuses _).bind fun rest => ih _ rest

/-- Reading an argument refuses only so. -/
lemma receiptArgument_refuses (info : ℕ) (rest : Bytes) : Refuses (receiptArgument info rest) := by
  unfold receiptArgument
  split
  · exact refuses_ok _
  · split
    · exact refuses_value _
    · exact (refuses_require _ _).bind fun _ => refuses_ok _

/-- Reading the content of an item refuses only so. -/
lemma receiptContent_refuses {walk : Bytes → Py Bytes} (refuses : ∀ data, Refuses (walk data)) (outer : Bool)
    (major arg : ℕ) (rest : Bytes) : Refuses (receiptContent walk outer major arg rest) := by
  unfold receiptContent
  split
  · exact refuses_ok _
  · split
    · exact (refuses_require _ _).bind fun _ => refuses_ok _
    · split
      · split
        · exact refuses_value _
        · exact (refuses_require _ _).bind fun _ => refuses_ok _
      · split
        · exact (refuses_require _ _).bind fun _ => refuses _
        · refine (refuses_require _ _).bind fun _ => ?_
          split
          · exact receiptItems_refuses refuses arg rest
          · exact receiptFields_refuses refuses arg [] rest

/-- A walk that fails raises `ReceiptEncodingError` or `IndexError`. -/
lemma receiptWalk_refuses (levels : ℕ) (data : Bytes) (topTag : Bool) :
    Refuses (receiptWalk levels data topTag) := by
  induction levels generalizing data topTag with
  | zero => exact refuses_value _
  | succ left ih =>
    cases data with
    | nil => exact refuses_index _
    | cons initial rest =>
      rw [receiptWalk]
      dsimp only
      split
      · exact (refuses_require _ _).bind fun _ => refuses_ok _
      · refine (refuses_require _ _).bind fun _ => (receiptArgument_refuses _ _).bind fun r => ?_
        exact receiptContent_refuses (fun data => ih data false) _ _ _ _

/-- The walk ends at the end of the data when the data is the encoding of a strict item. -/
lemma receiptWalk_eq_ok {data rest : Bytes} {topTag : Bool} :
    receiptWalk (maxReceiptDepth + 1) data topTag = .ok rest ↔
      ∃ v, Strict topTag (maxReceiptDepth + 1) v ∧ data = encode v ++ rest := by
  have follows := receiptWalk_follows (maxReceiptDepth + 1) topTag data
  have reads := readStrict_reads topTag (maxReceiptDepth + 1) data
  rw [decide_eq_true rfl, Bool.true_and] at follows
  dsimp only at follows
  constructor
  · intro walked
    rw [walked] at follows
    obtain ⟨⟨v, rest'⟩, read, rfl⟩ := Option.map_eq_some_iff.mp follows.symm
    exact ⟨v, (reads v rest').mp read⟩
  · rintro ⟨v, item⟩
    rw [(reads v rest).mpr item] at follows
    cases walked : receiptWalk (maxReceiptDepth + 1) data topTag with
    | error e =>
      rw [walked] at follows
      cases follows
    | ok rest' =>
      rw [walked] at follows
      exact congrArg Except.ok (Option.some.inj follows)

variable {cbor2 : Cbor2}

/-- What `receipt_item` returns is the item that the data is the encoding of. -/
theorem receiptItem_eq_ok (lawful : cbor2.Lawful) {data : Bytes} {topTag : Bool} {v : Cbor} :
    receiptItem cbor2 data topTag = .ok v ↔ Strict topTag (maxReceiptDepth + 1) v ∧ data = encode v := by
  constructor
  · intro ok
    unfold receiptItem at ok
    split at ok
    · split at ok <;> cases ok
    · cases ok
    · next walked =>
      obtain ⟨w, strict, rfl⟩ := receiptWalk_eq_ok.mp walked
      rw [List.append_nil, lawful.loads_encode w strict.plain strict.fits] at ok
      cases ok
      exact ⟨strict, List.append_nil _⟩
  · rintro ⟨strict, rfl⟩
    have walked := receiptWalk_eq_ok.mpr ⟨v, strict, (List.append_nil (encode v)).symm⟩
    rw [receiptItem, walked]
    dsimp only
    rw [lawful.loads_encode v strict.plain strict.fits]

/-- What is not the encoding of a strict item is refused with `ReceiptEncodingError`. -/
lemma receiptItem_refuses {data : Bytes} {topTag : Bool}
    (other : ¬ ∃ v, Strict topTag (maxReceiptDepth + 1) v ∧ data = encode v) :
    ∃ text, receiptItem cbor2 data topTag = raise .valueError text := by
  have refuses := receiptWalk_refuses (maxReceiptDepth + 1) data topTag
  unfold receiptItem
  split
  · next e failed =>
    split
    · exact ⟨_, rfl⟩
    · next notIndex =>
      obtain ⟨kind, text⟩ := e
      obtain rfl : kind = .valueError := (refuses _ failed).resolve_right notIndex
      exact ⟨text, rfl⟩
  · exact ⟨_, rfl⟩
  · next walked =>
    obtain ⟨v, strict, rfl⟩ := receiptWalk_eq_ok.mp walked
    exact absurd ⟨v, strict, List.append_nil _⟩ other

/-- What a walk leaves is the end of what it was given. -/
lemma suffix_of_walk {levels : ℕ} {data rest : Bytes} {topTag : Bool}
    (walked : receiptWalk levels data topTag = .ok rest) : rest <:+ data := by
  have follows := receiptWalk_follows levels topTag data
  dsimp only at follows
  rw [walked] at follows
  obtain ⟨⟨v, rest'⟩, read, rfl⟩ := Option.map_eq_some_iff.mp follows.symm
  rw [((readStrict_reads _ levels data v rest').mp read).2]
  exact List.suffix_append _ _

/-- `receipt_item` accepts the encodings of strict items, each as its item, and refuses every other byte
string; a walk ends inside the data, and only the order of fields tells two byte strings with equal maps
apart. -/
theorem receiptItem_exact (lawful : cbor2.Lawful) (topTag : Bool) :
    (∀ data v, receiptItem cbor2 data topTag = .ok v ↔
      Strict topTag (maxReceiptDepth + 1) v ∧ data = encode v) ∧
    (∀ data, (¬ ∃ v, receiptItem cbor2 data topTag = .ok v) →
      ∃ text, receiptItem cbor2 data topTag = raise .valueError text) ∧
    (∀ levels data rest, receiptWalk levels data topTag = .ok rest → rest <:+ data) ∧
    ∀ data data' v v', receiptItem cbor2 data topTag = .ok v → receiptItem cbor2 data' topTag = .ok v' →
      (v = v' → data = data') ∧ (v.canonical = v'.canonical → data.Perm data') := by
  refine ⟨fun data v => receiptItem_eq_ok lawful, ?_, fun levels data rest => suffix_of_walk, ?_⟩
  · intro data other
    refine receiptItem_refuses fun ⟨v, item⟩ => other ⟨v, (receiptItem_eq_ok lawful).mpr item⟩
  · intro data data' v v' ok ok'
    obtain ⟨-, rfl⟩ := (receiptItem_eq_ok lawful).mp ok
    obtain ⟨-, rfl⟩ := (receiptItem_eq_ok lawful).mp ok'
    refine ⟨congrArg encode, fun same => ?_⟩
    exact (encode_canonical_perm v).symm.trans (same ▸ encode_canonical_perm v')

/-- The protected header that names EdDSA. -/
theorem receiptItem_header :
    receiptItem referenceCbor2 [0xA1, 0x01, 0x27] false = .ok (.map [(.int 1, .int (-8))]) := by
  refine ((receiptItem_exact referenceCbor2_lawful false).1 _ _).mpr ⟨⟨by decide, by simp, ?_⟩, rfl⟩
  intro f mem
  obtain rfl := List.mem_singleton.mp mem
  exact ⟨trivial, ⟨by decide, by decide⟩, ⟨by decide, by decide⟩⟩

end CLL.Cbor
