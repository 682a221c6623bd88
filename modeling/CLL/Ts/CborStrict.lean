import CLL.Lib.StrictCbor
import CLL.Python.ReceiptItem
import CLL.Ts.Checkpoint

/-!
# The receipt encoding rule in TypeScript

`decodeReceiptItem` of `ts/src/cbor-strict.ts`, which decodes an item while it checks the rule.
`decodeReceiptItem_agrees` compares it with `receipt_item` in Python.
-/

namespace CLL.Ts
open Cbor

/-- `MAX_DEPTH`. -/
def maxDepth : ℕ := 16

/-- `COSE_SIGN1_TAG`. -/
def coseSign1Tag : ℕ := 18

/-- `throw new SyntaxError(message)`. -/
def syntaxError {α : Type} (message : String) : Js α := .error (.error message)

/-- `byte`: the byte at the offset. -/
def byte : Bytes → Js (UInt8 × Bytes)
  | [] => syntaxError "truncated CBOR"
  | value :: data => .ok (value, data)

/-- `take`. -/
def take (length : ℕ) (data : Bytes) : Js (Bytes × Bytes) :=
  if data.length < length then syntaxError "truncated CBOR"
  else .ok (data.take length, data.drop length)

/-- The `width` bytes of an argument, read into `value`. -/
def argumentBytes : ℕ → ℕ → Bytes → Js (ℕ × Bytes)
  | 0, value, data => .ok (value, data)
  | width + 1, value, data => do
    let (b, data) ← byte data
    argumentBytes width (value <<< 8 ||| b.toNat) data

/-- `argument`. -/
def argument (add : ℕ) (data : Bytes) : Js (ℕ × Bytes) :=
  if add < 24 then .ok (add, data)
  else
    match [1, 2, 4, 8][add - 24]? with
    | none => syntaxError "indefinite or reserved CBOR length"
    | some width => do
      let (value, data) ← argumentBytes width 0 data
      if value < [24, 2 ^ 8, 2 ^ 16, 2 ^ 32].getD (add - 24) 0 then
        syntaxError "CBOR argument is not in its shortest form"
      else .ok (value, data)

/-- `identity`: what tells the keys of a map apart. -/
def identity : Label → Str
  | .int n => 105 :: Json.dumpInt n
  | .str s => 116 :: stringify s

/-- `length` items. -/
def items (item : Bytes → Js (Cbor × Bytes)) : ℕ → Bytes → Js (List Cbor × Bytes)
  | 0, data => .ok ([], data)
  | length + 1, data => do
    let (x, data) ← item data
    let (out, data) ← items item length data
    .ok (x :: out, data)

/-- `length` entries, whose keys have other identities than the earlier `keys`. -/
def entries (item : Bytes → Js (Cbor × Bytes)) : ℕ → List Str → Bytes → Js (List (Cbor × Cbor) × Bytes)
  | 0, _, data => .ok ([], data)
  | length + 1, keys, data => do
    let (key, data) ← item data
    match label? key with
    | none => syntaxError "a map key that is not an integer or text"
    | some l =>
      if identity l ∈ keys then syntaxError "duplicate CBOR map key"
      else do
        let (value, data) ← item data
        let (out, data) ← entries item length (identity l :: keys) data
        .ok ((key, value) :: out, data)

/-- `item` behind an initial byte that is no simple value; `inner` decodes the items inside, `outer` is
`depth === 0 && topTag`. -/
def content (inner : Bytes → Js (Cbor × Bytes)) (outer : Bool) (major length : ℕ) (data : Bytes) :
    Js (Cbor × Bytes) :=
  if major = 0 then .ok (.int length, data)
  else if major = 1 then
    if -1 - (length : ℤ) < -2 ^ 63 then syntaxError "an integer below -2^63"
    else .ok (.int (-1 - (length : ℤ)), data)
  else if major = 2 then do
    let (value, data) ← take length data
    .ok (.bytes value, data)
  else if major = 3 then do
    let (text, data) ← take length data
    match Utf8.decode text with
    | some s => .ok (.str s, data)
    | none => .error (.error "The encoded data was not valid for encoding utf-8")
  else if major = 6 then
    if outer ∧ length = coseSign1Tag then do
      let (value, data) ← inner data
      .ok (.tag length value, data)
    else syntaxError "a tag other than the outer tag 18"
  else if data.length < length then syntaxError "truncated CBOR"
  else if major = 4 then do
    let (out, data) ← items inner length data
    .ok (.array out, data)
  else do
    let (out, data) ← entries inner length [] data
    .ok (.map out, data)

/-- `item`. `left` levels are left, that of the item among them, so the item stands at depth 0 when all but
its own are. -/
def item (topTag : Bool) : ℕ → Bytes → Js (Cbor × Bytes)
  | 0, _ => syntaxError "CBOR nesting too deep"
  | left + 1, data => do
    let (first, data) ← byte data
    let major := first.toNat / 32
    let add := first.toNat % 32
    if major = 7 then
      if add = 20 then .ok (.bool false, data)
      else if add = 21 then .ok (.bool true, data)
      else if add = 22 then .ok (.null, data)
      else syntaxError "a float or a simple value"
    else do
      let (length, data) ← argument add data
      content (item topTag left) (decide (left = maxDepth) && topTag) major length data

/-- `decodeReceiptItem`. -/
def decodeReceiptItem (data : Bytes) (topTag : Bool) : Js Cbor := do
  let (value, rest) ← item topTag (maxDepth + 1) data
  if rest = [] then .ok value else syntaxError "trailing CBOR bytes"

/-- A decoded text is written by `JSON.stringify` as Python writes it. -/
lemma escapeChar_eq_escape {c : ℕ} (scalar : Utf8.isScalar c = true) : escapeChar c = Json.escape c := by
  by_cases control : c < 32
  · have all : ∀ c < 32, escapeChar c = Json.escape c := by decide
    exact all c control
  · simp only [Utf8.isScalar, Bool.or_eq_true, Bool.and_eq_true, decide_eq_true_eq] at scalar
    unfold escapeChar Json.escape
    split_ifs <;> first | rfl | omega

/-- Texts of scalar values are equal where their JSON strings are. -/
lemma stringify_injective {s t : Str} (hs : ∀ c ∈ s, Utf8.isScalar c = true)
    (ht : ∀ c ∈ t, Utf8.isScalar c = true) (e : stringify s = stringify t) : s = t := by
  have same {u : Str} (scalar : ∀ c ∈ u, Utf8.isScalar c = true) : stringify u = 34 :: Json.dumpChars u := by
    rw [stringify, Json.dumpChars, List.flatMap_congr fun c mem => escapeChar_eq_escape (scalar c mem)]
  rw [same hs, same ht] at e
  have back := Json.scanString_dumpChars s []
  rw [(List.cons.inj e).2, Json.scanString_dumpChars] at back
  exact (congrArg Prod.fst (Option.some.inj back)).symm

/-- Numbers are equal where their texts are. -/
lemma dumpInt_injective : Function.Injective Json.dumpInt := by
  have digits (a b : ℕ) : 45 :: Decimal.text a ≠ Decimal.text b := by
    intro e
    have digit := Decimal.isDigit_text (n := b) (c := 45) (e ▸ List.mem_cons_self)
    exact absurd digit (by decide)
  have value {a b : ℕ} (e : Decimal.text a = Decimal.text b) : a = b := by
    rw [← Decimal.value_text a, e, Decimal.value_text]
  intro m n e
  unfold Json.dumpInt at e
  split_ifs at e with hm hn hn
  · have := value (List.cons.inj e).2
    omega
  · exact absurd e (digits _ _)
  · exact absurd e.symm (digits _ _)
  · have := value e
    omega

/-- Labels are equal where their identities are. -/
lemma identity_injective {l l' : Label} {levels levels' : ℕ} (strict : Strict false levels l.item)
    (strict' : Strict false levels' l'.item) (e : identity l = identity l') : l = l' := by
  have scalar {s : Str} {levels : ℕ} (text : Strict false levels (.str s)) : ∀ c ∈ s, Utf8.isScalar c = true := by
    cases levels with
    | zero => exact text.elim
    | succ levels =>
      obtain ⟨b, written, -⟩ := fitsText_eq_true.mp text
      exact Utf8.isScalar_of_encode written
  cases l with
  | int m =>
    cases l' with
    | int n => rw [dumpInt_injective (List.cons.inj e).2]
    | str t => exact absurd (List.cons.inj e).1 (by decide)
  | str s =>
    cases l' with
    | int n => exact absurd (List.cons.inj e).1 (by decide)
    | str t => rw [stringify_injective (scalar strict) (scalar strict') (List.cons.inj e).2]

/-- The value of a composition is that of its parts. -/
lemma toOption_bind {α β : Type} (x : Js α) (f : α → Js β) :
    (x >>= f).toOption = x.toOption.bind fun a => (f a).toOption := by
  cases x <;> rfl

/-- The bytes in front are taken as by the strict reader. -/
lemma take_toOption (length : ℕ) (data : Bytes) : (take length data).toOption = takeBytes length data := by
  unfold take takeBytes
  by_cases short : data.length < length
  · rw [if_pos short, if_neg (by omega)]
    rfl
  · rw [if_neg short, if_pos (by omega)]
    rfl

/-- The bytes of an argument are taken as by the strict reader. -/
lemma argumentBytes_toOption (width value : ℕ) (data : Bytes) :
    (argumentBytes width value data).toOption =
      (takeBytes width data).map fun r => (r.1.foldl (fun n x => 256 * n + x.toNat) value, r.2) := by
  induction width generalizing value data with
  | zero => rfl
  | succ width ih =>
    cases data with
    | nil => rfl
    | cons b data =>
      have shifted : value <<< 8 ||| b.toNat = 256 * value + b.toNat := by
        rw [← Nat.shiftLeft_add_eq_or_of_lt b.toNat_lt, Nat.shiftLeft_eq, mul_comm]
      rw [argumentBytes, byte, ok_bind]
      dsimp only
      rw [shifted, ih]
      by_cases enough : width ≤ data.length
      · simp [takeBytes, enough]
      · simp [takeBytes, enough]

/-- An argument is read as by the strict reader. -/
lemma argument_toOption (add : ℕ) (data : Bytes) : (argument add data).toOption = readArgument add data := by
  unfold argument readArgument
  by_cases short : add < 24
  · rw [if_pos short, if_pos short]
    rfl
  rw [if_neg short, if_neg short]
  by_cases long : add ≤ 27
  · rw [if_pos long]
    obtain ⟨k, rfl⟩ : ∃ k, add = 24 + k := ⟨add - 24, by omega⟩
    rw [Nat.add_sub_cancel_left]
    have hk : k < 4 := by omega
    have width : [1, 2, 4, 8][k]? = some (2 ^ k) := by interval_cases k <;> rfl
    have limit : [24, 2 ^ 8, 2 ^ 16, 2 ^ 32].getD k 0 = least k := by interval_cases k <;> rfl
    rw [width]
    dsimp only
    rw [toOption_bind, argumentBytes_toOption, limit, Option.bind_map]
    refine Option.bind_congr fun r _ => ?_
    change (if ofBigEndian r.1 < least k then
      syntaxError "CBOR argument is not in its shortest form" else Except.ok (ofBigEndian r.1, r.2)).toOption = _
    by_cases ge : least k ≤ ofBigEndian r.1
    · rw [if_neg (not_lt.mpr ge), if_pos ge]
      rfl
    · rw [if_pos (not_le.mp ge), if_neg ge]
      rfl
  · rw [if_neg long]
    have none : [1, 2, 4, 8][add - 24]? = none := List.getElem?_eq_none (by simp; omega)
    rw [none]
    rfl

/-- Items are read as by the strict reader. -/
lemma items_toOption {item : Bytes → Js (Cbor × Bytes)} {read : Bytes → Option (Cbor × Bytes)}
    (same : ∀ data, (item data).toOption = read data) (length : ℕ) (data : Bytes) :
    (items item length data).toOption = readItems read length data := by
  induction length generalizing data with
  | zero => rfl
  | succ length ih =>
    rw [items, readItems, toOption_bind, same]
    refine Option.bind_congr fun r _ => ?_
    rw [toOption_bind, ih]
    rfl

/-- Fields are read as by the strict reader. -/
lemma entries_toOption {item : Bytes → Js (Cbor × Bytes)} {read : Bytes → Option (Cbor × Bytes)}
    {levels : ℕ} (same : ∀ data, (item data).toOption = read data)
    (reads : Reads read (Strict false levels)) (length : ℕ) (keys : List Label)
    (strict : ∀ l ∈ keys, Strict false levels l.item) (data : Bytes) :
    (entries item length (keys.map identity) data).toOption = readFields read length keys data := by
  induction length generalizing keys data with
  | zero => rfl
  | succ length ih =>
    rw [entries, readFields, toOption_bind, same]
    refine Option.bind_congr fun r read => ?_
    have hk := ((reads _ _ _).mp read).1
    dsimp only
    cases label : label? r.1 with
    | none => rfl
    | some l =>
      rw [label?_eq_some.mp label] at hk
      have mem : identity l ∈ keys.map identity ↔ l ∈ keys := by
        constructor
        · intro mem
          obtain ⟨l', hl', e⟩ := List.mem_map.mp mem
          rw [← identity_injective (strict l' hl') hk e]
          exact hl'
        · exact fun mem => List.mem_map.mpr ⟨l, mem, rfl⟩
      simp only [Option.bind_eq_bind, Option.bind_some]
      by_cases old : l ∈ keys
      · rw [if_pos (mem.mpr old), if_pos old]
        rfl
      · rw [if_neg (mt mem.mp old), if_neg old, toOption_bind, same]
        refine Option.bind_congr fun s _ => ?_
        have others := ih (l :: keys) (List.forall_mem_cons.mpr ⟨hk, strict⟩) s.2
        rw [List.map_cons] at others
        rw [toOption_bind, others]
        rfl

/-- The content of an item is read as by the strict reader. -/
lemma content_toOption {inner : Bytes → Js (Cbor × Bytes)} {levels : ℕ}
    (same : ∀ data, (inner data).toOption = readStrict false levels data) (outer : Bool) (major length : ℕ)
    (data : Bytes) : (content inner outer major length data).toOption =
      readContent (readStrict false levels) outer major length data := by
  unfold content readContent
  by_cases h0 : major = 0
  · rw [if_pos h0, if_pos h0]
    rfl
  rw [if_neg h0, if_neg h0]
  by_cases h1 : major = 1
  · rw [if_pos h1, if_pos h1]
    by_cases bound : length < 2 ^ 63
    · have value : -1 - (length : ℤ) = Int.negSucc length := by omega
      rw [if_neg (by omega), if_pos bound, value]
      rfl
    · rw [if_pos (by omega), if_neg bound]
      rfl
  rw [if_neg h1, if_neg h1]
  by_cases h2 : major = 2
  · rw [if_pos h2, if_pos h2, toOption_bind, take_toOption]
    rfl
  rw [if_neg h2, if_neg h2]
  by_cases h3 : major = 3
  · rw [if_pos h3, if_pos h3, toOption_bind, take_toOption]
    refine Option.bind_congr fun r _ => ?_
    cases text : Utf8.decode r.1 <;> simp [text, Except.toOption]
  rw [if_neg h3, if_neg h3]
  by_cases h6 : major = 6
  · rw [if_pos h6, if_pos h6, coseSign1Tag]
    by_cases isOuter : outer = true ∧ length = 18
    · rw [if_pos isOuter, if_pos isOuter, toOption_bind, same, isOuter.2]
      rfl
    · rw [if_neg isOuter, if_neg isOuter]
      rfl
  rw [if_neg h6, if_neg h6]
  by_cases short : data.length < length
  · rw [if_pos short, if_pos short]
    rfl
  rw [if_neg short, if_neg short]
  by_cases h4 : major = 4
  · rw [if_pos h4, if_pos h4, toOption_bind, items_toOption same]
    rfl
  · have read := entries_toOption same (readStrict_reads false levels) length [] nofun data
    rw [List.map_nil] at read
    rw [if_neg h4, if_neg h4, toOption_bind, read]
    rfl

/-- The decoder reads strict items. -/
theorem item_toOption (topTag : Bool) (levels : ℕ) (small : levels ≤ maxDepth + 1) (data : Bytes) :
    (item topTag levels data).toOption = readStrict (decide (levels = maxDepth + 1) && topTag) levels data := by
  induction levels generalizing data with
  | zero => rfl
  | succ left ih =>
    have inner (data : Bytes) : (item topTag left data).toOption = readStrict false left data := by
      have below : decide (left = maxDepth + 1) = false := decide_eq_false (by omega)
      rw [ih (by omega), below, Bool.false_and]
    cases data with
    | nil => rfl
    | cons first data =>
      rw [item, byte, ok_bind, readStrict]
      dsimp only
      by_cases h7 : first.toNat / 32 = 7
      · rw [if_pos h7, if_pos h7, readSimple]
        split_ifs <;> rfl
      · have top : decide (left + 1 = maxDepth + 1) = decide (left = maxDepth) := by simp
        rw [if_neg h7, if_neg h7, toOption_bind, argument_toOption, top]
        exact Option.bind_congr fun r _ => content_toOption inner _ _ r.1 r.2

/-- What `decodeReceiptItem` returns is the item that the data is the encoding of. -/
theorem decodeReceiptItem_eq_ok {data : Bytes} {topTag : Bool} {v : Cbor} :
    decodeReceiptItem data topTag = .ok v ↔ Strict topTag (maxDepth + 1) v ∧ data = encode v := by
  have same := item_toOption topTag (maxDepth + 1) le_rfl data
  have reads := readStrict_reads topTag (maxDepth + 1) data
  rw [decide_eq_true rfl, Bool.true_and] at same
  unfold decodeReceiptItem
  constructor
  · intro ok
    obtain ⟨⟨w, rest⟩, read, ok⟩ := bind_eq_ok.mp ok
    dsimp only at ok
    split at ok
    · next whole =>
      cases ok
      rw [read] at same
      have item := (reads v rest).mp same.symm
      rwa [whole, List.append_nil] at item
    · cases ok
  · intro item
    have read := (reads v []).mpr (by rwa [List.append_nil])
    rw [← same] at read
    cases found : Ts.item topTag (maxDepth + 1) data with
    | error e =>
      rw [found] at read
      cases read
    | ok r =>
      rw [found] at read
      obtain rfl : r = (v, []) := Option.some.inj read
      rw [ok_bind]
      exact if_pos rfl

/-- Python and TypeScript accept the same bytes under the receipt encoding rule, as the same items. -/
theorem decodeReceiptItem_agrees {cbor2 : Cbor2} (lawful : cbor2.Lawful) (data : Bytes) (topTag : Bool)
    (v : Cbor) : receiptItem cbor2 data topTag = .ok v ↔ decodeReceiptItem data topTag = .ok v := by
  rw [receiptItem_eq_ok lawful, decodeReceiptItem_eq_ok]
  rfl

/-- A tagged array of a text and `null`. -/
theorem decodeReceiptItem_tagged :
    receiptItem referenceCbor2 [0xD2, 0x82, 0x61, 0x61, 0xF6] true =
      .ok (.tag 18 (.array [.str (Str.lit "a"), .null])) :=
  (decodeReceiptItem_agrees referenceCbor2_lawful _ _ _).mpr (by rfl)

end CLL.Ts
