import CLL.Lib.StrictCbor

/-!
# Encodings that are not the shortest

What a decoder of definite-length CBOR may have read an item from: heads of any width, and a tag that only
marks the data as CBOR passed over. `Loose.encode_eq` says that the shortest of these is the deterministic
encoding, and that no other is as short: re-encoding what was decoded and comparing lengths refuses the rest.
-/

namespace CLL.Cbor

/-- `h` is a head of any width. -/
def IsHead (major n : ℕ) (h : List UInt8) : Prop := readHead h = some (major, n, [])

/-- A head with few bytes is written for a small argument. -/
lemma length_head_le {n k : ℕ} (lt : n < least k) (hk : k < 4) (major : ℕ) :
    (head major n).length ≤ 2 ^ k := by
  unfold head
  interval_cases k <;> simp only [least] at lt <;> split_ifs <;> simp

/-- What a head is made of. -/
lemma IsHead.cases {major n : ℕ} {h : List UInt8} (isHead : IsHead major n h) :
    n < 2 ^ 64 ∧ major < 8 ∧ (head major n).length ≤ h.length ∧
      ((head major n).length = h.length → h = head major n) := by
  unfold IsHead at isHead
  cases h with
  | nil => cases isHead
  | cons initial b =>
    have byte := initial.toNat_lt
    simp only [readHead] at isHead
    split_ifs at isHead with short long
    · obtain ⟨rfl, rfl, rfl⟩ : initial.toNat / 32 = major ∧ initial.toNat % 32 = n ∧ b = [] := by
        simpa using isHead
      rw [head_of_short short]
      exact ⟨by omega, by omega, le_rfl, fun _ => rfl⟩
    · obtain ⟨⟨arg, rest⟩, taken, e⟩ := Option.bind_eq_some_iff.mp isHead
      obtain ⟨len, rfl⟩ := takeBytes_eq_some.mp taken
      obtain ⟨rfl, rfl, rfl⟩ : initial.toNat / 32 = major ∧ ofBigEndian arg = n ∧ rest = [] := by
        simpa using e
      obtain ⟨k, info⟩ : ∃ k, initial.toNat % 32 = 24 + k := ⟨initial.toNat % 32 - 24, by omega⟩
      have hk : k < 4 := by omega
      rw [info, Nat.add_sub_cancel_left] at len
      have lt := ofBigEndian_lt arg
      have width : arg.length ≤ 8 := by
        rw [len]
        exact Nat.pow_le_pow_right (n := 2) (j := 3) (by decide) (by omega)
      have bound := lt.trans_le (Nat.pow_le_pow_right (n := 256) (j := 8) (by decide) width)
      refine ⟨bound, by omega, ?_⟩
      rw [List.append_nil]
      by_cases ge : least k ≤ ofBigEndian arg
      · rw [head_of_long info hk len ge]
        exact ⟨le_rfl, fun _ => rfl⟩
      · have shorter := length_head_le (not_le.mp ge) hk (initial.toNat / 32)
        rw [List.length_cons, len]
        exact ⟨by omega, fun same => by omega⟩

/-- The tag that says that what follows is CBOR. -/
def selfDescribed : ℕ := 55799

/-- Any number of such tags. -/
def Marks (w : List UInt8) : Prop :=
  ∃ hs : List (List UInt8), w = hs.flatten ∧ ∀ h ∈ hs, IsHead 6 selfDescribed h

/-- What `P` holds of, behind such tags. -/
def Marked (P : List UInt8 → Prop) (b : List UInt8) : Prop := ∃ w c, Marks w ∧ b = w ++ c ∧ P c

/-- A head and content that `P` holds of. -/
def Headed (major n : ℕ) (P : List UInt8 → Prop) (b : List UInt8) : Prop :=
  ∃ h c, IsHead major n h ∧ b = h ++ c ∧ P c

mutual

/-- `b` is an encoding of the item of definite length. Nothing is said of floats and other objects. -/
def Loose : Cbor → List UInt8 → Prop
  | .null, b => Marked (· = [0xF6]) b
  | .bool false, b => Marked (· = [0xF4]) b
  | .bool true, b => Marked (· = [0xF5]) b
  | .int (.ofNat n), b => Marked (IsHead 0 n) b
  | .int (.negSucc n), b => Marked (IsHead 1 n) b
  | .float _, _ | .object _, _ => True
  | .bytes x, b => Marked (Headed 2 x.length (· = x)) b
  | .str s, b => Marked (fun c => ∃ x, Utf8.decode x = some s ∧ Headed 3 x.length (· = x) c) b
  | .array xs, b => Marked (Headed 4 xs.length (LooseItems xs)) b
  | .map fields, b =>
    Marked (Headed 5 fields.length (LooseFields fields)) b ∧ (fields.filterMap fun f => label? f.1).Nodup
  | .tag number v, b => Marked (Headed 6 number (Loose v)) b

def LooseItems : List Cbor → List UInt8 → Prop
  | [], b => b = []
  | x :: xs, b => ∃ c d, b = c ++ d ∧ Loose x c ∧ LooseItems xs d

def LooseFields : List (Cbor × Cbor) → List UInt8 → Prop
  | [], b => b = []
  | (k, v) :: fields, b => ∃ c d e, b = c ++ (d ++ e) ∧ Loose k c ∧ Loose v d ∧ LooseFields fields e

end

/-- What an encoding of any width says of the lengths in an item. -/
lemma Headed.lt {major n : ℕ} {P : List UInt8 → Prop} {b : List UInt8} (headed : Headed major n P b) : n < 2 ^ 64 := by
  obtain ⟨h, c, isHead, -⟩ := headed
  exact isHead.cases.1

/-- A text that is encoded fits. -/
lemma fitsText_of_loose {s : List ℕ} {b : List UInt8} (loose : Loose (.str s) b) : fitsText s = true := by
  obtain ⟨w, c, -, -, x, text, headed⟩ := loose
  exact fitsText_eq_true.mpr ⟨x, Utf8.encode_of_decode text, headed.lt⟩

/-- Every item is encoded. -/
lemma LooseItems.each {xs : List Cbor} {b : List UInt8} (loose : LooseItems xs b) {x : Cbor} (mem : x ∈ xs) :
    ∃ c, Loose x c := by
  induction xs generalizing b with
  | nil => cases mem
  | cons y xs ih =>
    obtain ⟨c, d, -, first, others⟩ := loose
    cases List.mem_cons.mp mem with
    | inl e => exact ⟨c, e ▸ first⟩
    | inr mem => exact ih others mem

/-- Every label and value is encoded. -/
lemma LooseFields.each {fields : List (Cbor × Cbor)} {b : List UInt8} (loose : LooseFields fields b)
    {f : Cbor × Cbor} (mem : f ∈ fields) : (∃ c, Loose f.1 c) ∧ ∃ c, Loose f.2 c := by
  induction fields generalizing b with
  | nil => cases mem
  | cons g fields ih =>
    obtain ⟨c, d, e, -, key, value, others⟩ := loose
    cases List.mem_cons.mp mem with
    | inl same => exact ⟨⟨c, same ▸ key⟩, d, same ▸ value⟩
    | inr mem => exact ih others mem

/-- Keys that are labels are as many labels. -/
lemma map_item_labels {fields : List (Cbor × Cbor)} (labels : ∀ f ∈ fields, ∃ l : Label, f.1 = l.item) :
    (fields.filterMap fun f => label? f.1).map Label.item = fields.map (·.1) := by
  induction fields with
  | nil => rfl
  | cons f fields ih =>
    obtain ⟨⟨l, isItem⟩, others⟩ := List.forall_mem_cons.mp labels
    have isLabel : label? f.1 = some l := label?_eq_some.mpr isItem
    rw [List.filterMap_cons, isLabel, List.map_cons, List.map_cons, ih others, isItem]

/-- A label is one of the known ones. -/
lemma IsLabel.label {k : Cbor} (isLabel : IsLabel k) : ∃ l : Label, k = l.item := by
  cases k with
  | int n => exact ⟨.int n, rfl⟩
  | str s => exact ⟨.str s, rfl⟩
  | _ => exact isLabel.elim

/-- A marked encoding is one. -/
lemma marked {P : List UInt8 → Prop} {b : List UInt8} (held : P b) : Marked P b :=
  ⟨[], b, ⟨[], rfl, nofun⟩, rfl, held⟩

/-- A head before its content. -/
lemma headed {P : List UInt8 → Prop} {major n : ℕ} {b : List UInt8} (hm : major < 8) (lt : n < 2 ^ 64)
    (held : P b) : Headed major n P (head major n ++ b) := by
  have isHead := readHead_head hm lt []
  rw [List.append_nil] at isHead
  exact ⟨head major n, b, isHead, rfl, held⟩

/-- Items are encoded one by one. -/
lemma looseItems {xs : List Cbor} (all : ∀ x ∈ xs, Loose x (encode x)) : LooseItems xs (encodeItems xs) := by
  induction xs with
  | nil => rfl
  | cons x xs ih =>
    obtain ⟨hx, hxs⟩ := List.forall_mem_cons.mp all
    rw [encodeItems]
    exact ⟨_, _, rfl, hx, ih hxs⟩

/-- Fields are encoded one by one. -/
lemma looseFields {fields : List (Cbor × Cbor)}
    (all : ∀ f ∈ fields, Loose f.1 (encode f.1) ∧ Loose f.2 (encode f.2)) :
    LooseFields fields (encodeFields fields) := by
  induction fields with
  | nil => rfl
  | cons f fields ih =>
    obtain ⟨⟨hk, hv⟩, others⟩ := List.forall_mem_cons.mp all
    rw [encodeFields]
    exact ⟨_, _, _, rfl, hk, hv, ih others⟩

/-- The deterministic encoding of a strict item is one of its encodings. -/
theorem loose_encode {tagged : Bool} {levels : ℕ} {v : Cbor} (strict : Strict tagged levels v) :
    Loose v (encode v) := by
  induction levels generalizing tagged v with
  | zero => exact strict.elim
  | succ levels ih =>
    cases v with
    | null => exact marked rfl
    | bool c => cases c <;> exact marked rfl
    | float x => exact strict.elim
    | object i => exact strict.elim
    | int n =>
      obtain ⟨ge, lt⟩ : -2 ^ 63 ≤ n ∧ n < 2 ^ 64 := strict
      cases n with
      | ofNat n =>
        rw [Int.ofNat_eq_natCast] at lt
        have isHead : IsHead 0 n (head 0 n ++ []) := readHead_head (by decide) (by omega) []
        rw [List.append_nil] at isHead
        rw [Int.ofNat_eq_natCast, encode_natCast (by omega)]
        exact marked isHead
      | negSucc n =>
        have isHead := readHead_head (by decide : 1 < 8) (by omega : n < 2 ^ 64) []
        rw [List.append_nil] at isHead
        rw [encode_negSucc (by omega)]
        exact marked isHead
    | bytes x =>
      rw [encode]
      exact marked (headed (by decide) strict rfl)
    | str s =>
      obtain ⟨x, written, lt⟩ := fitsText_eq_true.mp strict
      rw [encode, written, Option.getD_some]
      exact marked ⟨x, Utf8.decode_encode written, headed (by decide) lt rfl⟩
    | array xs =>
      rw [encode]
      exact marked (headed (by decide) strict.1 (looseItems fun x mem => ih (strict.2 x mem)))
    | map fields =>
      have all : ∀ f ∈ fields, Loose f.1 (encode f.1) ∧ Loose f.2 (encode f.2) :=
        fun f mem => ⟨ih (strict.2.2 f mem).2.1, ih (strict.2.2 f mem).2.2⟩
      have labels := map_item_labels fun f mem => (strict.2.2 f mem).1.label
      rw [encode]
      refine ⟨marked (headed (by decide) strict.1 (looseFields all)), ?_⟩
      exact List.Nodup.of_map Label.item (by rw [labels]; exact strict.2.1)
    | tag number value =>
      obtain ⟨rfl, rfl, inner⟩ := strict
      rw [encode]
      exact marked (headed (by decide) (by decide) (ih inner))

/-- `e` is the shortest of the strings that `P` holds of. -/
def Shortest (e : List UInt8) (P : List UInt8 → Prop) : Prop :=
  ∀ b, P b → e.length ≤ b.length ∧ (e.length = b.length → b = e)

/-- A marked shortest encoding is the shortest. -/
lemma Shortest.marked {e : List UInt8} {P : List UInt8 → Prop} (shortest : Shortest e P) :
    Shortest e (Marked P) := by
  rintro b ⟨w, c, -, rfl, held⟩
  obtain ⟨le, same⟩ := shortest c held
  rw [List.length_append]
  refine ⟨by omega, fun eq => ?_⟩
  obtain rfl : w = [] := List.length_eq_zero_iff.mp (by omega)
  rw [same (by simpa using eq), List.nil_append]

/-- The only encoding is the shortest. -/
lemma shortest_eq (e : List UInt8) : Shortest e (· = e) := by
  rintro b rfl
  exact ⟨le_rfl, fun _ => rfl⟩

/-- The canonical head is the shortest. -/
lemma shortest_head (major n : ℕ) : Shortest (head major n) (IsHead major n) :=
  fun _ isHead => isHead.cases.2.2

/-- A head before a shortest content is the shortest. -/
lemma Shortest.headed {e : List UInt8} {P : List UInt8 → Prop} (shortest : Shortest e P) (major n : ℕ) :
    Shortest (head major n ++ e) (Headed major n P) := by
  rintro b ⟨h, c, isHead, rfl, held⟩
  obtain ⟨le, same⟩ := shortest_head major n h isHead
  obtain ⟨le', same'⟩ := shortest c held
  rw [List.length_append, List.length_append]
  refine ⟨by omega, fun eq => ?_⟩
  rw [same (by omega), same' (by omega)]

/-- Shortest encodings one after the other are the shortest. -/
lemma Shortest.append {e e' : List UInt8} {P P' : List UInt8 → Prop} (first : Shortest e P)
    (second : Shortest e' P') : Shortest (e ++ e') fun b => ∃ c d, b = c ++ d ∧ P c ∧ P' d := by
  rintro b ⟨c, d, rfl, held, held'⟩
  obtain ⟨le, same⟩ := first c held
  obtain ⟨le', same'⟩ := second d held'
  rw [List.length_append, List.length_append]
  refine ⟨by omega, fun eq => ?_⟩
  rw [same (by omega), same' (by omega)]

/-- Shortest items are the shortest. -/
lemma shortest_items {xs : List Cbor} (all : ∀ x ∈ xs, Shortest (encode x) (Loose x)) :
    Shortest (encodeItems xs) (LooseItems xs) := by
  induction xs with
  | nil => exact shortest_eq []
  | cons x xs ih =>
    obtain ⟨hx, hxs⟩ := List.forall_mem_cons.mp all
    exact hx.append (ih hxs)

/-- Shortest fields are the shortest. -/
lemma shortest_fields {fields : List (Cbor × Cbor)}
    (all : ∀ f ∈ fields, Shortest (encode f.1) (Loose f.1) ∧ Shortest (encode f.2) (Loose f.2)) :
    Shortest (encodeFields fields) (LooseFields fields) := by
  induction fields with
  | nil => exact shortest_eq []
  | cons f fields ih =>
    obtain ⟨⟨hk, hv⟩, rest⟩ := List.forall_mem_cons.mp all
    have three := hk.append (hv.append (ih rest))
    rintro b ⟨c, d, e, rfl, held, held', held''⟩
    exact three _ ⟨c, d ++ e, rfl, held, d, e, rfl, held', held''⟩

/-- The deterministic encoding of a strict item is the shortest of its encodings. -/
theorem shortest_encode {tagged : Bool} {levels : ℕ} {v : Cbor} (strict : Strict tagged levels v) :
    Shortest (encode v) (Loose v) := by
  induction levels generalizing tagged v with
  | zero => exact strict.elim
  | succ levels ih =>
    cases v with
    | null => exact (shortest_eq _).marked
    | bool c =>
      cases c
      · exact (shortest_eq _).marked
      · exact (shortest_eq _).marked
    | float x => exact strict.elim
    | object i => exact strict.elim
    | int n =>
      obtain ⟨ge, lt⟩ : -2 ^ 63 ≤ n ∧ n < 2 ^ 64 := strict
      cases n with
      | ofNat n =>
        rw [Int.ofNat_eq_natCast] at lt
        have written := encode_natCast (n := n) (by omega)
        rw [← Int.ofNat_eq_natCast] at written
        rw [written]
        exact (shortest_head 0 n).marked
      | negSucc n =>
        rw [encode_negSucc (by omega)]
        exact (shortest_head 1 n).marked
    | bytes x =>
      rw [encode]
      exact ((shortest_eq x).headed 2 x.length).marked
    | str s =>
      obtain ⟨x, written, -⟩ := fitsText_eq_true.mp strict
      rw [encode, written, Option.getD_some]
      refine Shortest.marked ?_
      rintro b ⟨y, text, held⟩
      obtain rfl : x = y := Option.some.inj (written.symm.trans (Utf8.encode_of_decode text))
      exact (shortest_eq x).headed 3 x.length b held
    | array xs =>
      rw [encode]
      exact ((shortest_items fun x mem => ih (strict.2 x mem)).headed 4 xs.length).marked
    | map fields =>
      have all : ∀ f ∈ fields, Shortest (encode f.1) (Loose f.1) ∧ Shortest (encode f.2) (Loose f.2) :=
        fun f mem => ⟨ih (strict.2.2 f mem).2.1, ih (strict.2.2 f mem).2.2⟩
      rw [encode]
      -- The keys are distinct in either encoding, so only the lengths count.
      rintro b ⟨marked, -⟩
      exact ((shortest_fields all).headed 5 fields.length).marked b marked
    | tag number value =>
      obtain ⟨rfl, rfl, inner⟩ := strict
      rw [encode]
      exact ((ih inner).headed 6 18).marked

end CLL.Cbor
