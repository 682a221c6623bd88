import CLL.Lib.CanonicalJson
import Mathlib.Data.List.TakeWhile

/-!
# JSON in ASCII

The writer `json.dumps(value, separators=(",", ":"))`, whose text is ASCII, read back by `json.loads`.
The `portable` values are those that `json.loads` returns: numerals within the limit on digits, floats as
literals, distinct keys, and strings in which no two code points are the halves of a surrogate pair.
`loads_dumpsAscii` is the round trip, and `printable_of_mem_dumpsAscii` says that the text is printable,
so that it stays on one line whatever counts as the end of a line.
-/

namespace CLL.Json

/-- The first half of a surrogate pair. -/
def isHigh (c : ℕ) : Bool := 0xD800 ≤ c && c ≤ 0xDBFF

/-- The second half of a surrogate pair. -/
def isLow (c : ℕ) : Bool := 0xDC00 ≤ c && c ≤ 0xDFFF

/-- Code points of which no two stand for one. -/
def isText : List ℕ → Bool
  | [] => true
  | [c] => decide (c < 0x110000)
  | h :: l :: s => decide (h < 0x110000) && !(isHigh h && isLow l) && isText (l :: s)

/-- A literal that is read as a float. -/
def isFloat (literal : List ℕ) : Bool :=
  match (constant literal).or (number literal) with
  | some (.float t, []) => t == literal
  | _ => false

mutual

/-- The values that `json.loads` returns. -/
def portable : Json → Bool
  | .float literal => isFloat literal
  | .int n => (Decimal.text n.natAbs).length ≤ maxDigits
  | .str s => isText s
  | .arr xs => portableItems xs
  | .obj fields => decide (fields.map Prod.fst).Nodup && portableFields fields
  | .null | .bool _ => true

/-- `portable` for every item. -/
def portableItems : List Json → Bool
  | [] => true
  | x :: xs => portable x && portableItems xs

/-- `portable` for the key and the value of every field. -/
def portableFields : List (List ℕ × Json) → Bool
  | [] => true
  | (k, v) :: fields => isText k && (portable v && portableFields fields)

end

/-- The units that a code point is written as, marked where they are escapes by number. -/
def units (c : ℕ) : List (Bool × ℕ) :=
  if 0x10000 ≤ c then
    [(true, 0xD800 + (c - 0x10000) / 1024 % 1024), (true, 0xDC00 + (c - 0x10000) % 1024)]
  else [(decide (escapeAscii c = unicodeEscape c), c)]

/-- An escaped code unit is scanned back. -/
lemma scanUnits_unicodeEscape {u : ℕ} (lt : u < 0x10000) (s : List ℕ) :
    scanUnits (unicodeEscape u ++ s) = (scanUnits s).map fun (us, r) => ((true, u) :: us, r) := by
  have h3 := hexValue_hexDigit (show u / 4096 < 16 by omega)
  have h2 := hexValue_hexDigit (Nat.mod_lt (u / 256) (by norm_num : 0 < 16))
  have h1 := hexValue_hexDigit (Nat.mod_lt (u / 16) (by norm_num : 0 < 16))
  have h0 := hexValue_hexDigit (Nat.mod_lt u (by norm_num : 0 < 16))
  have sum : ((u / 4096 * 16 + u / 256 % 16) * 16 + u / 16 % 16) * 16 + u % 16 = u := by omega
  have value : hexValue4 (hexDigit (u / 4096)) (hexDigit (u / 256 % 16)) (hexDigit (u / 16 % 16))
      (hexDigit (u % 16)) = some u := by
    simp [hexValue4, h3, h2, h1, h0, sum]
  simp only [unicodeEscape, hex4, List.cons_append, List.nil_append]
  rw [scanUnits.eq_def]
  simp [value]

/-- The text of one code point is read back as its units. -/
lemma scanUnits_escapeAscii (c : ℕ) (s : List ℕ) (small : c < 0x110000) :
    scanUnits (escapeAscii c ++ s) = (scanUnits s).map fun (us, r) => (units c ++ us, r) := by
  by_cases astral : 0x10000 ≤ c
  · have hi : 0xD800 + (c - 0x10000) / 1024 % 1024 < 0x10000 := by omega
    have lo : 0xDC00 + (c - 0x10000) % 1024 < 0x10000 := by omega
    rw [escapeAscii_astral astral, List.append_assoc, scanUnits_unicodeEscape hi,
      scanUnits_unicodeEscape lo, units, if_pos astral, Option.map_map]
    rfl
  · rw [units, if_neg astral]
    by_cases numbered : escapeAscii c = unicodeEscape c
    · rw [numbered, scanUnits_unicodeEscape (by omega)]
      simp
    · have unmarked : decide (escapeAscii c = unicodeEscape c) = false := decide_eq_false numbered
      rw [unmarked]
      unfold escapeAscii at numbered ⊢
      split_ifs at numbered ⊢ with h1 h2 h3 h4 h5 h6 h7 h8 h9
      · rw [h1]; rfl
      · rw [h2]; rfl
      · rw [h3]; rfl
      · rw [h4]; rfl
      · rw [h5]; rfl
      · rw [h6]; rfl
      · rw [h7]; rfl
      · rw [List.singleton_append, scanUnits.eq_def]
        dsimp only
        rw [if_neg h2, if_neg (by omega), if_neg h1]
        rfl
      · exact absurd rfl numbered
      · exact absurd (Nat.not_lt.mp h9) astral

/-- A text in ASCII is scanned back into its code units. -/
lemma scanUnits_dumpAscii {s : List ℕ} (small : ∀ c ∈ s, c < 0x110000) (rest : List ℕ) :
    scanUnits (s.flatMap escapeAscii ++ 34 :: rest) = some (s.flatMap units, rest) := by
  induction s with
  | nil =>
    rw [List.flatMap_nil, List.nil_append, scanUnits.eq_def]
    dsimp only
    rw [if_pos rfl]
    rfl
  | cons c s ih =>
    have rest := ih fun d hd => small d (List.mem_cons_of_mem _ hd)
    rw [List.flatMap_cons, List.append_assoc, scanUnits_escapeAscii c _ (small c List.mem_cons_self),
      rest]
    rfl

/-- The characters of a text are code points. -/
lemma lt_of_isText {s : List ℕ} (text : isText s = true) : ∀ c ∈ s, c < 0x110000 := by
  induction s with
  | nil => simp
  | cons h s ih =>
    cases s with
    | nil =>
      intro c hc
      rw [List.mem_singleton.mp hc]
      exact of_decide_eq_true text
    | cons l s =>
      simp only [isText, Bool.and_eq_true, decide_eq_true_eq] at text
      intro c hc
      cases hc with
      | head => exact text.1.1
      | tail _ hc => exact ih text.2 c hc

/-- The rest of a text is a text. -/
lemma isText_tail {c : ℕ} {s : List ℕ} (text : isText (c :: s) = true) : isText s = true := by
  cases s with
  | nil => rfl
  | cons d s =>
    simp only [isText, Bool.and_eq_true] at text
    exact text.2

/-- A code point whose one unit is not the first half of a pair stands for itself. -/
lemma joinPairs_cons {e : Bool} {c : ℕ} {us : List (Bool × ℕ)}
    (apart : ∀ u ∈ us.head?, ¬(isHigh c = true ∧ isLow u.2 = true)) :
    joinPairs ((e, c) :: us) = c :: joinPairs us := by
  cases us with
  | nil => rfl
  | cons u us =>
    have apart := apart u rfl
    simp only [isHigh, isLow, Bool.and_eq_true, decide_eq_true_eq] at apart
    rw [joinPairs, if_neg]
    rintro ⟨-, -, h1, h2, h3, h4⟩
    exact apart ⟨⟨h1, h2⟩, h3, h4⟩

/-- The first unit of a code point is low only if the code point is. -/
lemma isLow_head_units {c : ℕ} {us : List (Bool × ℕ)} {u : Bool × ℕ} (hu : u ∈ (units c ++ us).head?)
    (low : isLow u.2 = true) : isLow c = true := by
  unfold units at hu
  split at hu
  · cases hu
    simp only [isLow, Bool.and_eq_true, decide_eq_true_eq] at low
    omega
  · cases hu
    exact low

/-- The units of a text join into the text. -/
lemma joinPairs_units {s : List ℕ} (text : isText s = true) : joinPairs (s.flatMap units) = s := by
  induction s with
  | nil => rfl
  | cons c s ih =>
    have ih := ih (isText_tail text)
    have small := lt_of_isText text c List.mem_cons_self
    rw [List.flatMap_cons]
    by_cases astral : 0x10000 ≤ c
    · have sum : 0x10000 + (c - 0x10000) / 1024 % 1024 * 1024 + (c - 0x10000) % 1024 = c := by omega
      have hi : (c - 0x10000) / 1024 % 1024 < 1024 := Nat.mod_lt _ (by norm_num)
      have lo : (c - 0x10000) % 1024 < 1024 := Nat.mod_lt _ (by norm_num)
      rw [units, if_pos astral, List.cons_append, List.singleton_append, joinPairs, if_pos, ih,
        Nat.add_sub_cancel_left, Nat.add_sub_cancel_left, sum]
      exact ⟨rfl, rfl, by omega, by omega, by omega, by omega⟩
    · rw [units, if_neg astral, List.singleton_append, joinPairs_cons, ih]
      intro u hu pair
      cases s with
      | nil => cases hu
      | cons d s =>
        simp only [isText, Bool.and_eq_true, Bool.not_eq_true', Bool.and_eq_false_iff] at text
        have low := isLow_head_units hu pair.2
        cases text.1.2 with
        | inl h => rw [pair.1] at h; cases h
        | inr h => rw [low] at h; cases h

/-- A string in ASCII is scanned back. -/
lemma scanString_dumpAscii {s : List ℕ} (text : isText s = true) (rest : List ℕ) :
    scanString (s.flatMap escapeAscii ++ 34 :: rest) = some (s, rest) := by
  rw [scanString, scanUnits_dumpAscii (lt_of_isText text), Option.map_some]
  dsimp only
  rw [joinPairs_units text]

/-- Where no text after it continues a run, the run is cut as without that text. -/
lemma span_append {p : ℕ → Bool} (t : List ℕ) {rest : List ℕ} (stop : ∀ c ∈ rest.head?, p c = false) :
    (t ++ rest).takeWhile p = t.takeWhile p ∧ (t ++ rest).dropWhile p = t.dropWhile p ++ rest := by
  induction t with
  | nil =>
    cases rest with
    | nil => simp
    | cons c rest => simp [stop c rfl]
  | cons c t ih =>
    by_cases hc : p c = true
    · simp [hc, ih]
    · simp [hc]

/-- What closes a value does not begin with a digit. -/
lemma Closing.not_digit {rest : List ℕ} (closing : Closing rest) :
    ∀ c ∈ rest.head?, Decimal.isDigit c = false := by
  intro c hc
  rcases closing c hc with rfl | rfl | rfl <;> rfl

/-- The whole part of a number ends where the value closes. -/
lemma Closing.intPart_append {rest : List ℕ} (closing : Closing rest) {s d r : List ℕ}
    (read : intPart s = some (d, r)) : intPart (s ++ rest) = some (d, r ++ rest) := by
  cases s with
  | nil => cases read
  | cons c s =>
    obtain ⟨take, drop⟩ := span_append s closing.not_digit
    unfold intPart at read ⊢
    dsimp only [List.cons_append] at read ⊢
    split at read
    · rename_i zero
      cases read
      rw [if_pos zero]
    · rename_i zero
      split at read
      · rename_i range
        cases read
        rw [if_neg zero, if_pos range, take, drop]
      · cases read

/-- The fraction of a number ends where the value closes. -/
lemma Closing.fraction_append {rest : List ℕ} (closing : Closing rest) (r : List ℕ) :
    fraction (r ++ rest) = ((fraction r).1, (fraction r).2 ++ rest) := by
  by_cases dot : ∃ c s, r = 46 :: c :: s
  · obtain ⟨c, s, rfl⟩ := dot
    obtain ⟨take, drop⟩ := span_append (c :: s) closing.not_digit
    rw [List.cons_append] at take drop
    simp only [List.cons_append, fraction]
    split
    · rw [take, drop]
    · rfl
  · have own : fraction r = ([], r) := by
      unfold fraction
      split
      · rename_i c s
        exact absurd ⟨c, s, rfl⟩ dot
      · rfl
    rw [own]
    unfold fraction
    split
    · rename_i c s e
      cases r with
      | nil => exact absurd (closing 46 (by rw [List.nil_append] at e; rw [e]; rfl)) (by decide)
      | cons a r =>
        cases r with
        | nil =>
          obtain ⟨rfl, tail⟩ := List.cons.inj e
          have tail : rest = c :: s := tail
          have stop := closing.not_digit c (by rw [tail]; rfl)
          rw [stop, tail]
          rfl
        | cons b r =>
          obtain ⟨rfl, -⟩ := List.cons.inj e
          exact absurd ⟨b, r, rfl⟩ dot
    · rfl

/-- The sign of an exponent ends where the value closes. -/
lemma Closing.signPart_append {rest : List ℕ} (closing : Closing rest) (s : List ℕ) :
    signPart (s ++ rest) = ((signPart s).1, (signPart s).2 ++ rest) := by
  cases s with
  | nil =>
    cases rest with
    | nil => rfl
    | cons c rest => rcases closing c rfl with rfl | rfl | rfl <;> rfl
  | cons c s =>
    simp only [List.cons_append, signPart]
    split <;> rfl

/-- The exponent of a number ends where the value closes. -/
lemma Closing.exponent_append {rest : List ℕ} (closing : Closing rest) (r : List ℕ) :
    exponent (r ++ rest) = ((exponent r).1, (exponent r).2 ++ rest) := by
  cases r with
  | nil => rw [List.nil_append, closing.exponent_eq]; rfl
  | cons c s =>
    obtain ⟨take, drop⟩ := span_append (signPart s).2 closing.not_digit
    simp only [List.cons_append, exponent, closing.signPart_append, take, drop]
    split <;> rfl

/-- A number is read as without the text that closes it. -/
lemma Closing.unsignedNumber_append {rest : List ℕ} (closing : Closing rest) {negative : Bool}
    {s r : List ℕ} {j : Json} (read : unsignedNumber negative s = some (j, r)) :
    unsignedNumber negative (s ++ rest) = some (j, r ++ rest) := by
  obtain ⟨⟨d, t⟩, int, read⟩ := Option.bind_eq_some_iff.mp read
  rw [unsignedNumber, closing.intPart_append int, Option.bind_some]
  dsimp only at read ⊢
  rw [closing.fraction_append, closing.exponent_append]
  dsimp only
  split at read
  · rename_i whole
    rw [if_pos whole]
    split at read
    · rename_i short
      cases read
      rw [if_pos short]
    · cases read
  · rename_i parts
    rw [if_neg parts]
    cases read
    rfl

/-- A number begins with a digit, after its sign. -/
lemma intPart_head {s d r : List ℕ} (read : intPart s = some (d, r)) :
    ∃ c t, s = c :: t ∧ 48 ≤ c ∧ c ≤ 57 := by
  cases s with
  | nil => cases read
  | cons c s =>
    unfold intPart at read
    dsimp only at read
    split at read
    · rename_i zero
      exact ⟨c, s, rfl, by omega, by omega⟩
    · split at read
      · rename_i range
        exact ⟨c, s, rfl, by omega, by omega⟩
      · cases read

/-- A literal of a float is read as that float, whatever closes it. -/
lemma Closing.float_append {rest : List ℕ} (closing : Closing rest) {l : List ℕ}
    (float : isFloat l = true) : (constant (l ++ rest)).or (number (l ++ rest)) =
      some (.float l, rest) := by
  unfold isFloat at float
  split at float
  · rename_i t read
    obtain rfl : t = l := by simpa using float
    cases e : constant t with
    | some found =>
      rw [e, Option.some_or] at read
      cases read
      obtain ⟨⟨word, j⟩, mem, hit⟩ := List.exists_of_findSome?_eq_some e
      obtain ⟨r, hit, e⟩ := Option.map_eq_some_iff.mp hit
      cases e
      simp only [constants, List.mem_cons, Prod.mk.injEq, reduceCtorEq, and_false, Json.float.injEq,
        List.not_mem_nil, or_false, false_or] at mem
      rcases mem with ⟨-, rfl⟩ | ⟨-, rfl⟩ | ⟨-, rfl⟩
      all_goals simp [constant, constants, after]
    | none =>
      rw [e, Option.none_or] at read
      have sign : ∃ negative s, t = (if negative = true then [45] else []) ++ s ∧
          unsignedNumber negative s = some (.float t, []) ∧
          ∀ rest, number (t ++ rest) = unsignedNumber negative (s ++ rest) := by
        unfold number at read
        split at read
        · rename_i s
          exact ⟨true, s, rfl, read, fun _ => rfl⟩
        · rename_i minus
          refine ⟨false, t, rfl, read, fun rest => ?_⟩
          unfold number
          split
          · rename_i s e
            obtain ⟨d, int, -⟩ := Option.bind_eq_some_iff.mp read
            obtain ⟨c, u, rfl, low, -⟩ := intPart_head int
            cases e
            omega
          · rfl
      obtain ⟨negative, s, e, read, grow⟩ := sign
      obtain ⟨d, int, -⟩ := Option.bind_eq_some_iff.mp read
      obtain ⟨c, u, rfl, digit⟩ := intPart_head int
      have none : constant (t ++ rest) = none := by
        rw [e]
        cases negative with
        | true => exact constant_of_number (.inl rfl) fun _ => ⟨c, u ++ rest, rfl, digit⟩
        | false => exact constant_of_number (.inr digit) fun minus => by omega
      rw [none, Option.none_or, grow, closing.unsignedNumber_append read]
      rfl
  · cases float

/-- The first text comes before the comma. -/
lemma commas_cons (t : List ℕ) (texts : List (List ℕ)) :
    commas (t :: texts) = t ++ texts.flatMap (44 :: ·) := by
  induction texts generalizing t with
  | nil => simp [commas]
  | cons u texts ih =>
    have step : commas (t :: u :: texts) = t ++ 44 :: commas (u :: texts) := by
      simp [commas, List.intersperse]
    rw [step, ih, List.flatMap_cons]
    rfl

/-- The text after the first item, up to and with the closing bracket. -/
def moreItems (xs : List Json) (rest : List ℕ) : List ℕ :=
  (dumpsItems xs).flatMap (44 :: ·) ++ 93 :: rest

/-- The text after the first field, up to and with the closing brace. -/
def moreFields (fields : List (List ℕ × Json)) (rest : List ℕ) : List ℕ :=
  (dumpsFields fields).flatMap (44 :: ·) ++ 125 :: rest

/-- A further item is written after a comma. -/
lemma moreItems_cons (x : Json) (xs : List Json) (rest : List ℕ) :
    moreItems (x :: xs) rest = 44 :: (dumpsAscii x ++ moreItems xs rest) := by
  simp [moreItems, dumpsItems]

/-- A further field is written after a comma. -/
lemma moreFields_cons (k : List ℕ) (v : Json) (fields : List (List ℕ × Json)) (rest : List ℕ) :
    moreFields ((k, v) :: fields) rest =
      44 :: 34 :: (k.flatMap escapeAscii ++ 34 :: 58 :: (dumpsAscii v ++ moreFields fields rest)) := by
  simp [moreFields, dumpsFields, dumpAscii]

/-- Further items close the item before them. -/
lemma closing_moreItems (xs : List Json) (rest : List ℕ) : Closing (moreItems xs rest) := by
  intro c hc
  cases xs with
  | nil => cases hc; simp
  | cons x xs => rw [moreItems_cons] at hc; cases hc; simp

/-- Further fields close the field before them. -/
lemma closing_moreFields (fields : List (List ℕ × Json)) (rest : List ℕ) :
    Closing (moreFields fields rest) := by
  intro c hc
  cases fields with
  | nil => cases hc; simp
  | cons f fields => rw [moreFields_cons] at hc; cases hc; simp

/-- An array is written item by item. -/
lemma dumpsAscii_arr_cons (x : Json) (xs : List Json) (rest : List ℕ) :
    dumpsAscii (.arr (x :: xs)) ++ rest = 91 :: (dumpsAscii x ++ moreItems xs rest) := by
  simp [dumpsAscii, dumpsItems, commas_cons, moreItems]

/-- An object is written field by field. -/
lemma dumpsAscii_obj_cons (k : List ℕ) (v : Json) (fields : List (List ℕ × Json)) (rest : List ℕ) :
    dumpsAscii (.obj ((k, v) :: fields)) ++ rest =
      123 :: 34 :: (k.flatMap escapeAscii ++ 34 :: 58 :: (dumpsAscii v ++ moreFields fields rest)) := by
  simp [dumpsAscii, dumpsFields, commas_cons, moreFields, dumpAscii]

/-- The first code point of a float literal. -/
lemma isFloat_head {l : List ℕ} (float : isFloat l = true) :
    ∃ c t, l = c :: t ∧ (c = 45 ∨ c = 73 ∨ c = 78 ∨ 48 ≤ c ∧ c ≤ 57) := by
  unfold isFloat at float
  split at float
  · rename_i t read
    obtain rfl : t = l := by simpa using float
    cases e : constant t with
    | some found =>
      rw [e, Option.some_or] at read
      cases read
      obtain ⟨⟨word, j⟩, mem, hit⟩ := List.exists_of_findSome?_eq_some e
      obtain ⟨r, hit, e⟩ := Option.map_eq_some_iff.mp hit
      cases e
      simp only [constants, List.mem_cons, Prod.mk.injEq, reduceCtorEq, and_false, Json.float.injEq,
        List.not_mem_nil, or_false, false_or] at mem
      rcases mem with ⟨-, rfl⟩ | ⟨-, rfl⟩ | ⟨-, rfl⟩
      · exact ⟨_, _, rfl, by omega⟩
      · exact ⟨_, _, rfl, by omega⟩
      · exact ⟨_, _, rfl, by omega⟩
    | none =>
      rw [e, Option.none_or] at read
      unfold number at read
      split at read
      · exact ⟨_, _, rfl, .inl rfl⟩
      · obtain ⟨d, int, -⟩ := Option.bind_eq_some_iff.mp read
        obtain ⟨c, u, rfl, digit⟩ := intPart_head int
        exact ⟨c, u, rfl, .inr (.inr (.inr digit))⟩
  · cases float

/-- A value begins with a code point that ends nothing and that no whitespace skips. -/
lemma dumpsAscii_head {j : Json} (ok : portable j = true) :
    ∃ c t, dumpsAscii j = c :: t ∧ isSpace c = false ∧ c ≠ 93 ∧ c ≠ 125 := by
  have ink {c : ℕ} (ge : 33 ≤ c) : isSpace c = false := by
    simp only [isSpace, Bool.or_eq_false_iff, beq_eq_false_iff_ne]
    omega
  cases j with
  | null => exact ⟨_, _, rfl, by decide, by decide, by decide⟩
  | bool b => cases b <;> exact ⟨_, _, rfl, by decide, by decide, by decide⟩
  | int n =>
    obtain ⟨c, t, e, range, -⟩ := dumpInt_head n
    exact ⟨c, t, by rw [dumpsAscii, e], ink (by omega), by omega, by omega⟩
  | float literal =>
    obtain ⟨c, t, e, range⟩ := isFloat_head ok
    exact ⟨c, t, by rw [dumpsAscii, e], ink (by omega), by omega, by omega⟩
  | str s => exact ⟨_, _, by rw [dumpsAscii, dumpAscii], by decide, by decide, by decide⟩
  | arr xs => exact ⟨_, _, by rw [dumpsAscii], by decide, by decide, by decide⟩
  | obj fields => exact ⟨_, _, by rw [dumpsAscii], by decide, by decide, by decide⟩

/-- No space is written before a value. -/
lemma skipSpace_dumpsAscii {j : Json} (ok : portable j = true) (rest : List ℕ) :
    skipSpace (dumpsAscii j ++ rest) = dumpsAscii j ++ rest := by
  obtain ⟨c, t, e, ink, -, -⟩ := dumpsAscii_head ok
  rw [e, List.cons_append, skipSpace_cons ink]

mutual

/-- A written value followed by anything that closes it is read back. -/
theorem scanValue_dumpsAscii : ∀ (j : Json) (fuel : ℕ) (rest : List ℕ), portable j = true →
    Closing rest → (dumpsAscii j ++ rest).length ≤ fuel →
      scanValue fuel (dumpsAscii j ++ rest) = some (j, rest)
  | j, 0, rest, ok, _, enough => by
    obtain ⟨c, t, e, -⟩ := dumpsAscii_head ok
    rw [e] at enough
    cases enough
  | .null, fuel + 1, rest, _, _, _ => by
    simp [dumpsAscii, scanValue, constant, constants, after]
  | .bool true, fuel + 1, rest, _, _, _ => by
    simp [dumpsAscii, scanValue, constant, constants, after]
  | .bool false, fuel + 1, rest, _, _, _ => by
    simp [dumpsAscii, scanValue, constant, constants, after]
  | .int n, fuel + 1, rest, ok, closing, _ => by
    obtain ⟨c, t, e, range, -⟩ := dumpInt_head n
    have constant := constant_dumpInt n rest
    have number := number_dumpInt closing (of_decide_eq_true ok)
    rw [dumpsAscii]
    rw [e, List.cons_append] at constant number ⊢
    rw [scanValue, if_neg (by omega), if_neg (by omega), if_neg (by omega), constant, number]
    rfl
  | .float literal, fuel + 1, rest, ok, closing, _ => by
    obtain ⟨c, t, e, range⟩ := isFloat_head ok
    have read := closing.float_append (l := literal) ok
    rw [dumpsAscii]
    rw [e, List.cons_append] at read ⊢
    rw [scanValue, if_neg (by omega), if_neg (by omega), if_neg (by omega), read]
  | .str s, fuel + 1, rest, ok, _, _ => by
    rw [dumpsAscii, dumpAscii, List.cons_append, List.append_assoc, List.singleton_append, scanValue,
      if_pos rfl, scanString_dumpAscii ok]
    rfl
  | .arr [], fuel + 1, rest, _, _, _ => by
    simp [dumpsAscii, dumpsItems, commas, scanValue, skipSpace, isSpace]
  -- The first item, then the others up to the bracket that closes them.
  | .arr (x :: xs), fuel + 1, rest, ok, _, enough => by
    rw [portable, portableItems, Bool.and_eq_true] at ok
    obtain ⟨c, t, e, -, ne, -⟩ := dumpsAscii_head ok.1
    rw [dumpsAscii_arr_cons] at enough ⊢
    simp only [List.length_cons, List.length_append] at enough
    have first := scanValue_dumpsAscii x fuel _ ok.1 (closing_moreItems xs rest)
      (by rw [List.length_append]; omega)
    have others := scanItems_moreItems xs fuel rest ok.2 (by omega)
    rw [scanValue, if_neg (by decide), if_pos rfl, skipSpace_dumpsAscii ok.1]
    rw [e, List.cons_append] at first ⊢
    dsimp only
    rw [if_neg ne, first, Option.bind_some]
    dsimp only
    rw [others]
    rfl
  | .obj [], fuel + 1, rest, _, _, _ => by
    simp [dumpsAscii, dumpsFields, commas, scanValue, skipSpace, isSpace]
  -- The first field, then the others up to the brace that closes them.
  | .obj ((k, v) :: fields), fuel + 1, rest, ok, _, enough => by
    rw [portable, portableFields, Bool.and_eq_true, Bool.and_eq_true, Bool.and_eq_true,
      decide_eq_true_eq] at ok
    rw [dumpsAscii_obj_cons] at enough ⊢
    simp only [List.length_cons, List.length_append] at enough
    have first := scanField_dumpAscii k v fuel _ ok.2.1 ok.2.2.1 (closing_moreFields fields rest)
      (by rw [List.length_append]; omega)
    have others := scanFields_moreFields fields fuel rest ok.2.2.2 (by omega)
    rw [scanValue, if_neg (by decide), if_neg (by decide), if_pos rfl, skipSpace_cons (by decide)]
    dsimp only
    rw [if_neg (by decide), first, Option.bind_some, others, Option.map_some, collect_eq ok.1]

/-- The items after the first are read back. -/
theorem scanItems_moreItems : ∀ (xs : List Json) (fuel : ℕ) (rest : List ℕ),
    portableItems xs = true → (moreItems xs rest).length ≤ fuel →
      scanItems fuel (moreItems xs rest) = some (xs, rest)
  | [], 0, _, _, enough => by cases enough
  | x :: xs, 0, rest, _, enough => by
    rw [moreItems_cons] at enough
    cases enough
  | [], fuel + 1, rest, _, _ => by
    rw [moreItems, dumpsItems, List.flatMap_nil, List.nil_append, scanItems,
      skipSpace_cons (by decide)]
    rfl
  | x :: xs, fuel + 1, rest, ok, enough => by
    rw [portableItems, Bool.and_eq_true] at ok
    rw [moreItems_cons] at enough ⊢
    simp only [List.length_cons, List.length_append] at enough
    have first := scanValue_dumpsAscii x fuel _ ok.1 (closing_moreItems xs rest)
      (by rw [List.length_append]; omega)
    have others := scanItems_moreItems xs fuel rest ok.2 (by omega)
    rw [scanItems, skipSpace_cons (by decide)]
    dsimp only
    rw [if_neg (by decide), if_pos rfl, skipSpace_dumpsAscii ok.1, first, Option.bind_some]
    dsimp only
    rw [others]
    rfl

/-- One field is read back. -/
theorem scanField_dumpAscii : ∀ (k : List ℕ) (v : Json) (fuel : ℕ) (rest : List ℕ),
    isText k = true → portable v = true → Closing rest → (dumpsAscii v ++ rest).length + 1 ≤ fuel →
      scanField fuel (34 :: (k.flatMap escapeAscii ++ 34 :: 58 :: (dumpsAscii v ++ rest))) =
        some ((k, v), rest)
  | _, _, 0, _, _, _, _, enough => by cases enough
  | k, v, fuel + 1, rest, text, ok, closing, enough => by
    have value := scanValue_dumpsAscii v fuel _ ok closing (by omega)
    rw [scanField, if_pos rfl, scanString_dumpAscii text, Option.bind_some]
    dsimp only
    rw [skipSpace_cons (by decide)]
    dsimp only
    rw [if_pos rfl, skipSpace_dumpsAscii ok, value]
    rfl

/-- The fields after the first are read back. -/
theorem scanFields_moreFields : ∀ (fields : List (List ℕ × Json)) (fuel : ℕ) (rest : List ℕ),
    portableFields fields = true → (moreFields fields rest).length ≤ fuel →
      scanFields fuel (moreFields fields rest) = some (fields, rest)
  | [], 0, _, _, enough => by cases enough
  | (k, v) :: fields, 0, rest, _, enough => by
    rw [moreFields_cons] at enough
    cases enough
  | [], fuel + 1, rest, _, _ => by
    rw [moreFields, dumpsFields, List.flatMap_nil, List.nil_append, scanFields,
      skipSpace_cons (by decide)]
    rfl
  | (k, v) :: fields, fuel + 1, rest, ok, enough => by
    rw [portableFields, Bool.and_eq_true, Bool.and_eq_true] at ok
    rw [moreFields_cons] at enough ⊢
    simp only [List.length_cons, List.length_append] at enough
    have first := scanField_dumpAscii k v fuel _ ok.1 ok.2.1 (closing_moreFields fields rest)
      (by rw [List.length_append]; omega)
    have others := scanFields_moreFields fields fuel rest ok.2.2 (by omega)
    rw [scanFields, skipSpace_cons (by decide)]
    dsimp only
    rw [if_neg (by decide), if_pos rfl, skipSpace_cons (by decide), first, Option.bind_some]
    dsimp only
    rw [others]
    rfl

end

/-- A written object is read back, whatever follows it. -/
lemma scanValue_obj {fields : List (List ℕ × Json)} (ok : portable (.obj fields) = true)
    (rest : List ℕ) : scanValue ((dumpsAscii (.obj fields) ++ rest).length + 1)
      (dumpsAscii (.obj fields) ++ rest) = some (.obj fields, rest) := by
  cases fields with
  | nil => simp [dumpsAscii, dumpsFields, commas, scanValue, skipSpace, isSpace]
  | cons f fields =>
    obtain ⟨k, v⟩ := f
    rw [portable, portableFields, Bool.and_eq_true, Bool.and_eq_true, Bool.and_eq_true,
      decide_eq_true_eq] at ok
    rw [dumpsAscii_obj_cons]
    have first := scanField_dumpAscii k v
      (34 :: (k.flatMap escapeAscii ++ 34 :: 58 :: (dumpsAscii v ++ moreFields fields rest))).length.succ
      _ ok.2.1 ok.2.2.1 (closing_moreFields fields rest)
      (by simp only [List.length_cons, List.length_append]; omega)
    have others := scanFields_moreFields fields
      (34 :: (k.flatMap escapeAscii ++ 34 :: 58 :: (dumpsAscii v ++ moreFields fields rest))).length.succ
      rest ok.2.2.2 (by simp only [List.length_cons, List.length_append]; omega)
    rw [scanValue, if_neg (by decide), if_neg (by decide), if_pos rfl, skipSpace_cons (by decide)]
    dsimp only
    rw [if_neg (by decide), List.length_cons, first, Option.bind_some, others, Option.map_some,
      collect_eq ok.1]

/-- What was written is read back, whatever whitespace follows it. -/
theorem loads_dumpsAscii {fields : List (List ℕ × Json)} (ok : portable (.obj fields) = true)
    {rest : List ℕ} (space : skipSpace rest = []) :
    loads (dumpsAscii (.obj fields) ++ rest) = some (.obj fields) := by
  rw [loads, skipSpace_dumpsAscii ok, scanValue_obj ok, Option.bind_some]
  dsimp only
  rw [if_pos space]

/-- The ASCII characters that are neither controls nor `DEL`. -/
def Printable (s : List ℕ) : Prop := ∀ c ∈ s, 32 ≤ c ∧ c ≤ 126

/-- Printable texts are joined into one. -/
lemma Printable.append {s t : List ℕ} (hs : Printable s) (ht : Printable t) : Printable (s ++ t) := by
  intro c hc
  cases List.mem_append.mp hc with
  | inl hc => exact hs c hc
  | inr hc => exact ht c hc

/-- A printable character before a printable text. -/
lemma Printable.cons {c : ℕ} {s : List ℕ} (hc : 32 ≤ c ∧ c ≤ 126) (hs : Printable s) :
    Printable (c :: s) := by
  intro d hd
  cases hd with
  | head => exact hc
  | tail _ hd => exact hs d hd

/-- The empty text is printable. -/
lemma printable_nil : Printable [] := by
  intro c hc
  cases hc

/-- Digits are printable. -/
lemma printable_digits (s : List ℕ) : Printable (s.takeWhile Decimal.isDigit) := by
  intro c hc
  have digit := List.mem_takeWhile_imp hc
  simp only [Decimal.isDigit, Bool.and_eq_true, decide_eq_true_eq] at digit
  omega

/-- The whole part of a number is printable. -/
lemma printable_intPart {s d r : List ℕ} (read : intPart s = some (d, r)) : Printable d := by
  cases s with
  | nil => cases read
  | cons c s =>
    unfold intPart at read
    dsimp only at read
    split at read
    · cases read
      exact printable_nil.cons (by omega)
    · split at read
      · rename_i range
        cases read
        exact (printable_digits s).cons (by omega)
      · cases read

/-- The fraction of a number is printable. -/
lemma printable_fraction (r : List ℕ) : Printable (fraction r).1 := by
  unfold fraction
  split
  · split
    · exact (printable_digits _).cons (by omega)
    · exact printable_nil
  · exact printable_nil

/-- The exponent of a number is printable. -/
lemma printable_exponent (r : List ℕ) : Printable (exponent r).1 := by
  have sign (s : List ℕ) : Printable (signPart s).1 := by
    unfold signPart
    split
    · split
      · exact printable_nil.cons (by omega)
      · exact printable_nil
    · exact printable_nil
  unfold exponent
  split
  · split
    · exact ((sign _).append (printable_digits _)).cons (by omega)
    · exact printable_nil
  · exact printable_nil

/-- A decimal number is printable. -/
lemma printable_unsignedNumber {negative : Bool} {s l r : List ℕ}
    (read : unsignedNumber negative s = some (.float l, r)) : Printable l := by
  obtain ⟨⟨d, t⟩, int, read⟩ := Option.bind_eq_some_iff.mp read
  dsimp only at read
  split at read
  · split at read <;> cases read
  · cases read
    have sign : Printable (if negative = true then [45] else []) := by
      split
      · exact printable_nil.cons (by omega)
      · exact printable_nil
    exact ((sign.append (printable_intPart int)).append (printable_fraction t)).append
      (printable_exponent _)

/-- A float is printable. -/
lemma printable_of_isFloat {l : List ℕ} (float : isFloat l = true) : Printable l := by
  unfold isFloat at float
  split at float
  · rename_i t read
    obtain rfl : t = l := by simpa using float
    cases e : constant t with
    | some found =>
      rw [e, Option.some_or] at read
      cases read
      obtain ⟨⟨word, j⟩, mem, hit⟩ := List.exists_of_findSome?_eq_some e
      obtain ⟨r, hit, e⟩ := Option.map_eq_some_iff.mp hit
      cases e
      simp only [constants, List.mem_cons, Prod.mk.injEq, reduceCtorEq, and_false, Json.float.injEq,
        List.not_mem_nil, or_false, false_or] at mem
      rcases mem with ⟨-, rfl⟩ | ⟨-, rfl⟩ | ⟨-, rfl⟩
      all_goals simp [Printable]
    | none =>
      rw [e, Option.none_or] at read
      unfold number at read
      split at read
      · exact printable_unsignedNumber read
      · exact printable_unsignedNumber read
  · cases float

/-- An escaped code unit is printable. -/
lemma printable_unicodeEscape {u : ℕ} (lt : u < 0x10000) : Printable (unicodeEscape u) := by
  have digit {d : ℕ} (lt : d < 16) : 32 ≤ hexDigit d ∧ hexDigit d ≤ 126 := by
    unfold hexDigit
    split <;> omega
  unfold unicodeEscape hex4
  refine .cons (by omega) (.cons (by omega) (.cons (digit ?_) (.cons (digit ?_) (.cons (digit ?_)
    (.cons (digit ?_) printable_nil)))))
  · omega
  · exact Nat.mod_lt _ (by norm_num)
  · exact Nat.mod_lt _ (by norm_num)
  · exact Nat.mod_lt _ (by norm_num)

/-- An escaped character is printable. -/
lemma printable_escapeAscii (c : ℕ) : Printable (escapeAscii c) := by
  by_cases astral : 0x10000 ≤ c
  · have hi : (c - 0x10000) / 1024 % 1024 < 1024 := Nat.mod_lt _ (by norm_num)
    have lo : (c - 0x10000) % 1024 < 1024 := Nat.mod_lt _ (by norm_num)
    rw [escapeAscii_astral astral]
    exact (printable_unicodeEscape (by omega)).append (printable_unicodeEscape (by omega))
  · unfold escapeAscii
    split_ifs
    case neg => omega
    all_goals first
      | exact printable_unicodeEscape (by omega)
      | (intro d hd
         simp only [List.mem_cons, List.not_mem_nil, or_false] at hd
         omega)

/-- A text in ASCII is printable. -/
lemma printable_dumpAscii (s : List ℕ) : Printable (dumpAscii s) := by
  refine .cons (by omega) (.append ?_ (printable_nil.cons (by omega)))
  intro c hc
  obtain ⟨d, -, hc⟩ := List.mem_flatMap.mp hc
  exact printable_escapeAscii d c hc

/-- A number is printable. -/
lemma printable_dumpInt (n : ℤ) : Printable (dumpInt n) := by
  have digits : Printable (Decimal.text n.natAbs) := by
    intro c hc
    have digit := Decimal.isDigit_text hc
    simp only [Decimal.isDigit, Bool.and_eq_true, decide_eq_true_eq] at digit
    omega
  unfold dumpInt
  split
  · exact digits.cons (by omega)
  · exact digits

/-- Printable texts are printable between commas. -/
lemma printable_commas {texts : List (List ℕ)} (ok : ∀ t ∈ texts, Printable t) :
    Printable (commas texts) := by
  cases texts with
  | nil => exact printable_nil
  | cons t texts =>
    rw [commas_cons]
    refine .append (ok t List.mem_cons_self) ?_
    intro c hc
    obtain ⟨u, hu, hc⟩ := List.mem_flatMap.mp hc
    exact (ok u (List.mem_cons_of_mem _ hu)).cons (by omega) c hc

mutual

/-- The text of a value is printable. -/
theorem printable_dumpsAscii : ∀ j : Json, portable j = true → Printable (dumpsAscii j)
  | .null, _ => by simp [dumpsAscii, Printable]
  | .bool true, _ => by simp [dumpsAscii, Printable]
  | .bool false, _ => by simp [dumpsAscii, Printable]
  | .int n, _ => by rw [dumpsAscii]; exact printable_dumpInt n
  | .float literal, ok => by rw [dumpsAscii]; exact printable_of_isFloat ok
  | .str s, _ => by rw [dumpsAscii]; exact printable_dumpAscii s
  | .arr xs, ok => by
    rw [dumpsAscii]
    exact .cons (by omega) (.append (printable_commas (printable_dumpsItems xs ok))
      (printable_nil.cons (by omega)))
  | .obj fields, ok => by
    rw [portable, Bool.and_eq_true] at ok
    rw [dumpsAscii]
    exact .cons (by omega) (.append (printable_commas (printable_dumpsFields fields ok.2))
      (printable_nil.cons (by omega)))

/-- The texts of the items are printable. -/
theorem printable_dumpsItems : ∀ xs : List Json, portableItems xs = true →
    ∀ t ∈ dumpsItems xs, Printable t
  | [], _ => by simp [dumpsItems]
  | x :: xs, ok => by
    rw [portableItems, Bool.and_eq_true] at ok
    intro t ht
    rw [dumpsItems] at ht
    cases ht with
    | head => exact printable_dumpsAscii x ok.1
    | tail _ ht => exact printable_dumpsItems xs ok.2 t ht

/-- The texts of the fields are printable. -/
theorem printable_dumpsFields : ∀ fields : List (List ℕ × Json), portableFields fields = true →
    ∀ t ∈ dumpsFields fields, Printable t
  | [], _ => by simp [dumpsFields]
  | (k, v) :: fields, ok => by
    rw [portableFields, Bool.and_eq_true, Bool.and_eq_true] at ok
    intro t ht
    rw [dumpsFields] at ht
    cases ht with
    | head =>
      exact .append (printable_dumpAscii k) (.cons (by omega) (printable_dumpsAscii v ok.2.1))
    | tail _ ht => exact printable_dumpsFields fields ok.2.2 t ht

end

end CLL.Json
