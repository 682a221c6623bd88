import CLL.Lib.Decimal

/-!
# JSON

The compact writer `dumps` and the reader `loads` of Python's `json` module over lists of code points. The
reader takes what the module's scanner takes: insignificant whitespace, both kinds of string escapes, the
number grammar with its limit on digits, and the three constants beyond the standard. The interpreter's
limit on nested calls is not modelled. `loads_dumps` is the round trip for the `plain` values, and
`newline_notMem_dumps` says that a written value stays on one line. `all_dumps` bounds its code points.
-/

namespace CLL

/-- A JSON value as Python holds it. A `float` is kept as its literal, and a `dict` as its fields in
insertion order. -/
inductive Json where
  | null
  | bool (b : Bool)
  | int (n : ℤ)
  | float (literal : List ℕ)
  | str (s : List ℕ)
  | arr (xs : List Json)
  | obj (fields : List (List ℕ × Json))

namespace Json

/-- A lower-case hexadecimal digit. -/
def hexDigit (d : ℕ) : ℕ := if d < 10 then 48 + d else 87 + d

/-- A code point inside a string literal. -/
def escape (c : ℕ) : List ℕ :=
  if c = 34 then [92, 34]
  else if c = 92 then [92, 92]
  else if c = 10 then [92, 110]
  else if c = 13 then [92, 114]
  else if c = 9 then [92, 116]
  else if c = 12 then [92, 102]
  else if c = 8 then [92, 98]
  else if c < 32 then [92, 117, 48, 48, hexDigit (c / 16), hexDigit (c % 16)]
  else [c]

/-- The body of a string literal and its closing quote. -/
def dumpChars (s : List ℕ) : List ℕ := s.flatMap escape ++ [34]

/-- An integer literal. -/
def dumpInt (n : ℤ) : List ℕ :=
  if n < 0 then 45 :: Decimal.text n.natAbs else Decimal.text n.natAbs

mutual

/-- `json.dumps(value, separators=(",", ":"), ensure_ascii=False)`. -/
def dumps : Json → List ℕ
  | .null => [110, 117, 108, 108]
  | .bool true => [116, 114, 117, 101]
  | .bool false => [102, 97, 108, 115, 101]
  | .int n => dumpInt n
  | .float literal => literal
  | .str s => 34 :: dumpChars s
  | .arr [] => [91, 93]
  | .arr (x :: xs) => 91 :: (dumps x ++ dumpItems xs)
  | .obj [] => [123, 125]
  | .obj ((k, v) :: fields) => 123 :: 34 :: (dumpChars k ++ 58 :: (dumps v ++ dumpFields fields))

/-- The items after the first and the closing bracket. -/
def dumpItems : List Json → List ℕ
  | [] => [93]
  | x :: xs => 44 :: (dumps x ++ dumpItems xs)

/-- The fields after the first and the closing brace. -/
def dumpFields : List (List ℕ × Json) → List ℕ
  | [] => [125]
  | (k, v) :: fields => 44 :: 34 :: (dumpChars k ++ 58 :: (dumps v ++ dumpFields fields))

end

/-- Insignificant whitespace. -/
def isSpace (c : ℕ) : Bool := c == 32 || c == 9 || c == 10 || c == 13

/-- The text after insignificant whitespace. -/
def skipSpace (s : List ℕ) : List ℕ := s.dropWhile isSpace

/-- The value of a hexadecimal digit. -/
def hexValue (c : ℕ) : Option ℕ :=
  if 48 ≤ c ∧ c ≤ 57 then some (c - 48)
  else if 97 ≤ c ∧ c ≤ 102 then some (c - 87)
  else if 65 ≤ c ∧ c ≤ 70 then some (c - 55)
  else none

/-- The value of four hexadecimal digits. -/
def hexValue4 (a b c d : ℕ) : Option ℕ :=
  (hexValue a).bind fun a => (hexValue b).bind fun b => (hexValue c).bind fun c =>
    (hexValue d).map fun d => ((a * 16 + b) * 16 + c) * 16 + d

/-- What a one-letter escape stands for. -/
def unescape (c : ℕ) : Option ℕ :=
  if c = 34 ∨ c = 92 ∨ c = 47 then some c
  else if c = 98 then some 8
  else if c = 102 then some 12
  else if c = 110 then some 10
  else if c = 114 then some 13
  else if c = 116 then some 9
  else none

/-- The body of a string literal up to its closing quote, and the text after it. A code unit written as
`\uXXXX` is marked, since only two of these join into one code point. -/
def scanUnits : List ℕ → Option (List (Bool × ℕ) × List ℕ)
  | [] => none
  | c :: s =>
    if c = 34 then some ([], s)
    else if c < 32 then none
    else if c = 92 then
      match s with
      | 117 :: a :: b :: c :: d :: s =>
        (hexValue4 a b c d).bind fun u => (scanUnits s).map fun (us, r) => ((true, u) :: us, r)
      | e :: s => (unescape e).bind fun u => (scanUnits s).map fun (us, r) => ((false, u) :: us, r)
      | [] => none
    else (scanUnits s).map fun (us, r) => ((false, c) :: us, r)

/-- Escaped surrogate pairs become one code point. -/
def joinPairs : List (Bool × ℕ) → List ℕ
  | [] => []
  | [(_, u)] => [u]
  | (e, h) :: (f, l) :: us =>
    if e ∧ f ∧ 0xD800 ≤ h ∧ h ≤ 0xDBFF ∧ 0xDC00 ≤ l ∧ l ≤ 0xDFFF then
      (0x10000 + (h - 0xD800) * 0x400 + (l - 0xDC00)) :: joinPairs us
    else h :: joinPairs ((f, l) :: us)

/-- The string after an opening quote, and the text after its closing quote. -/
def scanString (s : List ℕ) : Option (List ℕ × List ℕ) :=
  (scanUnits s).map fun (us, r) => (joinPairs us, r)

/-- The text after `word`, where `s` begins with it. -/
def after : List ℕ → List ℕ → Option (List ℕ)
  | [], s => some s
  | c :: word, d :: s => if c = d then after word s else none
  | _ :: _, [] => none

/-- The constants, among them `NaN`, `Infinity` and `-Infinity`. -/
def constants : List (List ℕ × Json) := [
  ([110, 117, 108, 108], .null),
  ([116, 114, 117, 101], .bool true),
  ([102, 97, 108, 115, 101], .bool false),
  ([78, 97, 78], .float [78, 97, 78]),
  ([73, 110, 102, 105, 110, 105, 116, 121], .float [73, 110, 102, 105, 110, 105, 116, 121]),
  ([45, 73, 110, 102, 105, 110, 105, 116, 121], .float [45, 73, 110, 102, 105, 110, 105, 116, 121])]

/-- The constant that `s` begins with. -/
def constant (s : List ℕ) : Option (Json × List ℕ) :=
  constants.findSome? fun (word, j) => (after word s).map (j, ·)

/-- `int()` refuses longer numerals. -/
def maxDigits : ℕ := 4300

/-- The digits of the integer part: `0`, or digits that begin with another one. -/
def intPart : List ℕ → Option (List ℕ × List ℕ)
  | [] => none
  | c :: s =>
    if c = 48 then some ([48], s)
    else if 49 ≤ c ∧ c ≤ 57 then some (c :: s.takeWhile Decimal.isDigit, s.dropWhile Decimal.isDigit)
    else none

/-- A dot and the digits after it, if there are any. -/
def fraction : List ℕ → List ℕ × List ℕ
  | 46 :: c :: s =>
    if Decimal.isDigit c then
      (46 :: (c :: s).takeWhile Decimal.isDigit, (c :: s).dropWhile Decimal.isDigit)
    else ([], 46 :: c :: s)
  | s => ([], s)

/-- The sign that `s` begins with. -/
def signPart : List ℕ → List ℕ × List ℕ
  | c :: s => if c = 43 ∨ c = 45 then ([c], s) else ([], c :: s)
  | [] => ([], [])

/-- `e` or `E`, a sign and digits, if there are any. -/
def exponent : List ℕ → List ℕ × List ℕ
  | c :: s =>
    if (c = 101 ∨ c = 69) ∧ ((signPart s).2.takeWhile Decimal.isDigit) ≠ [] then
      (c :: ((signPart s).1 ++ (signPart s).2.takeWhile Decimal.isDigit),
        (signPart s).2.dropWhile Decimal.isDigit)
    else ([], c :: s)
  | [] => ([], [])

/-- The number that `s` begins with, after its sign. -/
def unsignedNumber (negative : Bool) (s : List ℕ) : Option (Json × List ℕ) :=
  (intPart s).bind fun (digits, r) =>
    let literal := (if negative then [45] else []) ++ digits ++ (fraction r).1 ++
      (exponent (fraction r).2).1
    if (fraction r).1 = [] ∧ (exponent (fraction r).2).1 = [] then
      if digits.length ≤ maxDigits then
        some (.int (if negative then -(Decimal.value digits : ℤ) else Decimal.value digits), r)
      else none
    else some (.float literal, (exponent (fraction r).2).2)

/-- The number that `s` begins with. -/
def number : List ℕ → Option (Json × List ℕ)
  | 45 :: s => unsignedNumber true s
  | s => unsignedNumber false s

/-- `dict[key] = value`. -/
def insert : List (List ℕ × Json) → List ℕ → Json → List (List ℕ × Json)
  | [], key, value => [(key, value)]
  | (k, v) :: fields, key, value =>
    if k = key then (k, value) :: fields else (k, v) :: insert fields key value

/-- The `dict` of a list of pairs. -/
def collect (pairs : List (List ℕ × Json)) : List (List ℕ × Json) :=
  pairs.foldl (fun fields p => insert fields p.1 p.2) []

mutual

/-- The value that the text begins with, and the text after it. Every call reads at least one code point
before the next, so fuel as long as the text suffices. -/
def scanValue : ℕ → List ℕ → Option (Json × List ℕ)
  | 0, _ => none
  | _ + 1, [] => none
  | fuel + 1, c :: s =>
    if c = 34 then (scanString s).map fun (t, r) => (.str t, r)
    else if c = 91 then
      match skipSpace s with
      | [] => none
      | d :: t =>
        if d = 93 then some (.arr [], t)
        else (scanValue fuel (d :: t)).bind fun (x, r) => (scanItems fuel r).map fun (xs, r) =>
          (.arr (x :: xs), r)
    else if c = 123 then
      match skipSpace s with
      | [] => none
      | d :: t =>
        if d = 125 then some (.obj [], t)
        else (scanField fuel (d :: t)).bind fun (f, r) => (scanFields fuel r).map fun (fs, r) =>
          (.obj (collect (f :: fs)), r)
    else (constant (c :: s)).or (number (c :: s))

/-- The items after the first one, up to the closing bracket. -/
def scanItems : ℕ → List ℕ → Option (List Json × List ℕ)
  | 0, _ => none
  | fuel + 1, s =>
    match skipSpace s with
    | [] => none
    | d :: t =>
      if d = 93 then some ([], t)
      else if d = 44 then (scanValue fuel (skipSpace t)).bind fun (x, r) =>
        (scanItems fuel r).map fun (xs, r) => (x :: xs, r)
      else none

/-- A key, a colon and a value. -/
def scanField : ℕ → List ℕ → Option ((List ℕ × Json) × List ℕ)
  | 0, _ => none
  | fuel + 1, s =>
    match s with
    | [] => none
    | c :: s =>
      if c = 34 then (scanString s).bind fun (k, r) =>
        match skipSpace r with
        | [] => none
        | d :: t =>
          if d = 58 then (scanValue fuel (skipSpace t)).map fun (v, r) => ((k, v), r) else none
      else none

/-- The fields after the first one, up to the closing brace. -/
def scanFields : ℕ → List ℕ → Option (List (List ℕ × Json) × List ℕ)
  | 0, _ => none
  | fuel + 1, s =>
    match skipSpace s with
    | [] => none
    | d :: t =>
      if d = 125 then some ([], t)
      else if d = 44 then (scanField fuel (skipSpace t)).bind fun (f, r) =>
        (scanFields fuel r).map fun (fs, r) => (f :: fs, r)
      else none

end

/-- `json.loads(s)`, `none` where it raises a `ValueError`. -/
def loads (s : List ℕ) : Option Json :=
  (scanValue (s.length + 1) (skipSpace s)).bind fun (j, r) =>
    if skipSpace r = [] then some j else none

/-- `dict.get(key)`, `none` for a missing key. -/
def get? (fields : List (List ℕ × Json)) (key : List ℕ) : Option Json := fields.lookup key

/-- A hexadecimal digit is read back. -/
lemma hexValue_hexDigit {d : ℕ} (lt : d < 16) : hexValue (hexDigit d) = some d := by
  interval_cases d <;> rfl

/-- The text of one code point is read back as that code point, marked only if it is a control. -/
lemma scanUnits_escape (c : ℕ) : ∃ marked : Bool, (marked = true → c < 32) ∧ ∀ s,
    scanUnits (escape c ++ s) = (scanUnits s).map fun (us, r) => ((marked, c) :: us, r) := by
  by_cases control : c < 32
  · have low := hexValue_hexDigit (Nat.mod_lt c (by norm_num : 0 < 16))
    have high : hexValue (hexDigit (c / 16)) = some (c / 16) := hexValue_hexDigit (by omega)
    have sum : c / 16 * 16 + c % 16 = c := by omega
    unfold escape
    rw [if_neg (by omega), if_neg (by omega)]
    split
    · rename_i e
      exact ⟨false, by simp, fun s => by rw [e]; rfl⟩
    · split
      · rename_i e
        exact ⟨false, by simp, fun s => by rw [e]; rfl⟩
      · split
        · rename_i e
          exact ⟨false, by simp, fun s => by rw [e]; rfl⟩
        · split
          · rename_i e
            exact ⟨false, by simp, fun s => by rw [e]; rfl⟩
          · split
            · rename_i e
              exact ⟨false, by simp, fun s => by rw [e]; rfl⟩
            · refine ⟨true, fun _ => control, fun s => ?_⟩
              have digits : hexValue4 48 48 (hexDigit (c / 16)) (hexDigit (c % 16)) = some c := by
                simp [hexValue4, high, low, show hexValue 48 = some 0 from rfl, sum]
              simp only [List.cons_append, List.nil_append]
              rw [scanUnits.eq_def]
              simp [digits]
  · refine ⟨false, by simp, fun s => ?_⟩
    by_cases quote : c = 34
    · rw [quote]
      rfl
    · by_cases backslash : c = 92
      · rw [backslash]
        rfl
      · unfold escape
        rw [if_neg quote, if_neg backslash, if_neg (by omega), if_neg (by omega), if_neg (by omega),
          if_neg (by omega), if_neg (by omega), if_neg control, List.singleton_append,
          scanUnits.eq_def]
        dsimp only
        rw [if_neg quote, if_neg control, if_neg backslash]

/-- A text is scanned back into its characters. -/
lemma scanUnits_dumpChars (s rest : List ℕ) :
    ∃ us : List (Bool × ℕ), (∀ u ∈ us, u.1 = true → u.2 < 32) ∧ us.map Prod.snd = s ∧
      scanUnits (dumpChars s ++ rest) = some (us, rest) := by
  induction s with
  | nil =>
    refine ⟨[], by simp, rfl, ?_⟩
    rw [dumpChars, List.flatMap_nil, List.nil_append, List.singleton_append, scanUnits.eq_def]
    dsimp only
    rw [if_pos rfl]
  | cons c s ih =>
    obtain ⟨us, control, map, scan⟩ := ih
    obtain ⟨marked, small, step⟩ := scanUnits_escape c
    refine ⟨(marked, c) :: us, ?_, by simp [map], ?_⟩
    · intro u hu
      cases List.mem_cons.mp hu with
      | inl e => rw [e]; exact small
      | inr hu => exact control u hu
    · have split : dumpChars (c :: s) ++ rest = escape c ++ (dumpChars s ++ rest) := by
        simp [dumpChars]
      rw [split, step, scan]
      rfl

/-- Units of which only controls are marked hold no escaped surrogate. -/
lemma joinPairs_eq {us : List (Bool × ℕ)} (control : ∀ u ∈ us, u.1 = true → u.2 < 32) :
    joinPairs us = us.map Prod.snd := by
  induction us with
  | nil => rfl
  | cons u us ih =>
    have rest := ih fun v hv => control v (List.mem_cons_of_mem _ hv)
    cases us with
    | nil => rfl
    | cons v us =>
      have small := control u List.mem_cons_self
      rw [joinPairs, if_neg, rest]
      · rfl
      · rintro ⟨marked, -, high, -⟩
        have := small marked
        omega

/-- A string is scanned back. -/
lemma scanString_dumpChars (s rest : List ℕ) : scanString (dumpChars s ++ rest) = some (s, rest) := by
  obtain ⟨us, control, map, scan⟩ := scanUnits_dumpChars s rest
  rw [scanString, scan, Option.map_some]
  dsimp only
  rw [joinPairs_eq control, map]

/-- Nothing at the start of the text continues the value before it. -/
def Closing (rest : List ℕ) : Prop := ∀ c ∈ rest.head?, c = 44 ∨ c = 93 ∨ c = 125

/-- What closes a value is no digit. -/
lemma Closing.head_not_digit {c : ℕ} {rest : List ℕ} (closing : Closing (c :: rest)) :
    Decimal.isDigit c = false := by
  rcases closing c rfl with rfl | rfl | rfl <;> rfl

/-- No fraction is read where a value closes. -/
lemma Closing.fraction_eq {rest : List ℕ} (closing : Closing rest) : fraction rest = ([], rest) := by
  cases rest with
  | nil => rfl
  | cons c rest =>
    cases rest with
    | nil => unfold fraction; split <;> simp_all
    | cons d rest =>
      unfold fraction
      split
      · rename_i e
        cases e
        rcases closing 46 rfl with e | e | e <;> cases e
      · rfl

/-- No exponent is read where a value closes. -/
lemma Closing.exponent_eq {rest : List ℕ} (closing : Closing rest) : exponent rest = ([], rest) := by
  cases rest with
  | nil => rfl
  | cons c rest =>
    unfold exponent
    dsimp only
    rw [if_neg]
    rintro ⟨e, -⟩
    rcases closing c rfl with h | h | h <;> omega

/-- Digits before a closing text are read as a whole. -/
lemma Closing.span_digits {ds rest : List ℕ} (closing : Closing rest)
    (digits : ∀ c ∈ ds, Decimal.isDigit c = true) :
    (ds ++ rest).takeWhile Decimal.isDigit = ds ∧ (ds ++ rest).dropWhile Decimal.isDigit = rest := by
  have stop : rest.takeWhile Decimal.isDigit = [] ∧ rest.dropWhile Decimal.isDigit = rest := by
    cases rest with
    | nil => exact ⟨rfl, rfl⟩
    | cons c rest => simp [closing.head_not_digit]
  constructor
  · rw [List.takeWhile_append_of_pos digits, stop.1, List.append_nil]
  · rw [List.dropWhile_append_of_pos digits, stop.2]

/-- The whole part of a number is read back. -/
lemma intPart_text {n : ℕ} {rest : List ℕ} (closing : Closing rest) :
    intPart (Decimal.text n ++ rest) = some (Decimal.text n, rest) := by
  have canonical := Decimal.isCanonical_text n
  have digits := fun c hc => Decimal.isDigit_text (n := n) (c := c) hc
  cases e : Decimal.text n with
  | nil => exact absurd e (Decimal.text_ne_nil n)
  | cons c ds =>
    rw [e] at canonical digits
    simp only [Decimal.isCanonical, Bool.or_eq_true, Bool.and_eq_true, beq_iff_eq,
      List.isEmpty_iff, decide_eq_true_eq] at canonical
    rw [List.cons_append, intPart]
    rcases canonical with ⟨zero, empty⟩ | ⟨⟨low, high⟩, -⟩
    · rw [if_pos zero, empty, zero]
      rfl
    · obtain ⟨take, drop⟩ :=
        closing.span_digits fun d hd => digits d (List.mem_cons_of_mem _ hd)
      rw [if_neg (by omega), if_pos ⟨low, high⟩, take, drop]

/-- A number is read back after its sign. -/
lemma unsignedNumber_text {n : ℕ} (negative : Bool) {rest : List ℕ} (closing : Closing rest)
    (short : (Decimal.text n).length ≤ maxDigits) :
    unsignedNumber negative (Decimal.text n ++ rest) =
      some (.int (if negative then -(n : ℤ) else n), rest) := by
  rw [unsignedNumber, intPart_text closing]
  simp [closing.fraction_eq, closing.exponent_eq, short]

/-- The first code point of an integer literal. -/
lemma dumpInt_head (n : ℤ) : ∃ c t, dumpInt n = c :: t ∧ (c = 45 ∨ 48 ≤ c ∧ c ≤ 57) ∧
    (c = 45 → ∃ d u, t = d :: u ∧ 48 ≤ d ∧ d ≤ 57) := by
  have first (m : ℕ) : ∃ c t, Decimal.text m = c :: t ∧ 48 ≤ c ∧ c ≤ 57 := by
    cases e : Decimal.text m with
    | nil => exact absurd e (Decimal.text_ne_nil m)
    | cons c t =>
      have digit : Decimal.isDigit c = true := Decimal.isDigit_text (e ▸ List.mem_cons_self)
      simp only [Decimal.isDigit, Bool.and_eq_true, decide_eq_true_eq] at digit
      exact ⟨c, t, rfl, digit⟩
  obtain ⟨c, t, e, range⟩ := first n.natAbs
  unfold dumpInt
  split
  · exact ⟨45, _, rfl, Or.inl rfl, fun _ => ⟨c, t, e, range⟩⟩
  · exact ⟨c, t, e, Or.inr range, fun minus => by omega⟩

/-- A word is not read where another one begins. -/
lemma after_of_ne {c d : ℕ} {word s : List ℕ} (ne : c ≠ d) : after (c :: word) (d :: s) = none := by
  rw [after, if_neg ne]

/-- No constant begins with a digit, nor with a sign and a digit. -/
lemma constant_of_number {c : ℕ} {t : List ℕ} (range : c = 45 ∨ 48 ≤ c ∧ c ≤ 57)
    (next : c = 45 → ∃ d u, t = d :: u ∧ 48 ≤ d ∧ d ≤ 57) : constant (c :: t) = none := by
  have infinity : after [45, 73, 110, 102, 105, 110, 105, 116, 121] (c :: t) = none := by
    by_cases minus : c = 45
    · obtain ⟨d, u, rfl, low, high⟩ := next minus
      rw [minus, after, if_pos rfl, after_of_ne (by omega)]
    · exact after_of_ne (Ne.symm minus)
  simp only [constant, constants, List.findSome?_cons, List.findSome?_nil]
  rw [after_of_ne (by omega), after_of_ne (by omega), after_of_ne (by omega), after_of_ne (by omega),
    after_of_ne (by omega), infinity]
  rfl

/-- A number is no constant. -/
lemma constant_dumpInt (n : ℤ) (rest : List ℕ) : constant (dumpInt n ++ rest) = none := by
  obtain ⟨c, t, e, range, next⟩ := dumpInt_head n
  rw [e, List.cons_append]
  refine constant_of_number range fun minus => ?_
  obtain ⟨d, u, rfl, digit⟩ := next minus
  exact ⟨d, u ++ rest, rfl, digit⟩

/-- A number is read back. -/
lemma number_dumpInt {n : ℤ} {rest : List ℕ} (closing : Closing rest)
    (short : (Decimal.text n.natAbs).length ≤ maxDigits) :
    number (dumpInt n ++ rest) = some (.int n, rest) := by
  by_cases neg : n < 0
  · have abs : -(n.natAbs : ℤ) = n := by omega
    rw [dumpInt, if_pos neg, List.cons_append, number, unsignedNumber_text true closing short,
      if_pos rfl, abs]
  · have abs : (n.natAbs : ℤ) = n := by omega
    obtain ⟨c, t, e, range, -⟩ := dumpInt_head n
    rw [dumpInt, if_neg neg] at e ⊢
    have read := unsignedNumber_text false closing short
    rw [e, List.cons_append] at read ⊢
    rw [number, read, if_neg (by decide), abs]
    · intro s h
      cases h
      have text := Decimal.isDigit_text (n := n.natAbs) (c := 45) (e ▸ List.mem_cons_self)
      cases text

mutual

/-- The values that come back from their text: no floats, numerals that `int()` takes, and distinct keys. -/
def plain : Json → Bool
  | .float _ => false
  | .int n => (Decimal.text n.natAbs).length ≤ maxDigits
  | .arr xs => plainItems xs
  | .obj fields => decide (fields.map Prod.fst).Nodup && plainFields fields
  | .null | .bool _ | .str _ => true

/-- `plain` for every item. -/
def plainItems : List Json → Bool
  | [] => true
  | x :: xs => plain x && plainItems xs

/-- `plain` for the value of every field. -/
def plainFields : List (List ℕ × Json) → Bool
  | [] => true
  | (_, v) :: fields => plain v && plainFields fields

end

/-- No space is skipped before a visible character. -/
lemma skipSpace_cons {c : ℕ} {s : List ℕ} (ink : isSpace c = false) :
    skipSpace (c :: s) = c :: s := by
  simp [skipSpace, ink]

/-- A value begins with a code point that ends nothing and that no whitespace skips. -/
lemma dumps_head {j : Json} (ok : plain j = true) :
    ∃ c t, dumps j = c :: t ∧ isSpace c = false ∧ c ≠ 93 ∧ c ≠ 125 := by
  cases j with
  | null => exact ⟨_, _, rfl, by decide, by decide, by decide⟩
  | bool b => cases b <;> exact ⟨_, _, rfl, by decide, by decide, by decide⟩
  | int n =>
    obtain ⟨c, t, e, range, -⟩ := dumpInt_head n
    refine ⟨c, t, by rw [dumps, e], ?_, by omega, by omega⟩
    simp only [isSpace, Bool.or_eq_false_iff, beq_eq_false_iff_ne]
    omega
  | float literal => cases ok
  | str s => exact ⟨_, _, rfl, by decide, by decide, by decide⟩
  | arr xs => cases xs <;> exact ⟨_, _, by rw [dumps], by decide, by decide, by decide⟩
  | obj fields =>
    cases fields with
    | nil => exact ⟨_, _, by rw [dumps], by decide, by decide, by decide⟩
    | cons f fields => exact ⟨_, _, by rw [dumps], by decide, by decide, by decide⟩

/-- No space is written before a value. -/
lemma skipSpace_dumps {j : Json} (ok : plain j = true) (rest : List ℕ) :
    skipSpace (dumps j ++ rest) = dumps j ++ rest := by
  obtain ⟨c, t, e, ink, -, -⟩ := dumps_head ok
  rw [e, List.cons_append, skipSpace_cons ink]

/-- Written items close the value before them. -/
lemma closing_dumpItems (xs : List Json) (rest : List ℕ) : Closing (dumpItems xs ++ rest) := by
  intro c hc
  cases xs with
  | nil => cases hc; simp
  | cons x xs => cases hc; simp

/-- Written fields close the value before them. -/
lemma closing_dumpFields (fields : List (List ℕ × Json)) (rest : List ℕ) :
    Closing (dumpFields fields ++ rest) := by
  intro c hc
  cases fields with
  | nil => cases hc; simp
  | cons f fields => cases hc; simp

/-- A new key is inserted at the end. -/
lemma insert_of_not_mem {fields : List (List ℕ × Json)} {k : List ℕ} {v : Json}
    (fresh : k ∉ fields.map Prod.fst) : insert fields k v = fields ++ [(k, v)] := by
  induction fields with
  | nil => rfl
  | cons f fields ih =>
    simp only [List.map_cons, List.mem_cons, not_or] at fresh
    rw [insert, if_neg (Ne.symm fresh.1), ih fresh.2]
    rfl

/-- Pairs with distinct keys are the fields of their `dict`. -/
lemma collect_eq {fields : List (List ℕ × Json)} (nodup : (fields.map Prod.fst).Nodup) :
    collect fields = fields := by
  have grow : ∀ (pairs acc : List (List ℕ × Json)), ((acc ++ pairs).map Prod.fst).Nodup →
      pairs.foldl (fun fields p => insert fields p.1 p.2) acc = acc ++ pairs := by
    intro pairs
    induction pairs with
    | nil => simp
    | cons p pairs ih =>
      intro acc nodup
      have fresh : p.1 ∉ acc.map Prod.fst := by
        rw [List.map_append, List.map_cons] at nodup
        exact fun mem => (List.nodup_append'.mp nodup).2.2 mem List.mem_cons_self
      rw [List.foldl_cons, insert_of_not_mem fresh, ih, List.append_assoc, List.singleton_append]
      rwa [List.append_assoc, List.singleton_append]
  exact grow fields [] nodup

mutual

/-- A written value followed by anything that closes it is read back. -/
theorem scanValue_dumps : ∀ (j : Json) (fuel : ℕ) (rest : List ℕ), plain j = true → Closing rest →
    (dumps j).length ≤ fuel → scanValue fuel (dumps j ++ rest) = some (j, rest)
  | j, 0, _, ok, _, enough => by
    obtain ⟨c, t, e, -⟩ := dumps_head ok
    rw [e] at enough
    cases enough
  | .null, fuel + 1, rest, _, _, _ => by
    simp [dumps, scanValue, constant, constants, after]
  | .bool true, fuel + 1, rest, _, _, _ => by
    simp [dumps, scanValue, constant, constants, after]
  | .bool false, fuel + 1, rest, _, _, _ => by
    simp [dumps, scanValue, constant, constants, after]
  | .int n, fuel + 1, rest, ok, closing, _ => by
    obtain ⟨c, t, e, range, -⟩ := dumpInt_head n
    have constant := constant_dumpInt n rest
    have number := number_dumpInt closing (of_decide_eq_true ok)
    rw [dumps]
    rw [e, List.cons_append] at constant number ⊢
    rw [scanValue, if_neg (by omega), if_neg (by omega), if_neg (by omega), constant, number]
    rfl
  | .float _, _ + 1, _, ok, _, _ => by cases ok
  | .str s, fuel + 1, rest, _, _, _ => by
    rw [dumps, List.cons_append, scanValue, if_pos rfl, scanString_dumpChars]
    rfl
  | .arr [], fuel + 1, rest, _, _, _ => by
    simp [dumps, scanValue, skipSpace, isSpace]
  | .arr (x :: xs), fuel + 1, rest, ok, _, enough => by
    rw [plain, plainItems, Bool.and_eq_true] at ok
    obtain ⟨c, t, e, -, ne, -⟩ := dumps_head ok.1
    simp only [dumps, List.length_cons, List.length_append] at enough
    have first := scanValue_dumps x fuel _ ok.1 (closing_dumpItems xs rest) (by omega)
    have others := scanItems_dumpItems xs fuel rest ok.2 (by omega)
    rw [dumps, List.cons_append, List.append_assoc, scanValue, if_neg (by decide), if_pos rfl,
      skipSpace_dumps ok.1]
    rw [e, List.cons_append] at first ⊢
    dsimp only
    rw [if_neg ne, first, Option.bind_some]
    dsimp only
    rw [others]
    rfl
  | .obj [], fuel + 1, rest, _, _, _ => by
    simp [dumps, scanValue, skipSpace, isSpace]
  | .obj ((k, v) :: fields), fuel + 1, rest, ok, _, enough => by
    rw [plain, plainFields, Bool.and_eq_true, Bool.and_eq_true, decide_eq_true_eq] at ok
    simp only [dumps, List.length_cons, List.length_append] at enough
    have first := scanField_dump k v fuel _ ok.2.1 (closing_dumpFields fields rest)
      (by omega)
    have others := scanFields_dumpFields fields fuel rest ok.2.2 (by omega)
    rw [dumps, List.cons_append, List.cons_append, List.append_assoc, List.cons_append,
      List.append_assoc, scanValue, if_neg (by decide), if_neg (by decide), if_pos rfl,
      skipSpace_cons (by decide)]
    dsimp only
    rw [if_neg (by decide), first, Option.bind_some, others, Option.map_some, collect_eq ok.1]

/-- The items after the first are read back. -/
theorem scanItems_dumpItems : ∀ (xs : List Json) (fuel : ℕ) (rest : List ℕ),
    plainItems xs = true → (dumpItems xs).length ≤ fuel →
      scanItems fuel (dumpItems xs ++ rest) = some (xs, rest)
  | [], 0, _, _, enough => by simp [dumpItems] at enough
  | _ :: _, 0, _, _, enough => by simp [dumpItems] at enough
  | [], fuel + 1, rest, _, _ => by
    rw [dumpItems, List.singleton_append, scanItems, skipSpace_cons (by decide)]
    rfl
  | x :: xs, fuel + 1, rest, ok, enough => by
    rw [plainItems, Bool.and_eq_true] at ok
    simp only [dumpItems, List.length_cons, List.length_append] at enough
    have first := scanValue_dumps x fuel _ ok.1 (closing_dumpItems xs rest) (by omega)
    have others := scanItems_dumpItems xs fuel rest ok.2 (by omega)
    rw [dumpItems, List.cons_append, List.append_assoc, scanItems, skipSpace_cons (by decide)]
    dsimp only
    rw [if_neg (by decide), if_pos rfl, skipSpace_dumps ok.1, first, Option.bind_some]
    dsimp only
    rw [others]
    rfl

/-- One field is read back. -/
theorem scanField_dump : ∀ (k : List ℕ) (v : Json) (fuel : ℕ) (rest : List ℕ), plain v = true →
    Closing rest → (dumps v).length + 1 ≤ fuel →
      scanField fuel (34 :: (dumpChars k ++ 58 :: (dumps v ++ rest))) = some ((k, v), rest)
  | _, _, 0, _, _, _, enough => by cases enough
  | k, v, fuel + 1, rest, ok, closing, enough => by
    have value := scanValue_dumps v fuel _ ok closing (by omega)
    rw [scanField, if_pos rfl, scanString_dumpChars, Option.bind_some]
    dsimp only
    rw [skipSpace_cons (by decide)]
    dsimp only
    rw [if_pos rfl, skipSpace_dumps ok, value]
    rfl

/-- The fields after the first are read back. -/
theorem scanFields_dumpFields : ∀ (fields : List (List ℕ × Json)) (fuel : ℕ) (rest : List ℕ),
    plainFields fields = true → (dumpFields fields).length ≤ fuel →
      scanFields fuel (dumpFields fields ++ rest) = some (fields, rest)
  | [], 0, _, _, enough => by simp [dumpFields] at enough
  | _ :: _, 0, _, _, enough => by simp [dumpFields] at enough
  | [], fuel + 1, rest, _, _ => by
    rw [dumpFields, List.singleton_append, scanFields, skipSpace_cons (by decide)]
    rfl
  | (k, v) :: fields, fuel + 1, rest, ok, enough => by
    rw [plainFields, Bool.and_eq_true] at ok
    simp only [dumpFields, List.length_cons, List.length_append] at enough
    have first := scanField_dump k v fuel _ ok.1 (closing_dumpFields fields rest)
      (by omega)
    have others := scanFields_dumpFields fields fuel rest ok.2 (by omega)
    rw [dumpFields, List.cons_append, List.cons_append, List.append_assoc, List.cons_append,
      List.append_assoc, scanFields, skipSpace_cons (by decide)]
    dsimp only
    rw [if_neg (by decide), if_pos rfl, skipSpace_cons (by decide), first, Option.bind_some]
    dsimp only
    rw [others]
    rfl

end

/-- What was written is read back. -/
theorem loads_dumps {j : Json} (ok : plain j = true) : loads (dumps j) = some j := by
  have read := scanValue_dumps j ((dumps j).length + 1) [] ok (by simp [Closing])
    (by omega)
  have skip := skipSpace_dumps ok []
  rw [List.append_nil] at read skip
  rw [loads, skip, read]
  rfl

/-- No newline is in an escaped character. -/
lemma newline_notMem_escape (c : ℕ) : 10 ∉ escape c := by
  have digit {d : ℕ} (lt : d < 16) : hexDigit d ≠ 10 := by
    unfold hexDigit
    split <;> omega
  unfold escape
  split_ifs
  all_goals simp only [List.mem_cons, List.not_mem_nil, or_false]
  all_goals try omega
  rintro (h | h | h | h | h | h)
  all_goals try omega
  · exact digit (by omega) h.symm
  · exact digit (by omega) h.symm

/-- No newline is in a text. -/
lemma newline_notMem_dumpChars (s : List ℕ) : 10 ∉ dumpChars s := by
  intro mem
  cases List.mem_append.mp mem with
  | inl mem =>
    obtain ⟨c, -, hc⟩ := List.mem_flatMap.mp mem
    exact newline_notMem_escape c hc
  | inr mem => cases List.mem_singleton.mp mem

/-- No newline is in a number. -/
lemma newline_notMem_dumpInt (n : ℤ) : 10 ∉ dumpInt n := by
  have digits : 10 ∉ Decimal.text n.natAbs := fun mem => by cases Decimal.isDigit_text mem
  unfold dumpInt
  split
  · simpa using digits
  · exact digits

mutual

/-- A written value stays on one line. -/
theorem newline_notMem_dumps : ∀ j : Json, plain j = true → 10 ∉ dumps j
  | .null, _ => by simp [dumps]
  | .bool true, _ => by simp [dumps]
  | .bool false, _ => by simp [dumps]
  | .int n, _ => by rw [dumps]; exact newline_notMem_dumpInt n
  | .float _, ok => by cases ok
  | .str s, _ => by simpa [dumps] using newline_notMem_dumpChars s
  | .arr [], _ => by simp [dumps]
  | .arr (x :: xs), ok => by
    rw [plain, plainItems, Bool.and_eq_true] at ok
    have first := newline_notMem_dumps x ok.1
    have others := newline_notMem_dumpItems xs ok.2
    simp [dumps, first, others]
  | .obj [], _ => by simp [dumps]
  | .obj ((k, v) :: fields), ok => by
    rw [plain, plainFields, Bool.and_eq_true, Bool.and_eq_true] at ok
    have key := newline_notMem_dumpChars k
    have value := newline_notMem_dumps v ok.2.1
    have others := newline_notMem_dumpFields fields ok.2.2
    simp [dumps, key, value, others]

/-- The items after the first stay on the line. -/
theorem newline_notMem_dumpItems : ∀ xs : List Json, plainItems xs = true → 10 ∉ dumpItems xs
  | [], _ => by simp [dumpItems]
  | x :: xs, ok => by
    rw [plainItems, Bool.and_eq_true] at ok
    have first := newline_notMem_dumps x ok.1
    have others := newline_notMem_dumpItems xs ok.2
    simp [dumpItems, first, others]

/-- The fields after the first stay on the line. -/
theorem newline_notMem_dumpFields : ∀ fields : List (List ℕ × Json), plainFields fields = true →
    10 ∉ dumpFields fields
  | [], _ => by simp [dumpFields]
  | (k, v) :: fields, ok => by
    rw [plainFields, Bool.and_eq_true] at ok
    have key := newline_notMem_dumpChars k
    have value := newline_notMem_dumps v ok.1
    have others := newline_notMem_dumpFields fields ok.2
    simp [dumpFields, key, value, others]

end

mutual

/-- Every code point of the strings, keys and literals of a value satisfies `p`. -/
def chars (p : ℕ → Bool) : Json → Bool
  | .float literal => literal.all p
  | .str s => s.all p
  | .arr xs => charsItems p xs
  | .obj fields => charsFields p fields
  | .null | .bool _ | .int _ => true

/-- `chars` for every item. -/
def charsItems (p : ℕ → Bool) : List Json → Bool
  | [] => true
  | x :: xs => chars p x && charsItems p xs

/-- `chars` for the key and the value of every field. -/
def charsFields (p : ℕ → Bool) : List (List ℕ × Json) → Bool
  | [] => true
  | (k, v) :: fields => k.all p && (chars p v && charsFields p fields)

end

section
variable {p : ℕ → Bool} (ascii : ∀ c < 128, p c = true)
include ascii

/-- An escaped character has allowed characters only. -/
lemma all_escape {c : ℕ} (ok : p c = true) : (escape c).all p = true := by
  have digit (d : ℕ) (lt : d < 16) : p (hexDigit d) = true := by
    apply ascii
    unfold hexDigit
    split <;> omega
  unfold escape
  split_ifs
  all_goals simp [ascii, ok]
  exact ⟨digit _ (by omega), digit _ (by omega)⟩

/-- A text has allowed characters only. -/
lemma all_dumpChars {s : List ℕ} (ok : s.all p = true) : (dumpChars s).all p = true := by
  rw [List.all_eq_true] at ok ⊢
  intro c mem
  cases List.mem_append.mp mem with
  | inl mem =>
    obtain ⟨d, hd, hc⟩ := List.mem_flatMap.mp mem
    exact List.all_eq_true.mp (all_escape ascii (ok d hd)) c hc
  | inr mem => rw [List.mem_singleton.mp mem]; exact ascii 34 (by norm_num)

/-- A number has allowed characters only. -/
lemma all_dumpInt (n : ℤ) : (dumpInt n).all p = true := by
  have digits : (Decimal.text n.natAbs).all p = true := by
    rw [List.all_eq_true]
    intro c mem
    have digit := Decimal.isDigit_text mem
    simp only [Decimal.isDigit, Bool.and_eq_true, decide_eq_true_eq] at digit
    exact ascii c (by omega)
  unfold dumpInt
  split
  · rw [List.all_cons, digits, ascii 45 (by norm_num)]
    rfl
  · exact digits

mutual

/-- A written value has no code points beyond those of its parts and ASCII. -/
theorem all_dumps : ∀ j : Json, chars p j = true → (dumps j).all p = true
  | .null, _ => by simp [dumps, ascii]
  | .bool true, _ => by simp [dumps, ascii]
  | .bool false, _ => by simp [dumps, ascii]
  | .int n, _ => by rw [dumps]; exact all_dumpInt ascii n
  | .float literal, ok => by rw [dumps]; exact ok
  | .str s, ok => by
    rw [dumps, List.all_cons, ascii 34 (by norm_num), Bool.true_and]
    exact all_dumpChars ascii ok
  | .arr [], _ => by simp [dumps, ascii]
  | .arr (x :: xs), ok => by
    rw [chars, charsItems, Bool.and_eq_true] at ok
    have first := all_dumps x ok.1
    have others := all_dumpItems xs ok.2
    rw [dumps, List.all_cons, List.all_append, first, others, ascii 91 (by norm_num)]
    rfl
  | .obj [], _ => by simp [dumps, ascii]
  | .obj ((k, v) :: fields), ok => by
    rw [chars, charsFields, Bool.and_eq_true, Bool.and_eq_true] at ok
    have key := all_dumpChars ascii ok.1
    have value := all_dumps v ok.2.1
    have others := all_dumpFields fields ok.2.2
    rw [dumps, List.all_cons, List.all_cons, List.all_append, List.all_cons, List.all_append, key,
      value, others, ascii 123 (by norm_num), ascii 34 (by norm_num), ascii 58 (by norm_num)]
    rfl

/-- The items after the first. -/
theorem all_dumpItems : ∀ xs : List Json, charsItems p xs = true → (dumpItems xs).all p = true
  | [], _ => by simp [dumpItems, ascii]
  | x :: xs, ok => by
    rw [charsItems, Bool.and_eq_true] at ok
    have first := all_dumps x ok.1
    have others := all_dumpItems xs ok.2
    rw [dumpItems, List.all_cons, List.all_append, first, others, ascii 44 (by norm_num)]
    rfl

/-- The fields after the first. -/
theorem all_dumpFields : ∀ fields : List (List ℕ × Json), charsFields p fields = true →
    (dumpFields fields).all p = true
  | [], _ => by simp [dumpFields, ascii]
  | (k, v) :: fields, ok => by
    rw [charsFields, Bool.and_eq_true, Bool.and_eq_true] at ok
    have key := all_dumpChars ascii ok.1
    have value := all_dumps v ok.2.1
    have others := all_dumpFields fields ok.2.2
    rw [dumpFields, List.all_cons, List.all_cons, List.all_append, List.all_cons, List.all_append, key,
      value, others, ascii 44 (by norm_num), ascii 34 (by norm_num), ascii 58 (by norm_num)]
    rfl

end

end

end Json

end CLL
