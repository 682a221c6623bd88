import CLL.Core.Hash
import CLL.Lib.AsciiJson
import CLL.Lib.Text

/-!
# Admission

`ledger/admission.py`: whether a capsule is admitted as signed is decided by the declared mode, and a
signed one needs an envelope that verifies against the recomputed id. A capsule is the JSON object that
`json.loads` returns. The package `agent_action_capsule` is the parameter `Aac`.

`toStore_signed` says that what is stored of a signed entry carries its proof, and
`reindexAuthenticity_eq_signed` that an entry is found signed again exactly if it does.
-/

namespace CLL.Ledger
open CLL.Core

/-- The fields of a JSON object. -/
abbrev Fields := List (Str × Json)

/-- A capsule as `json.loads` returns it. -/
structure Capsule where
  fields : Fields
  portable : Json.portable (.obj fields) = true

/-- `dict.get(key)`, `None` for a missing key. -/
def Fields.get (fields : Fields) (key : String) : Json := (Json.get? fields (Str.lit key)).getD .null

/-- `fields[key] = value`. -/
def Fields.set (fields : Fields) (key : String) (value : Json) : Fields :=
  Json.insert fields (Str.lit key) value

/-- The digits of a float literal before its exponent, without sign and dot. -/
def mantissa (literal : Str) : Str :=
  (literal.takeWhile fun c => c ≠ 101 && c ≠ 69).filter Decimal.isDigit

/-- The decimal exponent of a float literal without its dot. -/
def decimalExponent (literal : Str) : ℤ :=
  let fraction := ((literal.takeWhile fun c => c ≠ 101 && c ≠ 69).dropWhile (· ≠ 46)).filter
    Decimal.isDigit
  let power := (literal.dropWhile fun c => c ≠ 101 && c ≠ 69).drop 1
  let magnitude := Decimal.value (power.filter Decimal.isDigit)
  (if power.head? = some 45 then -(magnitude : ℤ) else magnitude) - fraction.length

/-- `float(literal) == 0.0`, also for what rounds to zero. -/
def isZero (literal : Str) : Bool :=
  literal.any Decimal.isDigit &&
    (Decimal.value (mantissa literal) == 0 || (decimalExponent literal < 0 &&
      Decimal.value (mantissa literal) * 2 ^ 1075 ≤ 10 ^ (decimalExponent literal).natAbs))

/-- `bool(value)`. -/
def truthy : Json → Bool
  | .null => false
  | .bool b => b
  | .int n => n ≠ 0
  | .float literal => !isZero literal
  | .str s => !s.isEmpty
  | .arr xs => !xs.isEmpty
  | .obj fields => !fields.isEmpty

/-- `agent_action_capsule`. -/
structure Aac where
  /-- `compute_capsule_id`. -/
  computeCapsuleId : Fields → Py Str
  /-- `ok` and `public_key` of `verify_producer_envelope`. -/
  verifyProducerEnvelope : Str → Bytes → Py (Bool × Option Bytes)

/-- `except (ValueError, TypeError)`. -/
def isValueOrType (kind : ErrorKind) : Bool := kind.isValueError || kind == .typeError

/-- The fields that the preimage of a capsule id has. -/
def preimage (fields : Fields) : Fields :=
  fields.filter fun f => f.1 ≠ Str.lit "signature" && f.1 ≠ Str.lit "key_id"

/-- What the package documents: the local-only fields are no part of the preimage, and a failure is a
`ValueError` or a `TypeError`. -/
structure Aac.Lawful (aac : Aac) : Prop where
  computeCapsuleId_preimage : ∀ f g, preimage f = preimage g →
    aac.computeCapsuleId f = aac.computeCapsuleId g
  computeCapsuleId_raises : ∀ f e, aac.computeCapsuleId f = .error e →
    isValueOrType e.kind = true
  verifyProducerEnvelope_raises : ∀ id b e, aac.verifyProducerEnvelope id b = .error e →
    isValueOrType e.kind = true

/-- `ProducerEnvelope`. -/
structure ProducerEnvelope where
  envelope : Str
  keyId : Str
  deriving DecidableEq

/-- The admission modes, and the authenticity recorded for each. -/
inductive Authenticity where
  | unsigned
  | signed
  deriving DecidableEq

/-- `AdmissionRequest`, with what `__post_init__` checks. -/
structure AdmissionRequest where
  mode : Authenticity
  envelopes : List ProducerEnvelope
  declared : mode = .unsigned → envelopes = []

/-- `AdmissionRequest(mode=UNSIGNED)`. -/
def AdmissionRequest.unsigned : AdmissionRequest := ⟨.unsigned, [], fun _ => rfl⟩

/-- `_Resolution`. -/
structure Resolution where
  authenticity : Authenticity
  verifiedEnvelopes : List ProducerEnvelope
  capsuleId : Option Str
  deriving DecidableEq

/-- `bytes.fromhex` of a string. -/
def fromHexStr (s : Str) : Py Bytes :=
  match fromHex s with
  | some b => .ok b
  | none => raise .valueError "non-hexadecimal number found in fromhex() arg"

/-- `except (ValueError, TypeError): return default`. -/
def orDefault {α : Type} (x : Py α) (default : α) : Py α :=
  match x with
  | .ok a => .ok a
  | .error e => if isValueOrType e.kind then .ok default else .error e

variable (aac : Aac)

/-- The envelope embedded in a capsule. -/
def embedded (capsule : Fields) : List ProducerEnvelope :=
  match Fields.get capsule "signature", Fields.get capsule "key_id" with
  | .str envelope, .str keyId => [⟨envelope, keyId⟩]
  | _, _ => []

/-- `_candidate_envelopes`. -/
def candidateEnvelopes (capsule : Fields) (request : AdmissionRequest) : List ProducerEnvelope :=
  request.envelopes ++ embedded capsule

/-- The comparison of `_verifies`. -/
def checkEnvelope (capsuleId : Str) (env : ProducerEnvelope) : Py Bool := do
  let envelope ← fromHexStr env.envelope
  let (ok, publicKey) ← aac.verifyProducerEnvelope capsuleId envelope
  if ok then do
    let keyId ← fromHexStr env.keyId
    .ok (publicKey == some keyId)
  else .ok false

/-- `_verifies`. -/
def verifies (capsuleId : Str) (env : ProducerEnvelope) : Py Bool :=
  orDefault (checkEnvelope aac capsuleId env) false

/-- `tuple(env for env in candidates if _verifies(capsule_id, env))`. -/
def verified (capsuleId : Str) : List ProducerEnvelope → Py (List ProducerEnvelope)
  | [] => .ok []
  | env :: candidates => do
    let b ← verifies aac capsuleId env
    let rest ← verified capsuleId candidates
    .ok (if b then env :: rest else rest)

/-- `resolve_admission`. -/
def resolveAdmission (capsule : Fields) (request : AdmissionRequest) : Py Resolution :=
  match request.mode with
  | .unsigned => .ok ⟨.unsigned, [], none⟩
  | .signed => do
    let capsuleId ← aac.computeCapsuleId capsule
    let candidates := candidateEnvelopes capsule request
    require (candidates ≠ []) .admissionRejected
      ("declared-signed submission carried no producer envelope; a signed entry requires at least one " ++
        "envelope verifying against the recomputed capsule_id")
    let verified ← verified aac capsuleId candidates
    require (verified ≠ []) .admissionRejected
      ("declared-signed submission: no producer envelope verifies against the recomputed capsule_id")
    .ok ⟨.signed, verified, some capsuleId⟩

/-- `_reindex_authenticity`. -/
def reindexAuthenticity (capsule : Fields) : Py Authenticity :=
  match embedded capsule with
  | [] => .ok .unsigned
  | env :: _ =>
    orDefault (do
      let capsuleId ← aac.computeCapsuleId capsule
      let ok ← checkEnvelope aac capsuleId env
      .ok (if ok then .signed else .unsigned)) .unsigned

/-- `_bundled_envelopes`. -/
def bundledEnvelopes (capsule : Fields) (authenticity : Authenticity) : List ProducerEnvelope :=
  match authenticity with
  | .unsigned => []
  | .signed => embedded capsule

/-- `capsule.get("capsule_id") or compute_capsule_id(capsule)`. -/
def carriedOrComputed (capsule : Fields) : Py Json :=
  let carried := Fields.get capsule "capsule_id"
  if truthy carried then .ok carried
  else (aac.computeCapsuleId capsule).map .str

/-- `dict(capsule)` with `signature` and `key_id` of the proof. -/
def bundle (capsule : Fields) (proof : ProducerEnvelope) : Fields :=
  Fields.set (Fields.set capsule "signature" (.str proof.envelope)) "key_id" (.str proof.keyId)

/-- What `append` stores of a capsule, and the id it is stored under. -/
def toStore (capsule : Fields) (resolution : Resolution) : Py (Fields × Json) :=
  match resolution.authenticity, resolution.verifiedEnvelopes, resolution.capsuleId with
  | .signed, proof :: _, some capsuleId => do
    let bundled := bundle capsule proof
    if capsuleId.isEmpty then do
      let computed ← aac.computeCapsuleId bundled
      .ok (bundled, .str computed)
    else .ok (bundled, .str capsuleId)
  | _, _, _ => do
    let capsuleId ← carriedOrComputed aac capsule
    .ok (capsule, capsuleId)

/-- The first field is looked up by its key. -/
lemma lookup_cons_eq (k key : Str) (v : Json) (fields : Fields) :
    List.lookup key ((k, v) :: fields) = if key = k then some v else List.lookup key fields := by
  rw [List.lookup_cons]
  by_cases e : key = k
  · rw [if_pos e, e, beq_self_eq_true]
  · rw [if_neg e, beq_eq_false_iff_ne.mpr e]

/-- An inserted field is looked up, and no other one changes. -/
lemma get?_insert (fields : Fields) (key key' : Str) (value : Json) :
    Json.get? (Json.insert fields key value) key' =
      if key' = key then some value else Json.get? fields key' := by
  unfold Json.get?
  induction fields with
  | nil => rw [Json.insert, lookup_cons_eq]
  | cons f fields ih =>
    obtain ⟨k, v⟩ := f
    rw [Json.insert]
    by_cases own : k = key
    · rw [if_pos own, lookup_cons_eq, lookup_cons_eq, own]
      by_cases e : key' = key
      · rw [if_pos e, if_pos e]
      · rw [if_neg e, if_neg e, if_neg e]
    · rw [if_neg own, lookup_cons_eq, lookup_cons_eq, ih]
      by_cases e : key' = k
      · rw [if_pos e, if_neg fun h => own (e.symm.trans h), if_pos e]
      · rw [if_neg e, if_neg e]

/-- A field that is set is read. -/
@[simp] lemma Fields.get_set (fields : Fields) (key : String) (value : Json) :
    Fields.get (Fields.set fields key value) key = value := by
  simp [Fields.get, Fields.set, get?_insert]

/-- Setting a field changes no other one. -/
lemma Fields.get_set_ne (fields : Fields) {key key' : String} (ne : key' ≠ key) (value : Json) :
    Fields.get (Fields.set fields key value) key' = Fields.get fields key' := by
  simp [Fields.get, Fields.set, get?_insert, ne]

/-- Inserting a field adds its key at the end, or none. -/
lemma map_fst_insert (fields : Fields) (key : Str) (value : Json) :
    (Json.insert fields key value).map Prod.fst =
      if key ∈ fields.map Prod.fst then fields.map Prod.fst else fields.map Prod.fst ++ [key] := by
  induction fields with
  | nil => rfl
  | cons f fields ih =>
    obtain ⟨k, v⟩ := f
    rw [Json.insert]
    by_cases own : k = key
    · simp [own]
    · rw [if_neg own, List.map_cons, ih, List.map_cons]
      simp only [List.mem_cons, Ne.symm own, false_or]
      split <;> simp

/-- Inserting a portable value keeps the fields portable. -/
lemma portableFields_insert {fields : Fields} {key : Str} {value : Json}
    (text : Json.isText key = true) (ok : Json.portable value = true)
    (all : Json.portableFields fields = true) :
    Json.portableFields (Json.insert fields key value) = true := by
  induction fields with
  | nil => simp [Json.insert, Json.portableFields, text, ok]
  | cons f fields ih =>
    obtain ⟨k, v⟩ := f
    rw [Json.portableFields, Bool.and_eq_true, Bool.and_eq_true] at all
    rw [Json.insert]
    split
    · simp [Json.portableFields, all.1, ok, all.2.2]
    · simp [Json.portableFields, all.1, all.2.1, ih all.2.2]

/-- Setting a field of a capsule to a value that JSON can hold gives such an object again. -/
lemma portable_insert {fields : Fields} {key : Str} {value : Json} (text : Json.isText key = true)
    (ok : Json.portable value = true) (all : Json.portable (.obj fields) = true) :
    Json.portable (.obj (Json.insert fields key value)) = true := by
  rw [Json.portable, Bool.and_eq_true, decide_eq_true_eq] at all ⊢
  refine ⟨?_, portableFields_insert text ok all.2⟩
  rw [map_fst_insert]
  split
  · exact all.1
  · rename_i fresh
    rw [List.nodup_append']
    refine ⟨all.1, List.nodup_singleton key, ?_⟩
    rw [List.disjoint_singleton]
    exact fresh

/-- The preimage of a capsule does not read its signature and key. -/
lemma preimage_insert (fields : Fields) {key : Str} (value : Json)
    (lone : key = Str.lit "signature" ∨ key = Str.lit "key_id") :
    preimage (Json.insert fields key value) = preimage fields := by
  have out : (decide (key ≠ Str.lit "signature") && decide (key ≠ Str.lit "key_id")) = false := by
    rcases lone with rfl | rfl <;> simp
  unfold preimage
  induction fields with
  | nil =>
    rw [Json.insert, List.filter_cons_of_neg (by simp only [out]; simp)]
  | cons f fields ih =>
    obtain ⟨k, v⟩ := f
    rw [Json.insert]
    split
    · rename_i own
      rw [List.filter_cons_of_neg (by simp only [own, out]; simp),
        List.filter_cons_of_neg (by simp only [own, out]; simp)]
    · rw [List.filter_cons, List.filter_cons, ih]

/-- The proof is no part of the preimage. -/
lemma preimage_bundle (capsule : Fields) (proof : ProducerEnvelope) :
    preimage (bundle capsule proof) = preimage capsule := by
  rw [bundle, Fields.set, Fields.set, preimage_insert _ _ (.inr rfl), preimage_insert _ _ (.inl rfl)]

/-- The proof of an entry is found in what is stored of it. -/
lemma embedded_bundle (capsule : Fields) (proof : ProducerEnvelope) :
    embedded (bundle capsule proof) = [proof] := by
  rw [embedded, bundle, Fields.get_set, Fields.get_set_ne _ (by decide), Fields.get_set]

/-- A hexadecimal digit is an ASCII character. -/
lemma hexValue_lt {c n : ℕ} (ok : hexValue c = some n) : c < 128 := by
  unfold hexValue at ok
  split_ifs at ok <;> omega

/-- `bytes.fromhex` takes ASCII only. -/
lemma lt_of_fromHex {s : Str} {b : Bytes} (ok : fromHex s = some b) : ∀ c ∈ s, c < 128 := by
  have space {c : ℕ} (h : isSpace c = true) : c < 128 := by
    simp only [isSpace, Bool.or_eq_true, beq_iff_eq, Bool.and_eq_true, decide_eq_true_eq] at h
    omega
  fun_induction fromHex s generalizing b with
  | case1 => simp
  | case2 c h =>
    intro d hd
    rw [List.mem_singleton.mp hd]
    exact space h
  | case3 => cases ok
  | case4 c d s h ih =>
    intro e he
    cases he with
    | head => exact space h
    | tail _ he => exact ih ok e he
  | case5 c d s h ih =>
    obtain ⟨hi, hhi, ok⟩ := Option.bind_eq_some_iff.mp ok
    obtain ⟨lo, hlo, ok⟩ := Option.bind_eq_some_iff.mp ok
    obtain ⟨rest, hrest, -⟩ := Option.bind_eq_some_iff.mp ok
    intro e he
    rcases List.mem_cons.mp he with rfl | he
    · exact hexValue_lt hhi
    · rcases List.mem_cons.mp he with rfl | he
      · exact hexValue_lt hlo
      · exact ih hrest e he

/-- An ASCII text is a text. -/
lemma isText_of_lt {s : Str} (small : ∀ c ∈ s, c < 128) : Json.isText s = true := by
  induction s with
  | nil => rfl
  | cons c s ih =>
    have own := small c List.mem_cons_self
    have rest := ih fun d hd => small d (List.mem_cons_of_mem _ hd)
    cases s with
    | nil => exact decide_eq_true (by omega)
    | cons d s =>
      have high : Json.isHigh c = false := by
        simp only [Json.isHigh, Bool.and_eq_false_iff, decide_eq_false_iff_not]
        omega
      rw [Json.isText, rest, high, decide_eq_true (show c < 0x110000 by omega)]
      rfl

/-- Hexadecimal text is decoded by `bytes.fromhex`. -/
lemma fromHexStr_eq_ok {s : Str} {b : Bytes} : fromHexStr s = .ok b ↔ fromHex s = some b := by
  unfold fromHexStr
  split
  · rename_i e
    simp [e]
  · rename_i e
    simp [e]

/-- A default stands in exactly for a value or type error. -/
lemma orDefault_eq_ok {α : Type} {x : Py α} {default a : α} : orDefault x default = .ok a ↔
    x = .ok a ∨ ∃ e, x = .error e ∧ isValueOrType e.kind = true ∧ default = a := by
  unfold orDefault
  split
  · simp
  · split
    · rename_i value
      simp [value]
    · rename_i value
      simp [value]

variable {aac}

/-- An envelope that verifies. -/
lemma verifies_eq_true {capsuleId : Str} {env : ProducerEnvelope} :
    verifies aac capsuleId env = .ok true ↔ ∃ envelope keyId, fromHex env.envelope = some envelope ∧
      fromHex env.keyId = some keyId ∧
        aac.verifyProducerEnvelope capsuleId envelope = .ok (true, some keyId) := by
  rw [verifies, orDefault_eq_ok]
  simp only [Bool.false_eq_true, and_false, exists_false, or_false, checkEnvelope, bind_eq_ok,
    fromHexStr_eq_ok, Prod.exists]
  constructor
  · rintro ⟨envelope, henvelope, ok, publicKey, hverify, rest⟩
    split at rest
    · rename_i true_
      obtain ⟨keyId, hkey, rest⟩ := bind_eq_ok.mp rest
      have same : publicKey = some keyId := by simpa using rest
      refine ⟨envelope, keyId, henvelope, fromHexStr_eq_ok.mp hkey, ?_⟩
      rw [hverify, true_, same]
    · simp at rest
  · rintro ⟨envelope, keyId, henvelope, hkey, hverify⟩
    refine ⟨envelope, henvelope, true, some keyId, hverify, ?_⟩
    simp [fromHexStr_eq_ok.mpr hkey]

/-- Every envelope that is returned verifies. -/
lemma verified_eq_ok {capsuleId : Str} {candidates envs : List ProducerEnvelope}
    (ok : verified aac capsuleId candidates = .ok envs) :
    ∀ env ∈ envs, verifies aac capsuleId env = .ok true := by
  induction candidates generalizing envs with
  | nil =>
    cases ok
    simp
  | cons c candidates ih =>
    obtain ⟨b, hb, ok⟩ := bind_eq_ok.mp ok
    obtain ⟨rest, hrest, ok⟩ := bind_eq_ok.mp ok
    cases ok
    intro env mem
    cases b with
    | false => exact ih hrest env mem
    | true =>
      cases mem with
      | head => exact hb
      | tail _ mem => exact ih hrest env mem

/-- The two outcomes of `resolve_admission`. -/
lemma resolveAdmission_eq_ok {capsule : Fields} {request : AdmissionRequest} {resolution : Resolution}
    (ok : resolveAdmission aac capsule request = .ok resolution) :
    resolution = ⟨.unsigned, [], none⟩ ∨ ∃ capsuleId proof more,
      aac.computeCapsuleId capsule = .ok capsuleId ∧ verifies aac capsuleId proof = .ok true ∧
        resolution = ⟨.signed, proof :: more, some capsuleId⟩ := by
  unfold resolveAdmission at ok
  split at ok
  · cases ok
    exact .inl rfl
  · obtain ⟨capsuleId, hid, ok⟩ := bind_eq_ok.mp ok
    obtain ⟨_, -, ok⟩ := bind_eq_ok.mp ok
    obtain ⟨envs, henvs, ok⟩ := bind_eq_ok.mp ok
    obtain ⟨_, some_, ok⟩ := bind_eq_ok.mp ok
    cases ok
    cases envs with
    | nil => exact absurd rfl (require_eq_ok.mp some_)
    | cons proof more =>
      exact .inr ⟨capsuleId, proof, more, hid, verified_eq_ok henvs proof List.mem_cons_self, rfl⟩

/-- The object carries an envelope that verifies against its recomputed id. -/
def CarriesProof (aac : Aac) (capsule : Fields) : Prop :=
  ∃ env ∈ embedded capsule, ∃ capsuleId, aac.computeCapsuleId capsule = .ok capsuleId ∧
    verifies aac capsuleId env = .ok true

/-- Checking an envelope raises only value and type errors. -/
lemma checkEnvelope_raises (lawful : aac.Lawful) {capsuleId : Str} {env : ProducerEnvelope} {e : Error}
    (err : checkEnvelope aac capsuleId env = .error e) : isValueOrType e.kind = true := by
  unfold checkEnvelope fromHexStr at err
  split at err
  · rename_i envelope _
    rw [ok_bind] at err
    cases hv : aac.verifyProducerEnvelope capsuleId envelope with
    | error e' =>
      rw [hv] at err
      cases err
      exact lawful.verifyProducerEnvelope_raises _ _ _ hv
    | ok r =>
      rw [hv, ok_bind] at err
      dsimp only at err
      split at err
      · split at err
        · cases err
        · cases err
          rfl
      · cases err
  · cases err
    rfl

/-- Reindexing finds a capsule signed exactly where it carries a proof. -/
lemma reindexAuthenticity_eq_signed (lawful : aac.Lawful) (capsule : Fields) :
    (CarriesProof aac capsule → reindexAuthenticity aac capsule = .ok .signed) ∧
      (¬CarriesProof aac capsule → reindexAuthenticity aac capsule = .ok .unsigned) := by
  unfold CarriesProof reindexAuthenticity
  cases e : embedded capsule with
  | nil => simp
  | cons env more =>
    have only : more = [] := by
      unfold embedded at e
      split at e
      · exact (List.cons.inj e).2.symm
      · cases e
    subst only
    simp only [List.mem_singleton, exists_eq_left]
    cases hid : aac.computeCapsuleId capsule with
    | error err =>
      have caught := lawful.computeCapsuleId_raises _ _ hid
      simp [bind, Except.bind, orDefault, caught]
    | ok capsuleId =>
      simp only [ok_bind, Except.ok.injEq, exists_eq_left']
      cases hc : checkEnvelope aac capsuleId env with
      | error err =>
        have caught := checkEnvelope_raises lawful hc
        simp [verifies, hc, bind, Except.bind, orDefault, caught]
      | ok b => cases b <;> simp [verifies, hc, orDefault]

/-- What is stored of a signed entry carries its proof, under the id it was verified against. -/
lemma toStore_signed (lawful : aac.Lawful) {capsule : Fields} {capsuleId : Str}
    {proof : ProducerEnvelope} {more : List ProducerEnvelope}
    (hid : aac.computeCapsuleId capsule = .ok capsuleId)
    (verifies : verifies aac capsuleId proof = .ok true) :
    toStore aac capsule ⟨.signed, proof :: more, some capsuleId⟩ =
        .ok (bundle capsule proof, .str capsuleId) ∧
      aac.computeCapsuleId (bundle capsule proof) = .ok capsuleId ∧
        CarriesProof aac (bundle capsule proof) := by
  have same : aac.computeCapsuleId (bundle capsule proof) = .ok capsuleId := by
    rw [lawful.computeCapsuleId_preimage _ _ (preimage_bundle capsule proof), hid]
  refine ⟨?_, same, proof, by simp [embedded_bundle], capsuleId, same, verifies⟩
  unfold toStore
  dsimp only
  split
  · rw [same, ok_bind]
  · rfl

/-- A bundle of a portable capsule and its proof is portable. -/
lemma portable_bundle {capsule : Fields} {capsuleId : Str} {proof : ProducerEnvelope}
    (ok : Json.portable (.obj capsule) = true) (verifies : verifies aac capsuleId proof = .ok true) :
    Json.portable (.obj (bundle capsule proof)) = true := by
  obtain ⟨envelope, keyId, henvelope, hkey, -⟩ := verifies_eq_true.mp verifies
  refine portable_insert (by decide) ?_ (portable_insert (by decide) ?_ ok)
  · exact isText_of_lt (lt_of_fromHex hkey)
  · exact isText_of_lt (lt_of_fromHex henvelope)

/-- A package that hashes the fields other than the id as they stand, and for which an envelope is the byte of
its key and the digest that it signs. -/
def sampleAac : Aac where
  computeCapsuleId fields :=
    let content := (preimage fields).filter fun f => f.1 ≠ Str.lit "capsule_id"
    .ok (toHex (sha256Hash.digest (Text.ascii (Json.dumpsAscii (.obj content)))))
  verifyProducerEnvelope capsuleId envelope :=
    .ok (fromHex capsuleId == some envelope.tail, envelope.head?.map fun key => [key])

/-- It does what the package documents. -/
lemma sampleAac_lawful : sampleAac.Lawful where
  computeCapsuleId_preimage f g same := by
    unfold sampleAac
    dsimp only
    rw [same]
  computeCapsuleId_raises f e err := by cases err
  verifyProducerEnvelope_raises id b e err := by cases err

/-- The fields of a sealed capsule in the order of their keys, with the correlation ids and the time that it
declares. -/
def sealedFields (capsuleId : Str) (ids stamp : Fields) : Fields :=
  [(Str.lit "action_type", .str (Str.lit "fyi")), (Str.lit "canonicalization_id", .str (Str.lit "jcs")),
    (Str.lit "capsule_id", .str capsuleId), (Str.lit "developer", .str (Str.lit "agent@v1")),
    (Str.lit "format_version", .str (Str.lit "4"))] ++ ids ++
  [(Str.lit "operator", .str (Str.lit "ACME-CO")),
    (Str.lit "spec_version", .str (Str.lit "draft-mih-scitt-agent-action-capsule-04"))] ++ stamp

/-- The time of a capsule. -/
def stampedAt (timestamp : String) : Fields := [(Str.lit "timestamp", .str (Str.lit timestamp))]

/-- The id of the capsule stamped on a clock twelve hours behind UTC. -/
def stampedId : Str := Str.lit "cce18542a1ddad0d583d658e0ca3a797534819aad07d219a1990208c544cf9c2"

/-- A capsule stamped on a clock twelve hours behind UTC. -/
def stampedCapsule : Capsule where
  fields := sealedFields stampedId [] (stampedAt "2026-03-08T22:00:00-12:00")
  portable := by decide +kernel

/-- The id of the capsule stamped a day later. -/
def laterId : Str := Str.lit "af481fa8fd4a0876b57f07b4ff5e7bc1be9f60417778698eea81b8b7083ffdcb"

/-- A capsule stamped a day later. -/
def laterCapsule : Capsule where
  fields := sealedFields laterId [] (stampedAt "2026-03-09T22:00:00-12:00")
  portable := by decide +kernel

/-- A proof of it under the key `01`. -/
def laterProof : ProducerEnvelope := ⟨Str.lit "01" ++ laterId, Str.lit "01"⟩

example : sampleAac.computeCapsuleId stampedCapsule.fields = .ok stampedId := by decide +kernel

example : verifies sampleAac laterId laterProof = .ok true := by decide +kernel

end CLL.Ledger
