import CLL.Checkpoint.Soundness
import CLL.Lib.AsciiJson

/-!
# Entry hashes

`checkpoint/witness.py`: the entry hash under which a witness registers a statement, which is the hash of
the digest of the checkpoint that the statement decodes to.
-/

namespace CLL.Checkpoint
open CLL.Core

/-- `DecodedCheckpointCose.to_checkpoint_record`. -/
def DecodedCheckpointCose.toCheckpointRecord (d : DecodedCheckpointCose) : CheckpointRecord :=
  ⟨1, .lit "mmr_checkpoint", d.logId, d.mmrSize, d.root, d.prevSize, d.prevRoot, d.keyId, d.timestamp,
    [], []⟩

variable (P : Packages) (H : HashFunction)

/-- `_verified_checkpoint`. -/
def verifiedCheckpoint (checkpoint : Bytes) : Py DecodedCheckpointCose :=
  match verifyCheckpointCoseOffline P H checkpoint with
  | .ok decoded => .ok decoded
  | .error _ => raise .rejected "signed checkpoint failed verification"

/-- `_checkpoint_entry_hash`. -/
def checkpointEntryHash (checkpoint : Bytes) : Py Str := do
  let decoded ← verifiedCheckpoint P H checkpoint
  let digest ← decoded.toCheckpointRecord.digest H
  let digest ← bytesFromHex digest
  .ok (toHex (H.digest digest))

/-- The strings that are hashed for the entry hash of a checkpoint. -/
def CheckpointRecord.entryHashed (cp : CheckpointRecord) : List Bytes :=
  match Utf8.encode cp.signingBody with
  | some body => [body, H.digest body]
  | none => []

variable {P H}

/-- What the envelope of an accepted statement holds. -/
lemma openEnvelope_eq_ok {coseBytes kid : Bytes} {parsed : Statement} {claims : Cbor}
    (ok : openEnvelope P coseBytes = .ok (kid, parsed, claims)) :
    extractKid P coseBytes = .ok (some kid) ∧
      (∃ pem, P.parseSignedStatement coseBytes pem = some parsed) ∧
      Cbor.loads P.cbor2 parsed.payload = .ok claims := by
  unfold openEnvelope at ok
  obtain ⟨kid?, hkid, ok⟩ := bind_eq_ok.mp ok
  cases kid? with
  | none => exact (raise_ne_ok ok).elim
  | some kid' =>
    simp only [ok_bind] at ok
    obtain ⟨_, _, ok⟩ := bind_eq_ok.mp ok
    obtain ⟨_, _, ok⟩ := bind_eq_ok.mp ok
    cases hpem : P.publicKeyPem kid' with
    | none =>
      rw [hpem] at ok
      exact (raise_ne_ok ok).elim
    | some pem =>
      rw [hpem] at ok
      cases hparsed : P.parseSignedStatement coseBytes pem with
      | none =>
        simp only [hparsed] at ok
        exact (raise_ne_ok ok).elim
      | some parsed' =>
        simp only [hparsed] at ok
        obtain ⟨_, _, ok⟩ := bind_eq_ok.mp ok
        obtain ⟨_, _, ok⟩ := bind_eq_ok.mp ok
        obtain ⟨claims', hclaims, ok⟩ := bind_eq_ok.mp ok
        cases ok
        exact ⟨hkid, ⟨pem, hparsed⟩, hclaims⟩

/-- Where a key id was found. -/
lemma extractKid_eq_some {coseBytes kid : Bytes} (ok : extractKid P coseBytes = .ok (some kid)) :
    ∃ protectedBstr unprotected payload signature raw fields,
      P.strictDecode coseBytes = some (.array [protectedBstr, unprotected, payload, signature]) ∧
      toBytes P protectedBstr = .ok raw ∧ Cbor.loads P.cbor2 raw = .ok (.map fields) ∧
      Cbor.get? fields (.int hdrKid) = some (.bytes kid) := by
  unfold extractKid at ok
  cases decoded : P.strictDecode coseBytes with
  | none =>
    rw [decoded] at ok
    exact (raise_ne_ok ok).elim
  | some value =>
    simp only [decoded, ok_bind] at ok
    obtain ⟨_, _, ok⟩ := bind_eq_ok.mp ok
    split at ok
    · rename_i protectedBstr unprotected payload signature
      obtain ⟨_, _, ok⟩ := bind_eq_ok.mp ok
      split at ok
      · obtain ⟨raw, hraw, ok⟩ := bind_eq_ok.mp ok
        obtain ⟨header, hheader, ok⟩ := bind_eq_ok.mp ok
        obtain ⟨_, _, ok⟩ := bind_eq_ok.mp ok
        split at ok
        · obtain ⟨_, _, ok⟩ := bind_eq_ok.mp ok
          split at ok
          · rename_i kid' found
            cases ok
            exact ⟨_, _, _, _, raw, _, rfl, hraw, hheader, found⟩
          · cases ok
        · cases ok
      · cases ok
    · cases ok

/-- A checkpoint whose body `json.loads` reads back: no two code points of a text stand for one. -/
structure CheckpointRecord.Portable (cp : CheckpointRecord) : Prop where
  texts : ∀ s ∈ [cp.keyId, cp.kind, cp.logId, cp.prevRoot, cp.root, cp.timestamp], Json.isText s = true
  numbers : ∀ n ∈ [cp.v, cp.mmrSize, cp.prevSize], (Decimal.text n.natAbs).length ≤ Json.maxDigits

namespace CheckpointRecord

/-- The body of a portable record is portable. -/
lemma Portable.body {cp : CheckpointRecord} (ok : cp.Portable) :
    Json.portable (Json.sortKeys cp.body) = true := by
  have texts := ok.texts
  have numbers := ok.numbers
  simp only [List.forall_mem_cons, List.not_mem_nil, false_imp_iff, implies_true, and_true] at texts numbers
  obtain ⟨keyId, kind, logId, prevRoot, root, timestamp⟩ := texts
  obtain ⟨v, mmrSize, prevSize⟩ := numbers
  have keys : ∀ k ∈ ["key_id", "kind", "log_id", "mmr_size", "prev_root", "prev_size", "root", "timestamp",
      "v"].map Str.lit, Json.isText k = true := by decide
  have distinct : (["key_id", "kind", "log_id", "mmr_size", "prev_root", "prev_size", "root", "timestamp",
      "v"].map Str.lit).Nodup := by decide
  simp only [List.map_cons, List.map_nil, List.forall_mem_cons] at keys distinct
  rw [sortKeys_body, Json.portable]
  simp only [Json.portableFields, Json.portable, Bool.and_eq_true, decide_eq_true_eq, List.map_cons,
    List.map_nil, keys, keyId, kind, logId, prevRoot, root, timestamp, v, mmrSize, prevSize, and_true]
  exact distinct

/-- The text that is signed is ASCII. -/
lemma Portable.encode_signingBody {cp : CheckpointRecord} (ok : cp.Portable) :
    Utf8.encode cp.signingBody = some (cp.signingBody.flatMap Utf8.encodeChar) := by
  apply Json.encode_of_ascii
  intro c hc
  exact ((Json.printable_dumpsAscii _ ok.body c hc).2).trans_lt (by decide)

/-- The text that is signed determines what it is written from. -/
lemma Portable.signingBody_inj {a b : CheckpointRecord} (ha : a.Portable) (hb : b.Portable)
    (eq : a.signingBody = b.signingBody) : Json.sortKeys a.body = Json.sortKeys b.body := by
  have read {cp : CheckpointRecord} (ok : cp.Portable) :
      Json.loads cp.signingBody = some (Json.sortKeys cp.body) := by
    have back := Json.loads_dumpsAscii (sortKeys_body cp ▸ ok.body) (show Json.skipSpace [] = [] from rfl)
    rwa [List.append_nil, ← sortKeys_body] at back
  have readA := read ha
  rw [eq, read hb] at readA
  exact (Option.some.inj readA).symm

end CheckpointRecord

/-- A text of code points that UTF-8 encodes has no halves of a pair. -/
lemma isText_of_isScalar {s : Str} (scalar : ∀ c ∈ s, Utf8.isScalar c = true) : Json.isText s = true := by
  induction s with
  | nil => rfl
  | cons h s ih =>
    have ih := ih fun c hc => scalar c (List.mem_cons_of_mem _ hc)
    have head := scalar h List.mem_cons_self
    simp only [Utf8.isScalar, Bool.or_eq_true, Bool.and_eq_true, decide_eq_true_eq] at head
    cases s with
    | nil => exact decide_eq_true (by omega)
    | cons l s =>
      have notHigh : Json.isHigh h = false := by
        simp only [Json.isHigh, Bool.and_eq_false_iff, decide_eq_false_iff_not]
        omega
      rw [Json.isText, ih, notHigh]
      simp only [Bool.false_and, Bool.not_false, Bool.and_true, decide_eq_true_eq]
      omega

end CLL.Checkpoint
