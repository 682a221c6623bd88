import CLL.Core.Hash
import CLL.Lib.CanonicalJson

/-!
# Checkpoint records

`WitnessRecord` and `CheckpointRecord` of `checkpoint/emit.py` with their canonical JSON and digests.
-/

namespace CLL.Checkpoint
open CLL.Core (HashFunction toHex)

structure WitnessRecord where
  tsUrl : Str
  entryHash : Str
  receiptB64 : Str
  leafIndex : ℤ
  treeSize : ℤ
  isStub : Bool

structure CheckpointRecord where
  v : ℤ
  kind : Str
  logId : Str
  mmrSize : ℤ
  root : Str
  prevSize : ℤ
  prevRoot : Str
  keyId : Str
  timestamp : Str
  signature : Str
  witnesses : List WitnessRecord

/-- `WitnessRecord.to_dict`. -/
def WitnessRecord.toDict (w : WitnessRecord) : Json :=
  .obj ([(Str.lit "ts_url", .str w.tsUrl), (Str.lit "entry_hash", .str w.entryHash),
    (Str.lit "receipt_b64", .str w.receiptB64), (Str.lit "leaf_index", .int w.leafIndex),
    (Str.lit "tree_size", .int w.treeSize)] ++
    if w.isStub then [(Str.lit "is_stub", .bool true)] else [])

namespace CheckpointRecord

/-- The `body` of `signing_body`. -/
def body (cp : CheckpointRecord) : Json :=
  .obj [(Str.lit "v", .int cp.v), (Str.lit "kind", .str cp.kind), (Str.lit "log_id", .str cp.logId),
    (Str.lit "mmr_size", .int cp.mmrSize), (Str.lit "root", .str cp.root),
    (Str.lit "prev_size", .int cp.prevSize), (Str.lit "prev_root", .str cp.prevRoot),
    (Str.lit "key_id", .str cp.keyId), (Str.lit "timestamp", .str cp.timestamp)]

/-- `to_dict`. -/
def toDict (cp : CheckpointRecord) : Json :=
  .obj ([(Str.lit "v", .int cp.v), (Str.lit "kind", .str cp.kind), (Str.lit "log_id", .str cp.logId),
    (Str.lit "mmr_size", .int cp.mmrSize), (Str.lit "root", .str cp.root),
    (Str.lit "prev_size", .int cp.prevSize), (Str.lit "prev_root", .str cp.prevRoot),
    (Str.lit "key_id", .str cp.keyId), (Str.lit "timestamp", .str cp.timestamp),
    (Str.lit "signature", .str cp.signature)] ++
    if cp.witnesses ≠ [] then [(Str.lit "witnesses", .arr (cp.witnesses.map WitnessRecord.toDict))]
    else [])

/-- The fields of the signing body in the order of their keys. -/
lemma sortKeys_body (cp : CheckpointRecord) : Json.sortKeys cp.body =
    .obj [(Str.lit "key_id", .str cp.keyId), (Str.lit "kind", .str cp.kind),
      (Str.lit "log_id", .str cp.logId), (Str.lit "mmr_size", .int cp.mmrSize),
      (Str.lit "prev_root", .str cp.prevRoot), (Str.lit "prev_size", .int cp.prevSize),
      (Str.lit "root", .str cp.root), (Str.lit "timestamp", .str cp.timestamp),
      (Str.lit "v", .int cp.v)] := rfl

/-- `signing_body`. -/
def signingBody (cp : CheckpointRecord) : Str := Json.dumpsCanonical cp.body

/-- The `body` of `entry_digest`. -/
def entryBody (cp : CheckpointRecord) : Str := Json.dumpsCanonical cp.toDict

/-- `hashlib.sha256(body.encode()).hexdigest()`. -/
def hexdigest (H : HashFunction) (body : Str) : Py Str :=
  match Utf8.encode body with
  | some bytes => .ok (toHex (H.digest bytes))
  | none => raise .valueError "surrogates not allowed"

/-- `digest`. -/
def digest (H : HashFunction) (cp : CheckpointRecord) : Py Str := hexdigest H cp.signingBody

/-- `entry_digest`. -/
def entryDigest (H : HashFunction) (cp : CheckpointRecord) : Py Str := hexdigest H cp.entryBody

end CheckpointRecord
end CLL.Checkpoint
