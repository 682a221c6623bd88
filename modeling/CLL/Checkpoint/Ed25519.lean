import CLL.Python.Cbor

/-!
# Ed25519 checks

`ed25519.py`: what a public key and a signature must satisfy beside the verification equation.
-/

namespace CLL.Ed25519
open Cbor (ofBigEndian)

/-- `_P`. -/
def fieldPrime : ℕ := 2 ^ 255 - 19

/-- `_L`. -/
def groupOrder : ℕ := 2 ^ 252 + 27742317777372353535851937790883648493

/-- `_ORDER_8_Y`. -/
def order8Y : ℕ := 0x05FC536D880238B13933C6D305ACDFD5F098EFF289F4C345B027B2C28F95E826

/-- `_SMALL_ORDER_Y`. -/
def smallOrderY : List ℕ := [0, 1, fieldPrime - 1, order8Y, fieldPrime - order8Y]

/-- `int.from_bytes(b, "little")`. -/
def ofLittleEndian (b : Bytes) : ℕ := ofBigEndian b.reverse

/-- `_acceptable_point`. -/
def acceptablePoint (encoded : Bytes) : Bool :=
  let y := ofLittleEndian encoded % 2 ^ 255
  y < fieldPrime && !smallOrderY.contains y

/-- `acceptable_signature`. -/
def acceptableSignature (publicKey : Bytes) (signature : Option Bytes) : Bool :=
  match signature with
  | none => false
  | some signature =>
    publicKey.length == 32 && signature.length == 64 && acceptablePoint publicKey &&
      acceptablePoint (signature.take 32) && ofLittleEndian (signature.drop 32) < groupOrder

/-- `cose_sign1_signature`. -/
def coseSign1Signature (cbor2 : Cbor2) (coseBytes : Bytes) : Option Bytes :=
  match Cbor.loads cbor2 coseBytes with
  | .error _ => none
  | .ok item =>
    let item := match item with
      | .tag 18 value => value
      | item => item
    match item with
    | .array [_, _, _, .bytes signature] => some signature
    | _ => none

end CLL.Ed25519
