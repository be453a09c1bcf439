import Bitcrab.Script.ScriptOps

/-!
# Signature and public key encodings (`script/sig.rs`)
-/

namespace Bitcrab

open Outcome

/-- `SIGHASH_ALL`. -/
def sighashAll : UInt8 := 1

/-- `SIGHASH_NONE`. -/
def sighashNone : UInt8 := 2

/-- `SIGHASH_SINGLE`. -/
def sighashSingle : UInt8 := 3

/-- `SIGHASH_ANYONECANPAY`. -/
def sighashAnyonecanpay : UInt8 := 0x80

/-- `HALF_CURVE_ORDER`. -/
def halfCurveOrder : List UInt8 :=
  [0x7F, 0xFF, 0xFF, 0xFF, 0xFF, 0xFF, 0xFF, 0xFF, 0xFF, 0xFF, 0xFF, 0xFF, 0xFF, 0xFF, 0xFF, 0xFF,
    0x5D, 0x57, 0x6E, 0x73, 0x57, 0xA4, 0x50, 0x1D, 0xDF, 0xE9, 0x2F, 0x46, 0x68, 0x1B, 0x20, 0xA0]

/-- The checks of one DER integer: its tag at `tag`, its length `len` and its first bytes from
`start` on. -/
def isValidInteger (sig : List UInt8) (tag start len : Nat) : Outcome ScriptError Bool := do
  if (← index sig tag) ≠ 0x02 then
    return false
  else if len = 0 then
    return false
  else
    let first ← index sig start
    if first &&& 0x80 ≠ 0 then
      return false
    else if len > 1 ∧ first = 0x00 then
      return (← index sig (start + 1)) &&& 0x80 ≠ 0
    else
      return true

/-- `is_valid_signature_encoding`. -/
def isValidSignatureEncoding (sig : List UInt8) : Outcome ScriptError Bool := do
  if sig.length < 9 ∨ sig.length > 73 then
    return false
  else if (← index sig 0) ≠ 0x30 then
    return false
  else if (← index sig 1).toNat ≠ (← sub sig.length 3) then
    return false
  else
    let lenR := (← index sig 3).toNat
    if 5 + lenR ≥ sig.length then
      return false
    else
      let lenS := (← index sig (5 + lenR)).toNat
      if lenR + lenS + 7 ≠ sig.length then
        return false
      else
        let validR ← isValidInteger sig 2 4 lenR
        if validR then isValidInteger sig (lenR + 4) (lenR + 6) lenS else return false

/-- `a <= b` on arrays of bytes. -/
def bytesLe : List UInt8 → List UInt8 → Bool
  | a :: as, b :: bs => a < b || (a = b && bytesLe as bs)
  | [], _ => true
  | _ :: _, [] => false

/-- DER's leading zero padding, stripped. -/
def stripLeadingZero : List UInt8 → List UInt8
  | 0x00 :: b :: bs => b :: bs
  | s => s

/-- `is_low_der_signature`. -/
def isLowDerSignature (sig : List UInt8) : Outcome ScriptError Bool := do
  if ← isValidSignatureEncoding sig then
    let lenR := (← index sig 3).toNat
    let lenS := (← index sig (5 + lenR)).toNat
    let s := stripLeadingZero (← slice sig (lenR + 6) (lenR + 6 + lenS))
    if s.length > 32 then
      return false
    else
      let padding ← sub 32 s.length
      return bytesLe (List.replicate padding 0 ++ s) halfCurveOrder
  else
    return false

/-- `is_defined_hashtype`. -/
def isDefinedHashtype (sig : List UInt8) : Bool :=
  match sig.getLast? with
  | none => false
  | some hashtype =>
    let base := hashtype &&& ~~~sighashAnyonecanpay
    sighashAll ≤ base ∧ base ≤ sighashSingle

/-- `is_compressed_or_uncompressed_pubkey`. -/
def isCompressedOrUncompressedPubkey (pubkey : List UInt8) : Outcome ScriptError Bool := do
  if pubkey.length = 33 then
    let first ← index pubkey 0
    return first = 0x02 || first = 0x03
  else if pubkey.length = 65 then
    return (← index pubkey 0) = 0x04
  else
    return false

/-- `is_compressed_pubkey`. -/
def isCompressedPubkey (pubkey : List UInt8) : Outcome ScriptError Bool := do
  if pubkey.length = 33 then
    let first ← index pubkey 0
    return first = 0x02 || first = 0x03
  else
    return false

/-- `check_signature_encoding`. -/
def checkSignatureEncoding (sig : List UInt8) (flags : VerifyFlags) : Outcome ScriptError Unit := do
  if sig.isEmpty then
    return ()
  else
    rejectUnless (flags.contains .dersig || flags.contains .lowS || flags.contains .strictenc)
      (isValidSignatureEncoding sig) .sigDer
    rejectUnless (flags.contains .lowS) (isLowDerSignature sig) .sigHighS
    rejectUnless (flags.contains .strictenc) (pure (isDefinedHashtype sig)) .sigHashType

/-- `check_pubkey_encoding`. -/
def checkPubkeyEncoding (pubkey : List UInt8) (flags : VerifyFlags) (isWitnessV0 : Bool) :
    Outcome ScriptError Unit := do
  rejectUnless (flags.contains .strictenc) (isCompressedOrUncompressedPubkey pubkey) .pubkeyType
  rejectUnless (flags.contains .witnessPubkeytype && isWitnessV0) (isCompressedPubkey pubkey)
    .witnessPubkeyType

end Bitcrab
