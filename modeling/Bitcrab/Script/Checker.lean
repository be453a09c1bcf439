import Bitcrab.Script.Sighash

/-!
# Signature checkers (`script/checker.rs`)

The interpreter asks a checker about the transaction around a script. A checker may panic, so its
answers are outcomes; the one for a real transaction indexes the inputs.
-/

namespace Bitcrab

open Outcome

/-- `SigVersion`. -/
inductive SigVersion where
  | base
  | witnessV0
  | taproot
  | tapscript
  deriving Repr, DecidableEq

/-- `SignatureChecker`. -/
structure SignatureChecker where
  checkEcdsaSignature : (sig pubkey scriptCode : List UInt8) → SigVersion →
    Outcome ScriptError Bool
  checkSchnorrSignature : (sig pubkey : List UInt8) → SigVersion → ScriptExecutionData →
    Outcome ScriptError Unit
  checkLockTime : (lockTime : Int) → Outcome ScriptError Bool
  checkSequence : (sequence : Int) → Outcome ScriptError Bool

/-- `NullSignatureChecker`, with the defaults of the trait. -/
def nullSignatureChecker : SignatureChecker where
  checkEcdsaSignature _ _ _ _ := .ok false
  checkSchnorrSignature _ _ _ _ := fail .schnorrSig
  checkLockTime _ := .ok false
  checkSequence _ := .ok false

/-- `LOCKTIME_THRESHOLD`. -/
@[irreducible]
def locktimeThreshold : Int := 500000000

/-- `SEQUENCE_FINAL`. -/
def sequenceFinal : UInt32 := 0xFFFFFFFF

/-- `SEQUENCE_LOCKTIME_DISABLE_FLAG`. -/
def sequenceLocktimeDisableFlag : Nat := 1 <<< 31

/-- `SEQUENCE_LOCKTIME_TYPE_FLAG`. -/
def sequenceLocktimeTypeFlag : Nat := 1 <<< 22

/-- `SEQUENCE_LOCKTIME_MASK`. -/
def sequenceLocktimeMask : Nat := 0x0000FFFF

/-- `n & mask` on `i64`, for a mask without the sign bit. -/
def i64And (n : Int) (mask : Nat) : Nat := (n % 2 ^ 64).toNat &&& mask

/-- `TransactionSignatureChecker`; the midstates are computed from the transaction. -/
structure TransactionSignatureChecker where
  tx : Transaction
  inputIndex : Nat
  spentOutputs : List TxOut

namespace TransactionSignatureChecker

variable (c : TransactionSignatureChecker)

/-- `TransactionSignatureChecker::amount`. -/
def amount : UInt64 := (c.spentOutputs[c.inputIndex]?.map (·.value.sat)).getD 0

/-- `TransactionSignatureChecker::check_lock_time`. -/
def checkLockTime (stackValue : Int) : Outcome ScriptError Bool := do
  let txLockTime : Int := c.tx.lockTime.toNat
  if ¬ ((txLockTime < locktimeThreshold ∧ stackValue < locktimeThreshold) ∨
      (txLockTime ≥ locktimeThreshold ∧ stackValue ≥ locktimeThreshold)) then
    return false
  else if stackValue > txLockTime then
    return false
  else
    let input ← index c.tx.inputs c.inputIndex
    return input.sequence ≠ sequenceFinal

/-- `TransactionSignatureChecker::check_sequence`. -/
def checkSequence (stackValue : Int) : Outcome ScriptError Bool := do
  let txSequence := (← index c.tx.inputs c.inputIndex).sequence.toNat
  if c.tx.version < 2 then
    return false
  else if txSequence &&& sequenceLocktimeDisableFlag ≠ 0 then
    return false
  else
    let txMasked := txSequence &&& (sequenceLocktimeTypeFlag ||| sequenceLocktimeMask)
    let stackMasked := i64And stackValue (sequenceLocktimeTypeFlag ||| sequenceLocktimeMask)
    if ¬ ((txMasked < sequenceLocktimeTypeFlag ∧ stackMasked < sequenceLocktimeTypeFlag) ∨
        (txMasked ≥ sequenceLocktimeTypeFlag ∧ stackMasked ≥ sequenceLocktimeTypeFlag)) then
      return false
    else
      return stackMasked ≤ txMasked

variable [Sha2] [Secp256k1]

/-- `TransactionSignatureChecker::check_ecdsa_signature`. -/
def checkEcdsaSignature (sig pubkey scriptCode : List UInt8) (sigVersion : SigVersion) :
    Outcome ScriptError Bool :=
  match sig.getLast? with
  | none => .ok false
  | some hashType =>
    let sigDer := sig.dropLast
    if sigDer.isEmpty then .ok false
    else
      match Secp256k1.publicKeyFromSlice pubkey, Secp256k1.signatureFromDerLax sigDer with
      | some pubkey, some signature =>
        match sigVersion with
        | .base => do
          let digest ← legacySignatureHash c.tx c.inputIndex scriptCode hashType.toUInt32
          return Secp256k1.verifyEcdsa digest signature pubkey
        | .witnessV0 => do
          let digest ← witnessV0SignatureHash c.tx c.inputIndex scriptCode c.amount
            hashType.toUInt32 (Bip143Cache.new c.tx)
          return Secp256k1.verifyEcdsa digest signature pubkey
        | .taproot | .tapscript => .ok false
      | _, _ => .ok false

/-- The signature proper and the hash type of a schnorr signature. -/
def splitSchnorr (sig : List UInt8) : Outcome ScriptError (List UInt8 × UInt8) := do
  if sig.length = 64 then
    return (sig, sighashDefault)
  else if sig.length = 65 then
    let hashType ← index sig 64
    rejectIf (hashType = sighashDefault) .schnorrSigHashType
    return (← slice sig 0 64, hashType)
  else
    fail .schnorrSigSize

/-- The `ext_flag` of a signature version. -/
def schnorrExtFlag : SigVersion → Outcome ScriptError UInt8
  | .taproot => .ok 0
  | .tapscript => .ok 1
  | _ => fail .schnorrSig

/-- `TransactionSignatureChecker::check_schnorr_signature`. -/
def checkSchnorrSignature (sig pubkey : List UInt8) (sigVersion : SigVersion)
    (execData : ScriptExecutionData) : Outcome ScriptError Unit := do
  let (signatureBytes, hashType) ← splitSchnorr sig
  let extFlag ← schnorrExtFlag sigVersion
  let pubkey ← okOr .schnorrSigPubkey (Secp256k1.xOnlyFromSlice pubkey)
  let signature ← okOr .schnorrSig (Secp256k1.schnorrFromSlice signatureBytes)
  let digest ← taprootSignatureHash c.tx c.inputIndex c.spentOutputs hashType extFlag execData
    (TaprootCache.new c.tx c.spentOutputs)
  let digest ← okOr .schnorrSigHashType digest
  rejectIf (Secp256k1.verifySchnorr signature digest pubkey = false) .schnorrSig

/-- The `SignatureChecker` implementation. -/
def toChecker : SignatureChecker where
  checkEcdsaSignature := c.checkEcdsaSignature
  checkSchnorrSignature := c.checkSchnorrSignature
  checkLockTime := c.checkLockTime
  checkSequence := c.checkSequence

end TransactionSignatureChecker

end Bitcrab
