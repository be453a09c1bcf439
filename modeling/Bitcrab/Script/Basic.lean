import Bitcrab.Types.Transaction

/-!
# Script primitives (`script/script_ops.rs`, `script/num.rs`, `script/flags.rs`, `script/error.rs`)

What block validation uses of the script crate: the error type, the verification flags, data
pushes, the encoding of script numbers and the recognition of witness programs.
-/

namespace Bitcrab

open Bytes

/-- `ScriptError`. -/
inductive ScriptError where
  | evalFalse
  | opReturn
  | scriptSize
  | pushSize
  | opCount
  | stackSize
  | pubkeyCount
  | sigCount
  | verify
  | equalVerify
  | checkMultisigVerify
  | checkSigVerify
  | numEqualVerify
  | badOpcode
  | disabledOpcode
  | invalidStackOperation
  | invalidAltstackOperation
  | unbalancedConditional
  | negativeLocktime
  | unsatisfiedLocktime
  | sigHashType
  | sigDer
  | minimalData
  | sigPushOnly
  | sigHighS
  | sigNullDummy
  | pubkeyType
  | cleanStack
  | minimalIf
  | sigNullFail
  | discourageUpgradableNops
  | discourageUpgradableWitnessProgram
  | witnessProgramWrongLength
  | witnessProgramWitnessEmpty
  | witnessProgramMismatch
  | witnessMalleated
  | witnessMalleatedP2sh
  | witnessUnexpected
  | witnessPubkeyType
  | opCodeseparator
  | sigFindAndDelete
  | taprootWrongControlSize
  | discourageUpgradableTaprootVersion
  | discourageOpSuccess
  | discourageUpgradablePubkeyType
  | tapscriptCheckMultisig
  | schnorrSigSize
  | schnorrSigHashType
  | schnorrSig
  | schnorrSigPubkey
  | tapscriptValidationWeight
  | tapscriptMinimalIf
  | unknownError
  deriving Repr, DecidableEq

/-- `VerifyFlags`: a set of verification bits. -/
structure VerifyFlags where
  bits : UInt32
  deriving Repr, DecidableEq

namespace VerifyFlags

/-- `P2SH`. -/
def p2sh : VerifyFlags := ⟨(1 : UInt32) <<< 0⟩

/-- `STRICTENC`. -/
def strictenc : VerifyFlags := ⟨(1 : UInt32) <<< 1⟩

/-- `DERSIG`. -/
def dersig : VerifyFlags := ⟨(1 : UInt32) <<< 2⟩

/-- `LOW_S`. -/
def lowS : VerifyFlags := ⟨(1 : UInt32) <<< 3⟩

/-- `NULLDUMMY`. -/
def nulldummy : VerifyFlags := ⟨(1 : UInt32) <<< 4⟩

/-- `SIGPUSHONLY`. -/
def sigpushonly : VerifyFlags := ⟨(1 : UInt32) <<< 5⟩

/-- `MINIMALDATA`. -/
def minimaldata : VerifyFlags := ⟨(1 : UInt32) <<< 6⟩

/-- `DISCOURAGE_UPGRADABLE_NOPS`. -/
def discourageUpgradableNops : VerifyFlags := ⟨(1 : UInt32) <<< 7⟩

/-- `CLEANSTACK`. -/
def cleanstack : VerifyFlags := ⟨(1 : UInt32) <<< 8⟩

/-- `CHECKLOCKTIMEVERIFY`. -/
def checklocktimeverify : VerifyFlags := ⟨(1 : UInt32) <<< 9⟩

/-- `CHECKSEQUENCEVERIFY`. -/
def checksequenceverify : VerifyFlags := ⟨(1 : UInt32) <<< 10⟩

/-- `WITNESS`. -/
def witness : VerifyFlags := ⟨(1 : UInt32) <<< 11⟩

/-- `DISCOURAGE_UPGRADABLE_WITNESS_PROGRAM`. -/
def discourageUpgradableWitnessProgram : VerifyFlags := ⟨(1 : UInt32) <<< 12⟩

/-- `MINIMALIF`. -/
def minimalif : VerifyFlags := ⟨(1 : UInt32) <<< 13⟩

/-- `NULLFAIL`. -/
def nullfail : VerifyFlags := ⟨(1 : UInt32) <<< 14⟩

/-- `WITNESS_PUBKEYTYPE`. -/
def witnessPubkeytype : VerifyFlags := ⟨(1 : UInt32) <<< 15⟩

/-- `CONST_SCRIPTCODE`. -/
def constScriptcode : VerifyFlags := ⟨(1 : UInt32) <<< 16⟩

/-- `TAPROOT`. -/
def taproot : VerifyFlags := ⟨(1 : UInt32) <<< 17⟩

/-- `DISCOURAGE_UPGRADABLE_TAPROOT_VERSION`. -/
def discourageUpgradableTaprootVersion : VerifyFlags := ⟨(1 : UInt32) <<< 18⟩

/-- `DISCOURAGE_OP_SUCCESS`. -/
def discourageOpSuccess : VerifyFlags := ⟨(1 : UInt32) <<< 19⟩

/-- `DISCOURAGE_UPGRADABLE_PUBKEYTYPE`. -/
def discourageUpgradablePubkeytype : VerifyFlags := ⟨(1 : UInt32) <<< 20⟩

/-- `VerifyFlags::contains`: every bit of `other` is set. -/
def contains (flags other : VerifyFlags) : Bool := flags.bits &&& other.bits = other.bits

/-- `VerifyFlags::union`. -/
def union (a b : VerifyFlags) : VerifyFlags := ⟨a.bits ||| b.bits⟩

instance : OrOp VerifyFlags := ⟨union⟩

/-- `CONSENSUS_SEGWIT`. -/
def consensusSegwit : VerifyFlags :=
  p2sh ||| dersig ||| nulldummy ||| checklocktimeverify ||| checksequenceverify ||| witness

/-- `CONSENSUS_TAPROOT`. -/
def consensusTaproot : VerifyFlags := consensusSegwit ||| taproot

end VerifyFlags

/-- `push_data`: the bytes of a minimal data push. -/
def pushData (data : List UInt8) : List UInt8 :=
  let len := data.length
  let opcode : List UInt8 :=
    if len < 0x4c then [UInt8.ofNat len]
    else if len ≤ 0xff then [0x4c, UInt8.ofNat len]
    else if len ≤ 0xffff then 0x4d :: leBytes 2 len
    else 0x4e :: leBytes 4 len
  opcode ++ data

/-- The bytes of a positive number, least significant first, without leading zeros; the loop of
`ScriptNum::encode`. -/
def magnitudeBytes : Nat → Nat → List UInt8
  | 0, _ => []
  | fuel + 1, n => if n = 0 then [] else UInt8.ofNat n :: magnitudeBytes fuel (n / 256)

/-- `ScriptNum::encode` of an `i64`, whose absolute value has at most eight bytes. -/
def scriptNumEncode (value : Int) : List UInt8 :=
  let result := magnitudeBytes 8 value.natAbs
  match result.getLast? with
  | none => []
  | some last =>
    if last &&& 0x80 ≠ 0 then result ++ [if value < 0 then 0x80 else 0x00]
    else if value < 0 then result.dropLast ++ [last ||| 0x80]
    else result

/-- `WitnessProgram`. -/
structure WitnessProgram where
  version : UInt8
  program : List UInt8
  deriving Repr, DecidableEq

/-- `parse_witness_program`. -/
def parseWitnessProgram (script : List UInt8) : Option WitnessProgram :=
  if script.length < 4 ∨ script.length > 42 then none
  else
    match script with
    | versionByte :: len :: program =>
      if versionByte ≠ 0x00 ∧ ¬ (0x51 ≤ versionByte ∧ versionByte ≤ 0x60) then none
      else if len.toNat + 2 ≠ script.length then none
      else some ⟨if versionByte = 0x00 then 0 else versionByte - 0x50, program⟩
    | _ => none

end Bitcrab
