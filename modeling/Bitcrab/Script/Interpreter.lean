import Bitcrab.Script.StackOps

/-!
# The script interpreter (`script/interpreter.rs`)

`evalScriptWithData` folds `step` over the instructions of a script, and `verifyScript` runs the
scripts of an input. The order of the checks and the error of each of them are those of the source.
-/

namespace Bitcrab

open Outcome

/-- `MAX_STACK_SIZE`. -/
def maxStackSize : Nat := 1000

/-- `MAX_PUBKEYS_PER_MULTISIG`. -/
def maxPubkeysPerMultisig : Int := 20

/-- `MAX_SCRIPT_SIZE`. -/
def maxScriptSize : Nat := 10000

/-- `MAX_OPS_PER_SCRIPT`. -/
def maxOpsPerScript : Nat := 201

/-- `MAX_SCRIPT_ELEMENT_SIZE`. -/
def maxScriptElementSize : Nat := 520

/-- `VALIDATION_WEIGHT_PER_SIGOP_PASSED`. -/
def validationWeightPerSigopPassed : Int := 50

/-- `VALIDATION_WEIGHT_OFFSET`. -/
def validationWeightOffset : Int := 50

/-! ### Signature opcodes -/

/-- `build_script_code`. -/
def buildScriptCode (script : List UInt8) (lastCodeseparator : Nat) (sig : List UInt8)
    (sigVersion : SigVersion) (flags : VerifyFlags) : Outcome ScriptError (List UInt8) := do
  let scriptCode ← slice script lastCodeseparator script.length
  if sigVersion = .base then
    let (cleaned, found) ← findAndDelete scriptCode (pushData sig)
    rejectIf (found > 0 ∧ flags.contains .constScriptcode) .sigFindAndDelete
    let separated ←
      (if flags.contains .constScriptcode then containsCodeseparator script else pure false)
    rejectIf (separated = true) .opCodeseparator
    return cleaned
  else
    return scriptCode

/-- The budget that one signature check costs in `eval_checksig_tapscript`. -/
def spendBudget (execData : ScriptExecutionData) : Outcome ScriptError ScriptExecutionData := do
  let left ← i64 (execData.validationWeightLeft - validationWeightPerSigopPassed)
  rejectIf (left < 0) .tapscriptValidationWeight
  return { execData with validationWeightLeft := left }

/-- `eval_checksig_tapscript`. -/
def evalChecksigTapscript (sig pubkey : List UInt8) (flags : VerifyFlags)
    (checker : SignatureChecker) (execData : ScriptExecutionData) :
    Outcome ScriptError (Bool × ScriptExecutionData) := do
  let success := !sig.isEmpty
  let execData ← (if success then spendBudget execData else pure execData)
  if pubkey.isEmpty then
    fail .pubkeyType
  else if pubkey.length = 32 then
    if success then
      checker.checkSchnorrSignature sig pubkey .tapscript execData
      return (success, execData)
    else
      return (success, execData)
  else
    rejectIf (flags.contains .discourageUpgradablePubkeytype) .discourageUpgradablePubkeyType
    return (success, execData)

/-- What an evaluation does not change. -/
structure EvalContext where
  script : List UInt8
  flags : VerifyFlags
  checker : SignatureChecker
  sigVersion : SigVersion

/-- `require_minimal`. -/
def EvalContext.requireMinimal (ctx : EvalContext) : Bool := ctx.flags.contains .minimaldata

/-- `legacy_limits`. -/
def EvalContext.legacyLimits (ctx : EvalContext) : Bool :=
  ctx.sigVersion = .base ∨ ctx.sigVersion = .witnessV0

section Multisig

variable (ctx : EvalContext) (lastCodeseparator : Nat)

/-- The encoding checks and the verdict of one ECDSA signature, without the `NULLFAIL` rule. -/
def checkEcdsa (sig pubkey scriptCode : List UInt8) : Outcome ScriptError Bool := do
  if sig.isEmpty then
    return false
  else
    ctx.checker.checkEcdsaSignature sig pubkey scriptCode ctx.sigVersion

/-- The loop of `eval_checkmultisig`: the verdict and the number of matched signatures. Every round
takes one key. -/
def multisigLoop (sigs pubkeys : List (List UInt8)) :
    Nat → (sigIndex keyIndex remainingSigs : Nat) → Outcome ScriptError (Bool × Nat)
  | fuel, sigIndex, keyIndex, remainingSigs =>
    if remainingSigs = 0 then .ok (true, sigIndex)
    else
      match fuel with
      | 0 => .error .panic
      | fuel + 1 => do
        let sig ← index sigs sigIndex
        let pubkey ← index pubkeys keyIndex
        checkSignatureEncoding sig ctx.flags
        checkPubkeyEncoding pubkey ctx.flags (ctx.sigVersion = .witnessV0)
        let scriptCode ← buildScriptCode ctx.script lastCodeseparator sig ctx.sigVersion ctx.flags
        let matched ← checkEcdsa ctx sig pubkey scriptCode
        let sigIndex := if matched then sigIndex + 1 else sigIndex
        let remainingSigs ← (if matched then sub remainingSigs 1 else pure remainingSigs)
        let keysLeft ← sub pubkeys.length (keyIndex + 1)
        if remainingSigs > keysLeft then
          return (false, sigIndex)
        else
          multisigLoop sigs pubkeys fuel sigIndex (keyIndex + 1) remainingSigs

/-- `count` pops, the elements in the order they were pushed. -/
def popMany : Nat → Stack → Outcome ScriptError (List (List UInt8) × Stack)
  | 0, stack => .ok ([], stack)
  | count + 1, stack => do
    let (top, stack) ← pop stack
    let (items, stack) ← popMany count stack
    return (items ++ [top], stack)

/-- The operands of `eval_checkmultisig`. -/
structure MultisigArgs where
  pubkeys : List (List UInt8)
  sigs : List (List UInt8)
  stack : Stack
  opCount : Nat

/-- The first part of `eval_checkmultisig`, which takes the operands from the stack. -/
def multisigArgs (stack : Stack) (opCount : Nat) : Outcome ScriptError MultisigArgs := do
  let (keyCount, stack) ← popNum stack ctx.requireMinimal
  rejectIf (¬ (0 ≤ keyCount ∧ keyCount ≤ maxPubkeysPerMultisig)) .pubkeyCount
  let opCount := opCount + keyCount.toNat
  rejectIf (opCount > maxOpsPerScript) .opCount
  requireDepth stack keyCount.toNat
  let (pubkeys, stack) ← popMany keyCount.toNat stack
  let (sigCount, stack) ← popNum stack ctx.requireMinimal
  rejectIf (sigCount < 0 ∨ sigCount > keyCount) .sigCount
  requireDepth stack sigCount.toNat
  let (sigs, stack) ← popMany sigCount.toNat stack
  let (dummy, stack) ← pop stack
  rejectIf (ctx.flags.contains .nulldummy ∧ dummy ≠ []) .sigNullDummy
  return ⟨pubkeys, sigs, stack, opCount⟩

/-- `eval_checkmultisig`: the verdict, the stack and the operation count. -/
def evalCheckmultisig (stack : Stack) (opCount : Nat) :
    Outcome ScriptError (Bool × Stack × Nat) := do
  let args ← multisigArgs ctx stack opCount
  let (success, sigIndex) ←
    multisigLoop ctx lastCodeseparator args.sigs args.pubkeys args.pubkeys.length 0 0
      args.sigs.length
  rejectIf (!success ∧ ctx.flags.contains .nullfail ∧ ∃ sig ∈ args.sigs.drop sigIndex, sig ≠ [])
    .sigNullFail
  return (success, args.stack, args.opCount)

end Multisig

/-! ### Evaluation -/

/-- What an evaluation changes. -/
structure EvalState where
  stack : Stack
  altstack : Stack
  conditionStack : List Bool
  opCount : Nat
  lastCodeseparator : Nat
  execData : ScriptExecutionData
  deriving DecidableEq

section Step

variable [Sha2] [LegacyHash] (ctx : EvalContext)

/-- `OP_CHECKLOCKTIMEVERIFY`, when it is activated. -/
def execCheckLockTime (stack : Stack) : Outcome ScriptError Unit := do
  let top ← stackTop stack 1
  let lockTime ← scriptNumDecode top ctx.requireMinimal 5
  rejectIf (lockTime < 0) .negativeLocktime
  rejectIf ((← ctx.checker.checkLockTime lockTime) = false) .unsatisfiedLocktime

/-- `OP_CHECKSEQUENCEVERIFY`, when it is activated. -/
def execCheckSequence (stack : Stack) : Outcome ScriptError Unit := do
  let top ← stackTop stack 1
  let sequence ← scriptNumDecode top ctx.requireMinimal 5
  rejectIf (sequence < 0) .negativeLocktime
  rejectUnless (i64And sequence sequenceLocktimeDisableFlag = 0)
    (ctx.checker.checkSequence sequence) .unsatisfiedLocktime

/-- An argument of `OP_IF` other than the empty element and `0x01`. -/
def isNonMinimalIf (top : List UInt8) : Bool := top ≠ [] ∧ top ≠ [1]

/-- The condition of `OP_IF` and `OP_NOTIF` in a branch that is executed. -/
def popCondition (negated : Bool) (stack : Stack) : Outcome ScriptError (Bool × Stack) := do
  let (top, stack) ← pop stack
  if ctx.sigVersion = .tapscript then
    rejectIf (isNonMinimalIf top) .tapscriptMinimalIf
    return (castToBool top != negated, stack)
  else
    rejectIf (ctx.sigVersion = .witnessV0 ∧ ctx.flags.contains .minimalif ∧ isNonMinimalIf top)
      .minimalIf
    return (castToBool top != negated, stack)

/-- The signature check of `OP_CHECKSIG` and `OP_CHECKSIGVERIFY`. -/
def execCheckSig (lastCodeseparator : Nat) (execData : ScriptExecutionData)
    (sig pubkey : List UInt8) : Outcome ScriptError (Bool × ScriptExecutionData) := do
  if ctx.sigVersion = .tapscript then
    evalChecksigTapscript sig pubkey ctx.flags ctx.checker execData
  else
    let scriptCode ← buildScriptCode ctx.script lastCodeseparator sig ctx.sigVersion ctx.flags
    checkSignatureEncoding sig ctx.flags
    checkPubkeyEncoding pubkey ctx.flags (ctx.sigVersion = .witnessV0)
    let ok ← checkEcdsa ctx sig pubkey scriptCode
    rejectIf (!ok ∧ ctx.flags.contains .nullfail ∧ sig ≠ []) .sigNullFail
    return (ok, execData)

/-- What a signature opcode leaves: its verdict, or nothing when it is a `VERIFY` form. -/
def pushVerdict (verify success : Bool) (e : ScriptError) (stack : Stack) :
    Outcome ScriptError Stack := do
  if verify then
    rejectIf (success = false) e
    return stack
  else
    return stack ++ [boolElement success]

/-- One arm of the interpreter, for an opcode above `OP_PUSHDATA4`; `executing` is whether every
branch around it is taken. -/
def execOp (executing : Bool) (i : Instruction) (s : EvalState) : Op → Outcome ScriptError EvalState
  | .stack op => do
    let stack ← execStackOp ctx.requireMinimal s.stack op
    return { s with stack }
  | .nop => return s
  | .checkLockTimeVerify => do
    execCheckLockTime ctx s.stack
    return s
  | .checkSequenceVerify => do
    execCheckSequence ctx s.stack
    return s
  | .upgradableNop => do
    rejectIf (ctx.flags.contains .discourageUpgradableNops) .discourageUpgradableNops
    return s
  | .ifOp negated => do
    if executing then
      let (value, stack) ← popCondition ctx negated s.stack
      return { s with stack, conditionStack := s.conditionStack ++ [value] }
    else
      return { s with conditionStack := s.conditionStack ++ [false] }
  | .elseOp => do
    let last ← okOr .unbalancedConditional s.conditionStack.getLast?
    return { s with conditionStack := s.conditionStack.dropLast ++ [!last] }
  | .endif => do
    let _ ← okOr .unbalancedConditional s.conditionStack.getLast?
    return { s with conditionStack := s.conditionStack.dropLast }
  | .returnOp => fail .opReturn
  | .toAltStack => do
    let (top, stack) ← pop s.stack
    return { s with stack, altstack := s.altstack ++ [top] }
  | .fromAltStack => do
    let top ← okOr .invalidAltstackOperation s.altstack.getLast?
    return { s with stack := s.stack ++ [top], altstack := s.altstack.dropLast }
  | .codeSeparator =>
    return { s with
      lastCodeseparator := i.next
      execData := { s.execData with codeseparatorPos := UInt32.ofNat i.offset } }
  | .checkSig verify => do
    requireDepth s.stack 2
    let (pubkey, stack) ← pop s.stack
    let (sig, stack) ← pop stack
    let (success, execData) ← execCheckSig ctx s.lastCodeseparator s.execData sig pubkey
    let stack ← pushVerdict verify success .checkSigVerify stack
    return { s with stack, execData }
  | .checkSigAdd => do
    rejectIf (ctx.sigVersion ≠ .tapscript) .badOpcode
    requireDepth s.stack 3
    let (pubkey, stack) ← pop s.stack
    let (num, stack) ← popNum stack ctx.requireMinimal
    let (sig, stack) ← pop stack
    let (success, execData) ←
      evalChecksigTapscript sig pubkey ctx.flags ctx.checker s.execData
    let sum ← i64 (num + boolNum success)
    return { s with stack := stack ++ [scriptNumEncode sum], execData }
  | .checkMultisig verify => do
    rejectIf (ctx.sigVersion = .tapscript) .tapscriptCheckMultisig
    let (success, stack, opCount) ← evalCheckmultisig ctx s.lastCodeseparator s.stack s.opCount
    let stack ← pushVerdict verify success .checkMultisigVerify stack
    return { s with stack, opCount }
  | .bad => fail .badOpcode

/-- The operation count after one more opcode. -/
def countOp (opcode : UInt8) (opCount : Nat) : Outcome ScriptError Nat := do
  if ctx.legacyLimits ∧ Opcode.countsTowardsOpLimit opcode then
    rejectIf (opCount + 1 > maxOpsPerScript) .opCount
    return opCount + 1
  else
    return opCount

/-- The lock time opcodes behave as a NOP until they are activated. -/
def isInactive (flags : VerifyFlags) : Op → Bool
  | .checkLockTimeVerify => !flags.contains .checklocktimeverify
  | .checkSequenceVerify => !flags.contains .checksequenceverify
  | _ => false

/-- The check at the end of a round. -/
def checkStackSize (s : EvalState) : Outcome ScriptError EvalState := do
  rejectIf (s.stack.length + s.altstack.length > maxStackSize) .stackSize
  return s

/-- The instruction proper, after the checks made for every opcode. A skipped opcode and an inactive
one go on to the next round without the check at the end. -/
def execInstruction (i : Instruction) (s : EvalState) : Outcome ScriptError EvalState := do
  let executing := s.conditionStack.all id
  if !executing ∧ !Opcode.isConditional i.opcode then
    return s
  else if i.opcode ≤ Opcode.opPushdata4 then
    rejectUnless ctx.requireMinimal (checkMinimalPush i.data i.opcode) .minimalData
    checkStackSize { s with stack := s.stack ++ [i.data] }
  else if isInactive ctx.flags (Opcode.toOp i.opcode) then
    rejectIf (ctx.flags.contains .discourageUpgradableNops) .discourageUpgradableNops
    return s
  else
    let s ← execOp ctx executing i s (Opcode.toOp i.opcode)
    checkStackSize s

/-- One round of the loop of `eval_script_with_data`. -/
def step (s : EvalState) (item : Outcome ScriptError Instruction) :
    Outcome ScriptError EvalState := do
  let i ← item
  rejectIf (i.data.length > maxScriptElementSize) .pushSize
  let opCount ← countOp ctx i.opcode s.opCount
  rejectIf (Opcode.isDisabled i.opcode) .disabledOpcode
  execInstruction ctx i { s with opCount }

/-- The state at the start of an evaluation. -/
def EvalState.start (stack : Stack) (execData : ScriptExecutionData) : EvalState :=
  ⟨stack, [], [], 0, 0, execData⟩

/-- `eval_script_with_data`: the stack it leaves. -/
def evalScriptWithData (stack : Stack) (execData : ScriptExecutionData) :
    Outcome ScriptError Stack := do
  rejectIf (ctx.legacyLimits ∧ ctx.script.length > maxScriptSize) .scriptSize
  let s ← (instructions ctx.script).foldlM (step ctx) (.start stack execData)
  rejectIf (s.conditionStack ≠ []) .unbalancedConditional
  return s.stack

end Step

section Verify

variable [Sha2] [LegacyHash] (flags : VerifyFlags) (checker : SignatureChecker)

/-- `eval_script`, in the only signature version `verify_script` calls it with. -/
def evalScript (stack : Stack) (script : List UInt8) : Outcome ScriptError Stack :=
  evalScriptWithData ⟨script, flags, checker, .base⟩ stack .new

/-- The scan of a tapscript for `OP_SUCCESSx`. -/
def anyOpSuccess : List (Outcome ScriptError Instruction) → Outcome ScriptError Bool
  | [] => .ok false
  | item :: items => do
    let i ← item
    if isOpSuccess i.opcode then return true else anyOpSuccess items

/-- The part of `execute_witness_script` that does not depend on the signature version. -/
def runWitnessScript (stack : Stack) (script : List UInt8) (sigVersion : SigVersion)
    (execData : ScriptExecutionData) : Outcome ScriptError Unit := do
  rejectIf (∃ element ∈ stack, element.length > maxScriptElementSize) .pushSize
  let stack ← evalScriptWithData ⟨script, flags, checker, sigVersion⟩ stack execData
  rejectIf (stack.length ≠ 1) .cleanStack
  let top ← index stack 0
  rejectIf (castToBool top = false) .evalFalse

/-- `execute_witness_script`. -/
def executeWitnessScript (stack : Stack) (script : List UInt8) (sigVersion : SigVersion)
    (execData : ScriptExecutionData) : Outcome ScriptError Unit := do
  if sigVersion = .tapscript then
    if ← anyOpSuccess (instructions script) then
      rejectIf (flags.contains .discourageOpSuccess) .discourageOpSuccess
    else
      rejectIf (stack.length > maxStackSize) .stackSize
      runWitnessScript flags checker stack script sigVersion execData
  else
    runWitnessScript flags checker stack script sigVersion execData

/-- `serialized_witness_size`. -/
def serializedWitnessSize (witness : List (List UInt8)) : Nat :=
  (writeCompactSize (UInt64.ofNat witness.length)).length +
    (witness.map fun item =>
      (writeCompactSize (UInt64.ofNat item.length)).length + item.length).sum

/-- The script and the stack of a version 0 witness program. -/
def witnessV0Script (witness : List (List UInt8)) (program : List UInt8) :
    Outcome ScriptError (List UInt8 × Stack) := do
  if program.length = 32 then
    rejectIf (witness = []) .witnessProgramWitnessEmpty
    let script ← unwrap witness.getLast?
    rejectIf ((sha256 script).toList ≠ program) .witnessProgramMismatch
    return (script, witness.dropLast)
  else if program.length = 20 then
    rejectIf (witness.length ≠ 2) .witnessProgramMismatch
    return ([0x76, 0xa9, 0x14] ++ program ++ [0x88, 0xac], witness)
  else
    fail .witnessProgramWrongLength

/-- The annex: a last witness item that starts with `ANNEX_TAG`, when there is another one. -/
def takeAnnex (stack : Stack) (execData : ScriptExecutionData) :
    Outcome ScriptError (Stack × ScriptExecutionData) := do
  if stack.length ≥ 2 ∧ (stack.getLast?.bind (·.head?)) = some 0x50 then
    let annex ← unwrap stack.getLast?
    let serialized := writeCompactSize (UInt64.ofNat annex.length) ++ annex
    return (stack.dropLast, { execData with annexHash := some (sha256 serialized) })
  else
    return (stack, execData)

variable [Secp256k1]

/-- The script path of a taproot spend. -/
def verifyTaprootScript (witness : List (List UInt8)) (program : List UInt8) (stack : Stack)
    (execData : ScriptExecutionData) : Outcome ScriptError Unit := do
  let control ← unwrap stack.getLast?
  let stack := stack.dropLast
  let script ← unwrap stack.getLast?
  let stack := stack.dropLast
  let control ← okOr .taprootWrongControlSize (← parseControlBlock control)
  let tapleafHash := computeTapleafHash control.leafVersion script
  rejectIf (verifyTaprootCommitment control program tapleafHash = false) .witnessProgramMismatch
  if control.leafVersion &&& taprootLeafMask = 0xc0 then
    let weight ← i64 (i64OfBits (serializedWitnessSize witness % 2 ^ 64) + validationWeightOffset)
    executeWitnessScript flags checker stack script .tapscript
      { execData with tapleafHash := some tapleafHash, validationWeightLeft := weight }
  else
    rejectIf (flags.contains .discourageUpgradableTaprootVersion)
      .discourageUpgradableTaprootVersion

/-- The version 1 witness program of BIP 341. -/
def verifyTaproot (witness : List (List UInt8)) (program : List UInt8) :
    Outcome ScriptError Unit := do
  rejectIf (witness = []) .witnessProgramWitnessEmpty
  let (stack, execData) ← takeAnnex witness .new
  if stack.length = 1 then
    let sig ← index stack 0
    checker.checkSchnorrSignature sig program .taproot execData
  else
    verifyTaprootScript flags checker witness program stack execData

/-- `verify_witness_program`. -/
def verifyWitnessProgram (witness : List (List UInt8)) (version : UInt8) (program : List UInt8)
    (isP2sh : Bool) : Outcome ScriptError Unit := do
  if version = 0 then
    let (script, stack) ← witnessV0Script witness program
    executeWitnessScript flags checker stack script .witnessV0 .new
  else if version = 1 ∧ program.length = 32 ∧ !isP2sh ∧ flags.contains .taproot then
    verifyTaproot flags checker witness program
  else
    rejectIf (flags.contains .discourageUpgradableWitnessProgram)
      .discourageUpgradableWitnessProgram

/-- The stack is not empty and its top is true. -/
def topIsTrue (stack : Stack) : Bool :=
  match stack.getLast? with
  | none => false
  | some top => castToBool top

/-- A witness program in `script`, if there is one: it must be spent with `expectedSig`. Returns the
stack and whether there was a program. -/
def verifyProgramOf (script scriptSig expectedSig : List UInt8) (witness : List (List UInt8))
    (isP2sh : Bool) (malleated : ScriptError) (stack : Stack) :
    Outcome ScriptError (Stack × Bool) := do
  if flags.contains .witness then
    match parseWitnessProgram script with
    | some program =>
      rejectIf (scriptSig ≠ expectedSig) malleated
      verifyWitnessProgram flags checker witness program.version program.program isP2sh
      return (stack.take 1, true)
    | none => return (stack, false)
  else
    return (stack, false)

/-- The BIP 16 part of `verify_script`. -/
def verifyP2sh (scriptSig : List UInt8) (witness : List (List UInt8)) (stackAfterSig : Stack) :
    Outcome ScriptError (Stack × Bool) := do
  rejectIf ((← isPushOnly scriptSig) = false) .sigPushOnly
  let (redeemScript, stack) ← pop stackAfterSig
  let stack ← evalScript flags checker stack redeemScript
  rejectIf (topIsTrue stack = false) .evalFalse
  verifyProgramOf flags checker redeemScript scriptSig (pushData redeemScript) witness true
    .witnessMalleatedP2sh stack

/-- `verify_script`. -/
def verifyScript (scriptSig scriptPubkey : List UInt8) (witness : List (List UInt8)) :
    Outcome ScriptError Unit := do
  rejectIf (!flags.contains .witness ∧ witness ≠ []) .witnessUnexpected
  rejectUnless (flags.contains .sigpushonly) (isPushOnly scriptSig) .sigPushOnly
  let stackAfterSig ← evalScript flags checker [] scriptSig
  let stack ← evalScript flags checker stackAfterSig scriptPubkey
  rejectIf (topIsTrue stack = false) .evalFalse
  let (stack, native) ← verifyProgramOf flags checker scriptPubkey scriptSig [] witness false
    .witnessMalleated stack
  let isP2sh ← (if flags.contains .p2sh then isPayToScriptHash scriptPubkey else pure false)
  let (stack, nested) ←
    (if isP2sh then verifyP2sh flags checker scriptSig witness stackAfterSig
      else pure (stack, false))
  rejectIf (flags.contains .cleanstack ∧ stack.length ≠ 1) .cleanStack
  rejectIf (flags.contains .witness ∧ !(native || nested) ∧ witness ≠ []) .witnessUnexpected

end Verify

namespace Sample

/-- Hash functions for scripts that do not use them. -/
scoped instance legacyHash : LegacyHash :=
  ⟨fun _ => List.Vector.replicate 20 0, fun _ => List.Vector.replicate 20 0⟩

/-- A curve for scripts without signatures: no bytes are a key. -/
scoped instance secp256k1 : Secp256k1 where
  PublicKey := Empty
  Signature := Empty
  XOnlyPublicKey := Empty
  SchnorrSignature := Empty
  Scalar := Empty
  publicKeyFromSlice _ := none
  signatureFromDerLax _ := none
  verifyEcdsa _ _ _ := false
  xOnlyFromSlice _ := none
  schnorrFromSlice _ := none
  verifySchnorr _ _ _ := false
  scalarFromBeBytes _ := none
  tweakAddCheck _ _ _ _ := false

/-- The P2WSH program of the script `OP_1`. -/
def p2wshTrue : List UInt8 := [0x00, 0x20] ++ (sha256 [0x51]).toList

end Sample

end Bitcrab
