import Bitcrab.Script.CheckerSafety
import Bitcrab.Script.Limits
import Mathlib.Algebra.Order.BigOperators.Group.List

/-!
# The script engine does not panic

`SafeState` is what an evaluation keeps: the offset of the last `OP_CODESEPARATOR` is within the
script, and the signature budget is an `i64` that is not negative. The rest is local to each
operation.
-/

namespace Bitcrab

open Outcome

variable {P : Prop}

/-! ### Signature opcodes -/

section Signatures

/-- The budget that is left for signature checks is not negative. -/
def ScriptExecutionData.Budget (execData : ScriptExecutionData) : Prop :=
  0 ≤ execData.validationWeightLeft ∧ execData.validationWeightLeft < 2 ^ 63

lemma holds_spendBudget {execData : ScriptExecutionData} (h : execData.Budget) :
    Holds P (spendBudget execData) ScriptExecutionData.Budget := by
  obtain ⟨hpos, hlt⟩ := h
  have hcost : validationWeightPerSigopPassed = 50 := rfl
  rw [spendBudget, i64_of_mem (by omega) (by omega), Result.ok_bind]
  simp only [holds_bind, holds_rejectIf, holds_pure, not_lt]
  intro hleft
  exact ⟨hleft, by dsimp only; omega⟩

lemma holds_evalChecksigTapscript {checker : SignatureChecker} (hchecker : checker.Safe P)
    (sig pubkey : List UInt8) (flags : VerifyFlags) {execData : ScriptExecutionData}
    (h : execData.Budget) :
    Holds P (evalChecksigTapscript sig pubkey flags checker execData) fun r => r.2.Budget := by
  simp only [evalChecksigTapscript, holds_bind]
  have hspent : Holds P (if (!sig.isEmpty) = true then spendBudget execData else pure execData)
      ScriptExecutionData.Budget := by
    rw [holds_ite]
    exact ⟨fun _ => holds_spendBudget h, fun _ => h⟩
  refine hspent.mono fun execData' h' => ?_
  simp only [holds_ite, holds_bind, holds_rejectIf, holds_pure, holds_fail]
  refine ⟨fun _ => trivial, fun _ => ⟨fun _ => ⟨fun _ => ?_, fun _ => h'⟩, fun _ _ => h'⟩⟩
  exact (hchecker.schnorr sig pubkey .tapscript execData').mono fun _ _ => h'

variable {ctx : EvalContext} {lastCodeseparator : Nat}

lemma holds_checkEcdsa (hchecker : ctx.checker.Safe P) (sig pubkey scriptCode : List UInt8) :
    Holds P (checkEcdsa ctx sig pubkey scriptCode) fun _ => True := by
  rw [checkEcdsa, holds_ite]
  exact ⟨fun _ => trivial, fun _ => hchecker.ecdsa sig pubkey scriptCode ctx.sigVersion⟩

/-- The rounds of the loop have keys and signatures left: no more signatures than keys are needed,
or the loop has ended. -/
lemma holds_multisigLoop (hchecker : ctx.checker.Safe P)
    (hsep : lastCodeseparator ≤ ctx.script.length) (sigs pubkeys : List (List UInt8)) (fuel : Nat)
    {sigIndex keyIndex remainingSigs : Nat} (hsigs : sigIndex + remainingSigs ≤ sigs.length)
    (hkeys : keyIndex + remainingSigs ≤ pubkeys.length) (hfuel : pubkeys.length ≤ keyIndex + fuel) :
    Holds P (multisigLoop ctx lastCodeseparator sigs pubkeys fuel sigIndex keyIndex remainingSigs)
      fun _ => True := by
  induction fuel generalizing sigIndex keyIndex remainingSigs with
  | zero =>
    have hr : remainingSigs = 0 := by omega
    simp [multisigLoop, hr]
  | succ fuel ih =>
    unfold multisigLoop
    split_ifs with hr
    · trivial
    dsimp only
    rw [index_of_lt (by omega), Result.ok_bind, index_of_lt (by omega), Result.ok_bind]
    simp only [holds_bind]
    refine (holds_checkSignatureEncoding _ _).mono fun _ _ => ?_
    refine (holds_checkPubkeyEncoding _ _ _).mono fun _ _ => ?_
    refine (holds_buildScriptCode hsep _ _ _).mono fun scriptCode _ => ?_
    refine (holds_checkEcdsa hchecker _ _ _).mono fun matched _ => ?_
    have hkeysLeft : keyIndex + 1 ≤ pubkeys.length := by omega
    -- a match uses one signature and one key, a mismatch one key
    cases matched with
    | true =>
      simp only [if_true]
      rw [sub_of_le (by omega), holds_ok, sub_of_le hkeysLeft, holds_ok, holds_ite]
      exact ⟨fun _ => trivial, fun hmore => ih (by omega) (by omega) (by omega)⟩
    | false =>
      simp only [Bool.false_eq_true, if_false, holds_pure]
      rw [sub_of_le hkeysLeft, holds_ok, holds_ite]
      exact ⟨fun _ => trivial, fun hmore => ih (by omega) (by omega) (by omega)⟩

lemma holds_evalCheckmultisig_safe (hchecker : ctx.checker.Safe P)
    (hsep : lastCodeseparator ≤ ctx.script.length) (stack : Stack) (opCount : Nat) :
    Holds P (evalCheckmultisig ctx lastCodeseparator stack opCount) fun _ => True := by
  simp only [evalCheckmultisig, holds_bind]
  refine (holds_multisigArgs ctx stack opCount).mono fun args hargs => ?_
  have hsigs := hargs.sigs
  refine (holds_multisigLoop hchecker hsep _ _ _ (by omega) (by omega) (by omega)).mono fun _ _ =>
    ?_
  rw [holds_rejectIf]
  exact fun _ => trivial

lemma holds_execCheckSig (hchecker : ctx.checker.Safe P)
    (hsep : lastCodeseparator ≤ ctx.script.length) {execData : ScriptExecutionData}
    (h : execData.Budget) (sig pubkey : List UInt8) :
    Holds P (execCheckSig ctx lastCodeseparator execData sig pubkey) fun r => r.2.Budget := by
  rw [execCheckSig, holds_ite]
  refine ⟨fun _ => holds_evalChecksigTapscript hchecker sig pubkey ctx.flags h, fun _ => ?_⟩
  simp only [holds_bind]
  refine (holds_buildScriptCode hsep _ _ _).mono fun scriptCode _ => ?_
  refine (holds_checkSignatureEncoding _ _).mono fun _ _ => ?_
  refine (holds_checkPubkeyEncoding _ _ _).mono fun _ _ => ?_
  refine (holds_checkEcdsa hchecker _ _ _).mono fun ok _ => ?_
  rw [holds_rejectIf]
  exact fun _ => h

end Signatures

/-! ### Evaluation -/

/-- What an evaluation keeps. -/
structure SafeState (ctx : EvalContext) (s : EvalState) : Prop where
  lastCodeseparator : s.lastCodeseparator ≤ ctx.script.length
  budget : s.execData.Budget

section Eval

variable [Sha2] [LegacyHash] {ctx : EvalContext}

omit [Sha2] [LegacyHash] in
lemma holds_execCheckLockTime (hchecker : ctx.checker.Safe P) (stack : Stack) :
    Holds P (execCheckLockTime ctx stack) fun _ => True := by
  simp only [execCheckLockTime, holds_bind]
  refine holds_stackTop (by omega) fun top _ => ?_
  refine (holds_scriptNumDecode top _ le_rfl).mono fun lockTime _ => ?_
  rw [holds_rejectIf]
  refine fun _ => (hchecker.lockTime lockTime).mono fun _ _ => ?_
  rw [holds_rejectIf]
  exact fun _ => trivial

omit [Sha2] [LegacyHash] in
lemma holds_execCheckSequence (hchecker : ctx.checker.Safe P) (stack : Stack) :
    Holds P (execCheckSequence ctx stack) fun _ => True := by
  simp only [execCheckSequence, holds_bind]
  refine holds_stackTop (by omega) fun top _ => ?_
  refine (holds_scriptNumDecode top _ le_rfl).mono fun sequence _ => ?_
  rw [holds_rejectIf, holds_rejectUnless]
  exact fun _ => ⟨fun _ => (hchecker.sequence sequence).mono fun _ _ _ => trivial,
    fun _ => trivial⟩

omit [Sha2] [LegacyHash] in
/-- A state that differs in its stacks, its branches and its operation count. -/
lemma SafeState.congr {s t : EvalState} (h : SafeState ctx s)
    (hsep : t.lastCodeseparator = s.lastCodeseparator) (hexec : t.execData = s.execData) :
    SafeState ctx t :=
  ⟨hsep ▸ h.lastCodeseparator, hexec ▸ h.budget⟩

lemma holds_execOp_safe (hchecker : ctx.checker.Safe P) (executing : Bool) {i : Instruction}
    (hi : i.next ≤ ctx.script.length) {s : EvalState} (h : SafeState ctx s) (op : Op) :
    Holds P (execOp ctx executing i s op) (SafeState ctx) := by
  cases op with
  | stack op =>
    simp only [execOp, holds_bind]
    exact (holds_execStackOp _ s.stack op).mono fun _ _ => h.congr rfl rfl
  | nop => exact h
  | checkLockTimeVerify =>
    simp only [execOp, holds_bind]
    exact (holds_execCheckLockTime hchecker s.stack).mono fun _ _ => h
  | checkSequenceVerify =>
    simp only [execOp, holds_bind]
    exact (holds_execCheckSequence hchecker s.stack).mono fun _ _ => h
  | upgradableNop =>
    simp only [execOp, holds_bind, holds_rejectIf]
    exact fun _ => h
  | ifOp negated =>
    simp only [execOp]
    split_ifs
    · simp only [popCondition, holds_bind]
      refine holds_pop fun top rest _ _ _ => ?_
      simp only [holds_ite, holds_bind, holds_rejectIf, holds_pure]
      exact ⟨fun _ _ => h.congr rfl rfl, fun _ _ => h.congr rfl rfl⟩
    · exact h.congr rfl rfl
  | elseOp =>
    simp only [execOp, holds_bind, holds_okOr]
    exact fun _ _ => h.congr rfl rfl
  | endif =>
    simp only [execOp, holds_bind, holds_okOr]
    exact fun _ _ => h.congr rfl rfl
  | returnOp => trivial
  | toAltStack =>
    simp only [execOp, holds_bind]
    exact holds_pop fun _ _ _ _ _ => h.congr rfl rfl
  | fromAltStack =>
    simp only [execOp, holds_bind, holds_okOr]
    exact fun _ _ => h.congr rfl rfl
  | codeSeparator => exact ⟨hi, h.budget⟩
  | checkSig verify =>
    simp only [execOp, holds_bind]
    refine holds_requireDepth fun _ => ?_
    refine holds_pop fun pubkey rest _ _ _ => ?_
    refine holds_pop fun sig rest' _ _ _ => ?_
    refine (holds_execCheckSig hchecker h.lastCodeseparator h.budget sig pubkey).mono
      fun r hr => ?_
    exact (holds_pushVerdict _ _ _ rest').mono fun _ _ => ⟨h.lastCodeseparator, hr⟩
  | checkSigAdd =>
    simp only [execOp, holds_bind, holds_rejectIf]
    intro _
    refine holds_requireDepth fun _ => ?_
    refine holds_pop fun pubkey rest _ _ _ => ?_
    refine holds_popNum fun num rest' hnum _ _ => ?_
    refine holds_pop fun sig rest'' _ _ _ => ?_
    refine (holds_evalChecksigTapscript hchecker sig pubkey ctx.flags h.budget).mono fun r hr => ?_
    have hone : 0 ≤ boolNum r.1 ∧ boolNum r.1 ≤ 1 := by
      cases r.1 <;> simp [boolNum]
    have hnum' := abs_lt.mp hnum
    dsimp only
    rw [i64_of_mem (by omega) (by omega)]
    exact ⟨h.lastCodeseparator, hr⟩
  | checkMultisig verify =>
    simp only [execOp, holds_bind, holds_rejectIf]
    intro _
    refine (holds_evalCheckmultisig_safe hchecker h.lastCodeseparator s.stack s.opCount).mono
      fun r _ => ?_
    exact (holds_pushVerdict _ _ _ r.2.1).mono fun _ _ => h.congr rfl rfl
  | bad => trivial

omit [Sha2] [LegacyHash] in
lemma holds_checkStackSize_safe {s : EvalState} (h : SafeState ctx s) :
    Holds P (checkStackSize s) (SafeState ctx) := by
  simp only [checkStackSize, holds_bind, holds_rejectIf, holds_pure]
  exact fun _ => h

lemma holds_execInstruction_safe (hchecker : ctx.checker.Safe P) {i : Instruction}
    (hi : i.next ≤ ctx.script.length) {s : EvalState} (h : SafeState ctx s) :
    Holds P (execInstruction ctx i s) (SafeState ctx) := by
  simp only [execInstruction, holds_ite]
  refine ⟨fun _ => h, fun _ => ⟨fun _ => ?_, fun _ => ⟨fun _ => ?_, fun _ => ?_⟩⟩⟩
  · have hpush : Holds P (checkStackSize { s with stack := s.stack ++ [i.data] })
        (SafeState ctx) := holds_checkStackSize_safe (h.congr rfl rfl)
    rw [holds_bind, holds_rejectUnless]
    exact ⟨fun _ => (holds_checkMinimalPush i.data i.opcode).mono fun _ _ _ => hpush,
      fun _ => hpush⟩
  · rw [holds_bind, holds_rejectIf]
    exact fun _ => h
  · rw [holds_bind]
    refine (holds_execOp_safe hchecker _ hi h _).mono fun s' hs' => ?_
    exact holds_checkStackSize_safe hs'

/-- One round of the evaluation loop does not panic, and leaves a state from which the next one
does not. -/
lemma holds_step_safe (hchecker : ctx.checker.Safe P) {s : EvalState} (h : SafeState ctx s)
    {item : Outcome ScriptError Instruction}
    (hitem : Holds P item fun i => i.next ≤ ctx.script.length) :
    Holds P (step ctx s item) (SafeState ctx) := by
  simp only [step, holds_bind]
  refine hitem.mono fun i hi => ?_
  rw [holds_rejectIf]
  intro _
  have hcount : Holds P (countOp ctx i.opcode s.opCount) fun _ => True := by
    simp only [countOp, holds_ite, holds_bind, holds_rejectIf, holds_pure, implies_true, and_self]
  refine hcount.mono fun opCount _ => ?_
  rw [holds_rejectIf]
  exact fun _ => holds_execInstruction_safe hchecker hi (h.congr rfl rfl)

variable (ctx) in
lemma holds_evalScriptWithData (hchecker : ctx.checker.Safe P) (stack : Stack)
    {execData : ScriptExecutionData} (h : execData.Budget) :
    Holds P (evalScriptWithData ctx stack execData) fun _ => True := by
  have hstart : SafeState ctx (.start stack execData) := ⟨Nat.zero_le _, h⟩
  simp only [evalScriptWithData, holds_bind, holds_rejectIf]
  intro _
  refine (holds_foldlM (instructions ctx.script) (fun s hs item hitem => ?_) hstart).mono
    fun s _ => ?_
  · exact holds_step_safe hchecker hs (holds_of_mem_instructions hitem)
  · exact fun _ => trivial

end Eval

/-! ### Verification -/

section Taproot

lemma holds_parseControlBlock (control : List UInt8) :
    Holds P (parseControlBlock control) fun _ => True := by
  have hbase : taprootControlBaseSize = 33 := rfl
  have hnode : taprootControlNodeSize = 32 := rfl
  simp only [parseControlBlock, holds_ite, holds_bind, not_or, not_lt]
  refine ⟨fun _ => trivial, fun hsize => ?_⟩
  rw [index_of_lt (by omega), holds_ok, slice_of_le (by omega) (by omega), holds_ok,
    sub_of_le hsize.1, holds_ok]
  refine (holds_mapM _ fun k hk => ?_).mono fun _ _ => trivial
  have hlt := List.mem_range.mp hk
  rw [hbase, hnode] at hlt
  dsimp only
  rw [hbase, hnode]
  rw [slice_of_le (by omega) (by omega)]
  trivial

lemma length_writeCompactSize_le (value : UInt64) : (writeCompactSize value).length ≤ 9 := by
  unfold writeCompactSize
  split_ifs <;> simp

/-- The bytes of memory that a witness takes: each item has its bytes and a `Vec` of 24 bytes. -/
def witnessMemory (witness : List (List UInt8)) : Nat :=
  (witness.map fun item => 24 + item.length).sum

lemma serializedWitnessSize_le (witness : List (List UInt8)) :
    serializedWitnessSize witness ≤ 9 + witnessMemory witness := by
  have hcount := length_writeCompactSize_le (UInt64.ofNat witness.length)
  have hitems : (witness.map fun item =>
      (writeCompactSize (UInt64.ofNat item.length)).length + item.length).sum ≤
        witnessMemory witness := by
    apply List.sum_le_sum
    intro item _
    have := length_writeCompactSize_le (UInt64.ofNat item.length)
    omega
  unfold serializedWitnessSize
  omega

end Taproot

section Verify

variable [Sha2] [LegacyHash] (flags : VerifyFlags) {checker : SignatureChecker}
  (hchecker : checker.Safe P)

omit [Sha2] [LegacyHash] in
lemma budget_new : ScriptExecutionData.new.Budget := ⟨le_rfl, by decide⟩

include hchecker in
lemma holds_evalScript (stack : Stack) (script : List UInt8) :
    Holds P (evalScript flags checker stack script) fun _ => True :=
  holds_evalScriptWithData ⟨script, flags, checker, .base⟩ hchecker stack budget_new

include hchecker in
lemma holds_runWitnessScript (stack : Stack) (script : List UInt8) (sigVersion : SigVersion)
    {execData : ScriptExecutionData} (h : execData.Budget) :
    Holds P (runWitnessScript flags checker stack script sigVersion execData) fun _ => True := by
  simp only [runWitnessScript, holds_bind, holds_rejectIf]
  intro _
  refine (holds_evalScriptWithData ⟨script, flags, checker, sigVersion⟩ hchecker stack
    h).mono fun stack' _ => ?_
  intro hlen
  rw [index_of_lt (by omega)]
  exact fun _ => trivial

include hchecker in
lemma holds_executeWitnessScript (stack : Stack) (script : List UInt8) (sigVersion : SigVersion)
    {execData : ScriptExecutionData} (h : execData.Budget) :
    Holds P (executeWitnessScript flags checker stack script sigVersion execData)
      fun _ => True := by
  have hrun := holds_runWitnessScript flags hchecker stack script sigVersion h
  simp only [executeWitnessScript, holds_ite, holds_bind, holds_rejectIf]
  refine ⟨fun _ => ?_, fun _ => hrun⟩
  refine (holds_anyOpSuccess (holds_mem_instructions_true script)).mono fun _ _ => ?_
  exact ⟨fun _ _ => trivial, fun _ _ => hrun⟩

omit [LegacyHash] in
lemma holds_witnessV0Script (witness : List (List UInt8)) (program : List UInt8) :
    Holds P (witnessV0Script witness program) fun _ => True := by
  simp only [witnessV0Script, holds_ite, holds_bind, holds_rejectIf, holds_pure, holds_fail]
  refine ⟨fun _ hne => ?_, fun _ => ⟨fun _ _ => trivial, fun _ => trivial⟩⟩
  rw [List.getLast?_eq_some_getLast hne]
  exact fun _ => trivial

omit [LegacyHash] in
/-- Something is left of a witness after the annex is taken. -/
lemma holds_takeAnnex {stack : Stack} (hne : stack ≠ []) (execData : ScriptExecutionData) :
    Holds P (takeAnnex stack execData) fun r => r.1 ≠ [] := by
  simp only [takeAnnex, holds_ite, holds_bind, holds_pure]
  refine ⟨fun hannex => ?_, fun _ => hne⟩
  rw [List.getLast?_eq_some_getLast hne]
  intro hnil
  have hlen := congrArg List.length hnil
  simp only [List.length_dropLast, List.length_nil] at hlen
  omega

variable [Secp256k1]

include hchecker in
lemma holds_verifyTaprootScript {witness : List (List UInt8)}
    (hmem : witnessMemory witness < 2 ^ 62)
    (program : List UInt8) {stack : Stack} (hlen : 2 ≤ stack.length)
    (execData : ScriptExecutionData) :
    Holds P (verifyTaprootScript flags checker witness program stack execData) fun _ => True := by
  have hne : stack ≠ [] := List.length_pos_iff.mp (by omega)
  have hne' : stack.dropLast ≠ [] := List.length_pos_iff.mp (by rw [List.length_dropLast]; omega)
  have hsize := serializedWitnessSize_le witness
  have hoffset : validationWeightOffset = 50 := rfl
  simp only [verifyTaprootScript, List.getLast?_eq_some_getLast hne,
    List.getLast?_eq_some_getLast hne', unwrap, Result.ok_bind, holds_bind]
  refine (holds_parseControlBlock _).mono fun control _ => ?_
  simp only [holds_okOr, holds_rejectIf, holds_ite]
  intro block _ _
  refine ⟨fun _ => ?_, fun _ _ => trivial⟩
  rw [Nat.mod_eq_of_lt (by omega), i64OfBits_of_lt (by omega), i64_of_mem (by omega) (by omega),
    Result.ok_bind]
  refine holds_executeWitnessScript flags hchecker _ _ _ ?_
  exact ⟨by dsimp only; omega, by dsimp only; omega⟩

include hchecker in
lemma holds_verifyTaproot {witness : List (List UInt8)} (hmem : witnessMemory witness < 2 ^ 62)
    (program : List UInt8) :
    Holds P (verifyTaproot flags checker witness program) fun _ => True := by
  simp only [verifyTaproot, holds_bind, holds_rejectIf]
  intro hne
  refine (holds_takeAnnex hne _).mono fun r hr => ?_
  have hpos := List.length_pos_iff.mpr hr
  rw [holds_ite]
  refine ⟨fun hlen => ?_, fun hlen => ?_⟩
  · rw [holds_bind, index_of_lt (by omega)]
    exact hchecker.schnorr _ program .taproot _
  · exact holds_verifyTaprootScript flags hchecker hmem program (by omega) _

include hchecker in
lemma holds_verifyWitnessProgram {witness : List (List UInt8)}
    (hmem : witnessMemory witness < 2 ^ 62) (version : UInt8) (program : List UInt8)
    (isP2sh : Bool) :
    Holds P (verifyWitnessProgram flags checker witness version program isP2sh) fun _ => True := by
  simp only [verifyWitnessProgram, holds_ite, holds_bind, holds_rejectIf]
  refine ⟨fun _ => ?_, fun _ => ⟨fun _ => ?_, fun _ _ => trivial⟩⟩
  · refine (holds_witnessV0Script witness program).mono fun r _ => ?_
    exact holds_executeWitnessScript flags hchecker _ _ _ budget_new
  · exact holds_verifyTaproot flags hchecker hmem program

include hchecker in
lemma holds_verifyProgramOf {witness : List (List UInt8)} (hmem : witnessMemory witness < 2 ^ 62)
    (script scriptSig expectedSig : List UInt8) (isP2sh : Bool) (malleated : ScriptError)
    (stack : Stack) :
    Holds P (verifyProgramOf flags checker script scriptSig expectedSig witness isP2sh malleated
      stack) fun _ => True := by
  rw [verifyProgramOf, holds_ite]
  refine ⟨fun _ => ?_, fun _ => trivial⟩
  split
  · simp only [holds_bind, holds_rejectIf]
    intro _
    exact (holds_verifyWitnessProgram flags hchecker hmem _ _ _).mono fun _ _ => trivial
  · trivial

include hchecker in
lemma holds_verifyP2sh {witness : List (List UInt8)} (hmem : witnessMemory witness < 2 ^ 62)
    (scriptSig : List UInt8) (stackAfterSig : Stack) :
    Holds P (verifyP2sh flags checker scriptSig witness stackAfterSig) fun _ => True := by
  simp only [verifyP2sh, holds_bind]
  refine (holds_isPushOnly scriptSig).mono fun _ _ => ?_
  rw [holds_rejectIf]
  intro _
  refine holds_pop fun redeemScript rest _ _ _ => ?_
  refine (holds_evalScript flags hchecker _ _).mono fun _ _ => ?_
  rw [holds_rejectIf]
  exact fun _ => holds_verifyProgramOf flags hchecker hmem _ _ _ _ _ _

include hchecker in
lemma holds_verifyScript {witness : List (List UInt8)} (hmem : witnessMemory witness < 2 ^ 62)
    (scriptSig scriptPubkey : List UInt8) :
    Holds P (verifyScript flags checker scriptSig scriptPubkey witness) fun _ => True := by
  simp only [verifyScript, holds_bind, holds_rejectIf]
  intro _
  have hmain : Holds P (evalScript flags checker [] scriptSig) fun _ => True :=
    holds_evalScript flags hchecker [] scriptSig
  have hpush : Holds P (rejectUnless (flags.contains .sigpushonly) (isPushOnly scriptSig)
      .sigPushOnly) fun _ => True := by
    rw [holds_rejectUnless]
    exact ⟨fun _ => (holds_isPushOnly scriptSig).mono fun _ _ _ => trivial, fun _ => trivial⟩
  refine hpush.mono fun _ _ => hmain.mono fun stackAfterSig _ => ?_
  refine (holds_evalScript flags hchecker _ _).mono fun stack _ _ => ?_
  refine (holds_verifyProgramOf flags hchecker hmem _ _ _ _ _ _).mono fun native _ => ?_
  have hisP2sh : Holds P (if flags.contains .p2sh = true then isPayToScriptHash scriptPubkey
      else pure false) fun _ => True := by
    rw [holds_ite]
    exact ⟨fun _ => holds_isPayToScriptHash scriptPubkey, fun _ => trivial⟩
  refine hisP2sh.mono fun isP2sh _ => ?_
  have hnested : Holds P (if isP2sh = true then
      verifyP2sh flags checker scriptSig witness stackAfterSig else pure (native.1, false))
      fun _ => True := by
    rw [holds_ite]
    exact ⟨fun _ => holds_verifyP2sh flags hchecker hmem _ _, fun _ => trivial⟩
  exact hnested.mono fun _ _ _ _ => trivial

/-- Verification of an input of a transaction ends, with success or with an error of the script. -/
theorem verifyScript_ne_panic (tx : Transaction) (inputIndex : Nat) (spentOutputs : List TxOut)
    (hindex : inputIndex < tx.inputs.length) (scriptSig scriptPubkey : List UInt8)
    (witness : List (List UInt8)) (hmem : witnessMemory witness < 2 ^ 62) :
    verifyScript flags (TransactionSignatureChecker.mk tx inputIndex spentOutputs).toChecker
        scriptSig scriptPubkey witness = .ok () ∨
      ∃ e, verifyScript flags (TransactionSignatureChecker.mk tx inputIndex spentOutputs).toChecker
        scriptSig scriptPubkey witness = fail e := by
  have hsafe := TransactionSignatureChecker.safe_toChecker (P := False)
    (c := ⟨tx, inputIndex, spentOutputs⟩) hindex
  have h := holds_verifyScript flags hsafe hmem scriptSig scriptPubkey
  match hr : verifyScript flags (TransactionSignatureChecker.mk tx inputIndex
      spentOutputs).toChecker scriptSig scriptPubkey witness with
  | .ok () => exact .inl rfl
  | .error (.error e) => exact .inr ⟨e, rfl⟩
  | .error .panic => exact absurd hr h.ne_panic

end Verify

namespace Sample

/-- A transaction that spends the P2WSH output of `OP_1`. -/
def p2wshSpend : Transaction := ⟨2, [⟨⟨Digest.zero, 0⟩, ⟨[]⟩, 0, [[0x51]]⟩], [], 0⟩

/-- The verification of its input, under the flags of a block. -/
theorem verifyScript_ne_panic_p2wshSpend :
    0 < p2wshSpend.inputs.length ∧ witnessMemory [[0x51]] < 2 ^ 62 ∧
      (verifyScript .consensusTaproot
          (TransactionSignatureChecker.mk p2wshSpend 0 [⟨Amount.zero, ⟨p2wshTrue⟩⟩]).toChecker []
          p2wshTrue [[0x51]] = .ok () ∨
        ∃ e, verifyScript .consensusTaproot
          (TransactionSignatureChecker.mk p2wshSpend 0 [⟨Amount.zero, ⟨p2wshTrue⟩⟩]).toChecker []
          p2wshTrue [[0x51]] = fail e) :=
  ⟨by decide, by decide, verifyScript_ne_panic _ _ _ _ (by decide) _ _ _ (by decide)⟩

end Sample

end Bitcrab
