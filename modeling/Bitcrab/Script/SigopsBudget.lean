import Bitcrab.Lib.Budget
import Bitcrab.Script.ScriptHashes
import Bitcrab.Types.Canonical

/-!
# The signature budget of tapscripts

Every check of a non-empty signature takes 50 units from `validation_weight_left`, which starts with
the size of the witness and 50 more. The size is computed beside the encoder of transactions, and is
the length of the witness there.
-/

namespace Bitcrab

open Outcome Result

/-! ### What is checked -/

/-- The signature that an opcode checks: the element below the key, or below the key and a
number. -/
def signatureOf (stack : Stack) : Op → Option (List UInt8)
  | .checkSig _ => stack.dropLast.getLast?
  | .checkSigAdd => stack.dropLast.dropLast.getLast?
  | _ => none

/-- How many signatures an opcode checks that are not empty. -/
def nonEmptySignatures (stack : Stack) (op : Op) : Nat :=
  match signatureOf stack op with
  | some sig => if sig = [] then 0 else 1
  | none => 0

/-- How many signatures an instruction checks that are not empty: none when it is skipped. -/
def signaturesChecked (s : EvalState) : Outcome ScriptError Instruction → Nat
  | .ok i =>
    if s.conditionStack.all id ∧ ¬ i.opcode ≤ Opcode.opPushdata4 then
      nonEmptySignatures s.stack (Opcode.toOp i.opcode)
    else 0
  | .error _ => 0

/-- The budget that is left. -/
def EvalState.weightLeft (s : EvalState) : Int := s.execData.validationWeightLeft

/-- Paying for signature checks. -/
abbrev PaysSigops (n : Nat) (s t : EvalState) : Prop := Pays EvalState.weightLeft 50 n s t

lemma nonEmptySignatures_of_isConditional {opcode : UInt8} (stack : Stack)
    (h : Opcode.isConditional opcode = true) :
    nonEmptySignatures stack (Opcode.toOp opcode) = 0 := by
  have hrange : opcode = 0x63 ∨ opcode = 0x64 ∨ opcode = 0x65 ∨ opcode = 0x66 ∨ opcode = 0x67 ∨
      opcode = 0x68 := by
    simp only [Opcode.isConditional, decide_eq_true_eq, UInt8.le_iff_toNat_le] at h
    simp only [← UInt8.toNat_inj]
    simp only [UInt8.reduceToNat] at h ⊢
    omega
  rcases hrange with rfl | rfl | rfl | rfl | rfl | rfl <;> rfl

lemma nonEmptySignatures_of_isInactive {flags : VerifyFlags} {op : Op} (stack : Stack)
    (h : isInactive flags op = true) : nonEmptySignatures stack op = 0 := by
  cases op with
  | checkLockTimeVerify => rfl
  | checkSequenceVerify => rfl
  | _ => cases h

/-! ### What is paid -/

lemma exists_of_popNum {stack rest : Stack} {requireMinimal : Bool} {n : Int}
    (h : popNum stack requireMinimal = .ok (n, rest)) : ∃ top, stack = rest ++ [top] := by
  rw [popNum] at h
  obtain ⟨⟨top, below⟩, hpop, h⟩ := bind_eq_ok.mp h
  obtain ⟨_, _, h⟩ := bind_eq_ok.mp h
  cases h
  exact ⟨top, pop_eq_ok hpop⟩

lemma paysSigops_of_check {s t : EvalState} {sig : List UInt8}
    (hbalance : t.weightLeft + 50 * (if sig = [] then 0 else 1) = s.weightLeft)
    (hsolvent : sig ≠ [] → 0 ≤ t.weightLeft) :
    PaysSigops (if sig = [] then 0 else 1) s t := by
  by_cases hsig : sig = []
  · rw [if_pos hsig] at hbalance ⊢
    exact .of_eq (by simpa using hbalance)
  · rw [if_neg hsig] at hbalance ⊢
    exact ⟨by simpa using hbalance, fun _ => hsolvent hsig⟩

/-- A signature that is not empty is paid for. -/
lemma weightLeft_of_evalChecksigTapscript {sig pubkey : List UInt8} {flags : VerifyFlags}
    {checker : SignatureChecker} {execData execData' : ScriptExecutionData} {success : Bool}
    (h : evalChecksigTapscript sig pubkey flags checker execData = .ok (success, execData')) :
    execData'.validationWeightLeft + 50 * (if sig = [] then 0 else 1) =
      execData.validationWeightLeft ∧ (sig ≠ [] → 0 ≤ execData'.validationWeightLeft) := by
  rw [evalChecksigTapscript] at h
  obtain ⟨paid, hpaid, h⟩ := bind_eq_ok.mp h
  -- the key decides about the verdict only
  have hdata : execData' = paid := by
    by_cases hempty : pubkey.isEmpty
    · rw [if_pos hempty] at h
      cases h
    rw [if_neg hempty] at h
    by_cases hlen : pubkey.length = 32
    · rw [if_pos hlen] at h
      split_ifs at h
      · obtain ⟨_, _, h⟩ := bind_eq_ok.mp h
        exact (congrArg Prod.snd (Except.ok.inj h)).symm
      · exact (congrArg Prod.snd (Except.ok.inj h)).symm
    · rw [if_neg hlen] at h
      obtain ⟨_, _, h⟩ := bind_eq_ok.mp h
      exact (congrArg Prod.snd (Except.ok.inj h)).symm
  subst hdata
  by_cases hsig : sig = []
  · rw [hsig] at hpaid
    cases hpaid
    simp [hsig]
  · have hne : (!sig.isEmpty) = true := by simpa using hsig
    rw [if_pos hne, spendBudget] at hpaid
    obtain ⟨left, hleft, hpaid⟩ := bind_eq_ok.mp hpaid
    obtain ⟨_, hguard, hpaid⟩ := bind_eq_ok.mp hpaid
    cases hpaid
    have hvalue : left = execData.validationWeightLeft - 50 := by
      rw [i64] at hleft
      split_ifs at hleft
      exact (Except.ok.inj hleft).symm
    have hnonneg : ¬ left < 0 := by
      intro hneg
      rw [rejectIf, if_pos hneg] at hguard
      cases hguard
    rw [if_neg hsig]
    dsimp only
    exact ⟨by omega, fun _ => by omega⟩

section Step

variable [Sha2] [LegacyHash] {ctx : EvalContext} {s t : EvalState}

/-- The opcodes that check signatures pay for them, and the others leave the budget alone. -/
lemma paysSigops_execOp (hversion : ctx.sigVersion = .tapscript) {executing : Bool}
    {i : Instruction} {op : Op} (h : execOp ctx executing i s op = .ok t) :
    PaysSigops (nonEmptySignatures s.stack op) s t := by
  cases op with
  | stack op =>
    obtain ⟨_, _, h⟩ := bind_eq_ok.mp h
    cases h
    exact .of_eq rfl
  | nop =>
    cases h
    exact .of_eq rfl
  | checkLockTimeVerify =>
    obtain ⟨_, _, h⟩ := bind_eq_ok.mp h
    cases h
    exact .of_eq rfl
  | checkSequenceVerify =>
    obtain ⟨_, _, h⟩ := bind_eq_ok.mp h
    cases h
    exact .of_eq rfl
  | upgradableNop =>
    obtain ⟨_, _, h⟩ := bind_eq_ok.mp h
    cases h
    exact .of_eq rfl
  | ifOp negated =>
    cases executing with
    | false =>
      cases h
      exact .of_eq rfl
    | true =>
      obtain ⟨_, _, h⟩ := bind_eq_ok.mp h
      cases h
      exact .of_eq rfl
  | elseOp =>
    obtain ⟨_, _, h⟩ := bind_eq_ok.mp h
    cases h
    exact .of_eq rfl
  | endif =>
    obtain ⟨_, _, h⟩ := bind_eq_ok.mp h
    cases h
    exact .of_eq rfl
  | returnOp => cases h
  | toAltStack =>
    obtain ⟨_, _, h⟩ := bind_eq_ok.mp h
    cases h
    exact .of_eq rfl
  | fromAltStack =>
    obtain ⟨_, _, h⟩ := bind_eq_ok.mp h
    cases h
    exact .of_eq rfl
  | codeSeparator =>
    cases h
    exact .of_eq rfl
  | checkSig verify =>
    simp only [execOp, bind_eq_ok] at h
    obtain ⟨_, _, ⟨pubkey, below⟩, hpubkey, ⟨sig, rest⟩, hsig, ⟨success, execData⟩, hcheck, stack,
      _,
      h⟩ := h
    cases h
    rw [execCheckSig, if_pos hversion] at hcheck
    obtain ⟨hbalance, hsolvent⟩ := weightLeft_of_evalChecksigTapscript hcheck
    dsimp only at hsig hbalance hsolvent
    have hcount : nonEmptySignatures s.stack (.checkSig verify) = if sig = [] then 0 else 1 := by
      rw [nonEmptySignatures, signatureOf, pop_eq_ok hpubkey, pop_eq_ok hsig]
      simp
    rw [hcount]
    exact paysSigops_of_check hbalance hsolvent
  | checkSigAdd =>
    simp only [execOp, bind_eq_ok] at h
    obtain ⟨_, _, _, _, ⟨pubkey, below⟩, hpubkey, ⟨num, below'⟩, hnum, ⟨sig, rest⟩, hsig,
      ⟨success, execData⟩, hcheck, sum, _, h⟩ := h
    cases h
    obtain ⟨hbalance, hsolvent⟩ := weightLeft_of_evalChecksigTapscript hcheck
    obtain ⟨top, hnum⟩ := exists_of_popNum hnum
    dsimp only at hnum hsig hbalance hsolvent
    have hcount : nonEmptySignatures s.stack .checkSigAdd = if sig = [] then 0 else 1 := by
      rw [nonEmptySignatures, signatureOf, pop_eq_ok hpubkey, hnum, pop_eq_ok hsig]
      simp
    rw [hcount]
    exact paysSigops_of_check hbalance hsolvent
  | checkMultisig verify =>
    simp only [execOp, bind_eq_ok] at h
    obtain ⟨_, hguard, _⟩ := h
    rw [rejectIf, if_pos hversion] at hguard
    cases hguard
  | bad => cases h

/-- One round of a tapscript. -/
lemma paysSigops_step (hversion : ctx.sigVersion = .tapscript)
    {item : Outcome ScriptError Instruction} (h : step ctx s item = .ok t) :
    PaysSigops (signaturesChecked s item) s t := by
  cases item with
  | error e => cases h
  | ok i =>
    rw [step, Result.ok_bind] at h
    simp only [bind_eq_ok] at h
    obtain ⟨_, _, opCount, _, _, _, h⟩ := h
    have hcounted : PaysSigops 0 s { s with opCount } := .of_eq rfl
    rw [signaturesChecked]
    rw [execInstruction] at h
    dsimp only at h
    by_cases hskip : (!s.conditionStack.all id) = true ∧ (!Opcode.isConditional i.opcode) = true
    · rw [if_pos hskip] at h
      cases h
      rw [if_neg (by simpa using fun hexec => absurd hexec (by simpa using hskip.1))]
      exact hcounted
    rw [if_neg hskip] at h
    by_cases hpush : i.opcode ≤ Opcode.opPushdata4
    · rw [if_pos hpush] at h
      obtain ⟨_, _, h⟩ := bind_eq_ok.mp h
      rw [checkStackSize_eq_ok h, if_neg (by simp [hpush])]
      exact .of_eq rfl
    rw [if_neg hpush] at h
    -- a conditional in a branch that is not taken checks no signature
    have hcount : (if s.conditionStack.all id ∧ ¬ i.opcode ≤ Opcode.opPushdata4 then
        nonEmptySignatures s.stack (Opcode.toOp i.opcode) else 0) =
        nonEmptySignatures s.stack (Opcode.toOp i.opcode) := by
      by_cases hexec : s.conditionStack.all id = true
      · rw [if_pos ⟨hexec, hpush⟩]
      · have hcond : Opcode.isConditional i.opcode = true := by simpa [hexec] using hskip
        rw [nonEmptySignatures_of_isConditional s.stack hcond, if_neg (by simp [hexec])]
    rw [hcount]
    by_cases hinactive : isInactive ctx.flags (Opcode.toOp i.opcode) = true
    · rw [if_pos hinactive] at h
      obtain ⟨_, _, h⟩ := bind_eq_ok.mp h
      cases h
      rw [nonEmptySignatures_of_isInactive s.stack hinactive]
      exact hcounted
    · rw [if_neg hinactive] at h
      obtain ⟨u, hu, h⟩ := bind_eq_ok.mp h
      rw [checkStackSize_eq_ok h]
      simpa using hcounted.trans (paysSigops_execOp hversion hu)

end Step

/-! ### Spends of tapscript leaves -/

lemma writeCompactSize_eq (value : UInt64) : writeCompactSize value = encode (VarInt.mk value) := by
  have hiff : value < 0xfd ↔ value ≤ 0xFC := by
    rw [UInt64.lt_iff_toNat_lt, UInt64.le_iff_toNat_le]
    exact Nat.lt_succ_iff
  simp only [writeCompactSize, encode, hiff]

/-- `serialized_witness_size` is the length of the witness on the wire. -/
lemma serializedWitnessSize_eq (witness : List (List UInt8)) :
    serializedWitnessSize witness = (encodeVarList witness).length := by
  have hitem : ∀ item : List UInt8,
      (encode item).length = (encode (VarInt.mk (UInt64.ofNat item.length))).length + item.length :=
    fun item => List.length_append
  simp only [serializedWitnessSize, encodeVarList, List.length_append, List.length_flatMap,
    writeCompactSize_eq, hitem]

section Spend

variable [Sha2]

/-- The witness without its annex. -/
def withoutAnnex (witness : List (List UInt8)) : List (List UInt8) :=
  if witness.length ≥ 2 ∧ (witness.getLast?.bind (·.head?)) = some 0x50 then witness.dropLast
  else witness

/-- The digest of the annex. -/
def annexHash (witness : List (List UInt8)) : Option Bytes32 :=
  if witness.length ≥ 2 ∧ (witness.getLast?.bind (·.head?)) = some 0x50 then
    witness.getLast?.map fun annex =>
      sha256 (writeCompactSize (UInt64.ofNat annex.length) ++ annex)
  else none

/-- The state that a leaf script is run from. -/
def tapscriptStart (witness : List (List UInt8)) (stack : Stack) (leafScript : List UInt8) :
    EvalState :=
  .start stack
    { tapleafHash := some (computeTapleafHash 0xc0 leafScript)
      annexHash := annexHash witness
      codeseparatorPos := 0xFFFFFFFF
      validationWeightLeft :=
        i64OfBits (serializedWitnessSize witness % 2 ^ 64) + validationWeightOffset }

lemma takeAnnex_eq {witness stack : Stack} {execData : ScriptExecutionData}
    (h : takeAnnex witness .new = .ok (stack, execData)) :
    stack = withoutAnnex witness ∧
      execData = { ScriptExecutionData.new with annexHash := annexHash witness } := by
  rw [takeAnnex] at h
  rw [withoutAnnex, annexHash]
  by_cases hannex : witness.length ≥ 2 ∧ (witness.getLast?.bind (·.head?)) = some 0x50
  · rw [if_pos hannex] at h
    rw [if_pos hannex, if_pos hannex]
    cases hlast : witness.getLast? with
    | none =>
      rw [hlast] at h
      cases h
    | some annex =>
      rw [hlast] at h
      cases h
      exact ⟨rfl, rfl⟩
  · rw [if_neg hannex] at h
    rw [if_neg hannex, if_neg hannex]
    cases h
    exact ⟨rfl, rfl⟩

variable [LegacyHash] [Secp256k1]

/-- An accepted spend of a taproot output through a tapscript leaf without an `OP_SUCCESSx`. -/
structure TapscriptSpend (flags : VerifyFlags) (checker : SignatureChecker)
    (scriptSig scriptPubkey : List UInt8) (witness : List (List UInt8)) (stack : Stack)
    (leafScript : List UInt8) : Prop where
  witness_flag : flags.contains .witness = true
  taproot_flag : flags.contains .taproot = true
  program : ∃ program, parseWitnessProgram scriptPubkey = some ⟨1, program⟩ ∧ program.length = 32
  path : ∃ control, withoutAnnex witness = stack ++ [leafScript, control] ∧
    control.head?.map (· &&& taprootLeafMask) = some 0xc0
  no_success : ∀ i, .ok i ∈ instructions leafScript → isOpSuccess i.opcode = false
  accepted : verifyScript flags checker scriptSig scriptPubkey witness = .ok ()

variable {flags : VerifyFlags} {checker : SignatureChecker}

omit [Sha2] [LegacyHash] [Secp256k1] in
lemma anyOpSuccess_eq {items : List (Outcome ScriptError Instruction)} {found : Bool}
    (hnone : ∀ i, .ok i ∈ items → isOpSuccess i.opcode = false)
    (h : anyOpSuccess items = .ok found) : found = false := by
  induction items with
  | nil => exact (Except.ok.inj h).symm
  | cons item items ih =>
    rw [anyOpSuccess] at h
    obtain ⟨i, rfl, hrest⟩ := bind_eq_ok.mp h
    rw [hnone i List.mem_cons_self, if_neg (by simp)] at hrest
    exact ih (fun j hj => hnone j (List.mem_cons_of_mem _ hj)) hrest

omit [Sha2] [LegacyHash] [Secp256k1] in
lemma leafVersion_of_parseControlBlock {control : List UInt8} {block : ControlBlock}
    (h : parseControlBlock control = .ok (some block)) :
    control.head?.map (· &&& taprootLeafMask) = some block.leafVersion := by
  rw [parseControlBlock] at h
  split_ifs at h with hsize
  · cases h
  · simp only [bind_eq_ok] at h
    obtain ⟨first, hfirst, _, _, _, _, _, _, h⟩ := h
    cases h
    cases control with
    | nil => cases hfirst
    | cons byte control =>
      cases hfirst
      rfl

omit [Secp256k1] in
/-- A tapscript without an `OP_SUCCESSx` is run to the end. -/
lemma exists_run_of_executeWitnessScript {stack : Stack} {script : List UInt8}
    {execData : ScriptExecutionData}
    (hnone : ∀ i, .ok i ∈ instructions script → isOpSuccess i.opcode = false)
    (h : executeWitnessScript flags checker stack script .tapscript execData = .ok ()) :
    ∃ t, (instructions script).foldlM (step ⟨script, flags, checker, .tapscript⟩)
      (.start stack execData) = .ok t := by
  rw [executeWitnessScript, if_pos rfl] at h
  obtain ⟨found, hfound, h⟩ := bind_eq_ok.mp h
  rw [anyOpSuccess_eq hnone hfound, if_neg (by simp)] at h
  obtain ⟨_, _, h⟩ := bind_eq_ok.mp h
  rw [runWitnessScript] at h
  obtain ⟨_, _, h⟩ := bind_eq_ok.mp h
  obtain ⟨_, heval, _⟩ := bind_eq_ok.mp h
  rw [evalScriptWithData] at heval
  obtain ⟨_, _, heval⟩ := bind_eq_ok.mp heval
  obtain ⟨t, hrun, _⟩ := bind_eq_ok.mp heval
  exact ⟨t, hrun⟩

/-- An accepted spend runs its leaf script to the end. -/
lemma TapscriptSpend.exists_run {scriptSig scriptPubkey leafScript : List UInt8}
    {witness : List (List UInt8)} {stack : Stack}
    (h : TapscriptSpend flags checker scriptSig scriptPubkey witness stack leafScript) :
    ∃ t, (instructions leafScript).foldlM (step ⟨leafScript, flags, checker, .tapscript⟩)
      (tapscriptStart witness stack leafScript) = .ok t := by
  obtain ⟨program, hprogram, hlen⟩ := h.program
  obtain ⟨control, hpath, hleaf⟩ := h.path
  obtain ⟨_, _, _, _, _, _, hnative, _⟩ := parts_of_verifyScript h.accepted
  have hverify := verifyWitnessProgram_of_verifyProgramOf h.witness_flag hnative hprogram
  rw [verifyWitnessProgram, if_neg (by simp), if_pos ⟨rfl, hlen, rfl, h.taproot_flag⟩,
    verifyTaproot] at hverify
  obtain ⟨_, _, hverify⟩ := bind_eq_ok.mp hverify
  obtain ⟨⟨items, execData⟩, hannex, hverify⟩ := bind_eq_ok.mp hverify
  obtain ⟨rfl, rfl⟩ := takeAnnex_eq hannex
  have hlast : (stack ++ [leafScript, control]).getLast? = some control := by simp
  have hinit : (stack ++ [leafScript, control]).dropLast = stack ++ [leafScript] := by
    simp [List.dropLast_append_of_ne_nil]
  have hlast' : (stack ++ [leafScript]).getLast? = some leafScript := by simp
  have hinit' : (stack ++ [leafScript]).dropLast = stack := by simp
  dsimp only at hverify
  rw [hpath, if_neg (by simp), verifyTaprootScript, hlast, hinit] at hverify
  simp only [hlast', hinit', unwrap, Result.ok_bind, bind_eq_ok] at hverify
  obtain ⟨parsed, hparsed, block, hblock, _, _, hverify⟩ := hverify
  cases parsed with
  | none => cases hblock
  | some parsed =>
    cases hblock
    have hversion := leafVersion_of_parseControlBlock hparsed
    rw [hleaf, Option.some.injEq] at hversion
    rw [← hversion, if_pos (by decide)] at hverify
    obtain ⟨weight, hweight, hverify⟩ := bind_eq_ok.mp hverify
    have hvalue : weight = i64OfBits (serializedWitnessSize witness % 2 ^ 64) +
        validationWeightOffset := by
      rw [i64] at hweight
      split_ifs at hweight
      exact (Except.ok.inj hweight).symm
    subst hvalue
    exact exists_run_of_executeWitnessScript h.no_success hverify

omit [Sha2] [LegacyHash] [Secp256k1] in
lemma i64OfBits_le {size : Nat} : i64OfBits (size % 2 ^ 64) ≤ size := by
  have hmod := Nat.mod_le size (2 ^ 64)
  unfold i64OfBits
  split_ifs <;> omega

/-- A leaf script that is accepted has checked no more signatures than its witness pays for, and the
witness is counted as long as it is on the wire. -/
theorem signaturesChecked_le_budget :
    (∀ witness : List (List UInt8),
      serializedWitnessSize witness = (encodeVarList witness).length) ∧
    ∀ {flags : VerifyFlags} {checker : SignatureChecker} {scriptSig scriptPubkey : List UInt8}
      {witness : List (List UInt8)} {stack : Stack} {leafScript : List UInt8},
      TapscriptSpend flags checker scriptSig scriptPubkey witness stack leafScript →
      (∃ t, (instructions leafScript).foldlM (step ⟨leafScript, flags, checker, .tapscript⟩)
        (tapscriptStart witness stack leafScript) = .ok t) ∧
      runCount (step ⟨leafScript, flags, checker, .tapscript⟩) signaturesChecked
        (tapscriptStart witness stack leafScript) (instructions leafScript) ≤
          ((encodeVarList witness).length + 50) / 50 := by
  refine ⟨serializedWitnessSize_eq, fun {flags checker _ _ witness stack leafScript} h => ?_⟩
  obtain ⟨t, hrun⟩ := h.exists_run
  refine ⟨⟨t, hrun⟩, ?_⟩
  have hpays : PaysSigops (runCount (step ⟨leafScript, flags, checker, .tapscript⟩)
      signaturesChecked (tapscriptStart witness stack leafScript) (instructions leafScript)) _ t :=
    pays_foldlM signaturesChecked (fun _ _ _ hstep => paysSigops_step rfl hstep) hrun
  by_cases hpos : 0 < runCount (step ⟨leafScript, flags, checker, .tapscript⟩) signaturesChecked
      (tapscriptStart witness stack leafScript) (instructions leafScript)
  · have hle := hpays.mul_le hpos
    have hstart : (tapscriptStart witness stack leafScript).weightLeft ≤
        serializedWitnessSize witness + 50 :=
      Int.add_le_add_right i64OfBits_le 50
    rw [← serializedWitnessSize_eq]
    omega
  · omega

end Spend

namespace Sample

/-- A leaf with a key of one byte, which is of no known type. -/
def unknownKeyLeaf : List UInt8 := [0x01, 0x02, 0xac]

/-- The generator of the curve, taken as the internal key. -/
def generatorKey : List UInt8 :=
  Bytes.beBytes 32 0x79be667ef9dcbbac55a06295ce870b07029bfcdb2dce28d959f2815b16f81798

/-- The output key for the generator and the leaf. -/
def unknownKeyOutput : List UInt8 :=
  Bytes.beBytes 32 0x4c18a5ccf53659561383b1454985da79f5c5c4beec64f249f975f917f3e78484

/-- The tweak from the one to the other. -/
def unknownKeyTweak : List UInt8 :=
  Bytes.beBytes 32 0x5faae91c8f0bf89e6fae99663cc34819e0dc21ccd117790da16b9900978ddf80

/-- The curve on these two points. -/
@[reducible] def unknownKeyCurve : Secp256k1 where
  PublicKey := Empty
  Signature := Empty
  XOnlyPublicKey := List UInt8
  SchnorrSignature := Empty
  Scalar := List UInt8
  publicKeyFromSlice _ := none
  signatureFromDerLax _ := none
  verifyEcdsa _ _ _ := false
  xOnlyFromSlice bytes := [generatorKey, unknownKeyOutput].find? (· == bytes)
  schnorrFromSlice _ := none
  verifySchnorr _ _ _ := false
  scalarFromBeBytes bytes := some bytes.toList
  tweakAddCheck internal output parity tweak :=
    internal = generatorKey ∧ output = unknownKeyOutput ∧ parity = .odd ∧ tweak = unknownKeyTweak

/-- A signature of one byte, the leaf and its control block. -/
def unknownKeyWitness : List (List UInt8) := [[0x01], unknownKeyLeaf, 0xc1 :: generatorKey]

open VerifyFlags in
set_option maxRecDepth 100000 in
/-- The witness of 41 bytes pays for the one signature that the leaf checks. -/
theorem signaturesChecked_le_budget_unknownKey :
    runCount (step ⟨unknownKeyLeaf, consensusTaproot, nullSignatureChecker, .tapscript⟩)
      signaturesChecked (tapscriptStart unknownKeyWitness [[0x01]] unknownKeyLeaf)
      (instructions unknownKeyLeaf) ≤ 1 := by
  let _ := unknownKeyCurve
  have hspend : TapscriptSpend consensusTaproot nullSignatureChecker []
      ([0x51, 0x20] ++ unknownKeyOutput) unknownKeyWitness [[0x01]] unknownKeyLeaf :=
    { witness_flag := by decide
      taproot_flag := by decide
      program := ⟨unknownKeyOutput, by decide +kernel, by decide +kernel⟩
      path := ⟨0xc1 :: generatorKey, by decide +kernel, by decide +kernel⟩
      no_success := by
        have hread : instructions unknownKeyLeaf = [.ok ⟨0, 1, [2], 2⟩, .ok ⟨2, 0xac, [], 3⟩] := rfl
        rw [hread]
        simp [isOpSuccess]
      accepted := by decide +kernel }
  exact (signaturesChecked_le_budget.2 hspend).2

end Sample

end Bitcrab
