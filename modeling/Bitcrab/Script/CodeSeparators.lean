import Bitcrab.Script.Limits
import Bitcrab.Script.Segments
import Bitcrab.Script.SighashMessages
import Bitcrab.Types.Codec

/-!
# OP_CODESEPARATOR and what signatures commit to

The legacy signature hash takes the scriptCode as it is, separators included. A tapscript signature
commits to the position of the last separator that was executed, which the interpreter takes from
the byte offset of the instruction.
-/

namespace Bitcrab

open Outcome

/-! ### The legacy signature hash -/

/-- The scriptCode without its separators, at instruction boundaries only. -/
def withoutSeparators (scriptCode : List UInt8) : List UInt8 :=
  deleteChunks scriptCode [[Opcode.opCodeseparator]]

lemma withoutSeparators_eq_self_iff {scriptCode : List UInt8} :
    withoutSeparators scriptCode = scriptCode ↔
      [Opcode.opCodeseparator] ∉ (segments scriptCode).1 := by
  constructor
  · intro heq hin
    have hfilter := congrArg (fun bytes => (segments bytes).1) heq
    simp only [withoutSeparators, segments_deleteChunks] at hfilter
    rw [← hfilter] at hin
    simp at hin
  · intro h
    exact deleteChunks_of_forall_notMem (by simpa using h)

/-- The legacy digest is the same without the separators when there is none, or when nothing is
hashed: the messages differ otherwise, so the digests do unless they collide. -/
theorem legacySignatureHash_withoutSeparators_iff [Sha2] (tx : Transaction) (inputIndex : Nat)
    (hashType : UInt32) (scriptCode : List UInt8)
    (hcollision : ∀ message message',
      legacyMessage tx inputIndex scriptCode hashType = .ok message →
      legacyMessage tx inputIndex (withoutSeparators scriptCode) hashType = .ok message' →
      hash256 message = hash256 message' → message = message') :
    legacySignatureHash tx inputIndex scriptCode hashType =
        legacySignatureHash tx inputIndex (withoutSeparators scriptCode) hashType ↔
      inputIndex ≥ tx.inputs.length ∨
        (hashType &&& 0x1f).toUInt8 = sighashSingle ∧ inputIndex ≥ tx.outputs.length ∨
        [Opcode.opCodeseparator] ∉ (segments scriptCode).1 := by
  rw [← or_assoc]
  change _ ↔ LegacyOutOfRange tx inputIndex hashType ∨ _
  by_cases hout : LegacyOutOfRange tx inputIndex hashType
  · rw [legacySignatureHash_of_outOfRange hout, legacySignatureHash_of_outOfRange hout]
    exact iff_of_true rfl (.inl hout)
  · obtain ⟨before, after, hmessage⟩ := exists_legacyMessage hout
    rw [legacySignatureHash_of_inRange hout (hmessage scriptCode),
      legacySignatureHash_of_inRange hout (hmessage (withoutSeparators scriptCode)),
      ← withoutSeparators_eq_self_iff]
    simp only [hout, false_or, Except.ok.injEq]
    constructor
    · intro hdigest
      have heq := hcollision _ _ (hmessage scriptCode) (hmessage _) hdigest
      exact (encodeVarBytes_inj (List.append_cancel_left heq)).symm
    · intro h
      rw [h]

/-! ### The position of the last separator -/

section Position

variable [Sha2] [LegacyHash] {ctx : EvalContext}

/-- The state before instruction `k`. -/
def stateBefore (ctx : EvalContext) (stack : Stack) (execData : ScriptExecutionData) (k : Nat) :
    Outcome ScriptError EvalState :=
  ((instructions ctx.script).take k).foldlM (step ctx) (.start stack execData)

/-- Instruction `j` is a separator, in branches that are all taken. -/
def ExecutesSeparator (ctx : EvalContext) (stack : Stack) (execData : ScriptExecutionData)
    (j : Nat) : Prop :=
  ∃ s i, stateBefore ctx stack execData j = .ok s ∧ (instructions ctx.script)[j]? = some (.ok i) ∧
    i.opcode = Opcode.opCodeseparator ∧ s.conditionStack.all id = true

/-- Instruction `j` is the last separator that is executed before instruction `k`. -/
structure LastSeparator (ctx : EvalContext) (stack : Stack) (execData : ScriptExecutionData)
    (j k : Nat) : Prop where
  executes : ExecutesSeparator ctx stack execData j
  before : j < k
  last : ∀ l, j < l → l < k → ¬ ExecutesSeparator ctx stack execData l

omit [Sha2] [LegacyHash] in
lemma holds_evalChecksigTapscript_position (sig pubkey : List UInt8) (flags : VerifyFlags)
    (checker : SignatureChecker) (execData : ScriptExecutionData) :
    Holds True (evalChecksigTapscript sig pubkey flags checker execData) fun r =>
      r.2.codeseparatorPos = execData.codeseparatorPos := by
  have hspend : Holds True (if (!sig.isEmpty) = true then spendBudget execData else pure execData)
      fun d => d.codeseparatorPos = execData.codeseparatorPos := by
    rw [holds_ite]
    refine ⟨fun _ => ?_, fun _ => rfl⟩
    simp only [spendBudget, holds_bind]
    refine (holds_true _).mono fun left _ => ?_
    rw [holds_rejectIf]
    exact fun _ => rfl
  simp only [evalChecksigTapscript, holds_bind]
  refine hspend.mono fun d hd => ?_
  simp only [holds_ite, holds_bind, holds_fail, holds_pure, holds_rejectIf, implies_true, true_and]
  refine fun _ => ⟨fun _ => ⟨fun _ => ?_, fun _ => hd⟩, fun _ _ => hd⟩
  exact (holds_true _).mono fun _ _ => hd

omit [Sha2] [LegacyHash] in
lemma holds_execCheckSig_position (lastCodeseparator : Nat) (execData : ScriptExecutionData)
    (sig pubkey : List UInt8) :
    Holds True (execCheckSig ctx lastCodeseparator execData sig pubkey) fun r =>
      r.2.codeseparatorPos = execData.codeseparatorPos := by
  rw [execCheckSig, holds_ite]
  refine ⟨fun _ => holds_evalChecksigTapscript_position sig pubkey _ _ execData, fun _ => ?_⟩
  simp only [holds_bind, holds_rejectIf]
  refine (holds_true _).mono fun _ _ => (holds_true _).mono fun _ _ => ?_
  exact (holds_true _).mono fun _ _ => (holds_true _).mono fun _ _ _ => rfl

/-- Only a separator moves the position that a state commits to. -/
lemma holds_execOp_position (executing : Bool) (i : Instruction) (s : EvalState) {op : Op}
    (hop : op ≠ .codeSeparator) :
    Holds True (execOp ctx executing i s op) fun t =>
      t.execData.codeseparatorPos = s.execData.codeseparatorPos := by
  cases op with
  | codeSeparator => exact absurd rfl hop
  | nop => rfl
  | returnOp => trivial
  | bad => trivial
  | ifOp negated =>
    simp only [execOp, holds_ite, holds_bind]
    exact ⟨fun _ => (holds_true _).mono fun _ _ => rfl, fun _ => rfl⟩
  | checkSig verify =>
    simp only [execOp, holds_bind]
    refine (holds_true _).mono fun _ _ => (holds_true _).mono fun _ _ => ?_
    refine (holds_true _).mono fun _ _ => ?_
    refine (holds_execCheckSig_position _ _ _ _).mono fun r hr => ?_
    exact (holds_true _).mono fun _ _ => hr
  | checkSigAdd =>
    simp only [execOp, holds_bind]
    refine (holds_true _).mono fun _ _ => (holds_true _).mono fun _ _ => ?_
    refine (holds_true _).mono fun _ _ => (holds_true _).mono fun _ _ => ?_
    refine (holds_true _).mono fun _ _ => ?_
    refine (holds_evalChecksigTapscript_position _ _ _ _ _).mono fun r hr => ?_
    exact (holds_true _).mono fun _ _ => hr
  | checkMultisig verify =>
    simp only [execOp, holds_bind]
    refine (holds_true _).mono fun _ _ => (holds_true _).mono fun _ _ => ?_
    exact (holds_true _).mono fun _ _ => rfl
  | stack op | checkLockTimeVerify | checkSequenceVerify | upgradableNop | elseOp | endif
  | toAltStack | fromAltStack =>
    simp only [execOp, holds_bind]
    exact (holds_true _).mono fun _ _ => rfl

omit [Sha2] [LegacyHash] in
lemma eq_of_toOp_eq_codeSeparator {opcode : UInt8} (h : Opcode.toOp opcode = .codeSeparator) :
    opcode = Opcode.opCodeseparator := by
  unfold Opcode.toOp at h
  split_ifs at h
  split at h <;> first | (rename_i hnat; exact UInt8.toNat_inj.mp hnat) | cases h

omit [Sha2] [LegacyHash] in
lemma holds_checkStackSize_position (s : EvalState) :
    Holds True (checkStackSize s) fun t =>
      t.execData.codeseparatorPos = s.execData.codeseparatorPos := by
  simp only [checkStackSize, holds_bind, holds_rejectIf, holds_pure]
  exact fun _ => trivial

/-- The position after an instruction: the byte offset of a separator that is executed. -/
lemma holds_execInstruction_position (i : Instruction) (s : EvalState) :
    Holds True (execInstruction ctx i s) fun t =>
      t.execData.codeseparatorPos =
        if i.opcode = Opcode.opCodeseparator ∧ s.conditionStack.all id = true then
          UInt32.ofNat i.offset
        else s.execData.codeseparatorPos := by
  by_cases hsep : i.opcode = Opcode.opCodeseparator ∧ s.conditionStack.all id = true
  · obtain ⟨hop, hexec⟩ := hsep
    have hpush : ¬ i.opcode ≤ Opcode.opPushdata4 := by
      rw [hop]
      decide
    have htoOp : Opcode.toOp i.opcode = .codeSeparator := by
      rw [hop]
      decide
    rw [execInstruction, if_neg (by simp [hexec]), if_neg hpush, htoOp,
      if_neg (by simp [isInactive]),
      if_pos ⟨hop, hexec⟩, holds_bind]
    exact holds_checkStackSize_position _
  · have hkeep : ∀ t : EvalState, t.execData.codeseparatorPos = s.execData.codeseparatorPos →
        t.execData.codeseparatorPos =
          if i.opcode = Opcode.opCodeseparator ∧ s.conditionStack.all id = true then
            UInt32.ofNat i.offset
          else s.execData.codeseparatorPos := by
      intro t ht
      rw [if_neg hsep, ht]
    refine Holds.mono ?_ hkeep
    simp only [execInstruction, holds_ite, holds_bind]
    refine ⟨fun _ => rfl, fun hrun => ⟨fun _ => ?_, fun _ => ⟨fun _ => ?_, fun _ => ?_⟩⟩⟩
    · exact (holds_true _).mono fun _ _ => holds_checkStackSize_position _
    · exact (holds_true _).mono fun _ _ => rfl
    · have hop : Opcode.toOp i.opcode ≠ .codeSeparator := by
        intro htoOp
        have heq := eq_of_toOp_eq_codeSeparator htoOp
        refine hrun ⟨?_, by rw [heq]; decide⟩
        simpa [heq] using hsep
      refine (holds_execOp_position _ i s hop).mono fun t ht => ?_
      exact (holds_checkStackSize_position t).mono fun u hu => hu.trans ht

/-- One round of the evaluation. -/
lemma position_of_step {s t : EvalState} {item : Outcome ScriptError Instruction}
    (h : step ctx s item = .ok t) :
    ∃ i, item = .ok i ∧ t.execData.codeseparatorPos =
      if i.opcode = Opcode.opCodeseparator ∧ s.conditionStack.all id = true then
        UInt32.ofNat i.offset
      else s.execData.codeseparatorPos := by
  rw [step] at h
  obtain ⟨i, hi, h⟩ := Result.bind_eq_ok.mp h
  simp only [Result.bind_eq_ok] at h
  obtain ⟨_, _, opCount, _, _, _, h⟩ := h
  exact ⟨i, hi, (holds_execInstruction_position i { s with opCount }).of_eq_ok h⟩

variable {stack : Stack} {execData : ScriptExecutionData}

lemma stateBefore_succ {k : Nat} {item : Outcome ScriptError Instruction}
    (hitem : (instructions ctx.script)[k]? = some item) :
    stateBefore ctx stack execData (k + 1) =
      stateBefore ctx stack execData k >>= fun s => step ctx s item := by
  rw [stateBefore, stateBefore, List.take_add_one, hitem, List.foldlM_append]
  simp only [Option.toList_some, List.foldlM_cons, List.foldlM_nil, bind_pure]

lemma stateBefore_succ_of_end {k : Nat} (hend : (instructions ctx.script)[k]? = none) :
    stateBefore ctx stack execData (k + 1) = stateBefore ctx stack execData k := by
  rw [stateBefore, stateBefore, List.take_add_one, hend]
  simp

/-- The last separator before the next instruction is the last one before this one, or this one. -/
lemma lastSeparator_succ {j k : Nat} (hnot : ¬ ExecutesSeparator ctx stack execData k) :
    LastSeparator ctx stack execData j (k + 1) → LastSeparator ctx stack execData j k := by
  intro h
  have hne : j ≠ k := by
    rintro rfl
    exact hnot h.executes
  refine ⟨h.executes, ?_, fun l hjl hlk => h.last l hjl (hlk.trans (Nat.lt_succ_self k))⟩
  have := h.before
  omega

/-- What a state commits to: nothing, or the byte offset of the last separator. -/
lemma position_of_stateBefore (hstart : execData.codeseparatorPos = 0xFFFFFFFF) {k : Nat}
    {s : EvalState} (hs : stateBefore ctx stack execData k = .ok s) :
    ((∀ j < k, ¬ ExecutesSeparator ctx stack execData j) →
      s.execData.codeseparatorPos = 0xFFFFFFFF) ∧
    ∀ j i, LastSeparator ctx stack execData j k → (instructions ctx.script)[j]? = some (.ok i) →
      s.execData.codeseparatorPos = UInt32.ofNat i.offset := by
  induction k generalizing s with
  | zero =>
    cases hs
    exact ⟨fun _ => hstart, fun j i h _ => absurd h.before (Nat.not_lt_zero j)⟩
  | succ k ih =>
    cases hitem : (instructions ctx.script)[k]? with
    | none =>
      rw [stateBefore_succ_of_end hitem] at hs
      have hnot : ¬ ExecutesSeparator ctx stack execData k := by
        rintro ⟨_, _, _, hi, _⟩
        rw [hitem] at hi
        cases hi
      obtain ⟨hnone, hlast⟩ := ih hs
      exact ⟨fun h => hnone fun j hj => h j (hj.trans (Nat.lt_succ_self k)),
        fun j i h hi => hlast j i (lastSeparator_succ hnot h) hi⟩
    | some item =>
      rw [stateBefore_succ hitem] at hs
      obtain ⟨s₀, hs₀, hstep⟩ := Result.bind_eq_ok.mp hs
      obtain ⟨i, rfl, hpos⟩ := position_of_step hstep
      obtain ⟨hnone, hlast⟩ := ih hs₀
      by_cases hsep : i.opcode = Opcode.opCodeseparator ∧ s₀.conditionStack.all id = true
      · have hexec : ExecutesSeparator ctx stack execData k := ⟨s₀, i, hs₀, hitem, hsep⟩
        rw [if_pos hsep] at hpos
        refine ⟨fun h => absurd hexec (h k (Nat.lt_succ_self k)), fun j i' h hi' => ?_⟩
        have hjk : j = k := by
          have hle := Nat.lt_succ_iff.mp h.before
          by_contra hne
          exact h.last k (lt_of_le_of_ne hle hne) (Nat.lt_succ_self k) hexec
        subst hjk
        rw [hitem] at hi'
        cases hi'
        exact hpos
      · have hnot : ¬ ExecutesSeparator ctx stack execData k := by
          rintro ⟨s', i', hs', hi', hsep'⟩
          rw [hs₀] at hs'
          rw [hitem] at hi'
          cases hs'
          cases hi'
          exact hsep hsep'
        rw [if_neg hsep] at hpos
        refine ⟨fun h => ?_, fun j i' h hi' => ?_⟩
        · exact hpos.trans (hnone fun j hj => h j (hj.trans (Nat.lt_succ_self k)))
        · exact hpos.trans (hlast j i' (lastSeparator_succ hnot h) hi')

end Position

/-- The byte offset of an instruction is its index when the instructions before it are one byte
long. -/
lemma offset_eq_iff_of_instructionsFrom {script : List UInt8} {fuel pos j : Nat} {i : Instruction}
    (hi : (instructionsFrom script fuel pos)[j]? = some (.ok i)) :
    pos + j ≤ i.offset ∧ (i.offset = pos + j ↔ ∀ l < j, ∀ i' : Instruction,
      (instructionsFrom script fuel pos)[l]? = some (.ok i') → i'.next = i'.offset + 1) := by
  induction fuel generalizing pos j with
  | zero =>
    rw [instructionsFrom] at hi
    split_ifs at hi
    · simp at hi
    · cases j <;> simp at hi
  | succ fuel ih =>
    rw [instructionsFrom] at hi ⊢
    split_ifs at hi ⊢ with hend
    · simp at hi
    have hnext := Instructions.holds_next (P := True) (not_le.mp hend)
    cases hfirst : Instructions.next script pos with
    | error e =>
      rw [hfirst] at hi
      cases j <;> simp at hi
    | ok first =>
      rw [hfirst] at hi hnext
      have hlt : pos < first.next := hnext.1
      have hoffset : first.offset = pos := by
        rw [Instructions.next] at hfirst
        simp only [Result.bind_eq_ok] at hfirst
        obtain ⟨_, _, _, _, _, _, hfirst⟩ := hfirst
        cases hfirst
        rfl
      cases j with
      | zero =>
        cases hi
        simp [hoffset]
      | succ j =>
        obtain ⟨hle, heq⟩ := ih hi
        refine ⟨by omega, ?_⟩
        constructor
        · intro hidx l hl i' hi'
          cases l with
          | zero =>
            cases hi'
            omega
          | succ l => exact heq.mp (by omega) l (Nat.lt_of_succ_lt_succ hl) i' hi'
        · intro hsingle
          have hone : first.next = first.offset + 1 := hsingle 0 (Nat.succ_pos j) first rfl
          have := heq.mpr fun l hl i' hi' => hsingle (l + 1) (Nat.succ_lt_succ hl) i' hi'
          omega

lemma UInt32.ofNat_eq_ofNat_iff {a b : Nat} :
    UInt32.ofNat a = UInt32.ofNat b ↔ a % 2 ^ 32 = b % 2 ^ 32 := by
  rw [← UInt32.toNat_inj, UInt32.toNat_ofNat', UInt32.toNat_ofNat']

/-- A checker that is only to be asked with one position of the last separator. -/
def SignatureChecker.expectingPosition (checker : SignatureChecker) (position : UInt32) :
    SignatureChecker :=
  { checker with
    checkSchnorrSignature := fun sig pubkey sigVersion execData =>
      if execData.codeseparatorPos = position then
        checker.checkSchnorrSignature sig pubkey sigVersion execData
      else .error .panic }

/-- A tapscript signature check commits to the position of the state it is made in. -/
lemma evalChecksigTapscript_expectingPosition (sig pubkey : List UInt8) (flags : VerifyFlags)
    (checker : SignatureChecker) (execData : ScriptExecutionData) :
    evalChecksigTapscript sig pubkey flags (checker.expectingPosition execData.codeseparatorPos)
        execData =
      evalChecksigTapscript sig pubkey flags checker execData := by
  simp only [evalChecksigTapscript]
  cases hspend : (if (!sig.isEmpty) = true then spendBudget execData else pure execData :
      Outcome ScriptError ScriptExecutionData) with
  | error e => rfl
  | ok spent =>
    have hpos : spent.codeseparatorPos = execData.codeseparatorPos := by
      split_ifs at hspend
      · simp only [spendBudget, Result.bind_eq_ok] at hspend
        obtain ⟨_, _, _, _, hspend⟩ := hspend
        cases hspend
        rfl
      · cases hspend
        rfl
    simp only [Result.ok_bind, SignatureChecker.expectingPosition, hpos, if_true]

/-- Before every instruction of a tapscript evaluation, and so at every signature check, the
position that signatures commit to is `0xffffffff` while no separator was executed, and then it is
the index of the last one exactly when its byte offset is: when the instructions before it are one
byte long, in a script of less than 4 GiB. -/
theorem codeseparatorPos_eq_index_iff [Sha2] [LegacyHash] (ctx : EvalContext) (stack : Stack)
    (execData : ScriptExecutionData) (hstart : execData.codeseparatorPos = 0xFFFFFFFF) (k : Nat)
    (s : EvalState) (hs : stateBefore ctx stack execData k = .ok s) :
    (∀ sig pubkey, evalChecksigTapscript sig pubkey ctx.flags
        (ctx.checker.expectingPosition s.execData.codeseparatorPos) s.execData =
      evalChecksigTapscript sig pubkey ctx.flags ctx.checker s.execData) ∧
    ((∀ j < k, ¬ ExecutesSeparator ctx stack execData j) →
      s.execData.codeseparatorPos = 0xFFFFFFFF) ∧
    ∀ j i, LastSeparator ctx stack execData j k → (instructions ctx.script)[j]? = some (.ok i) →
      (s.execData.codeseparatorPos = UInt32.ofNat j ↔ i.offset % 2 ^ 32 = j % 2 ^ 32) ∧
      (i.offset = j ↔ ∀ l < j, ∀ i' : Instruction,
        (instructions ctx.script)[l]? = some (.ok i') → i'.next = i'.offset + 1) := by
  obtain ⟨hnone, hlast⟩ := position_of_stateBefore hstart hs
  refine ⟨fun sig pubkey => evalChecksigTapscript_expectingPosition _ _ _ _ _, hnone, ?_⟩
  intro j i hj hi
  refine ⟨?_, ?_⟩
  · rw [hlast j i hj hi]
    exact UInt32.ofNat_eq_ofNat_iff
  · have hoffset := (offset_eq_iff_of_instructionsFrom hi).2
    rwa [Nat.zero_add] at hoffset

namespace Sample

/-- A push of one byte, a separator and a signature check. -/
def separatedContext : EvalContext :=
  ⟨[0x01, 0x07, 0xab, 0xac], ⟨0⟩, nullSignatureChecker, .tapscript⟩

/-- The state before the signature check. -/
def separatedState : EvalState := ⟨[[], [7]], [], [], 0, 3, { ScriptExecutionData.new with
  codeseparatorPos := 2 }⟩

lemma stateBefore_separatedContext :
    stateBefore separatedContext [[]] .new 2 = .ok separatedState := by
  decide +kernel

lemma lastSeparator_separatedContext : LastSeparator separatedContext [[]] .new 1 2 where
  executes := ⟨⟨[[], [7]], [], [], 0, 0, .new⟩, ⟨2, 0xab, [], 3⟩, by decide +kernel,
    by decide +kernel, rfl, rfl⟩
  before := by decide
  last l hl hl' := by omega

/-- The separator is the second instruction and starts at the third byte. -/
theorem not_codeseparatorPos_eq_index :
    ¬ ∀ (ctx : EvalContext) (stack : Stack) (execData : ScriptExecutionData),
      ctx.sigVersion = .tapscript → execData.codeseparatorPos = 0xFFFFFFFF → ∀ k s,
      stateBefore ctx stack execData k = .ok s → ∀ j, LastSeparator ctx stack execData j k →
      s.execData.codeseparatorPos = UInt32.ofNat j := by
  intro h
  have hpos := h separatedContext [[]] .new rfl rfl 2 separatedState stateBefore_separatedContext 1
    lastSeparator_separatedContext
  revert hpos
  decide

theorem codeseparatorPos_eq_index_iff_separatedContext :
    (separatedState.execData.codeseparatorPos = UInt32.ofNat 1 ↔ 2 % 2 ^ 32 = 1 % 2 ^ 32) ∧
      (2 = 1 ↔ ∀ l < 1, ∀ i' : Instruction,
        (instructions separatedContext.script)[l]? = some (.ok i') → i'.next = i'.offset + 1) :=
  (codeseparatorPos_eq_index_iff separatedContext [[]] .new rfl 2 separatedState
    stateBefore_separatedContext).2.2 1 ⟨2, 0xab, [], 3⟩ lastSeparator_separatedContext
    (by decide +kernel)

/-- A signature check before a separator, and the same without it. -/
lemma separator_digests_ne :
    legacySignatureHash (spend []) 0 [0xac, 0xab] 1 ≠
      legacySignatureHash (spend []) 0 (withoutSeparators [0xac, 0xab]) 1 := by
  set_option maxRecDepth 100000 in
  decide +kernel

theorem not_legacySignatureHash_withoutSeparators :
    ¬ ∀ tx inputIndex hashType scriptCode,
      legacySignatureHash tx inputIndex scriptCode hashType =
        legacySignatureHash tx inputIndex (withoutSeparators scriptCode) hashType :=
  fun h => separator_digests_ne (h (spend []) 0 1 [0xac, 0xab])

/-- The second input has no output, so that nothing is hashed. -/
def outputlessSpend : Transaction :=
  { spend [] with inputs := (spend []).inputs ++ (spend []).inputs }

/-- A separator makes no difference where nothing is hashed; the byte of a separator in a push makes
none either. -/
theorem legacySignatureHash_withoutSeparators_pushed :
    legacySignatureHash outputlessSpend 1 [0xac, 0xab] 3 =
        legacySignatureHash outputlessSpend 1 (withoutSeparators [0xac, 0xab]) 3 ∧
      legacySignatureHash (spend []) 0 [0x01, 0xab, 0xac] 1 =
        legacySignatureHash (spend []) 0 (withoutSeparators [0x01, 0xab, 0xac]) 1 := by
  constructor
  · have hnothing : legacyMessage outputlessSpend 1 [0xac, 0xab] 3 = .error .panic := by
      decide +kernel
    refine (legacySignatureHash_withoutSeparators_iff outputlessSpend 1 3 [0xac, 0xab] ?_).mpr
      (.inr (.inl ⟨by decide, by decide⟩))
    intro message message' hmessage
    rw [hnothing] at hmessage
    cases hmessage
  · have hsame : [Opcode.opCodeseparator] ∉ (segments [0x01, 0xab, 0xac]).1 := by
      decide +kernel
    refine (legacySignatureHash_withoutSeparators_iff (spend []) 0 1 [0x01, 0xab, 0xac] ?_).mpr
      (.inr (.inr hsame))
    intro message message' hmessage hmessage' _
    rw [withoutSeparators_eq_self_iff.mpr hsame] at hmessage'
    exact Except.ok.inj (hmessage.symm.trans hmessage')

end Sample

end Bitcrab
