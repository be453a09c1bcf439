import Bitcrab.Script.Interpreter
import Bitcrab.Script.StackSafety

/-!
# Resource limits of the interpreter

Along every evaluation the two stacks together have at most 1000 elements of at most 520 bytes, and
where operations are counted there are at most 201 of them.
-/

namespace Bitcrab

open Outcome

/-! ### CHECKMULTISIG -/

section Multisig

variable {P : Prop}

lemma holds_popMany (count : Nat) (stack : Stack) {Q : List (List UInt8) × Stack → Prop}
    (h : ∀ items rest, items.length = count → rest ⊆ stack → Q (items, rest)) :
    Holds P (popMany count stack) Q := by
  induction count generalizing stack Q with
  | zero => exact h [] stack rfl (List.Subset.refl _)
  | succ count ih =>
    simp only [popMany, holds_bind]
    refine holds_pop fun top rest _ hrest _ => ?_
    refine ih rest fun items rest' hlen hrest' => ?_
    exact h _ _ (by simp [hlen]) (List.Subset.trans hrest' hrest)

/-- What `eval_checkmultisig` takes from the stack: at most as many signatures as keys, and the
keys are counted as operations. -/
structure MultisigArgs.Spec (args : MultisigArgs) (stack : Stack) : Prop where
  stack : args.stack ⊆ stack
  opCount : args.opCount ≤ maxOpsPerScript
  sigs : args.sigs.length ≤ args.pubkeys.length

lemma holds_multisigArgs (ctx : EvalContext) (stack : Stack) (opCount : Nat) :
    Holds P (multisigArgs ctx stack opCount) fun args => args.Spec stack := by
  simp only [multisigArgs, holds_bind]
  refine holds_popNum fun keyCount rest₁ _ hrest₁ _ => ?_
  simp only [holds_rejectIf, not_not, not_lt, gt_iff_lt]
  rintro ⟨hkeys, _⟩ hops
  refine holds_requireDepth fun _ => ?_
  refine holds_popMany _ _ fun pubkeys rest₂ hpubkeys hrest₂ => ?_
  refine holds_popNum fun sigCount rest₃ _ hrest₃ _ => ?_
  simp only [not_or, not_lt]
  rintro ⟨hsigs, hle⟩
  refine holds_requireDepth fun _ => ?_
  refine holds_popMany _ _ fun sigs rest₄ hsigsLen hrest₄ => ?_
  refine holds_pop fun dummy rest₅ _ hrest₅ _ => ?_
  intro _
  refine ⟨?_, hops, ?_⟩
  · exact List.Subset.trans hrest₅ (List.Subset.trans hrest₄ (List.Subset.trans hrest₃
      (List.Subset.trans hrest₂ hrest₁)))
  · simp only [hpubkeys, hsigsLen]
    omega

end Multisig

/-! ### One instruction -/

/-- A computation whose result is not looked at. -/
lemma holds_true {ε α : Type} (x : Outcome ε α) : Holds True x fun _ => True :=
  holds_true_iff.mpr fun _ _ => trivial

/-- The limits that every operation keeps by itself. -/
structure ElementLimits (ctx : EvalContext) (s : EvalState) : Prop where
  stack : Bounded s.stack
  altstack : Bounded s.altstack
  opCount : ctx.legacyLimits = true → s.opCount ≤ maxOpsPerScript

/-- The resource limits of an evaluation. -/
structure WithinLimits (ctx : EvalContext) (s : EvalState) : Prop extends ElementLimits ctx s where
  size : s.stack.length + s.altstack.length ≤ maxStackSize

section Step

variable [Sha2] [LegacyHash] (ctx : EvalContext)

omit [Sha2] [LegacyHash] in
lemma holds_pushVerdict {P : Prop} (verify success : Bool) (e : ScriptError) (stack : Stack) :
    Holds P (pushVerdict verify success e stack) fun s => Bounded stack → Bounded s := by
  simp only [pushVerdict, holds_ite, holds_bind, holds_rejectIf, holds_pure]
  refine ⟨fun _ _ => id, fun _ h => ?_⟩
  exact bounded_append.mpr ⟨h, bounded_singleton.mpr (length_boolElement_le success)⟩

omit [Sha2] [LegacyHash] in
lemma holds_evalCheckmultisig (lastCodeseparator : Nat) (stack : Stack) (opCount : Nat) :
    Holds True (evalCheckmultisig ctx lastCodeseparator stack opCount)
      fun r => r.2.1 ⊆ stack ∧ r.2.2 ≤ maxOpsPerScript := by
  simp only [evalCheckmultisig, holds_bind]
  refine (holds_multisigArgs ctx stack opCount).mono fun args hargs => ?_
  refine (holds_true _).mono fun _ _ => ?_
  simp only [holds_rejectIf, holds_pure]
  exact fun _ => ⟨hargs.stack, hargs.opCount⟩

lemma holds_execOp_limits (executing : Bool) (i : Instruction) {s : EvalState}
    (h : ElementLimits ctx s) (op : Op) :
    Holds True (execOp ctx executing i s op) (ElementLimits ctx) := by
  cases op with
  | stack op =>
    simp only [execOp, holds_bind]
    refine (holds_execStackOp _ s.stack op).mono fun stack hstack => ?_
    exact ⟨hstack h.stack, h.altstack, h.opCount⟩
  | nop => exact h
  | checkLockTimeVerify =>
    simp only [execOp, holds_bind]
    exact (holds_true _).mono fun _ _ => h
  | checkSequenceVerify =>
    simp only [execOp, holds_bind]
    exact (holds_true _).mono fun _ _ => h
  | upgradableNop =>
    simp only [execOp, holds_bind, holds_rejectIf]
    exact fun _ => h
  | ifOp negated =>
    simp only [execOp]
    split_ifs
    · simp only [popCondition, holds_bind]
      refine holds_pop fun top rest _ hrest _ => ?_
      have hnext : ∀ b, ElementLimits ctx
          { s with stack := rest, conditionStack := s.conditionStack ++ [b] } :=
        fun _ => ⟨h.stack.of_subset hrest, h.altstack, h.opCount⟩
      simp only [holds_ite, holds_bind, holds_rejectIf, holds_pure]
      exact ⟨fun _ _ => hnext _, fun _ _ => hnext _⟩
    · exact ⟨h.stack, h.altstack, h.opCount⟩
  | elseOp =>
    simp only [execOp, holds_bind, holds_okOr]
    exact fun _ _ => ⟨h.stack, h.altstack, h.opCount⟩
  | endif =>
    simp only [execOp, holds_bind, holds_okOr]
    exact fun _ _ => ⟨h.stack, h.altstack, h.opCount⟩
  | returnOp => trivial
  | toAltStack =>
    simp only [execOp, holds_bind]
    refine holds_pop fun top rest htop hrest _ => ?_
    refine ⟨h.stack.of_subset hrest, ?_, h.opCount⟩
    exact bounded_append.mpr ⟨h.altstack, bounded_singleton.mpr (h.stack top htop)⟩
  | fromAltStack =>
    simp only [execOp, holds_bind, holds_okOr]
    intro top htop
    have hmem := List.mem_of_mem_getLast? htop
    refine ⟨?_, h.altstack.of_subset (List.dropLast_subset _), h.opCount⟩
    exact bounded_append.mpr ⟨h.stack, bounded_singleton.mpr (h.altstack top hmem)⟩
  | codeSeparator => exact ⟨h.stack, h.altstack, h.opCount⟩
  | checkSig verify =>
    simp only [execOp, holds_bind]
    refine holds_requireDepth fun _ => ?_
    refine holds_pop fun pubkey rest _ hrest _ => ?_
    refine holds_pop fun sig rest' _ hrest' _ => ?_
    refine (holds_true _).mono fun _ _ => ?_
    refine (holds_pushVerdict _ _ _ rest').mono fun stack hstack => ?_
    have hsub := List.Subset.trans hrest' hrest
    exact ⟨hstack (h.stack.of_subset hsub), h.altstack, h.opCount⟩
  | checkSigAdd =>
    simp only [execOp, holds_bind, holds_rejectIf]
    intro _
    refine holds_requireDepth fun _ => ?_
    refine holds_pop fun pubkey rest _ hrest _ => ?_
    refine holds_popNum fun num rest' _ hrest' _ => ?_
    refine holds_pop fun sig rest'' _ hrest'' _ => ?_
    refine (holds_true _).mono fun _ _ => ?_
    refine (holds_true _).mono fun sum _ => ?_
    have hsub := List.Subset.trans hrest'' (List.Subset.trans hrest' hrest)
    have hlen := (length_scriptNumEncode_le sum).trans (by decide : 9 ≤ 520)
    refine ⟨?_, h.altstack, h.opCount⟩
    exact bounded_append.mpr ⟨h.stack.of_subset hsub, bounded_singleton.mpr hlen⟩
  | checkMultisig verify =>
    simp only [execOp, holds_bind, holds_rejectIf]
    intro _
    refine (holds_evalCheckmultisig ctx _ s.stack s.opCount).mono fun r hr => ?_
    refine (holds_pushVerdict _ _ _ r.2.1).mono fun stack hstack => ?_
    exact ⟨hstack (h.stack.of_subset hr.1), h.altstack, fun _ => hr.2⟩
  | bad => trivial

omit [Sha2] [LegacyHash] in
lemma holds_checkStackSize {P : Prop} {s : EvalState} (h : ElementLimits ctx s) :
    Holds P (checkStackSize s) (WithinLimits ctx) := by
  simp only [checkStackSize, holds_bind, holds_rejectIf, holds_pure, not_lt, gt_iff_lt]
  exact fun hsize => ⟨h, hsize⟩

omit [Sha2] [LegacyHash] in
lemma holds_countOp {P : Prop} (opcode : UInt8) {opCount : Nat}
    (h : ctx.legacyLimits = true → opCount ≤ maxOpsPerScript) :
    Holds P (countOp ctx opcode opCount)
      fun n => ctx.legacyLimits = true → n ≤ maxOpsPerScript := by
  simp only [countOp, holds_ite, holds_bind, holds_rejectIf, holds_pure]
  exact ⟨fun _ hle _ => by omega, fun _ => h⟩

lemma holds_execInstruction_limits {i : Instruction} (hdata : i.data.length ≤ 520) {s : EvalState}
    (h : WithinLimits ctx s) : Holds True (execInstruction ctx i s) (WithinLimits ctx) := by
  simp only [execInstruction, holds_ite]
  refine ⟨fun _ => h, fun _ => ⟨fun _ => ?_, fun _ => ⟨fun _ => ?_, fun _ => ?_⟩⟩⟩
  · rw [holds_bind]
    refine (holds_true _).mono fun _ _ => holds_checkStackSize ctx ?_
    refine ⟨?_, h.altstack, h.opCount⟩
    exact bounded_append.mpr ⟨h.stack, bounded_singleton.mpr hdata⟩
  · rw [holds_bind]
    exact (holds_true _).mono fun _ _ => h
  · rw [holds_bind]
    refine (holds_execOp_limits ctx _ i h.toElementLimits _).mono fun s' hs' => ?_
    exact holds_checkStackSize ctx hs'

/-- One round of the evaluation loop keeps the limits. -/
lemma holds_step_limits {s : EvalState} (h : WithinLimits ctx s)
    (item : Outcome ScriptError Instruction) : Holds True (step ctx s item) (WithinLimits ctx) := by
  simp only [step, holds_bind]
  refine (holds_true item).mono fun i _ => ?_
  rw [holds_rejectIf]
  intro hdata
  refine (holds_countOp ctx i.opcode h.opCount).mono fun opCount hcount => ?_
  rw [holds_rejectIf]
  intro _
  refine holds_execInstruction_limits ctx (not_lt.mp hdata) ?_
  exact ⟨⟨h.stack, h.altstack, hcount⟩, h.size⟩

/-- After every instruction of an evaluation, the limits hold. -/
theorem withinLimits_of_take (stack : Stack) (execData : ScriptExecutionData)
    (hsize : stack.length ≤ 1000) (hstack : ∀ e ∈ stack, e.length ≤ 520) (n : Nat) (s : EvalState)
    (hs : ((instructions ctx.script).take n).foldlM (step ctx) (.start stack execData) = .ok s) :
    s.stack.length + s.altstack.length ≤ 1000 ∧
      (∀ e ∈ s.stack ++ s.altstack, e.length ≤ 520) ∧
      (ctx.sigVersion = .base ∨ ctx.sigVersion = .witnessV0 → s.opCount ≤ 201) := by
  have hstart : WithinLimits ctx (.start stack execData) :=
    ⟨⟨hstack, by simp [EvalState.start, Bounded], fun _ => Nat.zero_le _⟩, hsize⟩
  have hrun := holds_foldlM ((instructions ctx.script).take n)
    (fun t ht item _ => holds_step_limits ctx ht item) hstart
  have h := hrun.of_eq_ok hs
  refine ⟨h.size, bounded_append.mpr ⟨h.stack, h.altstack⟩, fun hv => h.opCount ?_⟩
  simpa [EvalContext.legacyLimits] using hv

end Step

namespace Sample

/-- The script `OP_DUP OP_TOALTSTACK OP_0 OP_0 OP_CHECKMULTISIG`, evaluated without flags. -/
def limitsContext : EvalContext :=
  ⟨[0x76, 0x6b, 0x00, 0x00, 0xae], ⟨0⟩, nullSignatureChecker, .base⟩

/-- The state after all five instructions, on a stack of two elements. -/
def limitsState : EvalState := ⟨[[], [1]], [[7]], [], 3, 0, .new⟩

theorem withinLimits_of_take_limitsContext :
    ((instructions limitsContext.script).take 5).foldlM (step limitsContext)
        (.start [[], [7]] .new) = .ok limitsState ∧
      limitsState.stack.length + limitsState.altstack.length ≤ 1000 ∧
      (∀ e ∈ limitsState.stack ++ limitsState.altstack, e.length ≤ 520) ∧
      limitsState.opCount ≤ 201 := by
  have hs : ((instructions limitsContext.script).take 5).foldlM (step limitsContext)
      (.start [[], [7]] .new) = .ok limitsState := by decide +kernel
  have h := withinLimits_of_take limitsContext [[], [7]] .new (by decide) (by decide) 5 _ hs
  exact ⟨hs, h.1, h.2.1, h.2.2 (.inl rfl)⟩

end Sample

end Bitcrab
