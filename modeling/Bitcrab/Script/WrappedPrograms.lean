import Bitcrab.Script.ScriptHashes

/-!
# Witness programs behind a script hash

A program of version 1 or later behind a pay-to-script-hash output is spent by whoever shows it: no
version is given a meaning there, so that `verify_witness_program` comes to its last branch.
-/

namespace Bitcrab

open Outcome

/-! ### Running straight-line scripts -/

section Straight

variable [Sha2] [LegacyHash] {ctx : EvalContext} {s : EvalState} {i : Instruction}

/-- An instruction of a straight-line script, when none of the limits is reached. -/
lemma step_of_straightStep {stack : Stack} {n : Nat} (hcond : s.conditionStack = [])
    (hop : IsStraight i.opcode) (hdata : i.data.length ≤ maxScriptElementSize)
    (hdisabled : Opcode.isDisabled i.opcode = false)
    (hcount : countOp ctx i.opcode s.opCount = .ok n) (hminimal : ctx.requireMinimal = false)
    (hstack : straightStep false s.stack i = .ok stack)
    (hsize : stack.length + s.altstack.length ≤ maxStackSize) :
    step ctx s (.ok i) = .ok { s with stack, opCount := n } := by
  have hcheck : ∀ t : EvalState, t.stack.length + t.altstack.length ≤ maxStackSize →
      checkStackSize t = .ok t := by
    intro t ht
    rw [checkStackSize, rejectIf, if_neg (by omega), Result.ok_bind]
    rfl
  rw [step, Result.ok_bind, rejectIf, if_neg (by omega), Result.ok_bind, hcount, Result.ok_bind,
    rejectIf, if_neg (by simp [hdisabled]), Result.ok_bind, execInstruction]
  dsimp only
  rw [hcond, List.all_nil, if_neg (by simp)]
  rw [straightStep] at hstack
  by_cases hpush : i.opcode ≤ Opcode.opPushdata4
  · rw [if_pos hpush] at hstack ⊢
    cases hstack
    rw [hminimal, rejectUnless, if_neg (by simp), Result.pure_eq_ok, Result.ok_bind, rejectIf,
      if_neg (by simp), Result.ok_bind, hcheck _ hsize]
  · rw [if_neg hpush] at hstack ⊢
    obtain ⟨op, htoOp⟩ | hbad := hop.resolve_left hpush
    · rw [htoOp] at hstack ⊢
      dsimp only at hstack
      rw [if_neg (by simp [isInactive]), execOp, hminimal]
      dsimp only
      rw [hstack, Result.ok_bind, Result.pure_eq_ok, Result.ok_bind, hcheck _ hsize]
    · rw [hbad] at hstack
      cases hstack

/-- A run of straight-line instructions in which the stack stays within its limit. -/
inductive StraightRun : Stack → List Instruction → Stack → Prop
  | nil {stack : Stack} : StraightRun stack [] stack
  | cons {stack next stack' : Stack} {i : Instruction} {is : List Instruction} :
      IsStraight i.opcode → i.data.length ≤ maxScriptElementSize →
      Opcode.isDisabled i.opcode = false → straightStep false stack i = .ok next →
      next.length ≤ maxStackSize → StraightRun next is stack' → StraightRun stack (i :: is) stack'

omit [Sha2] [LegacyHash] in
/-- Counting an opcode adds at most one, and does not fail below the limit. -/
lemma exists_countOp {opcode : UInt8} {count : Nat} (h : count < maxOpsPerScript) :
    ∃ n ≤ count + 1, countOp ctx opcode count = .ok n := by
  rw [countOp]
  split_ifs
  · exact ⟨count + 1, le_rfl, by rw [rejectIf, if_neg (by omega), Result.ok_bind]; rfl⟩
  · exact ⟨count, Nat.le_succ count, rfl⟩

lemma foldlM_step_of_straightRun {is : List Instruction} {stack stack' : Stack}
    (h : StraightRun stack is stack') (hminimal : ctx.requireMinimal = false)
    {execData : ScriptExecutionData} {count : Nat} (hcount : count + is.length ≤ maxOpsPerScript) :
    ∃ n, (is.map .ok).foldlM (step ctx) ⟨stack, [], [], count, 0, execData⟩ =
      .ok ⟨stack', [], [], n, 0, execData⟩ := by
  induction h generalizing count with
  | nil => exact ⟨count, rfl⟩
  | @cons stack next stack' i is hop hdata hdisabled hstep hsize _ ih =>
    rw [List.length_cons] at hcount
    obtain ⟨n, hn, hcounted⟩ : ∃ n ≤ count + 1, countOp ctx i.opcode count = .ok n :=
      exists_countOp (by omega)
    obtain ⟨m, hrest⟩ := @ih n (by omega)
    rw [List.map_cons, List.foldlM_cons, step_of_straightStep rfl hop hdata hdisabled hcounted
      hminimal hstep (by simpa using hsize), Result.ok_bind]
    exact ⟨m, hrest⟩

/-- Evaluating a script of straight-line instructions. -/
lemma evalScript_of_straightRun {flags : VerifyFlags} {checker : SignatureChecker}
    {script : List UInt8} {is : List Instruction} {stack stack' : Stack}
    (hread : instructions script = is.map .ok) (hlen : script.length ≤ maxScriptSize)
    (hminimal : flags.contains .minimaldata = false) (hcount : is.length ≤ maxOpsPerScript)
    (h : StraightRun stack is stack') : evalScript flags checker stack script = .ok stack' := by
  have hctx : EvalContext.requireMinimal ⟨script, flags, checker, .base⟩ = false := hminimal
  obtain ⟨n, hrun⟩ : ∃ n, (is.map .ok).foldlM (step ⟨script, flags, checker, .base⟩)
      ⟨stack, [], [], 0, 0, .new⟩ = .ok ⟨stack', [], [], n, 0, .new⟩ :=
    foldlM_step_of_straightRun h hctx (by omega)
  rw [evalScript, evalScriptWithData]
  dsimp only
  rw [rejectIf, if_neg (by omega), Result.ok_bind, hread, EvalState.start, hrun, Result.ok_bind,
    rejectIf, if_neg (by simp), Result.ok_bind]
  rfl

end Straight

/-! ### The scripts of a wrapped program -/

lemma isDisabled_of_isPush {opcode : UInt8} (h : Opcode.isPush opcode = true) :
    Opcode.isDisabled opcode = false := by
  by_contra hdisabled
  simp only [Opcode.isDisabled, Bool.not_eq_false, decide_eq_true_eq, List.mem_cons,
    List.not_mem_nil, or_false] at hdisabled
  rcases hdisabled with rfl | rfl | rfl | rfl | rfl | rfl | rfl | rfl | rfl | rfl | rfl | rfl |
    rfl | rfl | rfl
  all_goals exact absurd h (by decide)

lemma Encodes.le_of_ne_nil {chunk data : List UInt8} {opcode : UInt8}
    (h : Encodes chunk opcode data) (hdata : data ≠ []) : opcode ≤ Opcode.opPushdata4 := by
  cases h with
  | op => exact absurd rfl hdata
  | push _ _ hle => exact hle

lemma bounds_of_parseWitnessProgram {script : List UInt8} {program : WitnessProgram}
    (h : parseWitnessProgram script = some program) : script ≠ [] ∧ script.length ≤ 42 := by
  unfold parseWitnessProgram at h
  split_ifs at h with hlength
  exact ⟨List.ne_nil_of_length_pos (by omega), by omega⟩

/-- A program of version 1 or later is a number and a push. -/
lemma exists_of_parseWitnessProgram {script : List UInt8} {program : WitnessProgram}
    (h : parseWitnessProgram script = some program) (hversion : program.version ≠ 0) :
    ∃ opcode, 0x51 ≤ opcode ∧ opcode ≤ 0x60 ∧ script = opcode :: pushData program.program ∧
      2 ≤ program.program.length ∧ program.program.length ≤ 40 := by
  unfold parseWitnessProgram at h
  split_ifs at h with hlength
  obtain _ | ⟨opcode, _ | ⟨len, data⟩⟩ := script
  · cases h
  · cases h
  dsimp only at h
  split_ifs at h with hrange hlen hzero
  · cases h
    exact absurd rfl hversion
  · cases h
    simp only [List.length_cons] at hlength hlen
    rw [not_and_or, not_not, not_not] at hrange
    obtain ⟨hlo, hhi⟩ := hrange.resolve_left hzero
    dsimp only
    refine ⟨opcode, hlo, hhi, ?_, by omega, by omega⟩
    have hbyte : UInt8.ofNat data.length = len := by
      rw [show data.length = len.toNat by omega, UInt8.ofNat_toNat]
    rw [pushData]
    rw [if_pos (by omega), hbyte]
    rfl

section Read

variable {data script : List UInt8} {program : WitnessProgram}

/-- A push is read as one instruction. -/
lemma exists_instructions_pushData (hlen : data.length < 2 ^ 32) (hdata : data ≠ []) :
    ∃ i : Instruction, instructions (pushData data) = [i].map .ok ∧
      i.opcode ≤ Opcode.opPushdata4 ∧ i.data = data := by
  obtain ⟨opcode, hpush⟩ := encodes_pushData hlen
  obtain ⟨is, his, hread⟩ := exists_instructions_of_chunks [pushData data]
    (by simpa using ⟨_, _, hpush⟩)
  obtain _ | ⟨h₁, _ | _⟩ := his
  rename_i i
  obtain ⟨hop, hi⟩ := h₁.unique hpush
  exact ⟨i, by simpa using hread, hop ▸ hpush.le_of_ne_nil hdata, hi⟩

/-- A witness program is read as two instructions. -/
lemma exists_instructions_program (h : parseWitnessProgram script = some program)
    (hversion : program.version ≠ 0) :
    ∃ number push : Instruction, instructions script = [number, push].map .ok ∧
      0x51 ≤ number.opcode ∧ number.opcode ≤ 0x60 ∧ number.data = [] ∧
      push.opcode ≤ Opcode.opPushdata4 ∧ push.data = program.program := by
  obtain ⟨opcode, hlo, hhi, rfl, htwo, hforty⟩ := exists_of_parseWitnessProgram h hversion
  have hnumber : Encodes [opcode] opcode [] :=
    .op (UInt8.lt_of_lt_of_le (by decide : Opcode.opPushdata4 < 0x51) hlo)
  obtain ⟨opcode', hpush⟩ := encodes_pushData (show program.program.length < 2 ^ 32 by omega)
  obtain ⟨is, his, hread⟩ := exists_instructions_of_chunks [[opcode], pushData program.program]
    (by simpa using ⟨⟨_, _, hnumber⟩, _, _, hpush⟩)
  obtain _ | ⟨h₁, _ | ⟨h₂, _ | _⟩⟩ := his
  rename_i i₁ i₂
  obtain ⟨hop₁, hdata₁⟩ := h₁.unique hnumber
  obtain ⟨hop₂, hdata₂⟩ := h₂.unique hpush
  have hne : program.program ≠ [] := List.ne_nil_of_length_pos (by omega)
  exact ⟨i₁, i₂, by simpa using hread, hop₁ ▸ hlo, hop₁ ▸ hhi, hdata₁,
    hop₂ ▸ hpush.le_of_ne_nil hne, hdata₂⟩

/-- What a witness program pushes. -/
lemma elementsPushed_program (h : parseWitnessProgram script = some program)
    (hversion : program.version ≠ 0) :
    isPushOnly script = .ok true ∧
      ∃ number, elementsPushed script = [number, program.program] := by
  obtain ⟨number, push, hread, _, hhi, _, hop, hdata⟩ := exists_instructions_program h hversion
  have hnumber : Opcode.isPush number.opcode = true := decide_eq_true hhi
  have hpush : Opcode.isPush push.opcode = true :=
    decide_eq_true (UInt8.le_trans hop (by decide : Opcode.opPushdata4 ≤ 0x60))
  constructor
  · rw [isPushOnly, hread, List.map_cons, allPushes, if_pos hnumber, List.map_singleton, allPushes,
      if_pos hpush]
    rfl
  · refine ⟨pushedElement number, ?_⟩
    rw [elementsPushed, hread, ← hdata]
    simp [Except.toOption, pushedElement, hop]

end Read

section Eval

variable [Sha2] [LegacyHash] {flags : VerifyFlags} {checker : SignatureChecker}
  {data script : List UInt8} {program : WitnessProgram}

lemma StraightRun.push {i : Instruction} {is : List Instruction} {stack stack' : Stack}
    (hop : i.opcode ≤ Opcode.opPushdata4) (hdata : i.data.length ≤ maxScriptElementSize)
    (hsize : stack.length < maxStackSize) (h : StraightRun (stack ++ [i.data]) is stack') :
    StraightRun stack (i :: is) stack' := by
  have hpush : Opcode.isPush i.opcode = true :=
    decide_eq_true (UInt8.le_trans hop (by decide : Opcode.opPushdata4 ≤ 0x60))
  exact .cons (.inl hop) hdata (isDisabled_of_isPush hpush) (if_pos hop)
    (by rwa [List.length_append, List.length_singleton, Nat.succ_le_iff]) h

/-- A scriptSig that is one push. -/
lemma evalScript_pushData (hminimal : flags.contains .minimaldata = false) (hdata : data ≠ [])
    (hlen : data.length ≤ maxScriptElementSize) :
    evalScript flags checker [] (pushData data) = .ok [data] := by
  have hlen' : data.length ≤ 520 := hlen
  obtain ⟨i, hread, hop, hi⟩ := exists_instructions_pushData (by omega) hdata
  have hsize : (pushData data).length ≤ maxScriptSize := by
    simp only [pushData, maxScriptSize]
    split_ifs
    all_goals simp
    all_goals omega
  refine evalScript_of_straightRun hread hsize hminimal (by simp [maxOpsPerScript]) ?_
  exact .push hop (by rwa [hi]) (by decide) (hi ▸ .nil)

/-- A witness program is run as a script, too. -/
lemma evalScript_program (checker : SignatureChecker)
    (hminimal : flags.contains .minimaldata = false)
    (h : parseWitnessProgram script = some program) (hversion : program.version ≠ 0) :
    ∃ number, evalScript flags checker [] script = .ok [number, program.program] := by
  obtain ⟨opcode, _, _, hscript, _, hforty⟩ := exists_of_parseWitnessProgram h hversion
  obtain ⟨number, push, hread, hlo, hhi, hnone, hop, hdata⟩ :=
    exists_instructions_program h hversion
  have htoOp : Opcode.toOp number.opcode = .stack (.pushN (number.opcode.toNat - 0x50)) := by
    rw [Opcode.toOp, if_pos ⟨hlo, hhi⟩]
  have hbig : ¬ number.opcode ≤ Opcode.opPushdata4 := by
    rw [UInt8.not_le]
    exact UInt8.lt_of_lt_of_le (by decide : Opcode.opPushdata4 < 0x51) hlo
  have hsize : script.length ≤ maxScriptSize := by
    rw [hscript, pushData, List.length_cons]
    simp only [maxScriptSize]
    split_ifs
    all_goals simp
    all_goals omega
  refine ⟨scriptNumEncode (number.opcode.toNat - 0x50),
    evalScript_of_straightRun hread hsize hminimal (by simp [maxOpsPerScript]) ?_⟩
  refine .cons (.of_stackOp rfl htoOp) (by rw [hnone]; decide)
    (isDisabled_of_isPush (decide_eq_true hhi)) (straightStep_of_stackOp rfl hbig htoOp) ?_ ?_
  · simp [maxStackSize]
  · have hle : push.data.length ≤ maxScriptElementSize := by
      rw [hdata]
      exact hforty.trans (by decide)
    exact .push hop hle (by simp [maxStackSize]) (hdata ▸ .nil)

/-- The comparison of a script hash with its preimage. -/
lemma evalScript_payToScriptHash (hminimal : flags.contains .minimaldata = false) :
    evalScript flags checker [data] ([0xa9, 0x14] ++ (hash160 data).toList ++ [0x87]) =
      .ok [[1]] := by
  have hlen : (hash160 data).toList.length = 20 := List.Vector.toList_length _
  generalize hhash : (hash160 data).toList = hash at hlen
  have hfirst : Encodes [0xa9] 0xa9 [] := .op (by decide)
  have hpush : Encodes (0x14 :: ([] ++ hash)) 0x14 hash := .push [] hash (by decide) rfl hlen
  have hlast : Encodes [0x87] 0x87 [] := .op (by decide)
  obtain ⟨is, his, hread⟩ := exists_instructions_of_chunks [[0xa9], 0x14 :: ([] ++ hash), [0x87]]
    (by simpa using ⟨⟨_, _, hfirst⟩, ⟨_, _, hpush⟩, _, _, hlast⟩)
  obtain _ | ⟨h₁, _ | ⟨h₂, _ | ⟨h₃, _ | _⟩⟩⟩ := his
  rename_i i₁ i₂ i₃
  obtain ⟨hop₁, hdata₁⟩ := h₁.unique hfirst
  obtain ⟨hop₂, hdata₂⟩ := h₂.unique hpush
  obtain ⟨hop₃, hdata₃⟩ := h₃.unique hlast
  have hread' : instructions ([0xa9, 0x14] ++ hash ++ [0x87]) = [i₁, i₂, i₃].map .ok := by
    simpa using hread
  have hstep₁ : straightStep false [data] i₁ = .ok [hash] := by
    rw [straightStep_of_stackOp hop₁ (by decide) rfl, ← hhash]
    rfl
  have hstep₃ : straightStep false [hash, hash] i₃ = .ok [[1]] := by
    rw [straightStep_of_stackOp hop₃ (by decide) rfl]
    simp [execStackOp, requireDepth, rejectIf, pop, okOr, boolElement]
  refine evalScript_of_straightRun hread' (by simp [hlen, maxScriptSize]) hminimal
    (by simp [maxOpsPerScript]) ?_
  refine .cons (.of_stackOp hop₁ rfl) (by rw [hdata₁]; decide) (by rw [hop₁]; decide) hstep₁
    (by simp [maxStackSize]) ?_
  refine .push (by rw [hop₂]; decide) (by rw [hdata₂, hlen]; decide) (by simp [maxStackSize]) ?_
  rw [hdata₂]
  exact .cons (.of_stackOp hop₃ rfl) (by rw [hdata₃]; decide) (by rw [hop₃]; decide) hstep₃
    (by simp [maxStackSize]) .nil

end Eval

/-! ### Success through the last branch -/

section Upgrade

variable [Sha2] [LegacyHash] [Secp256k1] {flags : VerifyFlags} {checker : SignatureChecker}
  {scriptSig scriptPubkey redeem : List UInt8} {witness : List (List UInt8)}
  {program : WitnessProgram} {isP2sh : Bool}

/-- The programs for which `verify_witness_program` comes to its last branch: unknown versions, and
version 1 where it has no meaning. -/
def IsUpgrade (flags : VerifyFlags) (program : WitnessProgram) (isP2sh : Bool) : Prop :=
  program.version ≠ 0 ∧ ¬ (program.version = 1 ∧ program.program.length = 32 ∧ !isP2sh ∧
    flags.contains .taproot)

/-- The last branch only looks at a flag. -/
lemma verifyWitnessProgram_of_isUpgrade (h : IsUpgrade flags program isP2sh) :
    verifyWitnessProgram flags checker witness program.version program.program isP2sh =
      rejectIf (flags.contains .discourageUpgradableWitnessProgram)
        .discourageUpgradableWitnessProgram := by
  rw [verifyWitnessProgram, if_neg h.1, if_neg h.2]

/-- The arguments of `verify_witness_program` in a run of `verify_script`: the program in the
output, or the one in the script on top of what the scriptSig leaves. -/
inductive Verified (flags : VerifyFlags) (checker : SignatureChecker)
    (scriptSig scriptPubkey : List UInt8) : WitnessProgram → Bool → Prop
  | native {program : WitnessProgram} : parseWitnessProgram scriptPubkey = some program →
      Verified flags checker scriptSig scriptPubkey program false
  | wrapped {program : WitnessProgram} {afterSig : Stack} {redeem : List UInt8} :
      isPayToScriptHash scriptPubkey = .ok true →
      evalScript flags checker [] scriptSig = .ok afterSig → afterSig.getLast? = some redeem →
      parseWitnessProgram redeem = some program →
      Verified flags checker scriptSig scriptPubkey program true

/-- `verify_script` succeeds through the last branch of `verify_witness_program`. -/
def SucceedsByUpgrade (flags : VerifyFlags) (checker : SignatureChecker)
    (scriptSig scriptPubkey : List UInt8) (witness : List (List UInt8)) : Prop :=
  verifyScript flags checker scriptSig scriptPubkey witness = .ok () ∧
    ∃ program isP2sh, Verified flags checker scriptSig scriptPubkey program isP2sh ∧
      IsUpgrade flags program isP2sh

/-- A script hash of a witness program of version 1 or later that is true as a script, and nothing
but the program to spend it. -/
def IsWrappedUpgrade (scriptSig scriptPubkey : List UInt8) : Prop :=
  ∃ redeem program, parseWitnessProgram redeem = some program ∧ program.version ≠ 0 ∧
    castToBool program.program = true ∧ scriptSig = pushData redeem ∧
    scriptPubkey = [0xa9, 0x14] ++ (hash160 redeem).toList ++ [0x87]

omit [Sha2] [LegacyHash] [Secp256k1] in
lemma parseWitnessProgram_payToScriptHash (rest : List UInt8) :
    parseWitnessProgram (0xa9 :: rest) = none := by
  unfold parseWitnessProgram
  split_ifs
  · rfl
  · cases rest with
    | nil => rfl
    | cons => rfl

omit [Sha2] [LegacyHash] [Secp256k1] in
lemma isPayToScriptHash_of_length {hash : List UInt8} (hlen : hash.length = 20) :
    isPayToScriptHash ([0xa9, 0x14] ++ hash ++ [0x87]) = .ok true := by
  have hlast : (index ([0xa9, 0x14] ++ hash ++ [0x87]) 22 : Outcome ScriptError UInt8) =
      .ok 0x87 := by
    rw [index, List.getElem?_append_right (by simp [hlen])]
    simp [hlen, unwrap]
  rw [isPayToScriptHash, if_pos (by simp [hlen]), hlast]
  rfl

omit [Sha2] [LegacyHash] [Secp256k1] in
lemma isPushOnly_pushData {data : List UInt8} (hlen : data.length < 2 ^ 32) (hdata : data ≠ []) :
    isPushOnly (pushData data) = .ok true := by
  obtain ⟨i, hread, hop, -⟩ := exists_instructions_pushData hlen hdata
  have hpush : Opcode.isPush i.opcode = true :=
    decide_eq_true (UInt8.le_trans hop (by decide : Opcode.opPushdata4 ≤ 0x60))
  rw [isPushOnly, hread, List.map_singleton, allPushes, if_pos hpush, allPushes]

/-- The nested part of the run. -/
lemma verifyP2sh_of_program (checker : SignatureChecker) (witness : List (List UInt8))
    (hwitness : flags.contains .witness = true)
    (hminimal : flags.contains .minimaldata = false)
    (hupgrade : flags.contains .discourageUpgradableWitnessProgram = false)
    (hparsed : parseWitnessProgram redeem = some program) (hversion : program.version ≠ 0)
    (htrue : castToBool program.program = true) :
    ∃ number,
      verifyP2sh flags checker (pushData redeem) witness [redeem] = .ok ([number], true) := by
  obtain ⟨hne, hlen⟩ := bounds_of_parseWitnessProgram hparsed
  have hpop : pop [redeem] = .ok (redeem, []) := rfl
  obtain ⟨number, heval⟩ := evalScript_program checker hminimal hparsed hversion
  have htop : topIsTrue [number, program.program] = true := htrue
  refine ⟨number, ?_⟩
  rw [verifyP2sh, isPushOnly_pushData (by omega) hne, Result.ok_bind, rejectIf,
    if_neg (by simp), Result.ok_bind, hpop, Result.ok_bind]
  dsimp only
  rw [heval, Result.ok_bind, rejectIf, if_neg (by simp [htop]), Result.ok_bind, verifyProgramOf,
    if_pos hwitness, hparsed]
  dsimp only
  rw [rejectIf, if_neg (by simp), Result.ok_bind,
    verifyWitnessProgram_of_isUpgrade ⟨hversion, by simp⟩, rejectIf, if_neg (by simp [hupgrade]),
    Result.ok_bind]
  rfl

/-- A wrapped program is spent by showing it, whatever the witness. -/
lemma verifyScript_of_isWrappedUpgrade (hp2sh : flags.contains .p2sh = true)
    (hwitness : flags.contains .witness = true) (hminimal : flags.contains .minimaldata = false)
    (hupgrade : flags.contains .discourageUpgradableWitnessProgram = false)
    (h : IsWrappedUpgrade scriptSig scriptPubkey) :
    verifyScript flags checker scriptSig scriptPubkey witness = .ok () := by
  obtain ⟨redeem, program, hparsed, hversion, htrue, rfl, rfl⟩ := h
  obtain ⟨hne, hlen⟩ := bounds_of_parseWitnessProgram hparsed
  have hpattern := isPayToScriptHash_of_length (List.Vector.toList_length (hash160 redeem))
  have hnative : parseWitnessProgram ([0xa9, 0x14] ++ (hash160 redeem).toList ++ [0x87]) = none :=
    parseWitnessProgram_payToScriptHash _
  obtain ⟨number, hnested⟩ := verifyP2sh_of_program checker witness hwitness hminimal
    hupgrade hparsed hversion htrue
  have htop : topIsTrue [[1]] = true := rfl
  rw [verifyScript, rejectIf, if_neg (by simp [hwitness]), Result.ok_bind, rejectUnless,
    isPushOnly_pushData (by omega) hne, Result.pure_eq_ok, ite_self, Result.ok_bind, rejectIf,
    if_neg (by simp), Result.ok_bind, evalScript_pushData hminimal hne (hlen.trans (by decide)),
    Result.ok_bind, evalScript_payToScriptHash hminimal, Result.ok_bind, rejectIf,
    if_neg (by simp [htop]), Result.ok_bind, verifyProgramOf, if_pos hwitness, hnative]
  dsimp only
  rw [Result.pure_eq_ok, Result.ok_bind]
  dsimp only
  rw [if_pos hp2sh, hpattern, Result.ok_bind, if_pos rfl, hnested, Result.ok_bind]
  simp [rejectIf]

/-- What a nested program is spent with: the push of the script, which is true. -/
lemma wrapped_of_verifyP2sh {afterSig : Stack} {nested : Stack × Bool}
    (h : verifyP2sh flags checker scriptSig witness afterSig = .ok nested)
    (hlast : afterSig.getLast? = some redeem) (hwitness : flags.contains .witness = true)
    (hparsed : parseWitnessProgram redeem = some program) (hversion : program.version ≠ 0) :
    scriptSig = pushData redeem ∧ castToBool program.program = true := by
  rw [verifyP2sh] at h
  simp only [Result.bind_eq_ok] at h
  obtain ⟨_, _, _, _, ⟨redeem', rest⟩, hpop, stack, heval, _, htrue, hverify⟩ := h
  rw [pop_eq_ok hpop, List.getLast?_concat, Option.some.injEq] at hlast
  subst hlast
  obtain ⟨hpush, number, hpushed⟩ := elementsPushed_program hparsed hversion
  rw [eval_of_isPushOnly hpush heval, hpushed] at htrue
  rw [verifyProgramOf, if_pos hwitness, hparsed] at hverify
  obtain ⟨_, hsig, _⟩ := Result.bind_eq_ok.mp hverify
  constructor
  · by_contra hne
    rw [rejectIf, if_pos hne] at hsig
    cases hsig
  · by_contra hfalse
    rw [rejectIf, if_pos (by simpa [topIsTrue] using hfalse)] at htrue
    cases htrue

/-- With an output that is refused when it is an upgrade itself, `verify_script` succeeds through
the last branch exactly for the wrapped programs. -/
theorem succeedsByUpgrade_iff (hp2sh : flags.contains .p2sh = true)
    (hwitness : flags.contains .witness = true) (hminimal : flags.contains .minimaldata = false)
    (hupgrade : flags.contains .discourageUpgradableWitnessProgram = false)
    (hnative : ∀ program, parseWitnessProgram scriptPubkey = some program →
      ¬ IsUpgrade flags program false) :
    SucceedsByUpgrade flags checker scriptSig scriptPubkey witness ↔
      IsWrappedUpgrade scriptSig scriptPubkey := by
  constructor
  · rintro ⟨hok, program, isP2sh, hverified, hbranch⟩
    obtain ⟨afterSig, stack, native, hsig, hpubkey, htrue, -, hnested⟩ := parts_of_verifyScript hok
    cases hverified with
    | native hparsed => exact absurd hbranch (hnative _ hparsed)
    | wrapped hpattern heval hlast hparsed =>
      obtain rfl := Except.ok.inj (hsig.symm.trans heval)
      obtain ⟨nested, hverify⟩ := hnested hp2sh hpattern
      obtain ⟨hpush, hbool⟩ := wrapped_of_verifyP2sh hverify hlast hwitness hparsed hbranch.1
      obtain ⟨hash, hlen, rfl⟩ := eq_of_isPayToScriptHash hpattern
      obtain ⟨rest, top, rfl, hhash⟩ := hash160_of_eval_payToScriptHash hlen hpubkey htrue
      rw [List.getLast?_concat, Option.some.injEq] at hlast
      subst hlast
      exact ⟨top, program, hparsed, hbranch.1, hbool, hpush, by rw [hhash]; rfl⟩
  · intro h
    refine ⟨verifyScript_of_isWrappedUpgrade hp2sh hwitness hminimal hupgrade h, ?_⟩
    obtain ⟨redeem, program, hparsed, hversion, -, rfl, rfl⟩ := h
    obtain ⟨hne, hlen⟩ := bounds_of_parseWitnessProgram hparsed
    have heval : evalScript flags checker [] (pushData redeem) = .ok [redeem] :=
      evalScript_pushData hminimal hne (hlen.trans (by decide))
    exact ⟨program, true, .wrapped (isPayToScriptHash_of_length (List.Vector.toList_length _)) heval
      rfl hparsed, hversion, by simp⟩

end Upgrade

end Bitcrab
