import Bitcrab.Script.Segments
import Bitcrab.Script.Interpreter

/-!
# Spending a script hash

Every way in which `verify_script` accepts a pay-to-script-hash output or a version 0 witness
program goes through a comparison of the program with the hash of something that the spender gave:
the last push of the scriptSig, the last witness item or the key of a two-item witness.
-/

namespace Bitcrab

open Outcome

/-! ### Straight-line scripts -/

section Straight

variable [Sha2] [LegacyHash] {ctx : EvalContext} {s t : EvalState} {i : Instruction}

/-- What a push or an operation on the main stack does to this stack. -/
def straightStep (requireMinimal : Bool) (stack : Stack) (i : Instruction) :
    Outcome ScriptError Stack :=
  if i.opcode ≤ Opcode.opPushdata4 then .ok (stack ++ [i.data])
  else
    match Opcode.toOp i.opcode with
    | .stack op => execStackOp requireMinimal stack op
    | _ => fail .badOpcode

/-- The opcodes of straight-line scripts. -/
def IsStraight (opcode : UInt8) : Prop :=
  opcode ≤ Opcode.opPushdata4 ∨ (∃ op, Opcode.toOp opcode = .stack op) ∨ Opcode.toOp opcode = .bad

omit [Sha2] [LegacyHash] in
lemma checkStackSize_eq_ok (h : checkStackSize s = .ok t) : t = s := by
  rw [checkStackSize] at h
  obtain ⟨_, _, h⟩ := Result.bind_eq_ok.mp h
  exact (Except.ok.inj h).symm

/-- An instruction of a straight-line script. -/
lemma straightStep_of_step (h : step ctx s (.ok i) = .ok t) (hcond : s.conditionStack = [])
    (hop : IsStraight i.opcode) :
    straightStep ctx.requireMinimal s.stack i = .ok t.stack ∧ t.conditionStack = [] := by
  rw [step, Result.ok_bind] at h
  simp only [Result.bind_eq_ok] at h
  obtain ⟨_, _, opCount, _, _, _, h⟩ := h
  rw [execInstruction, hcond, List.all_nil, if_neg (by simp)] at h
  rw [straightStep]
  by_cases hpush : i.opcode ≤ Opcode.opPushdata4
  · rw [if_pos hpush] at h ⊢
    obtain ⟨_, _, h⟩ := Result.bind_eq_ok.mp h
    rw [checkStackSize_eq_ok h]
    exact ⟨rfl, rfl⟩
  · rw [if_neg hpush] at h ⊢
    obtain ⟨op, htoOp⟩ | hbad := hop.resolve_left hpush
    · rw [htoOp, if_neg (by simp [isInactive])] at h
      obtain ⟨u, hu, h⟩ := Result.bind_eq_ok.mp h
      obtain ⟨stack, hstack, hu⟩ := Result.bind_eq_ok.mp hu
      rw [checkStackSize_eq_ok h, ← Except.ok.inj hu, htoOp]
      exact ⟨hstack, rfl⟩
    · rw [hbad, if_neg (by simp [isInactive])] at h
      obtain ⟨u, hu, _⟩ := Result.bind_eq_ok.mp h
      cases hu

/-- The stack that a straight-line sequence of instructions leaves. -/
lemma straight_of_foldlM {is : List Instruction} (hops : ∀ i ∈ is, IsStraight i.opcode)
    (h : (is.map .ok).foldlM (step ctx) s = .ok t) (hcond : s.conditionStack = []) :
    is.foldlM (straightStep ctx.requireMinimal) s.stack = .ok t.stack := by
  induction is generalizing s with
  | nil =>
    cases h
    rfl
  | cons i is ih =>
    rw [List.map_cons, List.foldlM_cons] at h
    obtain ⟨u, hu, h⟩ := Result.bind_eq_ok.mp h
    obtain ⟨hstack, hcond'⟩ := straightStep_of_step hu hcond (hops i List.mem_cons_self)
    rw [List.foldlM_cons, hstack, Result.ok_bind]
    exact ih (fun j hj => hops j (List.mem_cons_of_mem i hj)) h hcond'

/-- A script that evaluates can be parsed. -/
lemma instructions_of_evalScriptWithData {stack stack' : Stack} {execData : ScriptExecutionData}
    (h : evalScriptWithData ctx stack execData = .ok stack') :
    (segments ctx.script).2 = [] ∧ ∃ is, EncodesAll (segments ctx.script).1 is ∧
      instructions ctx.script = is.map .ok ∧ ∃ t,
        (is.map .ok).foldlM (step ctx) (.start stack execData) = .ok t ∧ t.stack = stack' := by
  rw [evalScriptWithData] at h
  obtain ⟨_, _, h⟩ := Result.bind_eq_ok.mp h
  obtain ⟨t, ht, h⟩ := Result.bind_eq_ok.mp h
  obtain ⟨_, _, h⟩ := Result.bind_eq_ok.mp h
  obtain ⟨is, his, ⟨hwhole, hread⟩ | ⟨_, e, hread⟩⟩ := exists_instructions ctx.script
  · exact ⟨hwhole, is, his, hread, t, hread ▸ ht, Except.ok.inj h⟩
  · rw [hread, List.foldlM_append] at ht
    obtain ⟨u, _, ht⟩ := Result.bind_eq_ok.mp ht
    cases ht

/-- What evaluating a straight-line script amounts to, for the bytes of its instructions. -/
lemma straight_of_evalScriptWithData {stack stack' : Stack} {execData : ScriptExecutionData}
    (h : evalScriptWithData ctx stack execData = .ok stack') {is : List Instruction}
    (hread : instructions ctx.script = is.map .ok) (hops : ∀ i ∈ is, IsStraight i.opcode) :
    is.foldlM (straightStep ctx.requireMinimal) stack = .ok stack' := by
  obtain ⟨_, is', _, hread', t, ht, rfl⟩ := instructions_of_evalScriptWithData h
  have hsame : is = is' :=
    List.map_injective_iff.mpr (fun _ _ => Except.ok.inj) (hread.symm.trans hread')
  subst hsame
  exact straight_of_foldlM hops ht rfl

end Straight

/-! ### Push-only scripts -/

/-- The element that a push operation pushes. -/
def pushedElement (i : Instruction) : List UInt8 :=
  if i.opcode ≤ Opcode.opPushdata4 then i.data
  else
    match Opcode.toOp i.opcode with
    | .stack (.pushN value) => scriptNumEncode value
    | _ => []

/-- The elements that a script of push operations pushes, in order. -/
def elementsPushed (script : List UInt8) : List (List UInt8) :=
  (instructions script).filterMap fun item => item.toOption.map pushedElement

/-- The last element that a script of push operations pushes. -/
def lastPushed (script : List UInt8) : Option (List UInt8) := (elementsPushed script).getLast?

lemma isPush_of_allPushes {is : List Instruction} (h : allPushes (is.map .ok) = .ok true) :
    ∀ i ∈ is, Opcode.isPush i.opcode = true := by
  induction is with
  | nil => exact fun _ h => nomatch h
  | cons i is ih =>
    rw [List.map_cons, allPushes] at h
    split_ifs at h with hpush
    · exact List.forall_mem_cons.mpr ⟨hpush, ih h⟩
    · cases h

/-- The opcodes up to `OP_16` are straight: pushes, numbers and the reserved one. -/
lemma isPush_cases {opcode : UInt8} (h : Opcode.isPush opcode = true) :
    opcode ≤ Opcode.opPushdata4 ∨ (∃ value, Opcode.toOp opcode = .stack (.pushN value)) ∨
      Opcode.toOp opcode = .bad := by
  by_cases hpush : opcode ≤ Opcode.opPushdata4
  · exact .inl hpush
  by_cases hsmall : 0x51 ≤ opcode
  · refine .inr (.inl ⟨opcode.toNat - 0x50, ?_⟩)
    have hle : opcode ≤ 0x60 := by simpa [Opcode.isPush] using h
    rw [Opcode.toOp, if_pos ⟨hsmall, hle⟩]
  · have hrange : opcode = 0x4f ∨ opcode = 0x50 := by
      simp only [Opcode.opPushdata4, UInt8.le_iff_toNat_le, ← UInt8.toNat_inj] at hpush hsmall ⊢
      simp only [UInt8.reduceToNat] at hpush hsmall ⊢
      omega
    rcases hrange with rfl | rfl
    · exact .inr (.inl ⟨-1, rfl⟩)
    · exact .inr (.inr rfl)

section Push

variable [Sha2] [LegacyHash] {flags : VerifyFlags} {checker : SignatureChecker}

lemma straightStep_of_isPush {requireMinimal : Bool} {stack stack' : Stack} {i : Instruction}
    (hpush : Opcode.isPush i.opcode = true)
    (h : straightStep requireMinimal stack i = .ok stack') :
    stack' = stack ++ [pushedElement i] := by
  rw [straightStep] at h
  rw [pushedElement]
  by_cases hop : i.opcode ≤ Opcode.opPushdata4
  · rw [if_pos hop] at h ⊢
    exact (Except.ok.inj h).symm
  · rw [if_neg hop] at h ⊢
    obtain ⟨value, htoOp⟩ | hbad := (isPush_cases hpush).resolve_left hop
    · rw [htoOp] at h ⊢
      exact (Except.ok.inj h).symm
    · rw [hbad] at h
      cases h

lemma foldlM_straightStep_of_isPush {requireMinimal : Bool} {stack stack' : Stack}
    {is : List Instruction} (hpush : ∀ i ∈ is, Opcode.isPush i.opcode = true)
    (h : is.foldlM (straightStep requireMinimal) stack = .ok stack') :
    stack' = stack ++ is.map pushedElement := by
  induction is generalizing stack with
  | nil =>
    cases h
    simp
  | cons i is ih =>
    rw [List.foldlM_cons] at h
    obtain ⟨next, hnext, h⟩ := Result.bind_eq_ok.mp h
    rw [ih (fun j hj => hpush j (List.mem_cons_of_mem i hj)) h,
      straightStep_of_isPush (hpush i List.mem_cons_self) hnext]
    simp

/-- A push-only script leaves what it pushes. -/
lemma eval_of_isPushOnly {script : List UInt8} {stack stack' : Stack}
    (hpush : isPushOnly script = .ok true)
    (h : evalScript flags checker stack script = .ok stack') :
    stack' = stack ++ elementsPushed script := by
  obtain ⟨_, is, _, hread, _⟩ := instructions_of_evalScriptWithData h
  dsimp only at hread
  rw [isPushOnly, hread] at hpush
  have hops := isPush_of_allPushes hpush
  have hrun := straight_of_evalScriptWithData h hread fun i hi => ?_
  · rw [foldlM_straightStep_of_isPush hops hrun, elementsPushed, hread, List.filterMap_map]
    have hcomp : (fun item : Outcome ScriptError Instruction => item.toOption.map pushedElement) ∘
        Except.ok = some ∘ pushedElement := rfl
    rw [hcomp, List.filterMap_eq_map]
  · exact (isPush_cases (hops i hi)).imp_right (Or.imp_left fun ⟨value, h⟩ => ⟨_, h⟩)

end Push

/-! ### The comparisons -/

lemma pop_eq_ok {stack rest : Stack} {top : List UInt8} (h : pop stack = .ok (top, rest)) :
    stack = rest ++ [top] := by
  rw [pop] at h
  obtain ⟨top', htop, h⟩ := Result.bind_eq_ok.mp h
  cases hlast : stack.getLast? with
  | none =>
    rw [hlast] at htop
    cases htop
  | some last =>
    rw [hlast] at htop
    cases htop
    cases h
    obtain ⟨init, rfl⟩ := List.getLast?_eq_some_iff.mp hlast
    simp

/-- The pay-to-script-hash pattern, and the program in it. -/
lemma eq_of_isPayToScriptHash {script : List UInt8} (h : isPayToScriptHash script = .ok true) :
    ∃ program, program.length = 20 ∧ script = 0xa9 :: 0x14 :: (program ++ [0x87]) := by
  rw [isPayToScriptHash] at h
  by_cases hlen : script.length = 23
  · obtain ⟨first, second, rest, rfl⟩ : ∃ a b rest, script = a :: b :: rest := by
      match script, hlen with
      | a :: b :: rest, _ => exact ⟨a, b, rest, rfl⟩
    obtain rfl | ⟨program, last, rfl⟩ := List.eq_nil_or_concat rest
    · simp at hlen
    have hprogram : program.length = 20 := by simpa using hlen
    have hlast : (index (first :: second :: program.concat last) 22 : Outcome ScriptError UInt8) =
        .ok last := by
      rw [List.concat_eq_append, index, List.getElem?_cons_succ, List.getElem?_cons_succ,
        List.getElem?_append_right hprogram.le, hprogram]
      rfl
    rw [if_pos hlen, hlast] at h
    simp only [index, unwrap, List.getElem?_cons_zero, List.getElem?_cons_succ, Result.ok_bind,
      Result.pure_eq_ok, Except.ok.injEq, Bool.and_eq_true, decide_eq_true_eq] at h
    obtain ⟨⟨rfl, rfl⟩, rfl⟩ := h
    exact ⟨program, hprogram, by rw [List.concat_eq_append]⟩
  · rw [if_neg hlen] at h
    cases h

section Comparisons

variable [Sha2] [LegacyHash] {flags : VerifyFlags} {checker : SignatureChecker}

omit [Sha2] [LegacyHash] in
/-- The instructions of a template: single opcodes and one push of 20 bytes. -/
lemma exists_instructions_of_chunks (chunks : List (List UInt8))
    (hchunks : ∀ chunk ∈ chunks, ∃ opcode data, Encodes chunk opcode data) :
    ∃ is, EncodesAll chunks is ∧ instructions chunks.flatten = is.map .ok := by
  have hsegments := segments_of_chunks hchunks stuck_nil
  rw [List.append_nil] at hsegments
  obtain ⟨is, his, ⟨_, hread⟩ | ⟨hne, _⟩⟩ := exists_instructions chunks.flatten
  · rw [hsegments] at his
    exact ⟨is, his, hread⟩
  · rw [hsegments] at hne
    exact absurd rfl hne

lemma straightStep_of_push {requireMinimal : Bool} {stack : Stack} {i : Instruction}
    {opcode : UInt8} (hopcode : i.opcode = opcode) (hpush : opcode ≤ Opcode.opPushdata4) :
    straightStep requireMinimal stack i = .ok (stack ++ [i.data]) := if_pos (hopcode ▸ hpush)

lemma straightStep_of_stackOp {requireMinimal : Bool} {stack : Stack} {i : Instruction}
    {opcode : UInt8} {op : StackOp} (hopcode : i.opcode = opcode)
    (hop : ¬ opcode ≤ Opcode.opPushdata4) (htoOp : Opcode.toOp opcode = .stack op) :
    straightStep requireMinimal stack i = execStackOp requireMinimal stack op := by
  rw [straightStep, hopcode, if_neg hop, htoOp]

omit [Sha2] [LegacyHash] in
lemma IsStraight.of_push {i : Instruction} {opcode : UInt8} (hopcode : i.opcode = opcode)
    (hpush : opcode ≤ Opcode.opPushdata4) : IsStraight i.opcode := .inl (hopcode ▸ hpush)

omit [Sha2] [LegacyHash] in
lemma IsStraight.of_stackOp {i : Instruction} {opcode : UInt8} {op : StackOp}
    (hopcode : i.opcode = opcode) (htoOp : Opcode.toOp opcode = .stack op) :
    IsStraight i.opcode := .inr (.inl ⟨op, hopcode ▸ htoOp⟩)

/-- `OP_HASH160`. -/
lemma hash160_of_execStackOp {requireMinimal : Bool} {stack stack' : Stack}
    (h : execStackOp requireMinimal stack (.hash .hash160) = .ok stack') :
    ∃ rest top, stack = rest ++ [top] ∧ stack' = rest ++ [(hash160 top).toList] := by
  rw [execStackOp] at h
  obtain ⟨⟨top, rest⟩, hpop, h⟩ := Result.bind_eq_ok.mp h
  exact ⟨rest, top, pop_eq_ok hpop, (Except.ok.inj h).symm⟩

/-- `OP_DUP`. -/
lemma dup_of_execStackOp {requireMinimal : Bool} {stack stack' : Stack} {top : List UInt8}
    (h : execStackOp requireMinimal (stack ++ [top]) .dup = .ok stack') :
    stack' = stack ++ [top] ++ [top] := by
  have htop : stackTop (stack ++ [top]) 1 = .ok top := by
    simp [stackTop, fromTop, sub, index, unwrap, rejectIf]
  rw [execStackOp, htop] at h
  exact (Except.ok.inj h).symm

/-- `OP_EQUAL` and `OP_EQUALVERIFY`. -/
lemma equal_of_execStackOp (verify : Bool) {requireMinimal : Bool} {stack stack' : Stack}
    {a b : List UInt8} (h : execStackOp requireMinimal (stack ++ [a] ++ [b]) (.equal verify) =
      .ok stack') :
    if verify then a = b ∧ stack' = stack else stack' = stack ++ [boolElement (a = b)] := by
  rw [execStackOp] at h
  obtain ⟨_, _, h⟩ := Result.bind_eq_ok.mp h
  have hpop₁ : pop (stack ++ [a] ++ [b]) = .ok (b, stack ++ [a]) := by simp [pop, okOr]
  have hpop₂ : pop (stack ++ [a]) = .ok (a, stack) := by simp [pop, okOr]
  rw [hpop₁, Result.ok_bind] at h
  dsimp only at h
  rw [hpop₂, Result.ok_bind] at h
  cases verify with
  | false => exact (Except.ok.inj h).symm
  | true =>
    obtain ⟨_, heq, h⟩ := Result.bind_eq_ok.mp h
    refine ⟨?_, (Except.ok.inj h).symm⟩
    by_contra hne
    rw [rejectIf, if_pos hne] at heq
    cases heq

omit [Sha2] [LegacyHash] in
lemma topIsTrue_append_boolElement {stack : Stack} {b : Bool}
    (h : topIsTrue (stack ++ [boolElement b]) = true) : b = true := by
  cases b with
  | true => rfl
  | false => simp [topIsTrue, boolElement, castToBool] at h

/-- Evaluating a pay-to-script-hash script compares the hash of the top of the stack. -/
lemma hash160_of_eval_payToScriptHash {program : List UInt8} (hlen : program.length = 20)
    {stack stack' : Stack}
    (h : evalScript flags checker stack (0xa9 :: 0x14 :: (program ++ [0x87])) = .ok stack')
    (htrue : topIsTrue stack' = true) :
    ∃ rest top, stack = rest ++ [top] ∧ (hash160 top).toList = program := by
  have hhash : Encodes [0xa9] 0xa9 [] := .op (by decide)
  have hprogram : Encodes (0x14 :: ([] ++ program)) 0x14 program :=
    .push [] program (by decide) rfl hlen
  have hequal : Encodes [0x87] 0x87 [] := .op (by decide)
  obtain ⟨is, his, hread⟩ := exists_instructions_of_chunks
    [[0xa9], 0x14 :: ([] ++ program), [0x87]]
    (by simpa using ⟨⟨_, _, hhash⟩, ⟨_, _, hprogram⟩, _, _, hequal⟩)
  obtain _ | ⟨h₁, _ | ⟨h₂, _ | ⟨h₃, _ | _⟩⟩⟩ := his
  rename_i i₁ i₂ i₃
  obtain ⟨hop₁, -⟩ := h₁.unique hhash
  obtain ⟨hop₂, hdata₂⟩ := h₂.unique hprogram
  obtain ⟨hop₃, -⟩ := h₃.unique hequal
  have hops : ∀ i ∈ [i₁, i₂, i₃], IsStraight i.opcode := by
    simpa using ⟨IsStraight.of_stackOp hop₁ rfl, IsStraight.of_push hop₂ (by decide),
      IsStraight.of_stackOp hop₃ rfl⟩
  have hrun := straight_of_evalScriptWithData h (by simpa using hread) hops
  simp only [List.foldlM_cons, List.foldlM_nil, Result.bind_eq_ok] at hrun
  obtain ⟨s₁, hs₁, s₂, hs₂, s₃, hs₃, hend⟩ := hrun
  rw [straightStep_of_stackOp hop₁ (by decide) rfl] at hs₁
  obtain ⟨rest, top, rfl, rfl⟩ := hash160_of_execStackOp hs₁
  rw [straightStep_of_push hop₂ (by decide), hdata₂] at hs₂
  cases hs₂
  rw [straightStep_of_stackOp hop₃ (by decide) rfl] at hs₃
  have hcompare := equal_of_execStackOp false hs₃
  cases hend
  rw [hcompare] at htrue
  exact ⟨rest, top, rfl, of_decide_eq_true (topIsTrue_append_boolElement htrue)⟩

/-- Evaluating the script that a 20-byte program stands for compares the hash of the top. -/
lemma hash160_of_eval_keyHash {program : List UInt8} (hlen : program.length = 20)
    {sigVersion : SigVersion} {execData : ScriptExecutionData} (stack : Stack) {stack' : Stack}
    {top : List UInt8}
    (h : evalScriptWithData ⟨[0x76, 0xa9, 0x14] ++ program ++ [0x88, 0xac], flags, checker,
      sigVersion⟩ (stack ++ [top]) execData = .ok stack') :
    (hash160 top).toList = program := by
  have hdup : Encodes [0x76] 0x76 [] := .op (by decide)
  have hhash : Encodes [0xa9] 0xa9 [] := .op (by decide)
  have hprogram : Encodes (0x14 :: ([] ++ program)) 0x14 program :=
    .push [] program (by decide) rfl hlen
  have hequal : Encodes [0x88] 0x88 [] := .op (by decide)
  have hchecksig : Encodes [0xac] 0xac [] := .op (by decide)
  obtain ⟨is, his, hread⟩ := exists_instructions_of_chunks
    [[0x76], [0xa9], 0x14 :: ([] ++ program), [0x88], [0xac]]
    (by simpa using ⟨⟨_, _, hdup⟩, ⟨_, _, hhash⟩, ⟨_, _, hprogram⟩, ⟨_, _, hequal⟩, _, _,
      hchecksig⟩)
  obtain _ | ⟨h₁, _ | ⟨h₂, _ | ⟨h₃, _ | ⟨h₄, _ | ⟨h₅, _ | _⟩⟩⟩⟩⟩ := his
  rename_i i₁ i₂ i₃ i₄ i₅
  obtain ⟨hop₁, -⟩ := h₁.unique hdup
  obtain ⟨hop₂, -⟩ := h₂.unique hhash
  obtain ⟨hop₃, hdata₃⟩ := h₃.unique hprogram
  obtain ⟨hop₄, -⟩ := h₄.unique hequal
  have hops : ∀ i ∈ [i₁, i₂, i₃, i₄], IsStraight i.opcode := by
    simpa using ⟨IsStraight.of_stackOp hop₁ rfl, IsStraight.of_stackOp hop₂ rfl,
      IsStraight.of_push hop₃ (by decide), IsStraight.of_stackOp hop₄ rfl⟩
  -- the check of the signature comes after the comparison
  obtain ⟨_, is, _, hread', t, ht, _⟩ := instructions_of_evalScriptWithData h
  have hsame : instructions ([0x76, 0xa9, 0x14] ++ program ++ [0x88, 0xac]) =
      ([i₁, i₂, i₃, i₄].map .ok) ++ [.ok i₅] := by simpa using hread
  rw [← hread', hsame, List.foldlM_append] at ht
  obtain ⟨s₄, ht, _⟩ := Result.bind_eq_ok.mp ht
  have hrun := straight_of_foldlM hops ht rfl
  simp only [List.foldlM_cons, List.foldlM_nil, Result.bind_eq_ok, EvalState.start] at hrun
  obtain ⟨s₁, hs₁, s₂, hs₂, s₃, hs₃, _, hs₄, _⟩ := hrun
  rw [straightStep_of_stackOp hop₁ (by decide) rfl] at hs₁
  rw [dup_of_execStackOp hs₁, straightStep_of_stackOp hop₂ (by decide) rfl] at hs₂
  obtain ⟨rest, top', hstack, rfl⟩ := hash160_of_execStackOp hs₂
  obtain ⟨-, htop⟩ := List.append_inj' hstack rfl
  rw [straightStep_of_push hop₃ (by decide), hdata₃] at hs₃
  cases hs₃
  rw [straightStep_of_stackOp hop₄ (by decide) rfl] at hs₄
  cases htop
  exact (equal_of_execStackOp true hs₄).1

end Comparisons

/-! ### Spends -/

section Spends

variable [Sha2] [LegacyHash] [Secp256k1] {flags : VerifyFlags} {checker : SignatureChecker}
  {scriptSig scriptPubkey program : List UInt8} {witness : List (List UInt8)}

/-- What spending a version 0 program needs in the witness. -/
def HasPreimage (program : List UInt8) (witness : List (List UInt8)) : Prop :=
  (program.length = 32 → ∃ script, witness.getLast? = some script ∧
    (sha256 script).toList = program) ∧
  (program.length = 20 → ∃ sig pubkey, witness = [sig, pubkey] ∧
    (hash160 pubkey).toList = program)

/-- A version 0 program is only spent with what it is the hash of. -/
lemma hasPreimage_of_verifyWitnessProgram {isP2sh : Bool}
    (h : verifyWitnessProgram flags checker witness 0 program isP2sh = .ok ()) :
    HasPreimage program witness := by
  rw [verifyWitnessProgram, if_pos rfl] at h
  obtain ⟨⟨script, stack⟩, hscript, h⟩ := Result.bind_eq_ok.mp h
  rw [witnessV0Script] at hscript
  constructor
  · intro hlen
    rw [if_pos hlen] at hscript
    simp only [Result.bind_eq_ok] at hscript
    obtain ⟨_, _, item, hitem, _, hhash, _⟩ := hscript
    refine ⟨item, ?_, ?_⟩
    · cases hlast : witness.getLast? with
      | none =>
        rw [hlast] at hitem
        cases hitem
      | some last =>
        rw [hlast] at hitem
        rw [Except.ok.inj hitem]
    · by_contra hne
      rw [rejectIf, if_pos hne] at hhash
      cases hhash
  · intro hlen
    rw [if_neg (by omega), if_pos hlen] at hscript
    obtain ⟨_, htwo, hscript⟩ := Result.bind_eq_ok.mp hscript
    cases hscript
    by_cases hcount : witness.length = 2
    · obtain ⟨sig, pubkey, rfl⟩ := List.length_eq_two.mp hcount
      dsimp only at h
      rw [executeWitnessScript, if_neg (by decide), runWitnessScript] at h
      obtain ⟨_, _, h⟩ := Result.bind_eq_ok.mp h
      obtain ⟨_, hrun, _⟩ := Result.bind_eq_ok.mp h
      exact ⟨sig, pubkey, rfl, hash160_of_eval_keyHash hlen [sig] hrun⟩
    · rw [rejectIf, if_pos hcount] at htwo
      cases htwo

/-- The program in a script is verified. -/
lemma verifyWitnessProgram_of_verifyProgramOf {script expectedSig : List UInt8} {isP2sh : Bool}
    {malleated : ScriptError} {stack : Stack} {result : Stack × Bool} {parsed : WitnessProgram}
    (hwitness : flags.contains .witness = true)
    (h : verifyProgramOf flags checker script scriptSig expectedSig witness isP2sh malleated stack =
      .ok result) (hparsed : parseWitnessProgram script = some parsed) :
    verifyWitnessProgram flags checker witness parsed.version parsed.program isP2sh = .ok () := by
  rw [verifyProgramOf, if_pos hwitness, hparsed] at h
  simp only [Result.bind_eq_ok] at h
  obtain ⟨_, _, _, hverify, _⟩ := h
  exact hverify

omit [Secp256k1] in
/-- The script that a spend of a script hash gives is the last one that its scriptSig pushes. -/
lemma lastPushed_of_eval {stack : Stack}
    (hpush : isPushOnly scriptSig = .ok true)
    (h : evalScript flags checker [] scriptSig = .ok stack) :
    lastPushed scriptSig = stack.getLast? := by
  rw [lastPushed, eval_of_isPushOnly hpush h, List.nil_append]

/-- The witness programs that a spend has to satisfy: the one in the output, and the one in the
script that is the preimage of the output's script hash. -/
inductive Spends (scriptSig scriptPubkey : List UInt8) : WitnessProgram → Prop
  | native {program : WitnessProgram} : parseWitnessProgram scriptPubkey = some program →
      Spends scriptSig scriptPubkey program
  | wrapped {program : WitnessProgram} {redeem : List UInt8} :
      isPayToScriptHash scriptPubkey = .ok true → lastPushed scriptSig = some redeem →
      parseWitnessProgram redeem = some program → Spends scriptSig scriptPubkey program

/-- The parts of an accepted spend: both scripts ran, and the programs in them were verified. -/
lemma parts_of_verifyScript
    (h : verifyScript flags checker scriptSig scriptPubkey witness = .ok ()) :
    ∃ afterSig stack native,
      evalScript flags checker [] scriptSig = .ok afterSig ∧
      evalScript flags checker afterSig scriptPubkey = .ok stack ∧
      topIsTrue stack = true ∧
      verifyProgramOf flags checker scriptPubkey scriptSig [] witness false .witnessMalleated
        stack = .ok native ∧
      (flags.contains .p2sh = true → isPayToScriptHash scriptPubkey = .ok true →
        ∃ nested, verifyP2sh flags checker scriptSig witness afterSig = .ok nested) := by
  rw [verifyScript] at h
  simp only [Result.bind_eq_ok] at h
  obtain ⟨_, _, _, _, afterSig, hsig, stack, hpubkey, _, htrue, native, hnative, isP2sh, hpattern,
    nested, hnested, _⟩ := h
  refine ⟨afterSig, stack, native, hsig, hpubkey, ?_, hnative, fun hp2sh hscript => ⟨nested, ?_⟩⟩
  · by_contra hfalse
    rw [rejectIf, if_pos (by simpa using hfalse)] at htrue
    cases htrue
  · rw [if_pos hp2sh, hscript] at hpattern
    rw [← Except.ok.inj hpattern, if_pos rfl] at hnested
    exact hnested

/-- What the spend of a script hash gives, and the program in it. -/
lemma redeem_of_verifyP2sh {afterSig : Stack} {nested : Stack × Bool}
    (hsig : evalScript flags checker [] scriptSig = .ok afterSig)
    (h : verifyP2sh flags checker scriptSig witness afterSig = .ok nested) :
    isPushOnly scriptSig = .ok true ∧ lastPushed scriptSig = afterSig.getLast? ∧
      ∀ redeem program, afterSig.getLast? = some redeem → flags.contains .witness = true →
        parseWitnessProgram redeem = some program →
        verifyWitnessProgram flags checker witness program.version program.program true =
          .ok () := by
  rw [verifyP2sh] at h
  simp only [Result.bind_eq_ok] at h
  obtain ⟨pushOnly, hpushOnly, _, hguard, ⟨redeem, rest⟩, hpop, stack, _, _, _, hverify⟩ := h
  have hpush : isPushOnly scriptSig = .ok true := by
    cases pushOnly with
    | true => exact hpushOnly
    | false => cases hguard
  refine ⟨hpush, lastPushed_of_eval hpush hsig, ?_⟩
  intro redeem' program hlast hwitness hparsed
  rw [pop_eq_ok hpop, List.getLast?_concat, Option.some.injEq] at hlast
  subst hlast
  exact verifyWitnessProgram_of_verifyProgramOf hwitness hverify hparsed

/-- Whoever spends a script hash, or a witness program that commits to a hash, shows the
preimage. -/
theorem preimage_of_verifyScript (hp2sh : flags.contains .p2sh = true)
    (hwitness : flags.contains .witness = true)
    (h : verifyScript flags checker scriptSig scriptPubkey witness = .ok ()) :
    (isPayToScriptHash scriptPubkey = .ok true → isPushOnly scriptSig = .ok true ∧
      ∃ redeem, lastPushed scriptSig = some redeem ∧
        scriptPubkey = [0xa9, 0x14] ++ (hash160 redeem).toList ++ [0x87]) ∧
    ∀ program, Spends scriptSig scriptPubkey ⟨0, program⟩ → HasPreimage program witness := by
  obtain ⟨afterSig, stack, native, hsig, hpubkey, htrue, hnative, hnested⟩ :=
    parts_of_verifyScript h
  constructor
  · intro hpattern
    obtain ⟨nested, hverify⟩ := hnested hp2sh hpattern
    obtain ⟨hpush, hlast, _⟩ := redeem_of_verifyP2sh hsig hverify
    obtain ⟨program, hlen, hscript⟩ := eq_of_isPayToScriptHash hpattern
    rw [hscript] at hpubkey
    obtain ⟨rest, redeem, rfl, hhash⟩ := hash160_of_eval_payToScriptHash hlen hpubkey htrue
    refine ⟨hpush, redeem, by rw [hlast, List.getLast?_concat], ?_⟩
    rw [hhash, hscript]
    rfl
  · intro program hspends
    cases hspends with
    | native hparsed =>
      exact hasPreimage_of_verifyWitnessProgram
        (verifyWitnessProgram_of_verifyProgramOf hwitness hnative hparsed)
    | wrapped hpattern hlast hparsed =>
      obtain ⟨nested, hverify⟩ := hnested hp2sh hpattern
      obtain ⟨_, hpushed, hprogram⟩ := redeem_of_verifyP2sh hsig hverify
      exact hasPreimage_of_verifyWitnessProgram
        (hprogram _ _ (hpushed ▸ hlast) hwitness hparsed)

end Spends

namespace Sample

open VerifyFlags in
set_option maxRecDepth 100000 in
/-- The script of a P2WSH output is in the witness. -/
theorem preimage_of_verifyScript_p2wshTrue :
    HasPreimage (sha256 [0x51]).toList [[0x51]] := by
  have hok : verifyScript consensusSegwit nullSignatureChecker [] p2wshTrue [[0x51]] = .ok () := by
    decide +kernel
  have hparsed : parseWitnessProgram p2wshTrue = some ⟨0, (sha256 [0x51]).toList⟩ := by
    decide +kernel
  exact (preimage_of_verifyScript (by decide) (by decide) hok).2 _ (.native hparsed)

end Sample

end Bitcrab
