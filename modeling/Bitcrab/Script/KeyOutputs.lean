import Bitcrab.Script.WrappedPrograms

/-!
# Outputs to a key

What it takes to spend the three kinds of outputs that name a key or the hash of a key: the legacy
template with the hash, the version 0 program of the hash, and the version 1 program of the key.
-/

namespace Bitcrab

open Outcome

/-- `OP_DUP OP_HASH160 <program> OP_EQUALVERIFY OP_CHECKSIG`, the script a 20-byte program stands
for. -/
def keyHashScript (program : List UInt8) : List UInt8 :=
  [0x76, 0xa9, 0x14] ++ program ++ [0x88, 0xac]

/-! ### One instruction -/

section Rules

variable [Sha2] [LegacyHash] {ctx : EvalContext} {i : Instruction} {stack : Stack} {n m : Nat}
  {execData : ScriptExecutionData}

/-- A push that is as short as possible. -/
lemma step_push (hpush : i.opcode ≤ Opcode.opPushdata4)
    (hdata : i.data.length ≤ maxScriptElementSize)
    (hminimal : checkMinimalPush i.data i.opcode = .ok true) :
    step ctx ⟨stack, [], [], n, 0, execData⟩ (.ok i) =
      checkStackSize ⟨stack ++ [i.data], [], [], n, 0, execData⟩ := by
  have hsmall : ¬ i.data.length > maxScriptElementSize := by omega
  have hop : Opcode.isPush i.opcode = true :=
    decide_eq_true (UInt8.le_trans hpush (by decide : Opcode.opPushdata4 ≤ 0x60))
  have hcount : countOp ctx i.opcode n = .ok n := by
    have hlow : Opcode.countsTowardsOpLimit i.opcode = false := by
      simpa [Opcode.countsTowardsOpLimit, Opcode.isPush] using hop
    rw [countOp, if_neg (by simp [hlow])]
    rfl
  have hcheck : rejectUnless ctx.requireMinimal (checkMinimalPush i.data i.opcode) .minimalData =
      .ok () := by
    rw [hminimal, rejectUnless]
    cases ctx.requireMinimal <;> rfl
  rw [step, Result.ok_bind, rejectIf, if_neg hsmall, Result.ok_bind, hcount, Result.ok_bind,
    rejectIf, if_neg (by simp [isDisabled_of_isPush hop]), Result.ok_bind, execInstruction]
  dsimp only
  rw [List.all_nil, if_neg (by simp), if_pos hpush, hcheck, Result.ok_bind]

/-- Any other opcode that is active. -/
lemma step_op (hop : ¬ i.opcode ≤ Opcode.opPushdata4) (hdata : i.data = [])
    (hdisabled : Opcode.isDisabled i.opcode = false) (hcount : countOp ctx i.opcode n = .ok m)
    (hactive : isInactive ctx.flags (Opcode.toOp i.opcode) = false) :
    step ctx ⟨stack, [], [], n, 0, execData⟩ (.ok i) =
      (execOp ctx true i ⟨stack, [], [], m, 0, execData⟩ (Opcode.toOp i.opcode) >>=
        checkStackSize) := by
  rw [step, Result.ok_bind, rejectIf, if_neg (by simp [hdata]), Result.ok_bind, hcount,
    Result.ok_bind, rejectIf, if_neg (by simp [hdisabled]), Result.ok_bind, execInstruction]
  dsimp only
  rw [List.all_nil, if_neg (by simp), if_neg hop, if_neg (by simp [hactive])]

/-- An operation on the main stack, which counts towards the limit. -/
lemma step_stackOp {opcode : UInt8} {op : StackOp} (hopcode : i.opcode = opcode)
    (hdata : i.data = []) (hop : ¬ opcode ≤ Opcode.opPushdata4)
    (hdisabled : Opcode.isDisabled opcode = false) (hcount : countOp ctx opcode n = .ok m)
    (htoOp : Opcode.toOp opcode = .stack op) :
    step ctx ⟨stack, [], [], n, 0, execData⟩ (.ok i) =
      (execStackOp ctx.requireMinimal stack op >>= fun stack =>
        checkStackSize ⟨stack, [], [], m, 0, execData⟩) := by
  subst hopcode
  rw [step_op hop hdata hdisabled hcount (by rw [htoOp]; rfl), htoOp, execOp]
  cases execStackOp ctx.requireMinimal stack op <;> rfl

omit [Sha2] [LegacyHash] in
lemma legacyLimits_eq_true (hlegacy : ctx.sigVersion = .base ∨ ctx.sigVersion = .witnessV0) :
    ctx.legacyLimits = true := by
  simpa [EvalContext.legacyLimits] using hlegacy

omit [Sha2] [LegacyHash] in
lemma ne_tapscript_of_legacy {sigVersion : SigVersion}
    (hlegacy : sigVersion = .base ∨ sigVersion = .witnessV0) : sigVersion ≠ .tapscript := by
  rcases hlegacy with rfl | rfl <;> decide

omit [Sha2] [LegacyHash] in
lemma countOp_of_lt {opcode : UInt8} (hlegacy : ctx.legacyLimits = true)
    (hcounts : Opcode.countsTowardsOpLimit opcode = true) (h : n < maxOpsPerScript) :
    countOp ctx opcode n = .ok (n + 1) := by
  rw [countOp, if_pos (by simp [hlegacy, hcounts]), rejectIf, if_neg (by omega)]
  rfl

omit [Sha2] [LegacyHash] in
lemma checkStackSize_of_le {s : EvalState}
    (h : s.stack.length + s.altstack.length ≤ maxStackSize) : checkStackSize s = .ok s := by
  rw [checkStackSize, rejectIf, if_neg (by omega)]
  rfl

omit [Sha2] [LegacyHash] in
lemma checkStackSize_of_lt {s : EvalState}
    (h : maxStackSize < s.stack.length + s.altstack.length) :
    checkStackSize s = fail .stackSize := by
  rw [checkStackSize, rejectIf, if_pos h]
  rfl

lemma execStackOp_dup (requireMinimal : Bool) (rest : Stack) (top : List UInt8) :
    execStackOp requireMinimal (rest ++ [top]) .dup = .ok (rest ++ [top, top]) := by
  simp [execStackOp, stackTop, fromTop, sub, index, unwrap, rejectIf]

lemma execStackOp_hash160 (requireMinimal : Bool) (rest : Stack) (top : List UInt8) :
    execStackOp requireMinimal (rest ++ [top]) (.hash .hash160) =
      .ok (rest ++ [(hash160 top).toList]) := by
  simp [execStackOp, pop, okOr, evalHash]

lemma execStackOp_equalVerify (requireMinimal : Bool) (rest : Stack) (a b : List UInt8) :
    execStackOp requireMinimal (rest ++ [a, b]) (.equal true) =
      (rejectIf (a ≠ b) .equalVerify >>= fun _ => .ok rest) := by
  have hpop₁ : pop (rest ++ [a, b]) = .ok (b, rest ++ [a]) := by simp [pop, okOr]
  have hpop₂ : pop (rest ++ [a]) = .ok (a, rest) := by simp [pop, okOr]
  rw [execStackOp, requireDepth, rejectIf, if_neg (by simp), Result.ok_bind, hpop₁, Result.ok_bind]
  dsimp only
  rw [hpop₂, Result.ok_bind]
  rfl

end Rules

/-! ### The template with the hash -/

section KeyHash

variable [Sha2] [LegacyHash] {ctx : EvalContext} {flags : VerifyFlags} {checker : SignatureChecker}
  {program : List UInt8} {sigVersion : SigVersion} {execData : ScriptExecutionData}

omit [Sha2] [LegacyHash] in
/-- The five instructions of the template. -/
lemma exists_instructions_keyHashScript (hlen : program.length = 20) :
    ∃ dup hash push equal checkSig : Instruction,
      instructions (keyHashScript program) = [dup, hash, push, equal, checkSig].map .ok ∧
      (dup.opcode = 0x76 ∧ dup.data = []) ∧ (hash.opcode = 0xa9 ∧ hash.data = []) ∧
      (push.opcode = 0x14 ∧ push.data = program) ∧ (equal.opcode = 0x88 ∧ equal.data = []) ∧
      (checkSig.opcode = 0xac ∧ checkSig.data = []) := by
  have hdup : Encodes [0x76] 0x76 [] := .op (by decide)
  have hhash : Encodes [0xa9] 0xa9 [] := .op (by decide)
  have hpush : Encodes (0x14 :: ([] ++ program)) 0x14 program :=
    .push [] program (by decide) rfl hlen
  have hequal : Encodes [0x88] 0x88 [] := .op (by decide)
  have hcheckSig : Encodes [0xac] 0xac [] := .op (by decide)
  obtain ⟨is, his, hread⟩ := exists_instructions_of_chunks
    [[0x76], [0xa9], 0x14 :: ([] ++ program), [0x88], [0xac]]
    (by simpa using ⟨⟨_, _, hdup⟩, ⟨_, _, hhash⟩, ⟨_, _, hpush⟩, ⟨_, _, hequal⟩, _, _, hcheckSig⟩)
  obtain _ | ⟨h₁, _ | ⟨h₂, _ | ⟨h₃, _ | ⟨h₄, _ | ⟨h₅, _ | _⟩⟩⟩⟩⟩ := his
  exact ⟨_, _, _, _, _, by simpa [keyHashScript] using hread, h₁.unique hdup, h₂.unique hhash,
    h₃.unique hpush, h₄.unique hequal, h₅.unique hcheckSig⟩

omit [Sha2] [LegacyHash] in
/-- A push of 20 bytes with their number as the opcode. -/
lemma checkMinimalPush_of_length {data : List UInt8} {opcode : UInt8}
    (h : data.length = opcode.toNat) (htwo : 2 ≤ data.length) (hle : data.length ≤ 75) :
    checkMinimalPush data opcode = .ok true := by
  obtain _ | ⟨first, rest⟩ := data
  · simp at htwo
  · have hone : (first :: rest).length ≠ 1 := by omega
    rw [checkMinimalPush, if_neg (by simp), index, List.getElem?_cons_zero, unwrap, Result.ok_bind,
      if_neg (fun hsingle => hone hsingle.1), if_neg (fun hsingle => hone hsingle.1), if_pos hle,
      h]
    simp

/-- The template on a stack that is not empty: the top is hashed and compared, and then its
signature is checked. -/
lemma evalScriptWithData_keyHashScript (hlen : program.length = 20)
    (hlegacy : sigVersion = .base ∨ sigVersion = .witnessV0) (rest : Stack) (pubkey : List UInt8) :
    ∃ checkSig n, evalScriptWithData ⟨keyHashScript program, flags, checker, sigVersion⟩
        (rest ++ [pubkey]) execData = (do
      rejectIf (rest.length + 3 > maxStackSize) .stackSize
      rejectIf ((hash160 pubkey).toList ≠ program) .equalVerify
      let s ← execOp ⟨keyHashScript program, flags, checker, sigVersion⟩ true checkSig
        ⟨rest ++ [pubkey], [], [], n, 0, execData⟩ (.checkSig false)
      let s ← checkStackSize s
      rejectIf (s.conditionStack ≠ []) .unbalancedConditional
      return s.stack) := by
  obtain ⟨dup, hash, push, equal, checkSig, hread, ⟨hdup, hdup'⟩, ⟨hhash, hhash'⟩, ⟨hpush, hpush'⟩,
    ⟨hequal, hequal'⟩, hcheckSig, hcheckSig'⟩ := exists_instructions_keyHashScript hlen
  have hlegacy' : EvalContext.legacyLimits ⟨keyHashScript program, flags, checker, sigVersion⟩ =
      true := legacyLimits_eq_true hlegacy
  have hsize : ¬ (keyHashScript program).length > maxScriptSize := by
    simp [keyHashScript, hlen, maxScriptSize]
  refine ⟨checkSig, 4, ?_⟩
  rw [evalScriptWithData]
  dsimp only
  rw [rejectIf, if_neg (fun h => hsize h.2), Result.ok_bind, hread, EvalState.start]
  simp only [List.map_cons, List.map_nil, List.foldlM_cons, List.foldlM_nil]
  rw [step_stackOp hdup hdup' (by decide) rfl (countOp_of_lt hlegacy' rfl (by decide)) rfl,
    execStackOp_dup, Result.ok_bind]
  by_cases hdupSize : rest.length + 2 > maxStackSize
  · rw [checkStackSize_of_lt (by simpa using hdupSize), rejectIf, if_pos (by omega)]
    rfl
  rw [checkStackSize_of_le (by simpa using hdupSize), Result.ok_bind,
    step_stackOp hhash hhash' (by decide) rfl (countOp_of_lt hlegacy' rfl (by decide)) rfl,
    List.append_cons, execStackOp_hash160, Result.ok_bind,
    checkStackSize_of_le (by simpa using hdupSize), Result.ok_bind,
    step_push (by rw [hpush]; decide) (by rw [hpush', hlen]; decide)
      (by rw [hpush, hpush']; exact checkMinimalPush_of_length hlen (by omega) (by omega)), hpush']
  by_cases hpushSize : rest.length + 3 > maxStackSize
  · rw [checkStackSize_of_lt (by simpa using hpushSize), rejectIf, if_pos hpushSize]
    rfl
  rw [checkStackSize_of_le (by simpa using hpushSize), Result.ok_bind, rejectIf, if_neg hpushSize,
    Result.ok_bind,
    step_stackOp hequal hequal' (by decide) rfl (countOp_of_lt hlegacy' rfl (by decide)) rfl,
    List.append_assoc (rest ++ [pubkey]), List.singleton_append, execStackOp_equalVerify]
  by_cases hprogram : (hash160 pubkey).toList ≠ program
  · rw [rejectIf, if_pos hprogram]
    rfl
  rw [rejectIf, if_neg hprogram, Result.ok_bind, Result.ok_bind,
    checkStackSize_of_le (by simp; omega), Result.ok_bind,
    step_op (by rw [hcheckSig]; decide) hcheckSig' (by rw [hcheckSig]; rfl)
      (by rw [hcheckSig]; exact countOp_of_lt hlegacy' rfl (by decide)) (by rw [hcheckSig]; rfl),
    hcheckSig]
  simp only [bind_assoc]
  rfl

/-- What makes `OP_CHECKSIG` succeed in a script without code separators. -/
structure SignedBy (ctx : EvalContext) (sig pubkey : List UInt8) : Prop where
  nonempty : sig ≠ []
  sigEncoding : checkSignatureEncoding sig ctx.flags = .ok ()
  pubkeyEncoding : checkPubkeyEncoding pubkey ctx.flags (ctx.sigVersion = .witnessV0) = .ok ()
  verified : ∃ scriptCode,
    buildScriptCode ctx.script 0 sig ctx.sigVersion ctx.flags = .ok scriptCode ∧
    ctx.checker.checkEcdsaSignature sig pubkey scriptCode ctx.sigVersion = .ok true

omit [Sha2] [LegacyHash] in
lemma execCheckSig_eq_true (hversion : ctx.sigVersion ≠ .tapscript) {sig pubkey : List UInt8}
    {execData' : ScriptExecutionData} :
    execCheckSig ctx 0 execData sig pubkey = .ok (true, execData') ↔
      execData' = execData ∧ SignedBy ctx sig pubkey := by
  rw [execCheckSig, if_neg hversion]
  simp only [Result.bind_eq_ok, checkEcdsa]
  constructor
  · rintro ⟨scriptCode, hcode, _, hsig, _, hpubkey, ok, hverdict, _, -, hret⟩
    obtain ⟨rfl, rfl⟩ := Prod.mk.inj (Except.ok.inj hret)
    obtain _ | ⟨first, sig⟩ := sig
    · cases hverdict
    · exact ⟨rfl, by simp, hsig, hpubkey, scriptCode, hcode, hverdict⟩
  · rintro ⟨rfl, hne, hsig, hpubkey, scriptCode, hcode, hverdict⟩
    refine ⟨scriptCode, hcode, (), hsig, (), hpubkey, true, ?_, (), ?_, rfl⟩
    · rw [if_neg (by simpa using hne)]
      exact hverdict
    · rw [rejectIf, if_neg (by simp)]

lemma execOp_checkSig (i : Instruction) (n : Nat) (rest : Stack) (sig pubkey : List UInt8) :
    execOp ctx true i ⟨rest ++ [sig, pubkey], [], [], n, 0, execData⟩ (.checkSig false) =
      (execCheckSig ctx 0 execData sig pubkey >>= fun r =>
        .ok ⟨rest ++ [boolElement r.1], [], [], n, 0, r.2⟩) := by
  have hpop₁ : pop (rest ++ [sig, pubkey]) = .ok (pubkey, rest ++ [sig]) := by simp [pop, okOr]
  have hpop₂ : pop (rest ++ [sig]) = .ok (sig, rest) := by simp [pop, okOr]
  rw [execOp, requireDepth, rejectIf, if_neg (by simp), Result.ok_bind, hpop₁, Result.ok_bind]
  dsimp only
  rw [hpop₂, Result.ok_bind]
  cases execCheckSig ctx 0 execData sig pubkey <;> rfl

/-- The signature check takes two elements. -/
lemma exists_of_execOp_checkSig {i : Instruction} {n : Nat} {stack : Stack} {s : EvalState}
    (h : execOp ctx true i ⟨stack, [], [], n, 0, execData⟩ (.checkSig false) = .ok s) :
    ∃ rest sig pubkey, stack = rest ++ [sig, pubkey] := by
  rw [execOp] at h
  obtain ⟨_, hdepth, h⟩ := Result.bind_eq_ok.mp h
  obtain ⟨⟨pubkey, stack'⟩, hpubkey, h⟩ := Result.bind_eq_ok.mp h
  obtain ⟨⟨sig, rest⟩, hsig, -⟩ := Result.bind_eq_ok.mp h
  have hstack : stack = stack' ++ [pubkey] := pop_eq_ok hpubkey
  refine ⟨rest, sig, pubkey, ?_⟩
  rw [hstack, pop_eq_ok hsig, List.append_assoc, List.singleton_append]

/-- The template needs an element to hash. -/
lemma evalScriptWithData_keyHashScript_nil (hlen : program.length = 20)
    (hlegacy : sigVersion = .base ∨ sigVersion = .witnessV0) :
    evalScriptWithData ⟨keyHashScript program, flags, checker, sigVersion⟩ [] execData =
      fail .invalidStackOperation := by
  obtain ⟨dup, hash, push, equal, checkSig, hread, ⟨hdup, hdup'⟩, -⟩ :=
    exists_instructions_keyHashScript hlen
  have hlegacy' : EvalContext.legacyLimits ⟨keyHashScript program, flags, checker, sigVersion⟩ =
      true := legacyLimits_eq_true hlegacy
  have hsize : ¬ (keyHashScript program).length > maxScriptSize := by
    simp [keyHashScript, hlen, maxScriptSize]
  rw [evalScriptWithData]
  dsimp only
  rw [rejectIf, if_neg (fun h => hsize h.2), Result.ok_bind, hread, EvalState.start, List.map_cons,
    List.foldlM_cons,
    step_stackOp hdup hdup' (by decide) rfl (countOp_of_lt hlegacy' rfl (by decide)) rfl]
  rfl

/-- The template leaves a true top exactly when the two elements on top of the stack are a signature
and a key that hashes to the program and has made the signature. -/
lemma eval_keyHashScript_iff (hlen : program.length = 20)
    (hlegacy : sigVersion = .base ∨ sigVersion = .witnessV0) {stack stack' : Stack} :
    evalScriptWithData ⟨keyHashScript program, flags, checker, sigVersion⟩ stack execData =
        .ok stack' ∧ topIsTrue stack' = true ↔
      ∃ rest sig pubkey, stack = rest ++ [sig, pubkey] ∧ rest.length + 4 ≤ maxStackSize ∧
        (hash160 pubkey).toList = program ∧
        SignedBy ⟨keyHashScript program, flags, checker, sigVersion⟩ sig pubkey ∧
        stack' = rest ++ [[1]] := by
  have hversion : sigVersion ≠ .tapscript := ne_tapscript_of_legacy hlegacy
  constructor
  · rintro ⟨h, htrue⟩
    obtain rfl | ⟨rest, pubkey, rfl⟩ := List.eq_nil_or_concat stack
    · rw [evalScriptWithData_keyHashScript_nil hlen hlegacy] at h
      cases h
    rw [List.concat_eq_append] at h ⊢
    obtain ⟨i, n, heq⟩ := @evalScriptWithData_keyHashScript _ _ flags checker program sigVersion
      execData hlen hlegacy rest pubkey
    simp only [heq, Result.bind_eq_ok] at h
    obtain ⟨_, hsize, _, hhash, s, hs, s', hs', _, -, hret⟩ := h
    have hroom : ¬ rest.length + 3 > maxStackSize := by
      intro hfull
      rw [rejectIf, if_pos hfull] at hsize
      cases hsize
    have hprogram : (hash160 pubkey).toList = program := by
      by_contra hne
      rw [rejectIf, if_pos hne] at hhash
      cases hhash
    obtain ⟨rest', sig, pubkey', hstack⟩ := exists_of_execOp_checkSig hs
    obtain ⟨rfl, hlast⟩ :=
      List.append_inj' (hstack.trans (List.append_cons rest' sig [pubkey'])) rfl
    cases hlast
    rw [hstack, execOp_checkSig] at hs
    obtain ⟨⟨ok, execData'⟩, hcheck, hs⟩ := Result.bind_eq_ok.mp hs
    obtain rfl := Except.ok.inj hs
    rw [checkStackSize_eq_ok hs'] at hret
    obtain rfl := Except.ok.inj hret
    obtain rfl : ok = true := topIsTrue_append_boolElement htrue
    refine ⟨rest', sig, pubkey, hstack, ?_, hprogram, ((execCheckSig_eq_true hversion).mp hcheck).2,
      rfl⟩
    rw [List.length_append, List.length_singleton] at hroom
    omega
  · rintro ⟨rest, sig, pubkey, rfl, hroom, hprogram, hsigned, rfl⟩
    obtain ⟨i, n, heq⟩ := @evalScriptWithData_keyHashScript _ _ flags checker program sigVersion
      execData hlen hlegacy (rest ++ [sig]) pubkey
    have hstack : rest ++ [sig] ++ [pubkey] = rest ++ [sig, pubkey] := by simp
    rw [hstack] at heq
    refine ⟨?_, by simp [topIsTrue, castToBool]⟩
    rw [heq, rejectIf, if_neg (by simp; omega), Result.ok_bind, rejectIf,
      if_neg (by simp [hprogram]), Result.ok_bind, execOp_checkSig,
      (execCheckSig_eq_true hversion).mpr ⟨rfl, hsigned⟩, Result.ok_bind, Result.ok_bind,
      checkStackSize_of_le (by simp; omega), Result.ok_bind, rejectIf, if_neg (by simp),
      Result.ok_bind]
    rfl

end KeyHash

/-! ### Running the scripts of an output -/

section Outputs

variable [Sha2] [LegacyHash] {flags : VerifyFlags} {checker : SignatureChecker}
  {scriptSig program : List UInt8} {witness : List (List UInt8)}

lemma evalScript_nil (stack : Stack) : evalScript flags checker stack [] = .ok stack := rfl

omit [Sha2] [LegacyHash] in
/-- The script of a program with the given version opcode and length. -/
lemma exists_instructions_pushes (opcode len : UInt8)
    (hversion : Encodes [opcode] opcode []) (hpush : len ≤ Opcode.opPushdata4) (hsmall : len < 0x4c)
    (hlen : program.length = len.toNat) :
    ∃ number push : Instruction,
      instructions (opcode :: len :: program) = [number, push].map .ok ∧
      (number.opcode = opcode ∧ number.data = []) ∧ (push.opcode = len ∧ push.data = program) := by
  have hprogram : Encodes (len :: ([] ++ program)) len program := by
    refine .push [] program hpush ?_ ?_
    · rw [headerLength, if_pos hsmall]
      rfl
    · rw [pushedLength, if_pos hsmall, hlen]
  obtain ⟨is, his, hread⟩ := exists_instructions_of_chunks [[opcode], len :: ([] ++ program)]
    (by simpa using ⟨⟨_, _, hversion⟩, _, _, hprogram⟩)
  obtain _ | ⟨h₁, _ | ⟨h₂, _ | _⟩⟩ := his
  exact ⟨_, _, by simpa using hread, h₁.unique hversion, h₂.unique hprogram⟩

/-- A script of two instructions that go on to the next one. -/
lemma evalScript_of_two {script : List UInt8} {first second : Instruction} {stack stack₂ : Stack}
    (stack₁ : Stack) (hread : instructions script = [first, second].map .ok)
    (hsize : script.length ≤ maxScriptSize)
    (hfirst : step ⟨script, flags, checker, .base⟩ ⟨stack, [], [], 0, 0, .new⟩ (.ok first) =
      .ok ⟨stack₁, [], [], 0, 0, .new⟩)
    (hsecond : step ⟨script, flags, checker, .base⟩ ⟨stack₁, [], [], 0, 0, .new⟩ (.ok second) =
      .ok ⟨stack₂, [], [], 0, 0, .new⟩) :
    evalScript flags checker stack script = .ok stack₂ := by
  rw [evalScript, evalScriptWithData]
  dsimp only
  rw [rejectIf, if_neg (by omega), Result.ok_bind, hread, EvalState.start]
  simp only [List.map_cons, List.map_nil, List.foldlM_cons, List.foldlM_nil]
  rw [hfirst, Result.ok_bind, hsecond]
  rfl

/-- The script of a version 0 program of up to 75 bytes pushes both. -/
lemma evalScript_version0 {len : UInt8} (hlen : program.length = len.toNat)
    (htwo : 2 ≤ program.length) (hle : program.length ≤ 75) :
    evalScript flags checker [] ([0x00, len] ++ program) = .ok [[], program] := by
  have hsmall : len < 0x4c := by
    rw [UInt8.lt_iff_toNat_lt, ← hlen]
    exact Nat.lt_succ_of_le hle
  have hpush : len ≤ Opcode.opPushdata4 := UInt8.le_trans (UInt8.le_of_lt hsmall) (by decide)
  obtain ⟨number, push, hread, ⟨hnumber, hnumber'⟩, hopcode, hdata⟩ :=
    exists_instructions_pushes 0x00 len (.push [] [] (by decide) rfl rfl) hpush hsmall hlen
  refine evalScript_of_two [[]] hread (by simp [maxScriptSize]; omega) ?_ ?_
  · rw [step_push (by rw [hnumber]; decide) (by simp [hnumber']) (by rw [hnumber, hnumber']; rfl),
      hnumber']
    exact checkStackSize_of_le (by simp [maxStackSize])
  · rw [step_push (by rwa [hopcode]) (by rw [hdata, maxScriptElementSize]; omega)
      (by rw [hopcode, hdata]; exact checkMinimalPush_of_length hlen htwo hle), hdata]
    exact checkStackSize_of_le (by simp [maxStackSize])

/-- The script of a version 1 program of 32 bytes pushes both. -/
lemma evalScript_version1 (hlen : program.length = 32) :
    evalScript flags checker [] ([0x51, 0x20] ++ program) = .ok [[1], program] := by
  obtain ⟨number, push, hread, ⟨hnumber, hnumber'⟩, hpush, hpush'⟩ :=
    exists_instructions_pushes 0x51 0x20
      (.op (by decide)) (by decide) (by decide) hlen
  refine evalScript_of_two [[1]] hread (by simp [hlen, maxScriptSize]) ?_ ?_
  · rw [step_stackOp (n := 0) (m := 0) hnumber hnumber' (by decide) rfl rfl
      (rfl : Opcode.toOp 0x51 = .stack (.pushN 1)),
      execStackOp, Result.pure_eq_ok, Result.ok_bind]
    exact checkStackSize_of_le (by simp [maxStackSize])
  · rw [step_push (by rw [hpush]; decide) (by rw [hpush', hlen]; decide)
      (by rw [hpush, hpush']; exact checkMinimalPush_of_length hlen (by omega) (by omega)), hpush']
    exact checkStackSize_of_le (by simp [maxStackSize])

variable [Secp256k1]

/-- A spend of a witness program in the output: the scriptSig is empty, the program is a true
element, and it is verified with the witness. -/
lemma verifyScript_native_iff (hwitness : flags.contains .witness = true) {script : List UInt8}
    {parsed : WitnessProgram} {number : List UInt8}
    (hparse : parseWitnessProgram script = some parsed)
    (hp2sh : isPayToScriptHash script = .ok false)
    (heval : evalScript flags checker [] script = .ok [number, program]) :
    verifyScript flags checker scriptSig script witness = .ok () ↔
      scriptSig = [] ∧ castToBool program = true ∧
        verifyWitnessProgram flags checker witness parsed.version parsed.program false =
          .ok () := by
  have htop : topIsTrue [number, program] = castToBool program := rfl
  constructor
  · intro h
    obtain ⟨afterSig, stack, native, hsig, hscript, htrue, hnative, -⟩ := parts_of_verifyScript h
    have hverify := verifyWitnessProgram_of_verifyProgramOf hwitness hnative hparse
    rw [verifyProgramOf, if_pos hwitness, hparse] at hnative
    obtain ⟨_, hempty, -⟩ := Result.bind_eq_ok.mp hnative
    obtain rfl : scriptSig = [] := by
      by_contra hne
      rw [rejectIf, if_pos hne] at hempty
      cases hempty
    obtain rfl : [] = afterSig := Except.ok.inj hsig
    rw [heval] at hscript
    obtain rfl := Except.ok.inj hscript
    exact ⟨rfl, htop ▸ htrue, hverify⟩
  · rintro ⟨rfl, htrue, hverify⟩
    have hpushOnly : rejectUnless (flags.contains .sigpushonly) (isPushOnly []) .sigPushOnly =
        .ok () := by
      cases flags.contains .sigpushonly <;> rfl
    have hpattern : (if flags.contains .p2sh then isPayToScriptHash script else pure false :
        Outcome ScriptError Bool) = .ok false := by
      split_ifs
      · exact hp2sh
      · rfl
    rw [verifyScript, rejectIf, if_neg (by simp [hwitness]), Result.ok_bind, hpushOnly,
      Result.ok_bind, evalScript_nil, Result.ok_bind, heval, Result.ok_bind, rejectIf,
      if_neg (by simp [htop, htrue]), Result.ok_bind, verifyProgramOf, if_pos hwitness, hparse]
    dsimp only
    rw [rejectIf, if_neg (by simp), Result.ok_bind, hverify, Result.ok_bind, Result.pure_eq_ok,
      Result.ok_bind]
    dsimp only
    rw [hpattern, Result.ok_bind, if_neg (by simp), Result.pure_eq_ok, Result.ok_bind]
    dsimp only
    rw [rejectIf, if_neg (by simp), Result.ok_bind, rejectIf, if_neg (by simp)]

omit [Secp256k1] in
/-- A witness script accepts elements that are not too long and are replaced by one true element. -/
lemma runWitnessScript_iff {stack : Stack} {script : List UInt8} {sigVersion : SigVersion}
    {execData : ScriptExecutionData} :
    runWitnessScript flags checker stack script sigVersion execData = .ok () ↔
      (∀ element ∈ stack, element.length ≤ maxScriptElementSize) ∧ ∃ stack',
        evalScriptWithData ⟨script, flags, checker, sigVersion⟩ stack execData = .ok stack' ∧
        topIsTrue stack' = true ∧ stack'.length = 1 := by
  constructor
  · intro h
    rw [runWitnessScript] at h
    simp only [Result.bind_eq_ok] at h
    obtain ⟨_, helements, stack', heval, _, hone, top, htop, htrue⟩ := h
    obtain ⟨element, rfl⟩ : ∃ element, stack' = [element] := by
      refine List.length_eq_one_iff.mp ?_
      by_contra hne
      rw [rejectIf, if_pos hne] at hone
      cases hone
    obtain rfl : element = top := Except.ok.inj htop
    refine ⟨fun element hmem => ?_, [element], heval, ?_, rfl⟩
    · by_contra hbig
      rw [rejectIf, if_pos ⟨element, hmem, Nat.lt_of_not_le hbig⟩] at helements
      cases helements
    · by_contra hfalse
      rw [rejectIf, if_pos (by simpa [topIsTrue] using hfalse)] at htrue
      cases htrue
  · rintro ⟨hsmall, stack', heval, htrue, hone⟩
    obtain ⟨element, rfl⟩ := List.length_eq_one_iff.mp hone
    have htrue' : castToBool element = true := htrue
    rw [runWitnessScript, rejectIf, if_neg, Result.ok_bind, heval, Result.ok_bind, rejectIf,
      if_neg (by simp), Result.ok_bind]
    · simp [index, unwrap, rejectIf, htrue']
    · rintro ⟨element, hmem, hbig⟩
      exact Nat.not_le.mpr hbig (hsmall element hmem)

omit [Secp256k1] in
/-- The script of a version 0 program of 20 bytes accepts a signature and its key. -/
lemma runWitnessScript_keyHashScript_iff (hlen : program.length = 20) {stack : Stack} :
    runWitnessScript flags checker stack (keyHashScript program) .witnessV0 .new = .ok () ↔
      ∃ sig pubkey, stack = [sig, pubkey] ∧ sig.length ≤ maxScriptElementSize ∧
        pubkey.length ≤ maxScriptElementSize ∧ (hash160 pubkey).toList = program ∧
        SignedBy ⟨keyHashScript program, flags, checker, .witnessV0⟩ sig pubkey := by
  have hiff := @eval_keyHashScript_iff _ _ flags checker program .witnessV0 .new hlen (.inr rfl)
    stack
  rw [runWitnessScript_iff]
  constructor
  · rintro ⟨hsmall, stack', heval, htrue, hone⟩
    obtain ⟨rest, sig, pubkey, rfl, -, hhash, hsigned, rfl⟩ := hiff.mp ⟨heval, htrue⟩
    obtain rfl : rest = [] := by simpa using hone
    exact ⟨sig, pubkey, rfl, hsmall sig (by simp), hsmall pubkey (by simp), hhash, hsigned⟩
  · rintro ⟨sig, pubkey, rfl, hsig, hpubkey, hhash, hsigned⟩
    obtain ⟨heval, htrue⟩ := hiff.mpr ⟨[], sig, pubkey, rfl, by decide, hhash, hsigned, rfl⟩
    refine ⟨?_, _, heval, htrue, rfl⟩
    simp only [List.mem_cons, List.not_mem_nil, or_false]
    rintro element (rfl | rfl)
    · exact hsig
    · exact hpubkey

/-- A version 0 program of 20 bytes is verified exactly with a signature and a key. -/
lemma verifyWitnessProgram_keyHash_iff (hlen : program.length = 20) {isP2sh : Bool} :
    verifyWitnessProgram flags checker witness 0 program isP2sh = .ok () ↔
      ∃ sig pubkey, witness = [sig, pubkey] ∧ sig.length ≤ maxScriptElementSize ∧
        pubkey.length ≤ maxScriptElementSize ∧ (hash160 pubkey).toList = program ∧
        SignedBy ⟨keyHashScript program, flags, checker, .witnessV0⟩ sig pubkey := by
  have hprogram : verifyWitnessProgram flags checker witness 0 program isP2sh = (do
      rejectIf (witness.length ≠ 2) .witnessProgramMismatch
      runWitnessScript flags checker witness (keyHashScript program) .witnessV0 .new) := by
    rw [verifyWitnessProgram, if_pos rfl, witnessV0Script, if_neg (by omega), if_pos hlen]
    by_cases htwo : witness.length ≠ 2
    · rw [rejectIf, if_pos htwo]
      rfl
    · rw [rejectIf, if_neg htwo]
      rfl
  rw [hprogram, ← runWitnessScript_keyHashScript_iff hlen]
  constructor
  · intro h
    obtain ⟨_, -, h⟩ := Result.bind_eq_ok.mp h
    exact h
  · intro h
    obtain ⟨sig, pubkey, rfl, -⟩ := (runWitnessScript_keyHashScript_iff hlen).mp h
    rw [rejectIf, if_neg (by simp)]
    exact h

/-- A spend of an output with a version 0 program of 20 bytes. -/
lemma verifyScript_version0_iff (hwitness : flags.contains .witness = true)
    (hlen : program.length = 20) :
    verifyScript flags checker scriptSig ([0x00, 0x14] ++ program) witness = .ok () ↔
      scriptSig = [] ∧ castToBool program = true ∧
        verifyWitnessProgram flags checker witness 0 program false = .ok () := by
  have hparse : parseWitnessProgram ([0x00, 0x14] ++ program) = some ⟨0, program⟩ := by
    simp [parseWitnessProgram, hlen]
  have hp2sh : isPayToScriptHash ([0x00, 0x14] ++ program) = .ok false := by
    rw [isPayToScriptHash, if_neg (by simp [hlen])]
    rfl
  exact verifyScript_native_iff hwitness hparse hp2sh
    (evalScript_version0 hlen (by omega) (by omega))

/-- The version 0 program of a key hash is spent exactly by an empty scriptSig and a witness of a
signature and a key: the key hashes to the program, and the signature is one by this key for the
template with the hash. -/
theorem verifyScript_keyHashProgram_iff (hwitness : flags.contains .witness = true)
    (hlen : program.length = 20) :
    verifyScript flags checker scriptSig ([0x00, 0x14] ++ program) witness = .ok () ↔
      scriptSig = [] ∧ castToBool program = true ∧ ∃ sig pubkey, witness = [sig, pubkey] ∧
        sig.length ≤ maxScriptElementSize ∧ pubkey.length ≤ maxScriptElementSize ∧
        (hash160 pubkey).toList = program ∧
        SignedBy ⟨keyHashScript program, flags, checker, .witnessV0⟩ sig pubkey := by
  rw [verifyScript_version0_iff hwitness hlen, verifyWitnessProgram_keyHash_iff hlen]

/-- An accepted spend of the template with a key hash. -/
lemma keyHashScript_of_verifyScript (hlen : program.length = 20)
    (h : verifyScript flags checker scriptSig (keyHashScript program) witness = .ok ()) :
    ∃ afterSig rest sig pubkey, evalScript flags checker [] scriptSig = .ok afterSig ∧
      afterSig = rest ++ [sig, pubkey] ∧ rest.length + 4 ≤ maxStackSize ∧
      (hash160 pubkey).toList = program ∧
      SignedBy ⟨keyHashScript program, flags, checker, .base⟩ sig pubkey ∧
      evalScript flags checker afterSig (keyHashScript program) = .ok (rest ++ [[1]]) := by
  obtain ⟨afterSig, stack, native, hsig, hscript, htrue, -, -⟩ := parts_of_verifyScript h
  obtain ⟨rest, sig, pubkey, hstack, hroom, hhash, hsigned, rfl⟩ :=
    (eval_keyHashScript_iff hlen (.inl rfl)).mp ⟨hscript, htrue⟩
  exact ⟨afterSig, rest, sig, pubkey, hsig, hstack, hroom, hhash, hsigned, hscript⟩

/-- A spend of an output whose script is neither a witness program nor the hash of a script: both
scripts run, and there is no witness. -/
lemma verifyScript_plain_iff {script : List UInt8} (hparse : parseWitnessProgram script = none)
    (hp2sh : isPayToScriptHash script = .ok false) :
    verifyScript flags checker scriptSig script witness = .ok () ↔
      witness = [] ∧
      rejectUnless (flags.contains .sigpushonly) (isPushOnly scriptSig) .sigPushOnly = .ok () ∧
      ∃ afterSig stack, evalScript flags checker [] scriptSig = .ok afterSig ∧
        evalScript flags checker afterSig script = .ok stack ∧ topIsTrue stack = true ∧
        (flags.contains .cleanstack = true → stack.length = 1) := by
  have hpattern : (if flags.contains .p2sh then isPayToScriptHash script
      else pure false : Outcome ScriptError Bool) = .ok false := by
    split_ifs
    · exact hp2sh
    · rfl
  have hprogram : ∀ stack, verifyProgramOf flags checker script scriptSig [] witness
      false .witnessMalleated stack = .ok (stack, false) := by
    intro stack
    rw [verifyProgramOf, hparse]
    split_ifs <;> rfl
  rw [verifyScript]
  simp only [hprogram, hpattern, Result.bind_eq_ok]
  constructor
  · rintro ⟨_, hnowitness, _, hpushOnly, afterSig, hsig, stack, hscript, _, htrue, native, hnative,
      isP2sh, hfalse, nested, hnested, _, hclean, hleft⟩
    obtain rfl := Except.ok.inj hnative
    obtain rfl := Except.ok.inj hfalse
    obtain rfl := Except.ok.inj hnested
    refine ⟨?_, hpushOnly, afterSig, stack, hsig, hscript, ?_, ?_⟩
    · by_contra hne
      cases hflag : flags.contains .witness with
      | true =>
        rw [rejectIf, if_pos (by simp [hflag, hne])] at hleft
        cases hleft
      | false =>
        rw [rejectIf, if_pos (by simp [hflag, hne])] at hnowitness
        cases hnowitness
    · by_contra hfalse
      rw [rejectIf, if_pos (by simpa using hfalse)] at htrue
      cases htrue
    · intro hflag
      by_contra hne
      rw [rejectIf, if_pos ⟨hflag, hne⟩] at hclean
      cases hclean
  · rintro ⟨rfl, hpushOnly, afterSig, stack, hsig, hscript, htrue, hclean⟩
    refine ⟨(), ?_, (), hpushOnly, _, hsig, _, hscript, (), ?_, _, rfl, _, rfl, _, rfl, (), ?_, ?_⟩
    · rw [rejectIf, if_neg (by simp)]
    · rw [rejectIf, if_neg (by simp [htrue])]
    · rw [rejectIf, if_neg]
      rintro ⟨hflag, hne⟩
      exact hne (hclean hflag)
    · rw [rejectIf, if_neg (by simp)]

/-- The template with a key hash is spent exactly by a scriptSig that leaves a signature and a key
on top of its stack, without a witness: the key hashes to the program, and the signature is one by
this key for the template, without the signature itself. -/
theorem verifyScript_keyHashScript_iff (hlen : program.length = 20) :
    verifyScript flags checker scriptSig (keyHashScript program) witness = .ok () ↔
      witness = [] ∧
      rejectUnless (flags.contains .sigpushonly) (isPushOnly scriptSig) .sigPushOnly = .ok () ∧
      ∃ rest sig pubkey, evalScript flags checker [] scriptSig = .ok (rest ++ [sig, pubkey]) ∧
        rest.length + 4 ≤ maxStackSize ∧ (flags.contains .cleanstack = true → rest = []) ∧
        (hash160 pubkey).toList = program ∧
        SignedBy ⟨keyHashScript program, flags, checker, .base⟩ sig pubkey := by
  have hparse : parseWitnessProgram (keyHashScript program) = none := by
    simp [parseWitnessProgram, keyHashScript, hlen]
  have hp2sh : isPayToScriptHash (keyHashScript program) = .ok false := by
    rw [isPayToScriptHash, if_neg (by simp [keyHashScript, hlen])]
    rfl
  have heval := fun stack stack' : Stack => @eval_keyHashScript_iff _ _ flags checker program .base
    .new hlen (.inl rfl) stack stack'
  rw [verifyScript_plain_iff hparse hp2sh]
  refine and_congr_right fun _ => and_congr_right fun _ => ?_
  constructor
  · rintro ⟨afterSig, stack, hsig, hscript, htrue, hclean⟩
    obtain ⟨rest, sig, pubkey, rfl, hroom, hhash, hsigned, rfl⟩ :=
      (heval afterSig stack).mp ⟨hscript, htrue⟩
    refine ⟨rest, sig, pubkey, hsig, hroom, fun hflag => ?_, hhash, hsigned⟩
    simpa using hclean hflag
  · rintro ⟨rest, sig, pubkey, hsig, hroom, hclean, hhash, hsigned⟩
    obtain ⟨hscript, htrue⟩ := (heval (rest ++ [sig, pubkey]) (rest ++ [[1]])).mpr
      ⟨rest, sig, pubkey, rfl, hroom, hhash, hsigned, rfl⟩
    refine ⟨_, _, hsig, hscript, htrue, fun hflag => ?_⟩
    rw [hclean hflag]
    rfl

/-- The annex of a witness, as the data of the execution holds it. -/
def annexData (annex : Option (List UInt8)) : ScriptExecutionData :=
  { ScriptExecutionData.new with
    annexHash := annex.map fun annex =>
      sha256 (writeCompactSize (UInt64.ofNat annex.length) ++ annex) }

/-- The version 1 program of a key is spent without a script exactly by an empty scriptSig and a
schnorr signature by the key, which also signs the annex if there is one. -/
theorem verifyScript_keyPath_iff (hwitness : flags.contains .witness = true)
    (htaproot : flags.contains .taproot = true) (hlen : program.length = 32) {sig : List UInt8}
    {annex : Option (List UInt8)} (hannex : ∀ a, annex = some a → a.head? = some 0x50) :
    verifyScript flags checker scriptSig ([0x51, 0x20] ++ program) (sig :: annex.toList) = .ok () ↔
      scriptSig = [] ∧ castToBool program = true ∧
        checker.checkSchnorrSignature sig program .taproot (annexData annex) = .ok () := by
  have hparse : parseWitnessProgram ([0x51, 0x20] ++ program) = some ⟨1, program⟩ := by
    simp [parseWitnessProgram, hlen]
  have hp2sh : isPayToScriptHash ([0x51, 0x20] ++ program) = .ok false := by
    rw [isPayToScriptHash, if_neg (by simp [hlen])]
    rfl
  have htake : takeAnnex (sig :: annex.toList) .new = .ok ([sig], annexData annex) := by
    cases annex with
    | none => rfl
    | some a =>
      rw [takeAnnex, if_pos (by simp [hannex a rfl])]
      rfl
  rw [verifyScript_native_iff hwitness hparse hp2sh (evalScript_version1 hlen)]
  refine and_congr_right fun _ => and_congr_right fun _ => ?_
  rw [verifyWitnessProgram, if_neg (by simp), if_pos ⟨rfl, hlen, rfl, htaproot⟩, verifyTaproot,
    rejectIf, if_neg (by simp), Result.ok_bind, htake, Result.ok_bind]
  rfl

end Outputs

/-! ### A checker that accepts every signature -/

namespace Sample

/-- Hash functions whose digests are true elements. -/
@[reducible]
def onesHash : LegacyHash :=
  ⟨fun _ => List.Vector.replicate 20 1, fun _ => List.Vector.replicate 20 1⟩

/-- Every signature is right. -/
def trustingChecker : SignatureChecker where
  checkEcdsaSignature _ _ _ _ := .ok true
  checkSchnorrSignature _ _ _ _ := .ok ()
  checkLockTime _ := .ok true
  checkSequence _ := .ok true

/-- The flags of a segwit spend without the encoding rules. -/
def segwitFlags : VerifyFlags := .p2sh ||| .witness ||| .taproot

attribute [local instance] onesHash

/-- A key hash in a version 0 program. -/
theorem verifyScript_keyHashProgram_ones :
    verifyScript segwitFlags trustingChecker [] ([0x00, 0x14] ++ List.replicate 20 1) [[1], [2]] =
      .ok () :=
  (verifyScript_keyHashProgram_iff (by decide) (by simp)).mpr ⟨rfl, by decide, [1], [2], rfl,
    by decide, by decide, by decide, by decide, by decide, by decide, _, rfl, rfl⟩

/-- A key hash in the legacy template. -/
theorem verifyScript_keyHashScript_ones :
    verifyScript segwitFlags trustingChecker [0x51, 0x52] (keyHashScript (List.replicate 20 1)) [] =
      .ok () :=
  (verifyScript_keyHashScript_iff (by simp)).mpr ⟨rfl, by decide, [], [1], [2], by decide +kernel,
    by decide, by decide, by decide, by decide, by decide, by decide,
    keyHashScript (List.replicate 20 1), by decide +kernel, rfl⟩

/-- A key in a version 1 program. -/
theorem verifyScript_keyPath_ones :
    verifyScript segwitFlags trustingChecker [] ([0x51, 0x20] ++ List.replicate 32 1) [[1]] =
      .ok () :=
  have hannex : ∀ a, (none : Option (List UInt8)) = some a → a.head? = some 0x50 := by nofun
  (verifyScript_keyPath_iff (by decide) (by decide) (by simp) hannex).mpr ⟨rfl, by decide, rfl⟩

end Sample

end Bitcrab
