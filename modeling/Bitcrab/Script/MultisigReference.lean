import Bitcrab.Script.MultisigScriptCode

/-!
# CHECKMULTISIG and the reference scan

The `OP_CHECKMULTISIG` branch of `EvalScript` starts with the signature and the key on top of the
stack, the last ones. `eval_checkmultisig` starts with the first ones. Both scans find a matching
when there is one, but they look at different pairs, so they can differ in whether a badly encoded
signature or key fails the script.
-/

namespace Bitcrab

open List Outcome OrderedMatching

/-! ### The reference -/

section Reference

variable (ctx : EvalContext) (lastCodeseparator : Nat)

local instance lawfulBEq_bytes : LawfulBEq (List UInt8) := inferInstance

/-- The scriptCode of all signatures, as the reference builds it before the loop. -/
def coreScriptCode (sigs : List (List UInt8)) : Outcome ScriptError (List UInt8) := do
  let scriptCode := ctx.script.drop lastCodeseparator
  if ctx.sigVersion = .base then
    rejectIf (ctx.flags.contains .constScriptcode ∧
      ∃ sig ∈ sigs, pushData sig ∈ (segments scriptCode).1) .sigFindAndDelete
    return scriptCodeWithout ctx lastCodeseparator sigs
  else
    return scriptCode

/-- One round of the reference loop. Its checkers reject an empty signature themselves. -/
def coreCheckPair (scriptCode sig pubkey : List UInt8) : Outcome ScriptError Bool := do
  checkSignatureEncoding sig ctx.flags
  checkPubkeyEncoding pubkey ctx.flags (ctx.sigVersion = .witnessV0)
  checkEcdsa ctx sig pubkey scriptCode

/-- The `OP_CHECKMULTISIG` branch of `EvalScript`: the scan from the top of the stack, and the
`NULLFAIL` rule on all signatures. -/
def coreCheckmultisig (stack : Stack) (opCount : Nat) :
    Outcome ScriptError (Bool × Stack × Nat) := do
  let args ← multisigArgs ctx stack opCount
  let scriptCode ← coreScriptCode ctx lastCodeseparator args.sigs
  let (success, _) ← scan (coreCheckPair ctx scriptCode) args.sigs.reverse args.pubkeys.reverse
  rejectIf (!success ∧ ctx.flags.contains .nullfail ∧ ∃ sig ∈ args.sigs, sig ≠ []) .sigNullFail
  return (success, args.stack, args.opCount)

/-- What the script sees of a signature opcode: its verdict, or that the script fails. -/
def verdict : Outcome ScriptError (Bool × Stack × Nat) → Option Bool
  | .ok (success, _) => some success
  | .error _ => none

end Reference

/-! ### The two scans -/

section Scans

variable (ctx : EvalContext) (lastCodeseparator : Nat)

/-- The key accepts the signature for the script after the last separator. -/
def Accepts (sig pubkey : List UInt8) : Prop :=
  checkEcdsa ctx sig pubkey (ctx.script.drop lastCodeseparator) = .ok true

/-- The round of the reference raises no error. -/
def CorePairReturns (sig pubkey : List UInt8) : Prop :=
  ∃ matched, coreCheckPair ctx (ctx.script.drop lastCodeseparator) sig pubkey = .ok matched

/-- When the verdicts of the two scans agree. If there is a matching, one of them gets to a pair
that raises an error when the other one does. If there is none, this also counts the signatures
that the `NULLFAIL` rule inspects: those from the last one that the scan reaches on, or all of
them. -/
structure ScansAgree (args : MultisigArgs) : Prop where
  of_matching : SublistForall₂ (Accepts ctx lastCodeseparator) args.sigs args.pubkeys →
    (ReachedValid (PairReturns ctx lastCodeseparator) (Accepts ctx lastCodeseparator)
        args.sigs args.pubkeys ↔
      ReachedValid (CorePairReturns ctx lastCodeseparator) (Accepts ctx lastCodeseparator)
        args.sigs.reverse args.pubkeys.reverse)
  of_no_matching : ¬ SublistForall₂ (Accepts ctx lastCodeseparator) args.sigs args.pubkeys →
    (ReachedValid (PairReturns ctx lastCodeseparator) (Accepts ctx lastCodeseparator)
          args.sigs args.pubkeys ∧
        (ctx.flags.contains .nullfail = true → ∀ (l : Nat) (sig : List UInt8),
          args.sigs[l]? = some sig →
          (∀ i j, Reached (Accepts ctx lastCodeseparator) args.sigs args.pubkeys i j → i ≤ l) →
          sig = []) ↔
      ReachedValid (CorePairReturns ctx lastCodeseparator) (Accepts ctx lastCodeseparator)
          args.sigs.reverse args.pubkeys.reverse ∧
        (ctx.flags.contains .nullfail = true → ∀ sig ∈ args.sigs, sig = []))

end Scans

section Verdicts

variable {ctx : EvalContext} {lastCodeseparator : Nat} {stack : Stack} {opCount : Nat}
  {args : MultisigArgs}

variable (ctx lastCodeseparator) in
lemma checks_coreCheckPair (sigs : List (List UInt8)) :
    Checks (coreCheckPair ctx (ctx.script.drop lastCodeseparator))
      (CorePairReturns ctx lastCodeseparator) (Accepts ctx lastCodeseparator) sigs where
  of_valid sig _ pubkey h := by
    obtain ⟨matched, hm⟩ := h
    refine ⟨matched, hm, ?_⟩
    simp only [coreCheckPair, Result.bind_eq_ok] at hm
    obtain ⟨_, _, _, _, hm⟩ := hm
    rw [Accepts, hm, Except.ok.injEq]
  of_not_valid sig _ pubkey h := by
    cases hc : coreCheckPair ctx (ctx.script.drop lastCodeseparator) sig pubkey with
    | ok matched => exact absurd ⟨matched, hc⟩ h
    | error e => exact ⟨e, rfl⟩

/-- Without the push of the signature the scriptCode is the script after the last separator. -/
lemma eq_drop_of_buildScriptCode (hscript : ctx.script.length < 2 ^ 32) {sig code : List UInt8}
    (hsig : pushData sig ∉ (segments (ctx.script.drop lastCodeseparator)).1)
    (h : buildScriptCode ctx.script lastCodeseparator sig ctx.sigVersion ctx.flags = .ok code) :
    code = ctx.script.drop lastCodeseparator := by
  by_cases hbase : ctx.sigVersion = .base
  · rw [hbase] at h
    rw [eq_of_buildScriptCode hscript h, deleteChunks_of_forall_notMem (by simpa using hsig)]
  · rw [buildScriptCode] at h
    obtain ⟨suffix, hslice, h⟩ := Result.bind_eq_ok.mp h
    rw [if_neg hbase] at h
    cases h
    exact eq_drop_of_slice hslice

/-- The rounds of `eval_checkmultisig`, when no signature is pushed by the script. -/
lemma checks_checkPair_accepts (hscript : ctx.script.length < 2 ^ 32) {sigs : List (List UInt8)}
    (hnone : ∀ sig ∈ sigs, pushData sig ∉ (segments (ctx.script.drop lastCodeseparator)).1) :
    Checks (checkPair ctx lastCodeseparator) (PairReturns ctx lastCodeseparator)
      (Accepts ctx lastCodeseparator) sigs where
  of_valid sig hsig pubkey h := by
    obtain ⟨matched, hm⟩ := h
    refine ⟨matched, hm, ?_⟩
    simp only [checkPair, Result.bind_eq_ok] at hm
    obtain ⟨_, _, _, _, code, hcode, hm⟩ := hm
    obtain rfl := eq_drop_of_buildScriptCode hscript (hnone sig hsig) hcode
    rw [Accepts, hm, Except.ok.injEq]
  of_not_valid := (checks_checkPair ctx lastCodeseparator sigs).of_not_valid

/-- The `NULLFAIL` rule on the given signatures, after a verdict. -/
lemma verdict_nullFail_eq_true {success : Bool} {sigs : List (List UInt8)} {after : Stack × Nat} :
    verdict (do
      rejectIf (!success ∧ ctx.flags.contains .nullfail ∧ ∃ sig ∈ sigs, sig ≠ []) .sigNullFail
      return (success, after)) = some true ↔ success = true := by
  rw [rejectIf]
  split_ifs with h
  · simpa [verdict, fail] using h.1
  · simp [verdict]

lemma verdict_nullFail_eq_false {success : Bool} {sigs : List (List UInt8)} {after : Stack × Nat} :
    verdict (do
      rejectIf (!success ∧ ctx.flags.contains .nullfail ∧ ∃ sig ∈ sigs, sig ≠ []) .sigNullFail
      return (success, after)) = some false ↔
      ¬ success = true ∧ (ctx.flags.contains .nullfail = true → ∀ sig ∈ sigs, sig = []) := by
  rw [rejectIf]
  split_ifs with h
  · obtain ⟨_, hnull, sig, hsig, hne⟩ := h
    refine iff_of_false (by simp [verdict, fail]) ?_
    rintro ⟨_, hall⟩
    exact hne (hall hnull sig hsig)
  · cases success with
    | true => simp [verdict]
    | false =>
      refine iff_of_true (by simp [verdict]) ⟨Bool.false_ne_true, fun hnull sig hsig => ?_⟩
      by_contra hne
      exact h ⟨rfl, hnull, sig, hsig, hne⟩

lemma verdict_true_iff (hargs : multisigArgs ctx stack opCount = .ok args)
    (hc : Checks (checkPair ctx lastCodeseparator) (PairReturns ctx lastCodeseparator)
      (Accepts ctx lastCodeseparator) args.sigs) :
    verdict (evalCheckmultisig ctx lastCodeseparator stack opCount) = some true ↔
      ReachedValid (PairReturns ctx lastCodeseparator) (Accepts ctx lastCodeseparator)
          args.sigs args.pubkeys ∧
        SublistForall₂ (Accepts ctx lastCodeseparator) args.sigs args.pubkeys := by
  rw [evalCheckmultisig_eq hargs, ← scan_returns_iff hc (sigs_length_le hargs)]
  cases hscan : scan (checkPair ctx lastCodeseparator) args.sigs args.pubkeys with
  | error e => simp [verdict]
  | ok result =>
    rw [Result.ok_bind, verdict_nullFail_eq_true, scan_success_iff hc hscan]
    simp

lemma verdict_false_iff (hargs : multisigArgs ctx stack opCount = .ok args)
    (hc : Checks (checkPair ctx lastCodeseparator) (PairReturns ctx lastCodeseparator)
      (Accepts ctx lastCodeseparator) args.sigs) :
    verdict (evalCheckmultisig ctx lastCodeseparator stack opCount) = some false ↔
      ¬ SublistForall₂ (Accepts ctx lastCodeseparator) args.sigs args.pubkeys ∧
        ReachedValid (PairReturns ctx lastCodeseparator) (Accepts ctx lastCodeseparator)
          args.sigs args.pubkeys ∧
        (ctx.flags.contains .nullfail = true → ∀ (l : Nat) (sig : List UInt8),
          args.sigs[l]? = some sig →
          (∀ i j, Reached (Accepts ctx lastCodeseparator) args.sigs args.pubkeys i j → i ≤ l) →
          sig = []) := by
  have hle := sigs_length_le hargs
  rw [evalCheckmultisig_eq hargs, ← scan_returns_iff hc hle]
  cases hscan : scan (checkPair ctx lastCodeseparator) args.sigs args.pubkeys with
  | error e => simp [verdict]
  | ok result =>
    obtain ⟨success, rest⟩ := result
    rw [Result.ok_bind, verdict_nullFail_eq_false, scan_success_iff hc hscan]
    simp only [Except.ok.injEq, exists_eq', true_and]
    refine and_congr_right fun hno => imp_congr_right fun _ => ?_
    have hfalse : success = false := by
      rw [← Bool.not_eq_true, scan_success_iff hc hscan]
      exact hno
    subst hfalse
    simp only [mem_scan_rest_iff hc hle hscan]
    constructor
    · intro h l sig hl hlast
      exact h sig ⟨l, hl, hlast⟩
    · rintro h sig ⟨l, hl, hlast⟩
      exact h l sig hl hlast

/-- The reference before its loop, when no signature is pushed by the script. -/
lemma coreScriptCode_eq {sigs : List (List UInt8)}
    (hnone : ∀ sig ∈ sigs, pushData sig ∉ (segments (ctx.script.drop lastCodeseparator)).1) :
    coreScriptCode ctx lastCodeseparator sigs = .ok (ctx.script.drop lastCodeseparator) := by
  have hfound : ¬ ∃ sig ∈ sigs,
      pushData sig ∈ (segments (ctx.script.drop lastCodeseparator)).1 := by
    rintro ⟨sig, hsig, hin⟩
    exact hnone sig hsig hin
  have hcode : scriptCodeWithout ctx lastCodeseparator sigs = ctx.script.drop lastCodeseparator :=
    deleteChunks_of_forall_notMem (by simpa [List.forall_mem_map] using hnone)
  rw [coreScriptCode]
  by_cases hbase : ctx.sigVersion = .base
  · rw [if_pos hbase, rejectIf, if_neg fun h => hfound h.2, hcode]
    rfl
  · rw [if_neg hbase]
    rfl

/-- The reference after its operands. -/
lemma coreCheckmultisig_eq (hargs : multisigArgs ctx stack opCount = .ok args)
    (hnone : ∀ sig ∈ args.sigs, pushData sig ∉ (segments (ctx.script.drop lastCodeseparator)).1) :
    coreCheckmultisig ctx lastCodeseparator stack opCount = do
      let (success, _) ← scan (coreCheckPair ctx (ctx.script.drop lastCodeseparator))
        args.sigs.reverse args.pubkeys.reverse
      rejectIf (!success ∧ ctx.flags.contains .nullfail ∧ ∃ sig ∈ args.sigs, sig ≠ []) .sigNullFail
      return (success, args.stack, args.opCount) := by
  rw [coreCheckmultisig, hargs, Result.ok_bind, coreScriptCode_eq hnone, Result.ok_bind]

lemma length_reverse_le (hargs : multisigArgs ctx stack opCount = .ok args) :
    args.sigs.reverse.length ≤ args.pubkeys.reverse.length := by
  simpa using sigs_length_le hargs

lemma verdict_core_true_iff (hargs : multisigArgs ctx stack opCount = .ok args)
    (hnone : ∀ sig ∈ args.sigs, pushData sig ∉ (segments (ctx.script.drop lastCodeseparator)).1) :
    verdict (coreCheckmultisig ctx lastCodeseparator stack opCount) = some true ↔
      ReachedValid (CorePairReturns ctx lastCodeseparator) (Accepts ctx lastCodeseparator)
          args.sigs.reverse args.pubkeys.reverse ∧
        SublistForall₂ (Accepts ctx lastCodeseparator) args.sigs args.pubkeys := by
  have hc := checks_coreCheckPair ctx lastCodeseparator args.sigs.reverse
  rw [coreCheckmultisig_eq hargs hnone, ← scan_returns_iff hc (length_reverse_le hargs),
    ← sublistForall₂_reverse]
  cases hscan : scan (coreCheckPair ctx (ctx.script.drop lastCodeseparator)) args.sigs.reverse
      args.pubkeys.reverse with
  | error e => simp [verdict]
  | ok result =>
    rw [Result.ok_bind, verdict_nullFail_eq_true, scan_success_iff hc hscan]
    simp

lemma verdict_core_false_iff (hargs : multisigArgs ctx stack opCount = .ok args)
    (hnone : ∀ sig ∈ args.sigs, pushData sig ∉ (segments (ctx.script.drop lastCodeseparator)).1) :
    verdict (coreCheckmultisig ctx lastCodeseparator stack opCount) = some false ↔
      ¬ SublistForall₂ (Accepts ctx lastCodeseparator) args.sigs args.pubkeys ∧
        ReachedValid (CorePairReturns ctx lastCodeseparator) (Accepts ctx lastCodeseparator)
          args.sigs.reverse args.pubkeys.reverse ∧
        (ctx.flags.contains .nullfail = true → ∀ sig ∈ args.sigs, sig = []) := by
  have hc := checks_coreCheckPair ctx lastCodeseparator args.sigs.reverse
  rw [coreCheckmultisig_eq hargs hnone, ← scan_returns_iff hc (length_reverse_le hargs),
    ← sublistForall₂_reverse]
  cases hscan : scan (coreCheckPair ctx (ctx.script.drop lastCodeseparator)) args.sigs.reverse
      args.pubkeys.reverse with
  | error e => simp [verdict]
  | ok result =>
    rw [Result.ok_bind, verdict_nullFail_eq_false, scan_success_iff hc hscan]
    simp

/-- The verdicts of a script that pushes none of the signatures. -/
lemma verdict_eq_iff (hscript : ctx.script.length < 2 ^ 32)
    (hargs : multisigArgs ctx stack opCount = .ok args)
    (hnone : ∀ sig ∈ args.sigs, pushData sig ∉ (segments (ctx.script.drop lastCodeseparator)).1) :
    verdict (evalCheckmultisig ctx lastCodeseparator stack opCount) =
        verdict (coreCheckmultisig ctx lastCodeseparator stack opCount) ↔
      ScansAgree ctx lastCodeseparator args := by
  have hc := checks_checkPair_accepts hscript hnone
  have heq : ∀ o o' : Option Bool,
      o = o' ↔ (o = some true ↔ o' = some true) ∧ (o = some false ↔ o' = some false) := by
    rintro (_ | _ | _) (_ | _ | _) <;> simp
  rw [heq, verdict_true_iff hargs hc, verdict_false_iff hargs hc,
    verdict_core_true_iff hargs hnone, verdict_core_false_iff hargs hnone]
  constructor
  · rintro ⟨htrue, hfalse⟩
    refine ⟨fun hm => ?_, fun hm => ?_⟩
    · simpa [hm] using htrue
    · simpa [hm] using hfalse
  · rintro ⟨htrue, hfalse⟩
    refine ⟨and_congr_left htrue, and_congr_right hfalse⟩

end Verdicts

/-- In a script that pushes none of the signatures, `eval_checkmultisig` and the reference have the
same verdict exactly when their scans agree on the errors that they get to. -/
theorem verdict_eq_reference_iff (ctx : EvalContext) (lastCodeseparator : Nat) (stack : Stack)
    (opCount : Nat) (hscript : ctx.script.length ≤ maxScriptSize)
    (hnone : ∀ args, multisigArgs ctx stack opCount = .ok args → ∀ sig ∈ args.sigs,
      pushData sig ∉ (segments (ctx.script.drop lastCodeseparator)).1) :
    verdict (evalCheckmultisig ctx lastCodeseparator stack opCount) =
        verdict (coreCheckmultisig ctx lastCodeseparator stack opCount) ↔
      ∀ args, multisigArgs ctx stack opCount = .ok args →
        ScansAgree ctx lastCodeseparator args := by
  have hlen : ctx.script.length < 2 ^ 32 := hscript.trans_lt (by decide)
  cases hargs : multisigArgs ctx stack opCount with
  | error e =>
    -- both take the same operands first
    rw [evalCheckmultisig, coreCheckmultisig, hargs]
    exact iff_of_true rfl (by simp)
  | ok args =>
    rw [verdict_eq_iff hlen hargs (hnone args hargs)]
    simp

namespace Sample

/-- No key accepts a signature, and signatures must be encoded in DER. -/
def derContext : EvalContext := ⟨[0xae], .dersig, acceptsPairs fun _ _ => false, .base⟩

/-- A signature with a valid encoding. -/
def derSig : List UInt8 := [0x30, 6, 2, 1, 1, 2, 1, 1, 1]

/-- Two signatures, the first of which is badly encoded, and two keys. -/
def badFirst : MultisigArgs := ⟨[[3], [4]], [[1], derSig], [], 2⟩

/-- The reference fails with the second signature and does not look at the first one. -/
theorem verdict_ne_reference_badFirst :
    ¬ ∀ (ctx : EvalContext) (lastCodeseparator : Nat) (stack : Stack) (opCount : Nat),
      ctx.script.length ≤ maxScriptSize →
      (∀ args, multisigArgs ctx stack opCount = .ok args → ∀ sig ∈ args.sigs,
        pushData sig ∉ (segments (ctx.script.drop lastCodeseparator)).1) →
      verdict (evalCheckmultisig ctx lastCodeseparator stack opCount) =
        verdict (coreCheckmultisig ctx lastCodeseparator stack opCount) := by
  intro h
  have hargs : multisigArgs derContext (multisigStack badFirst) 0 = .ok badFirst := by
    decide +kernel
  have heq := h derContext 0 (multisigStack badFirst) 0 (by decide) (by
    intro args heq
    rw [hargs] at heq
    cases heq
    decide +kernel)
  revert heq
  decide +kernel

/-- Two matching signatures, and no pair that raises an error. -/
lemma scansAgree_twoOfThree : ScansAgree (multisigContext .nullfail) 0 twoOfThree := by
  have hpairs : ∀ sig ∈ twoOfThree.sigs, ∀ pubkey ∈ twoOfThree.pubkeys,
      checkPair (multisigContext .nullfail) 0 sig pubkey = .ok (sig == pubkey) ∧
        coreCheckPair (multisigContext .nullfail) [0xae] sig pubkey = .ok (sig == pubkey) := by
    decide +kernel
  have hmatching : SublistForall₂ (Accepts (multisigContext .nullfail) 0) twoOfThree.sigs
      twoOfThree.pubkeys :=
    .cons (by unfold Accepts; decide +kernel)
      (.cons_right (.cons (by unfold Accepts; decide +kernel) .nil))
  refine ⟨fun _ => iff_of_true ?_ ?_, fun hnot => absurd hmatching hnot⟩
  · intro j sig pubkey hmeets hpubkey
    exact ⟨_, (hpairs sig hmeets.mem pubkey (List.mem_of_getElem? hpubkey)).1⟩
  · intro j sig pubkey hmeets hpubkey
    exact ⟨_, (hpairs sig (List.mem_reverse.mp hmeets.mem) pubkey
      (List.mem_reverse.mp (List.mem_of_getElem? hpubkey))).2⟩

theorem verdict_eq_reference_twoOfThree :
    verdict (evalCheckmultisig (multisigContext .nullfail) 0 (multisigStack twoOfThree) 0) =
      verdict (coreCheckmultisig (multisigContext .nullfail) 0 (multisigStack twoOfThree) 0) := by
  have hargs : multisigArgs (multisigContext .nullfail) (multisigStack twoOfThree) 0 =
      .ok twoOfThree := by
    decide +kernel
  refine (verdict_eq_reference_iff (multisigContext .nullfail) 0 (multisigStack twoOfThree) 0
    (by decide) ?_).mpr ?_
  · intro args heq
    rw [hargs] at heq
    obtain rfl := Except.ok.inj heq
    decide +kernel
  · intro args heq
    rw [hargs] at heq
    obtain rfl := Except.ok.inj heq
    exact scansAgree_twoOfThree

end Sample

end Bitcrab
