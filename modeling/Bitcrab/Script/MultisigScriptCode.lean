import Bitcrab.Script.Multisig
import Bitcrab.Script.Segments

/-!
# The scriptCode of CHECKMULTISIG

The reference removes the pushes of all signatures of the operation from the scriptCode before it
checks the first one. `eval_checkmultisig` builds the scriptCode of each pair with the push of its
own signature removed, so a signature commits to the pushes of the others that are in the script.

A checker that expects one scriptCode and panics on any other shows which ones it is handed.
-/

namespace Bitcrab

open List Outcome OrderedMatching

/-- A checker that is only to be asked about one scriptCode. -/
def SignatureChecker.expecting (checker : SignatureChecker) (expected : List UInt8) :
    SignatureChecker :=
  { checker with
    checkEcdsaSignature := fun sig pubkey scriptCode sigVersion =>
      if scriptCode = expected then checker.checkEcdsaSignature sig pubkey scriptCode sigVersion
      else .error .panic }

/-- The script after the last separator without the pushes of the signatures. -/
def scriptCodeWithout (ctx : EvalContext) (lastCodeseparator : Nat) (sigs : List (List UInt8)) :
    List UInt8 :=
  deleteChunks (ctx.script.drop lastCodeseparator) (sigs.map pushData)

/-- The evaluation with a checker that expects the scriptCode of the reference. -/
def EvalContext.expecting (ctx : EvalContext) (lastCodeseparator : Nat)
    (sigs : List (List UInt8)) : EvalContext :=
  { ctx with checker := ctx.checker.expecting (scriptCodeWithout ctx lastCodeseparator sigs) }

section ScriptCode

variable {ctx : EvalContext} {lastCodeseparator : Nat} {sigs : List (List UInt8)}

variable (ctx lastCodeseparator) in
/-- The part of a round before the checker is asked. -/
def pairScriptCode (sig pubkey : List UInt8) : Outcome ScriptError (List UInt8) := do
  checkSignatureEncoding sig ctx.flags
  checkPubkeyEncoding pubkey ctx.flags (ctx.sigVersion = .witnessV0)
  buildScriptCode ctx.script lastCodeseparator sig ctx.sigVersion ctx.flags

lemma checkPair_eq (sig pubkey : List UInt8) :
    checkPair ctx lastCodeseparator sig pubkey =
      pairScriptCode ctx lastCodeseparator sig pubkey >>= checkEcdsa ctx sig pubkey := by
  simp only [checkPair, pairScriptCode, bind_assoc]

lemma pairScriptCode_ne_panic (hsep : lastCodeseparator ≤ ctx.script.length)
    (sig pubkey : List UInt8) :
    pairScriptCode ctx lastCodeseparator sig pubkey ≠ .error .panic := by
  have hsafe : Holds False (pairScriptCode ctx lastCodeseparator sig pubkey) fun _ => True := by
    simp only [pairScriptCode, holds_bind]
    refine (holds_checkSignatureEncoding _ _).mono fun _ _ => ?_
    refine (holds_checkPubkeyEncoding _ _ _).mono fun _ _ => ?_
    exact holds_buildScriptCode hsep _ _ _
  exact hsafe.ne_panic

/-- The checker answers every question about a signature that is not empty. -/
lemma exists_checkEcdsa
    (hchecker : ∀ sig pubkey scriptCode, ∃ accepted,
      ctx.checker.checkEcdsaSignature sig pubkey scriptCode ctx.sigVersion = .ok accepted)
    (sig pubkey scriptCode : List UInt8) :
    ∃ accepted, checkEcdsa ctx sig pubkey scriptCode = .ok accepted := by
  rw [checkEcdsa]
  by_cases hempty : sig.isEmpty = true
  · rw [if_pos hempty]
    exact ⟨false, rfl⟩
  · rw [if_neg hempty]
    exact hchecker sig pubkey scriptCode

/-- The scriptCode of a signature is the one of the reference, or the checker is not asked. -/
def HandsReference (ctx : EvalContext) (lastCodeseparator : Nat) (sigs : List (List UInt8))
    (sig : List UInt8) : Prop :=
  sig = [] ∨ deleteChunks (ctx.script.drop lastCodeseparator) [pushData sig] =
    scriptCodeWithout ctx lastCodeseparator sigs

/-- One round with the expecting checker, when the round returns with the other one. -/
lemma checkPair_expecting_of_returns (hbase : ctx.sigVersion = .base)
    (hscript : ctx.script.length < 2 ^ 32) {sig pubkey : List UInt8}
    (hreturns : PairReturns ctx lastCodeseparator sig pubkey) :
    (HandsReference ctx lastCodeseparator sigs sig →
      checkPair (ctx.expecting lastCodeseparator sigs) lastCodeseparator sig pubkey =
        checkPair ctx lastCodeseparator sig pubkey) ∧
    (¬ HandsReference ctx lastCodeseparator sigs sig →
      checkPair (ctx.expecting lastCodeseparator sigs) lastCodeseparator sig pubkey =
        .error .panic) := by
  obtain ⟨matched, hm⟩ := hreturns
  rw [checkPair_eq] at hm
  obtain ⟨code, hcode, _⟩ := Result.bind_eq_ok.mp hm
  have hcode' : pairScriptCode (ctx.expecting lastCodeseparator sigs) lastCodeseparator sig pubkey =
      .ok code := hcode
  have hown : code = deleteChunks (ctx.script.drop lastCodeseparator) [pushData sig] := by
    simp only [pairScriptCode, Result.bind_eq_ok] at hcode
    obtain ⟨_, _, _, _, hbuild⟩ := hcode
    rw [hbase] at hbuild
    exact eq_of_buildScriptCode hscript hbuild
  rw [checkPair_eq, checkPair_eq, hcode, hcode', Result.ok_bind, Result.ok_bind, checkEcdsa,
    checkEcdsa]
  by_cases hempty : sig = []
  · subst hempty
    exact ⟨fun _ => rfl, fun hnot => absurd (Or.inl rfl) hnot⟩
  · have hne : ¬ sig.isEmpty = true := by simpa using hempty
    rw [if_neg hne, if_neg hne]
    constructor
    · intro h
      have heq : code = scriptCodeWithout ctx lastCodeseparator sigs :=
        hown.trans (h.resolve_left hempty)
      exact if_pos heq
    · intro h
      have hdiff : code ≠ scriptCodeWithout ctx lastCodeseparator sigs :=
        fun heq => h (.inr (hown.symm.trans heq))
      exact if_neg hdiff

/-- A round that fails before the checker is asked. -/
lemma checkPair_expecting_of_not_returns
    (hsep : lastCodeseparator ≤ ctx.script.length)
    (hchecker : ∀ sig pubkey scriptCode, ∃ accepted,
      ctx.checker.checkEcdsaSignature sig pubkey scriptCode ctx.sigVersion = .ok accepted)
    {sig pubkey : List UInt8} (hnot : ¬ PairReturns ctx lastCodeseparator sig pubkey) :
    ∃ e, checkPair (ctx.expecting lastCodeseparator sigs) lastCodeseparator sig pubkey =
      .error (.error e) := by
  have hcode : pairScriptCode (ctx.expecting lastCodeseparator sigs) lastCodeseparator sig pubkey =
      pairScriptCode ctx lastCodeseparator sig pubkey := rfl
  rw [checkPair_eq, hcode]
  cases hp : pairScriptCode ctx lastCodeseparator sig pubkey with
  | ok code =>
    refine absurd ?_ hnot
    obtain ⟨accepted, ha⟩ := exists_checkEcdsa hchecker sig pubkey code
    exact ⟨accepted, by rw [checkPair_eq, hp, Result.ok_bind, ha]⟩
  | error e =>
    match e with
    | .error e => exact ⟨e, rfl⟩
    | .panic => exact absurd hp (pairScriptCode_ne_panic hsep sig pubkey)

variable (sigs) in
/-- The rounds of the scan with the expecting checker. -/
lemma checks_expecting (hbase : ctx.sigVersion = .base) (hscript : ctx.script.length < 2 ^ 32)
    (hsep : lastCodeseparator ≤ ctx.script.length)
    (hchecker : ∀ sig pubkey scriptCode, ∃ accepted,
      ctx.checker.checkEcdsaSignature sig pubkey scriptCode ctx.sigVersion = .ok accepted) :
    Checks (checkPair (ctx.expecting lastCodeseparator sigs) lastCodeseparator)
      (fun sig pubkey => PairReturns ctx lastCodeseparator sig pubkey ∧
        (PairReturns ctx lastCodeseparator sig pubkey →
          HandsReference ctx lastCodeseparator sigs sig))
      (PairMatches ctx lastCodeseparator) sigs where
  of_valid sig hsig pubkey h := by
    rw [(checkPair_expecting_of_returns hbase hscript h.1).1 (h.2 h.1)]
    exact (checks_checkPair ctx lastCodeseparator sigs).of_valid sig hsig pubkey h.1
  of_not_valid sig _ pubkey h := by
    by_cases hreturns : PairReturns ctx lastCodeseparator sig pubkey
    · have hnot : ¬ HandsReference ctx lastCodeseparator sigs sig :=
        fun hands => h ⟨hreturns, fun _ => hands⟩
      exact ⟨_, (checkPair_expecting_of_returns hbase hscript hreturns).2 hnot⟩
    · obtain ⟨e, he⟩ := checkPair_expecting_of_not_returns hsep hchecker hreturns
      exact ⟨_, he⟩

/-- The scriptCode of a signature is the one of the reference when no other signature is pushed by
the script. -/
lemma handsReference_iff (hscript : ctx.script.length < 2 ^ 32) {sig : List UInt8}
    (hsig : sig ∈ sigs) :
    HandsReference ctx lastCodeseparator sigs sig ↔
      (sig ≠ [] → ∀ other ∈ sigs, other ≠ sig →
        pushData other ∉ (segments (ctx.script.drop lastCodeseparator)).1) := by
  rw [HandsReference, scriptCodeWithout,
    deleteChunks_singleton_eq_iff (List.mem_map_of_mem hsig), List.forall_mem_map,
      or_iff_not_imp_left]
  refine imp_congr_right fun _ => forall₂_congr fun other _ => ?_
  constructor
  · intro h hne hin
    refine h (fun heq => hne (pushData_injective ?_ heq)) hin
    have := length_le_of_mem_segments hin
    rw [List.length_drop] at this
    omega
  · intro h hne
    exact h fun heq => hne (by rw [heq])

variable {stack : Stack} {opCount : Nat} {args : MultisigArgs}

/-- Only the checker can panic after the operands are taken. -/
lemma evalCheckmultisig_eq_panic_iff (hargs : multisigArgs ctx stack opCount = .ok args) :
    evalCheckmultisig ctx lastCodeseparator stack opCount = .error .panic ↔
      scan (checkPair ctx lastCodeseparator) args.sigs args.pubkeys = .error .panic := by
  rw [evalCheckmultisig_eq hargs]
  cases hscan : scan (checkPair ctx lastCodeseparator) args.sigs args.pubkeys with
  | error e => simp
  | ok result =>
    simp only [Result.ok_bind, rejectIf, reduceCtorEq, iff_false]
    split_ifs <;> simp [fail]

end ScriptCode

/-- In a pre-segwit script every scriptCode that `eval_checkmultisig` hands to the checker is the
script after the last separator without the pushes of all signatures, unless another signature of
the operation is pushed by that part of the script. -/
theorem scriptCode_without_signatures_iff (ctx : EvalContext) (lastCodeseparator : Nat)
    (stack : Stack) (opCount : Nat) (args : MultisigArgs) (hbase : ctx.sigVersion = .base)
    (hscript : ctx.script.length ≤ maxScriptSize)
    (hsep : lastCodeseparator ≤ ctx.script.length)
    (hargs : multisigArgs ctx stack opCount = .ok args)
    (hchecker : ∀ sig pubkey scriptCode, ∃ accepted,
      ctx.checker.checkEcdsaSignature sig pubkey scriptCode ctx.sigVersion = .ok accepted) :
    evalCheckmultisig (ctx.expecting lastCodeseparator args.sigs) lastCodeseparator stack opCount ≠
        .error .panic ↔
      ∀ j sig pubkey,
        Visited (PairReturns ctx lastCodeseparator) (PairMatches ctx lastCodeseparator)
          args.sigs args.pubkeys j sig →
        args.pubkeys[j]? = some pubkey → PairReturns ctx lastCodeseparator sig pubkey →
        sig ≠ [] → ∀ other ∈ args.sigs, other ≠ sig →
          pushData other ∉ (segments (ctx.script.drop lastCodeseparator)).1 := by
  have hlen : ctx.script.length < 2 ^ 32 := hscript.trans_lt (by decide)
  have hchecks := checks_expecting args.sigs hbase hlen hsep hchecker
  have hargs' : multisigArgs (ctx.expecting lastCodeseparator args.sigs) stack opCount = .ok args :=
    hargs
  rw [ne_eq, evalCheckmultisig_eq_panic_iff hargs',
    scan_eq_error_iff hchecks (sigs_length_le hargs)]
  constructor
  · intro h j sig pubkey hvisited hpubkey hreturns
    have hsig : sig ∈ args.sigs := hvisited.meets.mem
    rw [← handsReference_iff hlen hsig]
    by_contra hnot
    -- the first signature that is handed another scriptCode makes the checker panic
    obtain ⟨k, sig', pubkey', hvisited', hpubkey', hnot'⟩ := exists_first_not
      (P := fun sig pubkey => PairReturns ctx lastCodeseparator sig pubkey →
        HandsReference ctx lastCodeseparator args.sigs sig)
      ⟨j, sig, pubkey, hvisited, hpubkey, fun himp => hnot (himp hreturns)⟩
    obtain ⟨hreturns', hnot'⟩ := Classical.not_imp.mp hnot'
    exact h ⟨k, sig', pubkey', hvisited', hpubkey',
      (checkPair_expecting_of_returns hbase hlen hreturns').2 hnot'⟩
  · rintro h ⟨j, sig, pubkey, hvisited, hpubkey, hpanic⟩
    by_cases hreturns : PairReturns ctx lastCodeseparator sig pubkey
    · have hvisited' := hvisited.mono fun _ _ hvalid => hvalid.1
      have hands := (handsReference_iff hlen hvisited.meets.mem).mpr
        (h j sig pubkey hvisited' hpubkey hreturns)
      rw [(checkPair_expecting_of_returns hbase hlen hreturns).1 hands] at hpanic
      obtain ⟨matched, hm⟩ := hreturns
      rw [hm] at hpanic
      cases hpanic
    · obtain ⟨e, he⟩ := checkPair_expecting_of_not_returns hsep hchecker hreturns
      rw [he] at hpanic
      cases hpanic

namespace Sample

/-- A script that pushes the two signatures that it checks. -/
def selfSigned : EvalContext :=
  ⟨pushData [1] ++ pushData [2] ++ [0xae], ⟨0⟩, acceptsPairs fun _ _ => true, .base⟩

/-- The two signatures and two keys. -/
def twoOfTwo : MultisigArgs := ⟨[[3], [4]], [[1], [2]], [], 2⟩

/-- The first signature is checked with the push of the second one in its scriptCode. -/
theorem not_scriptCode_without_selfSigned :
    ¬ ∀ (ctx : EvalContext) (lastCodeseparator : Nat) (stack : Stack) (opCount : Nat)
      (args : MultisigArgs), ctx.sigVersion = .base → ctx.script.length ≤ maxScriptSize →
      lastCodeseparator ≤ ctx.script.length → multisigArgs ctx stack opCount = .ok args →
      (∀ sig pubkey scriptCode, ∃ accepted,
        ctx.checker.checkEcdsaSignature sig pubkey scriptCode ctx.sigVersion = .ok accepted) →
      evalCheckmultisig (ctx.expecting lastCodeseparator args.sigs) lastCodeseparator stack
        opCount ≠ .error .panic := by
  intro h
  exact h selfSigned 0 (multisigStack twoOfTwo) 0 twoOfTwo rfl (by decide) (Nat.zero_le _)
    (by decide +kernel) (fun _ _ _ => ⟨true, rfl⟩) (by decide +kernel)

/-- The same signature twice, for the same key. -/
def twiceSigned : MultisigArgs := ⟨[[3], [3]], [[1], [1]], [], 2⟩

/-- The script pushes it, but no other signature. -/
theorem scriptCode_without_twiceSigned :
    evalCheckmultisig (selfSigned.expecting 0 twiceSigned.sigs) 0 (multisigStack twiceSigned) 0 ≠
      .error .panic := by
  refine (scriptCode_without_signatures_iff selfSigned 0 (multisigStack twiceSigned) 0 twiceSigned
    rfl (by decide) (Nat.zero_le _) (by decide +kernel) fun _ _ _ => ⟨true, rfl⟩).mpr ?_
  intro j sig pubkey hvisited _ _ _ other hother hne
  have hsame : ∀ sig ∈ twiceSigned.sigs, sig = [1] := by decide
  exact absurd ((hsame other hother).trans (hsame sig hvisited.meets.mem).symm) hne

end Sample

end Bitcrab
