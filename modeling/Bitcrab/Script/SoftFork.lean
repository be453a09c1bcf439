import Bitcrab.Script.Interpreter

/-!
# Soft forks only restrict

Among the consensus flags, a verification under more flags makes more checks and otherwise computes
the same. The one exception is the check at the start of `verify_script` that no witness is given
when `WITNESS` is off.
-/

namespace Bitcrab

open Outcome

/-! ### Flag sets -/

namespace VerifyFlags

lemma contains_iff {flags other : VerifyFlags} :
    flags.contains other = true ↔ flags.bits &&& other.bits = other.bits := by
  simp [contains]

lemma contains_trans {F G p : VerifyFlags} (hFG : G.contains F) (h : F.contains p) :
    G.contains p = true := by
  rw [contains_iff] at hFG h ⊢
  calc G.bits &&& p.bits = G.bits &&& (F.bits &&& p.bits) := by rw [h]
    _ = (G.bits &&& F.bits) &&& p.bits := by rw [UInt32.and_assoc]
    _ = p.bits := by rw [hFG, h]

/-- A flag outside of a set is in none of its subsets. -/
lemma not_contains_of_disjoint {C G p : VerifyFlags} (hG : C.contains G)
    (hdisj : C.bits &&& p.bits = 0) (hp : p.bits ≠ 0) : G.contains p = false := by
  rw [Bool.eq_false_iff]
  intro h
  have hC := contains_trans hG h
  rw [contains_iff, hdisj] at hC
  exact hp hC.symm

/-- The flags that no consensus rule sets. -/
def policyFlags : List VerifyFlags :=
  [strictenc, lowS, sigpushonly, minimaldata, discourageUpgradableNops, cleanstack,
    discourageUpgradableWitnessProgram, minimalif, nullfail, witnessPubkeytype, constScriptcode,
    discourageUpgradableTaprootVersion, discourageOpSuccess, discourageUpgradablePubkeytype]

lemma not_contains_policy {G p : VerifyFlags} (hG : consensusTaproot.contains G)
    (hp : p ∈ policyFlags) : G.contains p = false := by
  have hdisj : ∀ q ∈ policyFlags, consensusTaproot.bits &&& q.bits = 0 ∧ q.bits ≠ 0 := by decide
  exact not_contains_of_disjoint hG (hdisj p hp).1 (hdisj p hp).2

/-- `F` is a subset of `G`, which is a set of consensus flags. -/
structure Relaxes (F G : VerifyFlags) : Prop where
  subset : G.contains F = true
  consensus : consensusTaproot.contains G = true

/-- A script is only run with a witness when it is also run as P2SH, and taproot needs a witness. -/
def RespectsDependencies (F : VerifyFlags) : Prop :=
  (F.contains witness → F.contains p2sh) ∧ (F.contains taproot → F.contains witness)

instance (F : VerifyFlags) : Decidable F.RespectsDependencies :=
  inferInstanceAs (Decidable (_ ∧ _))

namespace Relaxes

variable {F G p : VerifyFlags}

lemma mono (h : Relaxes F G) (hp : F.contains p = true) : G.contains p = true :=
  contains_trans h.subset hp

lemma strict (h : Relaxes F G) (hp : p ∈ policyFlags) : G.contains p = false :=
  not_contains_policy h.consensus hp

lemma relaxed (h : Relaxes F G) (hp : p ∈ policyFlags) : F.contains p = false :=
  not_contains_policy (contains_trans h.consensus h.subset) hp

end Relaxes

end VerifyFlags

open VerifyFlags

section Flags

variable {F G : VerifyFlags} (h : Relaxes F G)
include h

lemma refines_checkSignatureEncoding (sig : List UInt8) :
    Refines (checkSignatureEncoding sig G) (checkSignatureEncoding sig F) := by
  unfold checkSignatureEncoding
  by_cases hsig : sig.isEmpty = true
  · simp only [hsig, if_true]
    exact Refines.refl _
  · simp only [hsig, h.strict (p := lowS) (by decide), h.relaxed (p := lowS) (by decide),
      h.strict (p := strictenc) (by decide), h.relaxed (p := strictenc) (by decide),
      Bool.or_false]
    exact (Refines.rejectUnless _ h.mono).bind fun _ _ => Refines.refl _

lemma checkPubkeyEncoding_congr (pubkey : List UInt8) (isWitnessV0 : Bool) :
    checkPubkeyEncoding pubkey G isWitnessV0 = checkPubkeyEncoding pubkey F isWitnessV0 := by
  simp only [checkPubkeyEncoding, h.strict (p := strictenc) (by decide),
    h.relaxed (p := strictenc) (by decide), h.strict (p := witnessPubkeytype) (by decide),
    h.relaxed (p := witnessPubkeytype) (by decide)]

lemma buildScriptCode_congr (script : List UInt8) (lastCodeseparator : Nat) (sig : List UInt8)
    (sigVersion : SigVersion) :
    buildScriptCode script lastCodeseparator sig sigVersion G =
      buildScriptCode script lastCodeseparator sig sigVersion F := by
  simp only [buildScriptCode, h.strict (p := constScriptcode) (by decide),
    h.relaxed (p := constScriptcode) (by decide)]

lemma evalChecksigTapscript_congr (sig pubkey : List UInt8) (checker : SignatureChecker)
    (execData : ScriptExecutionData) :
    evalChecksigTapscript sig pubkey G checker execData =
      evalChecksigTapscript sig pubkey F checker execData := by
  simp only [evalChecksigTapscript, h.strict (p := discourageUpgradablePubkeytype) (by decide),
    h.relaxed (p := discourageUpgradablePubkeytype) (by decide)]

/-! ### Evaluation -/

section Eval

variable {script : List UInt8} {checker : SignatureChecker} {sigVersion : SigVersion}

lemma refines_multisigLoop (sigs pubkeys : List (List UInt8)) (lastCodeseparator fuel : Nat)
    (sigIndex keyIndex remainingSigs : Nat) :
    Refines
      (multisigLoop ⟨script, G, checker, sigVersion⟩ lastCodeseparator sigs pubkeys fuel sigIndex
        keyIndex remainingSigs)
      (multisigLoop ⟨script, F, checker, sigVersion⟩ lastCodeseparator sigs pubkeys fuel sigIndex
        keyIndex remainingSigs) := by
  induction fuel generalizing sigIndex keyIndex remainingSigs with
  | zero =>
    simp only [multisigLoop]
    exact Refines.refl _
  | succ fuel ih =>
    unfold multisigLoop
    by_cases hr : remainingSigs = 0
    · simp only [hr, if_true]
      exact Refines.refl _
    simp only [hr, if_false, checkPubkeyEncoding_congr h, buildScriptCode_congr h]
    -- only the encoding check of the signature differs, and then the rounds that follow
    refine (Refines.refl _).bind fun sig _ => ?_
    refine (Refines.refl _).bind fun pubkey _ => ?_
    refine (refines_checkSignatureEncoding h sig).bind fun _ _ => ?_
    refine (Refines.refl _).bind fun _ _ => ?_
    refine (Refines.refl _).bind fun scriptCode _ => ?_
    refine (Refines.refl _).bind fun matched _ => ?_
    refine (Refines.refl _).bind fun remaining _ => ?_
    refine (Refines.refl _).bind fun keysLeft _ => ?_
    by_cases hmore : remaining > keysLeft
    · simp only [hmore, if_true]
      exact Refines.refl _
    · simp only [hmore, if_false]
      exact ih _ _ _

variable (script checker sigVersion) in
lemma requireMinimal_eq_false :
    EvalContext.requireMinimal ⟨script, G, checker, sigVersion⟩ = false ∧
      EvalContext.requireMinimal ⟨script, F, checker, sigVersion⟩ = false :=
  ⟨h.strict (p := minimaldata) (by decide), h.relaxed (p := minimaldata) (by decide)⟩

lemma refines_multisigArgs (stack : Stack) (opCount : Nat) :
    Refines (multisigArgs ⟨script, G, checker, sigVersion⟩ stack opCount)
      (multisigArgs ⟨script, F, checker, sigVersion⟩ stack opCount) := by
  obtain ⟨hG, hF⟩ := requireMinimal_eq_false h script checker sigVersion
  unfold multisigArgs
  simp only [hG, hF]
  refine (Refines.refl _).bind fun _ _ => ?_
  refine (Refines.refl _).bind fun _ _ => ?_
  refine (Refines.refl _).bind fun _ _ => ?_
  refine (Refines.refl _).bind fun _ _ => ?_
  refine (Refines.refl _).bind fun _ _ => ?_
  refine (Refines.refl _).bind fun _ _ => ?_
  refine (Refines.refl _).bind fun _ _ => ?_
  refine (Refines.refl _).bind fun _ _ => ?_
  refine (Refines.refl _).bind fun _ _ => ?_
  refine (Refines.refl _).bind fun _ _ => ?_
  refine (Refines.rejectIf ?_).bind fun _ _ => Refines.refl _
  rintro ⟨hdummy, hne⟩
  exact ⟨h.mono hdummy, hne⟩

lemma refines_evalCheckmultisig (lastCodeseparator : Nat) (stack : Stack) (opCount : Nat) :
    Refines (evalCheckmultisig ⟨script, G, checker, sigVersion⟩ lastCodeseparator stack opCount)
      (evalCheckmultisig ⟨script, F, checker, sigVersion⟩ lastCodeseparator stack opCount) := by
  unfold evalCheckmultisig
  simp only [h.strict (p := nullfail) (by decide), h.relaxed (p := nullfail) (by decide)]
  refine (refines_multisigArgs h stack opCount).bind fun args _ => ?_
  exact (refines_multisigLoop h _ _ _ _ _ _ _).bind fun _ _ => Refines.refl _

variable [Sha2] [LegacyHash]

omit [Sha2] [LegacyHash] in
lemma refines_execCheckSig (lastCodeseparator : Nat) (execData : ScriptExecutionData)
    (sig pubkey : List UInt8) :
    Refines (execCheckSig ⟨script, G, checker, sigVersion⟩ lastCodeseparator execData sig pubkey)
      (execCheckSig ⟨script, F, checker, sigVersion⟩ lastCodeseparator execData sig pubkey) := by
  simp only [execCheckSig, evalChecksigTapscript_congr h, checkPubkeyEncoding_congr h,
    buildScriptCode_congr h, h.strict (p := nullfail) (by decide),
    h.relaxed (p := nullfail) (by decide)]
  split_ifs
  · exact Refines.refl _
  · refine (Refines.refl _).bind fun scriptCode _ => ?_
    exact (refines_checkSignatureEncoding h sig).bind fun _ _ => Refines.refl _

lemma refines_execOp (executing : Bool) (i : Instruction) (s : EvalState) (op : Op) :
    Refines (execOp ⟨script, G, checker, sigVersion⟩ executing i s op)
      (execOp ⟨script, F, checker, sigVersion⟩ executing i s op) := by
  obtain ⟨hG, hF⟩ := requireMinimal_eq_false h script checker sigVersion
  cases op with
  | stack op =>
    simp only [execOp, hG, hF]
    exact Refines.refl _
  | checkLockTimeVerify =>
    simp only [execOp, execCheckLockTime, hG, hF]
    exact Refines.refl _
  | checkSequenceVerify =>
    simp only [execOp, execCheckSequence, hG, hF]
    exact Refines.refl _
  | upgradableNop =>
    simp only [execOp, h.strict (p := discourageUpgradableNops) (by decide),
      h.relaxed (p := discourageUpgradableNops) (by decide)]
    exact Refines.refl _
  | ifOp negated =>
    simp only [execOp, popCondition, h.strict (p := minimalif) (by decide),
      h.relaxed (p := minimalif) (by decide)]
    exact Refines.refl _
  | checkSig verify =>
    simp only [execOp]
    refine (Refines.refl _).bind fun _ _ => ?_
    refine (Refines.refl _).bind fun _ _ => ?_
    refine (Refines.refl _).bind fun _ _ => ?_
    exact (refines_execCheckSig h _ _ _ _).bind fun _ _ => Refines.refl _
  | checkSigAdd =>
    simp only [execOp, hG, hF, evalChecksigTapscript_congr h]
    exact Refines.refl _
  | checkMultisig verify =>
    simp only [execOp]
    refine (Refines.refl _).bind fun _ _ => ?_
    exact (refines_evalCheckmultisig h _ _ _).bind fun _ _ => Refines.refl _
  | _ =>
    simp only [execOp]
    exact Refines.refl _

omit h in
/-- An opcode that is not activated under `F` leaves the state as it is under `G`, too. -/
lemma eq_of_execOp_of_isInactive {executing : Bool} {i : Instruction} {s s' : EvalState} {op : Op}
    (hin : isInactive F op = true)
    (hok : execOp ⟨script, G, checker, sigVersion⟩ executing i s op = .ok s') : s' = s := by
  cases op with
  | checkLockTimeVerify =>
    obtain ⟨_, _, hs⟩ := Result.bind_eq_ok.mp hok
    exact (Except.ok.inj hs).symm
  | checkSequenceVerify =>
    obtain ⟨_, _, hs⟩ := Result.bind_eq_ok.mp hok
    exact (Except.ok.inj hs).symm
  | _ => simp [isInactive] at hin

omit [Sha2] [LegacyHash] in
lemma isInactive_mono {op : Op} (hin : isInactive G op = true) : isInactive F op = true := by
  cases op with
  | checkLockTimeVerify =>
    simp only [isInactive, Bool.not_eq_true', Bool.eq_false_iff] at hin ⊢
    exact fun hF => hin (h.mono hF)
  | checkSequenceVerify =>
    simp only [isInactive, Bool.not_eq_true', Bool.eq_false_iff] at hin ⊢
    exact fun hF => hin (h.mono hF)
  | _ => simp [isInactive] at hin

lemma refines_execInstruction (i : Instruction) (s : EvalState) :
    Refines (execInstruction ⟨script, G, checker, sigVersion⟩ i s)
      (execInstruction ⟨script, F, checker, sigVersion⟩ i s) := by
  obtain ⟨hG, hF⟩ := requireMinimal_eq_false h script checker sigVersion
  have hnopsG := h.strict (p := discourageUpgradableNops) (by decide)
  have hnopsF := h.relaxed (p := discourageUpgradableNops) (by decide)
  simp only [execInstruction, hG, hF, hnopsG, hnopsF]
  split_ifs with hskip hpush hinG hinF hinF
  · exact Refines.refl _
  · exact Refines.refl _
  · exact Refines.refl _
  · exact absurd (isInactive_mono h hinG) hinF
  · -- activated under `G` only: the state is the one before, and the check of the stack is dropped
    intro s' hok
    obtain ⟨t, hexec, hcheck⟩ := Result.bind_eq_ok.mp hok
    obtain rfl := eq_of_execOp_of_isInactive hinF hexec
    obtain ⟨_, _, hs'⟩ := Result.bind_eq_ok.mp hcheck
    exact hs'
  · exact (refines_execOp h _ i s _).bind fun _ _ => Refines.refl _

lemma refines_step (s : EvalState) (item : Outcome ScriptError Instruction) :
    Refines (step ⟨script, G, checker, sigVersion⟩ s item)
      (step ⟨script, F, checker, sigVersion⟩ s item) := by
  unfold step
  refine (Refines.refl _).bind fun i _ => ?_
  refine (Refines.refl _).bind fun _ _ => ?_
  refine (Refines.refl _).bind fun opCount _ => ?_
  refine (Refines.refl _).bind fun _ _ => ?_
  exact refines_execInstruction h i _

/-- A run of a script under more flags is a run under fewer. -/
lemma refines_evalScriptWithData (stack : Stack) (execData : ScriptExecutionData) :
    Refines (evalScriptWithData ⟨script, G, checker, sigVersion⟩ stack execData)
      (evalScriptWithData ⟨script, F, checker, sigVersion⟩ stack execData) := by
  unfold evalScriptWithData
  refine (Refines.refl _).bind fun _ _ => ?_
  exact (Refines.foldlM (refines_step h) _ _).bind fun _ _ => Refines.refl _

end Eval

/-! ### Verification -/

section Verify

variable [Sha2] [LegacyHash] (checker : SignatureChecker)

lemma refines_runWitnessScript (stack : Stack) (script : List UInt8) (sigVersion : SigVersion)
    (execData : ScriptExecutionData) :
    Refines (runWitnessScript G checker stack script sigVersion execData)
      (runWitnessScript F checker stack script sigVersion execData) := by
  unfold runWitnessScript
  refine (Refines.refl _).bind fun _ _ => ?_
  exact (refines_evalScriptWithData h stack execData).bind fun _ _ => Refines.refl _

lemma refines_executeWitnessScript (stack : Stack) (script : List UInt8) (sigVersion : SigVersion)
    (execData : ScriptExecutionData) :
    Refines (executeWitnessScript G checker stack script sigVersion execData)
      (executeWitnessScript F checker stack script sigVersion execData) := by
  simp only [executeWitnessScript, h.strict (p := discourageOpSuccess) (by decide),
    h.relaxed (p := discourageOpSuccess) (by decide)]
  split_ifs
  · refine (Refines.refl _).bind fun found _ => ?_
    cases found with
    | true =>
      simp only [if_true]
      exact Refines.refl _
    | false =>
      simp only [Bool.false_eq_true, if_false]
      refine (Refines.refl _).bind fun _ _ => ?_
      exact refines_runWitnessScript h checker stack script sigVersion execData
  · exact refines_runWitnessScript h checker stack script sigVersion execData

lemma refines_evalScript (stack : Stack) (script : List UInt8) :
    Refines (evalScript G checker stack script) (evalScript F checker stack script) :=
  refines_evalScriptWithData h stack .new

variable [Secp256k1]

lemma refines_verifyTaproot (witness : List (List UInt8)) (program : List UInt8) :
    Refines (verifyTaproot G checker witness program)
      (verifyTaproot F checker witness program) := by
  simp only [verifyTaproot, verifyTaprootScript,
    h.strict (p := discourageUpgradableTaprootVersion) (by decide),
    h.relaxed (p := discourageUpgradableTaprootVersion) (by decide)]
  refine (Refines.refl _).bind fun _ _ => ?_
  refine (Refines.refl _).bind fun _ _ => ?_
  split_ifs
  · exact Refines.refl _
  · refine (Refines.refl _).bind fun _ _ => ?_
    refine (Refines.refl _).bind fun _ _ => ?_
    refine (Refines.refl _).bind fun _ _ => ?_
    refine (Refines.refl _).bind fun _ _ => ?_
    refine (Refines.refl _).bind fun _ _ => ?_
    split_ifs
    · refine (Refines.refl _).bind fun _ _ => ?_
      exact refines_executeWitnessScript h checker _ _ _ _
    · exact Refines.refl _

lemma refines_verifyWitnessProgram (witness : List (List UInt8)) (version : UInt8)
    (program : List UInt8) (isP2sh : Bool) :
    Refines (verifyWitnessProgram G checker witness version program isP2sh)
      (verifyWitnessProgram F checker witness version program isP2sh) := by
  simp only [verifyWitnessProgram,
    h.strict (p := discourageUpgradableWitnessProgram) (by decide),
    h.relaxed (p := discourageUpgradableWitnessProgram) (by decide)]
  split_ifs with hv hG hF hF
  · refine (Refines.refl _).bind fun _ _ => ?_
    exact refines_executeWitnessScript h checker _ _ _ _
  · exact refines_verifyTaproot h checker witness program
  · -- taproot is only active under `G`: an unknown program may be spent by anyone under `F`
    intro a _
    rfl
  · exact absurd ⟨hF.1, hF.2.1, hF.2.2.1, h.mono hF.2.2.2⟩ hG
  · exact Refines.refl _

/-- Where `F` looks at the witness, so does `G`. -/
lemma refines_verifyProgramOf (hw : F.contains witness = true)
    (script scriptSig expectedSig : List UInt8) (items : List (List UInt8)) (isP2sh : Bool)
    (malleated : ScriptError) (stack : Stack) :
    Refines (verifyProgramOf G checker script scriptSig expectedSig items isP2sh malleated stack)
      (verifyProgramOf F checker script scriptSig expectedSig items isP2sh malleated stack) := by
  simp only [verifyProgramOf, hw, h.mono hw, if_true]
  split
  · refine (Refines.refl _).bind fun _ _ => ?_
    exact (refines_verifyWitnessProgram h checker _ _ _ _).bind fun _ _ => Refines.refl _
  · exact Refines.refl _

omit h in
/-- Where `F` does not look at the witness, a witness program is an ordinary script. -/
lemma verifyProgramOf_of_not_contains (hw : F.contains witness = false)
    (script scriptSig expectedSig : List UInt8) (items : List (List UInt8)) (isP2sh : Bool)
    (malleated : ScriptError) (stack : Stack) :
    verifyProgramOf F checker script scriptSig expectedSig items isP2sh malleated stack =
      .ok (stack, false) := by
  simp [verifyProgramOf, hw]

/-- A P2SH spend that `G` accepts is one that `F` accepts. Without `WITNESS` it may leave another
stack. -/
lemma exists_verifyP2sh {scriptSig : List UInt8} {items : List (List UInt8)} {stackAfterSig : Stack}
    {r : Stack × Bool} (hok : verifyP2sh G checker scriptSig items stackAfterSig = .ok r) :
    ∃ r', verifyP2sh F checker scriptSig items stackAfterSig = .ok r' ∧
      (F.contains witness = true → r' = r) := by
  cases hw : F.contains witness with
  | true =>
    refine ⟨r, ?_, fun _ => rfl⟩
    refine (Refines.bind (Refines.refl _) fun _ _ => ?_) r hok
    refine (Refines.refl _).bind fun _ _ => ?_
    refine (Refines.refl _).bind fun _ _ => ?_
    refine (refines_evalScript h checker _ _).bind fun _ _ => ?_
    refine (Refines.refl _).bind fun _ _ => ?_
    exact refines_verifyProgramOf h checker hw _ _ _ _ _ _ _
  | false =>
    simp only [verifyP2sh, Result.bind_eq_ok] at hok ⊢
    obtain ⟨pushOnly, hpush, _, hreject, ⟨redeem, stack⟩, hpop, stack', heval, _, htop, _⟩ := hok
    refine ⟨(stack', false), ⟨pushOnly, hpush, (), hreject, (redeem, stack), hpop, stack', ?_, (),
      htop, ?_⟩, by simp⟩
    · exact refines_evalScript h checker _ _ _ heval
    · exact verifyProgramOf_of_not_contains checker hw _ _ _ _ _ _ _

variable {checker}

/-- The witness program and P2SH parts under fewer flags, with the same stack. -/
lemma exists_verifyProgramOf {script scriptSig expectedSig : List UInt8}
    {items : List (List UInt8)} {isP2sh : Bool} {malleated : ScriptError} {stack : Stack}
    {r : Stack × Bool}
    (hok : verifyProgramOf G checker script scriptSig expectedSig items isP2sh malleated stack =
      .ok r) :
    ∃ r', verifyProgramOf F checker script scriptSig expectedSig items isP2sh malleated stack =
      .ok r' ∧ (F.contains witness = true → r' = r) := by
  cases hw : F.contains witness with
  | true => exact ⟨r, refines_verifyProgramOf h checker hw _ _ _ _ _ _ _ r hok, fun _ => rfl⟩
  | false =>
    exact ⟨(stack, false), verifyProgramOf_of_not_contains checker hw _ _ _ _ _ _ _, by simp⟩

omit [Sha2] [LegacyHash] [Secp256k1] in
lemma exists_isP2sh {scriptPubkey : List UInt8} {isP2sh : Bool}
    (hok : (if G.contains p2sh then isPayToScriptHash scriptPubkey else pure false) = .ok isP2sh) :
    ∃ b, (if F.contains p2sh then isPayToScriptHash scriptPubkey else pure false) = .ok b ∧
      (b = true → isP2sh = true) ∧ (F.contains p2sh = true → b = isP2sh) := by
  cases hp : F.contains p2sh with
  | true =>
    rw [h.mono hp] at hok
    exact ⟨isP2sh, hok, id, fun _ => rfl⟩
  | false => exact ⟨false, rfl, by simp, by simp⟩

/-- Verification under a set of consensus flags, of what a larger set accepts. -/
lemma verifyScript_of_relaxes (hdep : F.RespectsDependencies) {scriptSig scriptPubkey : List UInt8}
    {items : List (List UInt8)} (hitems : items = [] ∨ F.contains witness = true)
    (hok : verifyScript G checker scriptSig scriptPubkey items = .ok ()) :
    verifyScript F checker scriptSig scriptPubkey items = .ok () := by
  simp only [verifyScript, Result.bind_eq_ok, h.strict (p := sigpushonly) (by decide),
    h.relaxed (p := sigpushonly) (by decide), h.strict (p := cleanstack) (by decide),
    h.relaxed (p := cleanstack) (by decide)] at hok ⊢
  obtain ⟨_, _, _, hpush, afterSig, hsig, stack, hpub, _, htop, ⟨stack', native⟩, hnative, isP2sh,
    hisP2sh, ⟨stack'', nested⟩, hnested, _, hclean, hunexpected⟩ := hok
  obtain ⟨⟨stackF, nativeF⟩, hnativeF, hnativeEq⟩ := exists_verifyProgramOf h hnative
  obtain ⟨isP2shF, hisP2shF, himp, hisP2shEq⟩ := exists_isP2sh h hisP2sh
  refine ⟨(), ?_, (), hpush, afterSig, refines_evalScript h checker _ _ _ hsig, stack,
    refines_evalScript h checker _ _ _ hpub, (), htop, (stackF, nativeF), hnativeF, isP2shF,
    hisP2shF, ?_⟩
  · rcases hitems with rfl | hw
    · simp [rejectIf]
    · simp [rejectIf, hw]
  -- the P2SH part is run under `F` only if it is run under `G`
  have hP2sh : ∃ r, (if isP2shF then verifyP2sh F checker scriptSig items afterSig
      else pure (stackF, false)) = .ok r ∧ (F.contains witness = true → r.2 = nested) := by
    cases hF : isP2shF with
    | true =>
      rw [himp hF] at hnested
      obtain ⟨r, hr, hreq⟩ := exists_verifyP2sh h checker hnested
      exact ⟨r, hr, fun hw => by rw [hreq hw]⟩
    | false =>
      refine ⟨(stackF, false), rfl, fun hw => ?_⟩
      rw [← hisP2shEq (hdep.1 hw), hF] at hnested
      simp only [Bool.false_eq_true, if_false, Result.pure_eq_ok, Except.ok.injEq,
        Prod.mk.injEq] at hnested
      exact hnested.2
  obtain ⟨⟨stackR, nestedF⟩, hr, hreq⟩ := hP2sh
  refine ⟨(stackR, nestedF), hr, (), by simp [rejectIf], ?_⟩
  cases hw : F.contains witness with
  | true =>
    obtain ⟨_, rfl⟩ := Prod.mk.inj (hnativeEq hw)
    obtain rfl := hreq hw
    rw [h.mono hw] at hunexpected
    exact hunexpected
  | false => simp [rejectIf]

end Verify

end Flags

section Main

variable [Sha2] [LegacyHash] [Secp256k1]

/-- What a set of consensus flags accepts, a subset accepts, but for a witness that is given when
the subset has no `WITNESS`: it is rejected as unexpected. -/
theorem verifyScript_relax {F G : VerifyFlags} (hFG : G.contains F = true)
    (hG : consensusTaproot.contains G = true) (hdep : F.RespectsDependencies)
    (checker : SignatureChecker) (scriptSig scriptPubkey : List UInt8)
    (witness : List (List UInt8))
    (hok : verifyScript G checker scriptSig scriptPubkey witness = .ok ()) :
    (witness = [] ∨ F.contains .witness = true →
      verifyScript F checker scriptSig scriptPubkey witness = .ok ()) ∧
    (witness ≠ [] → F.contains .witness = false →
      verifyScript F checker scriptSig scriptPubkey witness = fail .witnessUnexpected) := by
  refine ⟨fun hw => verifyScript_of_relaxes ⟨hFG, hG⟩ hdep hw hok, fun hne hw => ?_⟩
  simp [verifyScript, rejectIf, hw, hne, fail]

end Main

namespace Sample

/-- A spend of the P2WSH output of `OP_1`, accepted with and without taproot. -/
theorem verifyScript_relax_p2wshTrue :
    verifyScript consensusTaproot nullSignatureChecker [] p2wshTrue [[0x51]] = .ok () ∧
      verifyScript consensusSegwit nullSignatureChecker [] p2wshTrue [[0x51]] = .ok () := by
  have hok : verifyScript consensusTaproot nullSignatureChecker [] p2wshTrue [[0x51]] = .ok () := by
    decide +kernel
  have h := verifyScript_relax (F := consensusSegwit) (by decide) (by decide) (by decide)
    nullSignatureChecker [] p2wshTrue [[0x51]] hok
  exact ⟨hok, h.1 (.inr (by decide))⟩

/-- A spend of an unknown witness program with a witness is accepted under `WITNESS` and rejected
without it. -/
theorem not_accepted_under_fewer_flags :
    (p2sh ||| witness).contains p2sh = true ∧
      consensusTaproot.contains (p2sh ||| witness) = true ∧
      RespectsDependencies p2sh ∧ RespectsDependencies (p2sh ||| witness) ∧
      verifyScript (p2sh ||| witness) nullSignatureChecker [] [0x52, 0x02, 0xaa, 0xbb] [[0x01]] =
        .ok () ∧
      verifyScript p2sh nullSignatureChecker [] [0x52, 0x02, 0xaa, 0xbb] [[0x01]] ≠ .ok () := by
  decide +kernel

end Sample

end Bitcrab
