import Bitcrab.Lib.OrderedMatching
import Bitcrab.Script.Limits

/-!
# CHECKMULTISIG as an ordered matching

The loop of `eval_checkmultisig` is a greedy scan of the keys, so its verdict is whether the
signatures can be given keys that accept them, in order. Which pairs it looks at, and which
signatures the `NULLFAIL` rule inspects, follow from the matchings of the first signatures in the
first keys.
-/

namespace Bitcrab

open List Outcome OrderedMatching

section Scan

variable (ctx : EvalContext) (lastCodeseparator : Nat)

/-- What one round of the loop computes about a signature and a key. -/
def checkPair (sig pubkey : List UInt8) : Outcome ScriptError Bool := do
  checkSignatureEncoding sig ctx.flags
  checkPubkeyEncoding pubkey ctx.flags (ctx.sigVersion = .witnessV0)
  let scriptCode ← buildScriptCode ctx.script lastCodeseparator sig ctx.sigVersion ctx.flags
  checkEcdsa ctx sig pubkey scriptCode

/-- The round raises no error. -/
def PairReturns (sig pubkey : List UInt8) : Prop :=
  ∃ matched, checkPair ctx lastCodeseparator sig pubkey = .ok matched

/-- The key accepts the signature. -/
def PairMatches (sig pubkey : List UInt8) : Prop :=
  checkPair ctx lastCodeseparator sig pubkey = .ok true

instance (sig pubkey : List UInt8) : Decidable (PairMatches ctx lastCodeseparator sig pubkey) :=
  inferInstanceAs (Decidable (_ = _))

lemma checks_checkPair (sigs : List (List UInt8)) :
    Checks (checkPair ctx lastCodeseparator) (PairReturns ctx lastCodeseparator)
      (PairMatches ctx lastCodeseparator) sigs where
  of_valid sig _ pubkey h := by
    obtain ⟨matched, hm⟩ := h
    refine ⟨matched, hm, ?_⟩
    simp [PairMatches, hm]
  of_not_valid sig _ pubkey h := by
    cases hc : checkPair ctx lastCodeseparator sig pubkey with
    | ok matched => exact absurd ⟨matched, hc⟩ h
    | error e => exact ⟨e, rfl⟩

variable {ctx lastCodeseparator}

/-- An empty signature is never accepted. -/
lemma PairMatches.ne_nil {sig pubkey : List UInt8}
    (h : PairMatches ctx lastCodeseparator sig pubkey) : sig ≠ [] := by
  rintro rfl
  simp only [PairMatches, checkPair, Result.bind_eq_ok] at h
  obtain ⟨_, _, _, _, _, _, h⟩ := h
  simp [checkEcdsa] at h

variable (ctx lastCodeseparator) in
/-- The loop from signature `i` and key `j` on, with as many signatures left as there are after
`i`. -/
lemma multisigLoop_eq_scan (sigs pubkeys : List (List UInt8)) {fuel i j : Nat}
    (hi : i ≤ sigs.length) (hfuel : j + fuel = pubkeys.length) (hle : sigs.length - i ≤ fuel) :
    multisigLoop ctx lastCodeseparator sigs pubkeys fuel i j (sigs.length - i) = do
      let (success, rest) ← scan (checkPair ctx lastCodeseparator) (sigs.drop i) (pubkeys.drop j)
      return (success, sigs.length - rest.length) := by
  induction fuel generalizing i j with
  | zero =>
    have hend : sigs.length - i = 0 := Nat.le_zero.mp hle
    have hlen : i = sigs.length := Nat.le_antisymm hi (Nat.sub_eq_zero_iff_le.mp hend)
    subst hlen
    simp [multisigLoop, scan]
  | succ fuel ih =>
    have hj : j < pubkeys.length := by omega
    by_cases hend : i = sigs.length
    · subst hend
      simp [multisigLoop, scan]
    · have hlt : i < sigs.length := Nat.lt_of_le_of_ne hi hend
      have hmore : sigs.length - i ≠ 0 := by omega
      rw [List.drop_eq_getElem_cons hlt, List.drop_eq_getElem_cons hj, scan, multisigLoop,
        if_neg hmore]
      dsimp only
      rw [index_of_lt hlt, Result.ok_bind, index_of_lt hj, Result.ok_bind]
      simp only [checkPair, bind_assoc]
      refine bind_congr fun _ => bind_congr fun _ => bind_congr fun scriptCode => ?_
      refine bind_congr fun matched => ?_
      have hkeys : (sub pubkeys.length (j + 1) : Outcome ScriptError Nat) = .ok fuel := by
        rw [sub_of_le (by omega)]
        exact congrArg Except.ok (by omega)
      have hkeysLeft : (pubkeys.drop (j + 1)).length = fuel := by
        rw [List.length_drop]
        omega
      -- a match moves to the next signature, a mismatch keeps it
      cases matched with
      | true =>
        have hsub : sigs.length - i - 1 = sigs.length - (i + 1) := by omega
        simp only [if_true]
        rw [sub_of_le (by omega), Result.ok_bind, hkeys, Result.ok_bind, hsub, hkeysLeft,
          List.length_drop]
        have hroom : ¬ sigs.length - (i + 1) > fuel := by omega
        rw [if_neg hroom, if_neg hroom]
        exact ih hlt (by omega) (by omega)
      | false =>
        have hlen : (sigs[i] :: sigs.drop (i + 1)).length = sigs.length - i := by
          rw [← List.drop_eq_getElem_cons hlt, List.length_drop]
        simp only [Bool.false_eq_true, if_false, Result.pure_eq_ok, Result.ok_bind]
        rw [hkeys, Result.ok_bind, hkeysLeft, hlen]
        by_cases hroom : sigs.length - i > fuel
        · rw [if_pos hroom, if_pos hroom, Result.ok_bind, hlen]
          exact congrArg (fun k => Except.ok (false, k)) (by omega)
        · rw [if_neg hroom, if_neg hroom, ← List.drop_eq_getElem_cons hlt]
          exact ih hi (by omega) (by omega)

/-- The operands have at most as many signatures as keys. -/
lemma sigs_length_le {stack : Stack} {opCount : Nat} {args : MultisigArgs}
    (hargs : multisigArgs ctx stack opCount = .ok args) :
    args.sigs.length ≤ args.pubkeys.length := by
  have hspec : args.Spec stack := (holds_multisigArgs (P := True) ctx stack opCount).of_eq_ok hargs
  exact hspec.sigs

/-- `eval_checkmultisig` after its operands: the scan, and the `NULLFAIL` rule on what it leaves. -/
lemma evalCheckmultisig_eq {stack : Stack} {opCount : Nat} {args : MultisigArgs}
    (hargs : multisigArgs ctx stack opCount = .ok args) :
    evalCheckmultisig ctx lastCodeseparator stack opCount = do
      let (success, rest) ← scan (checkPair ctx lastCodeseparator) args.sigs args.pubkeys
      rejectIf (!success ∧ ctx.flags.contains .nullfail ∧ ∃ sig ∈ rest, sig ≠ []) .sigNullFail
      return (success, args.stack, args.opCount) := by
  have hle := sigs_length_le hargs
  have hloop := multisigLoop_eq_scan ctx lastCodeseparator args.sigs args.pubkeys
    (Nat.zero_le _) (Nat.zero_add _) hle
  rw [Nat.sub_zero, List.drop_zero, List.drop_zero] at hloop
  rw [evalCheckmultisig, hargs, Result.ok_bind, hloop]
  cases hscan : scan (checkPair ctx lastCodeseparator) args.sigs args.pubkeys with
  | error e => rfl
  | ok result =>
    obtain ⟨success, rest⟩ := result
    have hdrop : args.sigs.drop (args.sigs.length - rest.length) = rest :=
      (List.suffix_iff_eq_drop.mp (scan_suffix hscan)).symm
    simp only [Result.ok_bind, Result.pure_eq_ok, hdrop]

end Scan

/-! ### The verdict -/

section Verdict

variable {ctx : EvalContext} {lastCodeseparator : Nat} {stack : Stack} {opCount : Nat}
  {args : MultisigArgs}

/-- Without `NULLFAIL` the verdict is the one of the scan. -/
lemma evalCheckmultisig_of_scan (hargs : multisigArgs ctx stack opCount = .ok args)
    (hnull : ctx.flags.contains .nullfail = false) {success : Bool} {rest : List (List UInt8)}
    (hscan : scan (checkPair ctx lastCodeseparator) args.sigs args.pubkeys = .ok (success, rest)) :
    evalCheckmultisig ctx lastCodeseparator stack opCount =
      .ok (success, args.stack, args.opCount) := by
  rw [evalCheckmultisig_eq hargs, hscan]
  simp [hnull, rejectIf]

/-- When no pair raises an error, `eval_checkmultisig` returns, and its verdict is whether there is
a strictly increasing assignment of the signatures to keys that accept them. -/
theorem evalCheckmultisig_decides_matching (ctx : EvalContext) (lastCodeseparator : Nat)
    (stack : Stack) (opCount : Nat) (args : MultisigArgs)
    (hargs : multisigArgs ctx stack opCount = .ok args)
    (hsigs : ∀ sig ∈ args.sigs, checkSignatureEncoding sig ctx.flags = .ok ())
    (hkeys : ∀ pubkey ∈ args.pubkeys,
      checkPubkeyEncoding pubkey ctx.flags (ctx.sigVersion = .witnessV0) = .ok ())
    (hcode : ∀ sig ∈ args.sigs, ∃ scriptCode,
      buildScriptCode ctx.script lastCodeseparator sig ctx.sigVersion ctx.flags = .ok scriptCode)
    (hchecker : ∀ sig pubkey scriptCode, ∃ accepted,
      ctx.checker.checkEcdsaSignature sig pubkey scriptCode ctx.sigVersion = .ok accepted)
    (hnull : ctx.flags.contains .nullfail = false) :
    ∃ verdict, evalCheckmultisig ctx lastCodeseparator stack opCount =
        .ok (verdict, args.stack, args.opCount) ∧
      (verdict = true ↔
        ∃ f : Fin args.sigs.length → Fin args.pubkeys.length, StrictMono f ∧
          ∀ i, args.sigs.get i ≠ [] ∧ ∃ scriptCode,
            buildScriptCode ctx.script lastCodeseparator (args.sigs.get i) ctx.sigVersion
              ctx.flags = .ok scriptCode ∧
            ctx.checker.checkEcdsaSignature (args.sigs.get i) (args.pubkeys.get (f i)) scriptCode
              ctx.sigVersion = .ok true) := by
  have hpair : ∀ sig ∈ args.sigs, ∀ pubkey ∈ args.pubkeys, ∃ scriptCode,
      buildScriptCode ctx.script lastCodeseparator sig ctx.sigVersion ctx.flags = .ok scriptCode ∧
      checkPair ctx lastCodeseparator sig pubkey = checkEcdsa ctx sig pubkey scriptCode := by
    intro sig hsig pubkey hpubkey
    obtain ⟨scriptCode, hsc⟩ := hcode sig hsig
    refine ⟨scriptCode, hsc, ?_⟩
    rw [checkPair, hsigs sig hsig, hkeys pubkey hpubkey, hsc]
    rfl
  have hvalid : ReachedValid (PairReturns ctx lastCodeseparator)
      (PairMatches ctx lastCodeseparator) args.sigs args.pubkeys := by
    rintro j sig pubkey ⟨i, _, hsig⟩ hpubkey
    obtain ⟨scriptCode, _, hcheck⟩ :=
      hpair sig (List.mem_of_getElem? hsig) pubkey (List.mem_of_getElem? hpubkey)
    rw [PairReturns, hcheck, checkEcdsa]
    by_cases hempty : sig.isEmpty = true
    · rw [if_pos hempty]
      exact ⟨false, rfl⟩
    · rw [if_neg hempty]
      exact hchecker sig pubkey scriptCode
  obtain ⟨⟨verdict, rest⟩, hscan⟩ :=
    (scan_returns_iff (checks_checkPair ctx lastCodeseparator args.sigs)
      (sigs_length_le hargs)).mpr hvalid
  refine ⟨verdict, evalCheckmultisig_of_scan hargs hnull hscan, ?_⟩
  rw [scan_success_iff (checks_checkPair ctx lastCodeseparator args.sigs) hscan,
    sublistForall₂_iff_exists_strictMono]
  refine exists_congr fun f => and_congr_right fun _ => forall_congr' fun i => ?_
  obtain ⟨scriptCode, hsc, hcheck⟩ := hpair (args.sigs.get i) (List.get_mem _ i)
    (args.pubkeys.get (f i)) (List.get_mem _ (f i))
  constructor
  · intro hm
    have hne := hm.ne_nil
    refine ⟨hne, scriptCode, hsc, ?_⟩
    rw [PairMatches, hcheck, checkEcdsa, if_neg (by simpa using hne)] at hm
    exact hm
  · rintro ⟨hne, code, hbuilt, haccepted⟩
    rw [hsc] at hbuilt
    cases hbuilt
    rw [PairMatches, hcheck, checkEcdsa, if_neg (by simpa using hne)]
    exact haccepted

end Verdict

/-! ### The `NULLFAIL` rule -/

section NullFail

variable {ctx : EvalContext} {lastCodeseparator : Nat} {stack : Stack} {opCount : Nat}
  {args : MultisigArgs}

variable (ctx lastCodeseparator args) in
/-- The signatures are some that match, in order and with enough keys left, and then only empty
ones, and no pair of the scan raises an error. -/
def FailsAfterMatches : Prop :=
  ∃ matched empties, args.sigs = matched ++ List.replicate (empties + 1) [] ∧ matched ≠ [] ∧
    SublistForall₂ (PairMatches ctx lastCodeseparator) matched
      (args.pubkeys.take (args.pubkeys.length - (empties + 1))) ∧
    ReachedValid (PairReturns ctx lastCodeseparator) (PairMatches ctx lastCodeseparator)
      args.sigs args.pubkeys

/-- With `NULLFAIL` the verdict is false when the scan fails and leaves empty signatures only. -/
lemma evalCheckmultisig_eq_false_iff (hnull : ctx.flags.contains .nullfail = true)
    (hargs : multisigArgs ctx stack opCount = .ok args) :
    (∃ after, evalCheckmultisig ctx lastCodeseparator stack opCount = .ok (false, after)) ↔
      ∃ rest, scan (checkPair ctx lastCodeseparator) args.sigs args.pubkeys = .ok (false, rest) ∧
        ∀ sig ∈ rest, sig = [] := by
  rw [evalCheckmultisig_eq hargs]
  cases hscan : scan (checkPair ctx lastCodeseparator) args.sigs args.pubkeys with
  | error e => simp
  | ok result =>
    obtain ⟨success, rest⟩ := result
    cases success with
    | true => simp [rejectIf]
    | false =>
      by_cases hrest : ∃ sig ∈ rest, sig ≠ []
      · simp [rejectIf, hnull, hrest, fail]
      · have hall : ∀ sig ∈ rest, sig = [] := by simpa using hrest
        refine iff_of_true ⟨(args.stack, args.opCount), ?_⟩ ⟨rest, rfl, hall⟩
        simp only [Result.ok_bind, rejectIf, hrest, and_false, if_false, Result.pure_eq_ok]

/-- Signatures that end with an empty one have no matching. -/
lemma not_sublistForall₂_of_nil_mem {sigs pubkeys : List (List UInt8)} (h : [] ∈ sigs) :
    ¬ SublistForall₂ (PairMatches ctx lastCodeseparator) sigs pubkeys := by
  intro hm
  obtain ⟨pubkey, _, hpair⟩ := sublistForall₂_mem hm h
  exact hpair.ne_nil rfl

/-- A scan that fails and leaves empty signatures only, after at least one match. -/
lemma failsAfterMatches_of_scan (hle : args.sigs.length ≤ args.pubkeys.length)
    {rest : List (List UInt8)}
    (hscan : scan (checkPair ctx lastCodeseparator) args.sigs args.pubkeys = .ok (false, rest))
    (hrest : ∀ sig ∈ rest, sig = []) (hsome : ∃ sig ∈ args.sigs, sig ≠ []) :
    FailsAfterMatches ctx lastCodeseparator args := by
  have hchecks := checks_checkPair ctx lastCodeseparator args.sigs
  obtain ⟨i, rfl, ⟨j, hreached⟩, _⟩ := scan_rest hchecks hle hscan
  have hroom := hreached.room
  have hi := hreached.index_lt
  have hlen : (args.sigs.drop i).length = args.sigs.length - i - 1 + 1 := by
    rw [List.length_drop]
    omega
  have hempty : args.sigs.drop i = List.replicate (args.sigs.length - i - 1 + 1) [] :=
    List.eq_replicate_iff.mpr ⟨hlen, hrest⟩
  refine ⟨args.sigs.take i, args.sigs.length - i - 1, ?_, ?_, ?_, ?_⟩
  · rw [← hempty, List.take_append_drop]
  · intro hnil
    obtain ⟨sig, hsig, hne⟩ := hsome
    rw [← List.take_append_drop i args.sigs, hnil, List.nil_append] at hsig
    exact hne (hrest sig hsig)
  · refine sublistForall₂_mono hreached.matched (List.take_sublist_take_left ?_)
    omega
  · exact (scan_returns_iff hchecks hle).mp ⟨_, hscan⟩

/-- The scan reaches the first empty signature, so it leaves empty ones only. -/
lemma exists_scan_of_failsAfterMatches (hle : args.sigs.length ≤ args.pubkeys.length)
    (h : FailsAfterMatches ctx lastCodeseparator args) :
    (∃ rest, scan (checkPair ctx lastCodeseparator) args.sigs args.pubkeys = .ok (false, rest) ∧
      ∀ sig ∈ rest, sig = []) ∧ ∃ sig ∈ args.sigs, sig ≠ [] := by
  have hchecks := checks_checkPair ctx lastCodeseparator args.sigs
  obtain ⟨matched, empties, hsigs, hne, hmatch, hvalid⟩ := h
  have hlen : args.sigs.length = matched.length + (empties + 1) := by simp [hsigs]
  obtain ⟨⟨success, rest⟩, hscan⟩ := (scan_returns_iff hchecks hle).mpr hvalid
  have hnil : [] ∈ args.sigs := by simp [hsigs]
  have hfalse : success = false := by
    rw [← Bool.not_eq_true, scan_success_iff hchecks hscan]
    exact not_sublistForall₂_of_nil_mem hnil
  subst hfalse
  have hreached : Reached (PairMatches ctx lastCodeseparator) args.sigs args.pubkeys
      matched.length (args.pubkeys.length - (empties + 1)) := by
    refine ⟨by omega, by omega, ?_, ?_⟩
    · rw [hsigs, List.take_left]
      exact hmatch
    · refine not_sublistForall₂_of_nil_mem ?_
      rw [hsigs, List.take_append, List.take_of_length_le (Nat.le_succ _)]
      simp
  refine ⟨⟨rest, hscan, ?_⟩, ?_⟩
  · obtain ⟨i, rfl, _, hmax⟩ := scan_rest hchecks hle hscan
    intro sig hsig
    have hi := hmax _ _ hreached
    rw [hsigs, List.drop_append, List.drop_of_length_le hi, List.nil_append] at hsig
    exact List.eq_of_mem_replicate (List.mem_of_mem_drop hsig)
  · obtain ⟨sig, hsig⟩ := List.exists_mem_of_ne_nil matched hne
    obtain ⟨_, _, hpair⟩ := sublistForall₂_mem hmatch hsig
    exact ⟨sig, by simp [hsigs, hsig], hpair.ne_nil⟩

/-- A failure with `NULLFAIL` shows that all signatures are empty, unless some of them were matched
before the empty ones. -/
theorem sigs_empty_of_failure_iff (ctx : EvalContext) (lastCodeseparator : Nat) (stack : Stack)
    (opCount : Nat) (args : MultisigArgs) (hnull : ctx.flags.contains .nullfail = true)
    (hargs : multisigArgs ctx stack opCount = .ok args) :
    ((∃ after, evalCheckmultisig ctx lastCodeseparator stack opCount = .ok (false, after)) →
        ∀ sig ∈ args.sigs, sig = []) ↔
      ¬ FailsAfterMatches ctx lastCodeseparator args := by
  have hle := sigs_length_le hargs
  rw [evalCheckmultisig_eq_false_iff hnull hargs]
  constructor
  · intro h hfails
    obtain ⟨hscan, sig, hsig, hne⟩ := exists_scan_of_failsAfterMatches hle hfails
    exact hne (h hscan sig hsig)
  · rintro h ⟨rest, hscan, hrest⟩
    by_contra hsome
    push Not at hsome
    exact h (failsAfterMatches_of_scan hle hscan hrest hsome)

end NullFail

deriving instance DecidableEq for MultisigArgs

namespace Sample

/-- A checker that knows which pairs to accept. -/
def acceptsPairs (accept : List UInt8 → List UInt8 → Bool) : SignatureChecker :=
  { nullSignatureChecker with checkEcdsaSignature := fun sig pubkey _ _ => .ok (accept sig pubkey) }

/-- A key accepts the signature with the same bytes. -/
def multisigContext (flags : VerifyFlags) : EvalContext :=
  ⟨[0xae], flags, acceptsPairs fun sig pubkey => sig = pubkey, .base⟩

/-- Two signatures and three keys, of which the first and the last accept them. -/
def twoOfThree : MultisigArgs := ⟨[[1], [9], [2]], [[1], [2]], [], 3⟩

/-- A signature that is matched and an empty one. -/
def oneOfTwo : MultisigArgs := ⟨[[1], [2]], [[1], []], [], 2⟩

/-- The stack with the given operands. -/
def multisigStack (args : MultisigArgs) : Stack :=
  args.stack ++ [[]] ++ args.sigs ++ [scriptNumEncode args.sigs.length] ++ args.pubkeys ++
    [scriptNumEncode args.pubkeys.length]

theorem evalCheckmultisig_twoOfThree :
    ∃ verdict, evalCheckmultisig (multisigContext ⟨0⟩) 0 (multisigStack twoOfThree) 0 =
        .ok (verdict, [], 3) ∧
      (verdict = true ↔ ∃ f : Fin 2 → Fin 3, StrictMono f ∧
        ∀ i, twoOfThree.sigs.get i ≠ [] ∧ ∃ scriptCode,
          buildScriptCode [0xae] 0 (twoOfThree.sigs.get i) .base ⟨0⟩ = .ok scriptCode ∧
          (multisigContext ⟨0⟩).checker.checkEcdsaSignature (twoOfThree.sigs.get i)
            (twoOfThree.pubkeys.get (f i)) scriptCode .base = .ok true) :=
  evalCheckmultisig_decides_matching (multisigContext ⟨0⟩) 0 (multisigStack twoOfThree) 0 twoOfThree
    (by decide +kernel) (by decide +kernel) (by decide +kernel)
    (by
      intro sig hsig
      simp only [twoOfThree, List.mem_cons, List.not_mem_nil, or_false] at hsig
      rcases hsig with rfl | rfl
      · exact ⟨[0xae], by decide +kernel⟩
      · exact ⟨[0xae], by decide +kernel⟩)
    (fun sig pubkey _ => ⟨decide (sig = pubkey), rfl⟩) (by decide)

/-- The empty signature fails, and the one before it is not inspected. -/
theorem not_sigs_empty_oneOfTwo :
    ¬ ∀ (ctx : EvalContext) (lastCodeseparator : Nat) (stack : Stack) (opCount : Nat)
      (args : MultisigArgs), ctx.flags.contains .nullfail = true →
      multisigArgs ctx stack opCount = .ok args →
      (∃ after, evalCheckmultisig ctx lastCodeseparator stack opCount = .ok (false, after)) →
      ∀ sig ∈ args.sigs, sig = [] := by
  intro h
  have hsigs := h (multisigContext .nullfail) 0 (multisigStack oneOfTwo) 0 oneOfTwo
    (by decide) (by decide +kernel) ⟨([], 2), by decide +kernel⟩ [1] (by decide)
  simp at hsigs

/-- Two empty signatures. -/
def noneOfTwo : MultisigArgs := ⟨[[1], [2]], [[], []], [], 2⟩

/-- The verdict is false, and the signatures are empty. -/
theorem sigs_empty_of_failure_noneOfTwo :
    (∃ after, evalCheckmultisig (multisigContext .nullfail) 0 (multisigStack noneOfTwo) 0 =
        .ok (false, after)) ∧ ∀ sig ∈ noneOfTwo.sigs, sig = [] := by
  have hfails : ∃ after, evalCheckmultisig (multisigContext .nullfail) 0
      (multisigStack noneOfTwo) 0 = .ok (false, after) :=
    ⟨([], 2), by decide +kernel⟩
  refine ⟨hfails, (sigs_empty_of_failure_iff (multisigContext .nullfail) 0
    (multisigStack noneOfTwo) 0 noneOfTwo (by decide) (by decide +kernel)).mpr ?_ hfails⟩
  -- an empty signature matches no key
  rintro ⟨matched, empties, hsigs, hne, hmatches, -⟩
  obtain ⟨sig, rest, rfl⟩ := List.exists_cons_of_ne_nil hne
  obtain rfl : [] = sig := (List.cons.inj hsigs).1
  obtain ⟨pubkey, -, hmatch⟩ := sublistForall₂_mem hmatches (List.mem_cons_self ..)
  exact hmatch.ne_nil rfl

end Sample

end Bitcrab
