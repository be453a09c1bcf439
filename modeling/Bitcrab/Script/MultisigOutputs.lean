import Mathlib.Data.List.Induction
import Bitcrab.Script.KeyOutputs
import Bitcrab.Script.Multisig

/-!
# Outputs to several keys

What it takes to spend an output that asks for signatures by some of a list of keys: as the script
of the output, or as a script whose hash is a version 0 program.
-/

namespace Bitcrab

open Outcome OrderedMatching

/-- The opcode that pushes a number from 1 to 16. -/
def smallInt (n : Nat) : UInt8 := UInt8.ofNat (0x50 + n)

/-- A push of a key, with its length as the opcode. -/
def pushKey (key : List UInt8) : List UInt8 := UInt8.ofNat key.length :: key

/-- The chunks of `multisigScript`. -/
def multisigChunks (required : Nat) (keys : List (List UInt8)) : List (List UInt8) :=
  [smallInt required] :: (keys.map pushKey ++ [[smallInt keys.length], [0xae]])

/-- `OP_m <key 1> ... <key n> OP_n OP_CHECKMULTISIG`. -/
def multisigScript (required : Nat) (keys : List (List UInt8)) : List UInt8 :=
  (multisigChunks required keys).flatten

/-- The numbers that such a script can have: at least one signature, no more signatures than keys,
at most 16 keys, and keys of the two usual lengths. -/
structure MultisigTemplate (required : Nat) (keys : List (List UInt8)) : Prop where
  pos : 1 ≤ required
  le : required ≤ keys.length
  few : keys.length ≤ 16
  usual : ∀ key ∈ keys, key.length = 33 ∨ key.length = 65

namespace MultisigTemplate

variable {required n : Nat} {keys : List (List UInt8)} {key : List UInt8}

lemma toNat_smallInt (h : n ≤ 16) : (smallInt n).toNat = 0x50 + n :=
  UInt8.toNat_ofNat_of_lt' (Nat.lt_of_le_of_lt (Nat.add_le_add_left h _) (by decide))

lemma encodes_smallInt (h : n ≤ 16) : Encodes [smallInt n] (smallInt n) [] := by
  refine .op ?_
  rw [UInt8.lt_iff_toNat_lt, toNat_smallInt h]
  have hpush : Opcode.opPushdata4.toNat = 0x4e := rfl
  omega

lemma toNat_length (h : key.length = 33 ∨ key.length = 65) :
    (UInt8.ofNat key.length).toNat = key.length :=
  UInt8.toNat_ofNat_of_lt' (Nat.lt_of_le_of_lt (by omega : key.length ≤ 65) (by decide))

lemma encodes_pushKey (h : key.length = 33 ∨ key.length = 65) :
    Encodes (pushKey key) (UInt8.ofNat key.length) key := by
  have hsmall : UInt8.ofNat key.length < 0x4c := by
    rw [UInt8.lt_iff_toNat_lt, toNat_length h]
    have hlimit : (0x4c : UInt8).toNat = 76 := rfl
    omega
  refine .push [] key (UInt8.le_trans (UInt8.le_of_lt hsmall) (by decide)) ?_ ?_
  · rw [headerLength, if_pos hsmall]
    rfl
  · rw [pushedLength, if_pos hsmall, toNat_length h]

/-- The instruction that pushes a key. -/
def Pushes (push : Instruction) (key : List UInt8) : Prop :=
  push.opcode = UInt8.ofNat key.length ∧ push.data = key

/-- The pushes of the keys come first. -/
lemma exists_pushes (husual : ∀ key ∈ keys, key.length = 33 ∨ key.length = 65)
    {tail : List (List UInt8)} {is : List Instruction}
    (h : EncodesAll (keys.map pushKey ++ tail) is) :
    ∃ pushes rest, is = pushes ++ rest ∧ List.Forall₂ Pushes pushes keys ∧
      EncodesAll tail rest := by
  induction keys generalizing is with
  | nil => exact ⟨[], is, rfl, .nil, h⟩
  | cons key keys ih =>
    obtain ⟨hkey, husual⟩ := List.forall_mem_cons.mp husual
    obtain ⟨push, is, hpush, his, rfl⟩ := List.forall₂_cons_left_iff.mp h
    obtain ⟨pushes, rest, rfl, hpushes, hrest⟩ := ih husual his
    exact ⟨push :: pushes, rest, rfl, .cons (hpush.unique (encodes_pushKey hkey)) hpushes, hrest⟩

/-- The instructions of the script. -/
lemma exists_instructions (h : MultisigTemplate required keys) :
    ∃ (number count check : Instruction) (pushes : List Instruction),
      instructions (multisigScript required keys) =
        (number :: (pushes ++ [count, check])).map .ok ∧
      (number.opcode = smallInt required ∧ number.data = []) ∧ List.Forall₂ Pushes pushes keys ∧
      (count.opcode = smallInt keys.length ∧ count.data = []) ∧
      (check.opcode = 0xae ∧ check.data = []) := by
  have hnumber := encodes_smallInt (Nat.le_trans h.le h.few)
  have hcount := encodes_smallInt h.few
  have hcheck : Encodes [0xae] 0xae [] := .op (by decide)
  have hchunks : ∀ chunk ∈ multisigChunks required keys, ∃ opcode data,
      Encodes chunk opcode data := by
    intro chunk hmem
    simp only [multisigChunks, List.mem_cons, List.mem_append, List.mem_map, List.not_mem_nil,
      or_false] at hmem
    rcases hmem with rfl | ⟨key, hkey, rfl⟩ | rfl | rfl
    · exact ⟨_, _, hnumber⟩
    · exact ⟨_, _, encodes_pushKey (h.usual key hkey)⟩
    · exact ⟨_, _, hcount⟩
    · exact ⟨_, _, hcheck⟩
  obtain ⟨is, his, hread⟩ := exists_instructions_of_chunks _ hchunks
  obtain ⟨first, others, hfirst, hothers, rfl⟩ := List.forall₂_cons_left_iff.mp his
  obtain ⟨pushes, rest, rfl, hpushes, hrest⟩ := exists_pushes h.usual hothers
  obtain _ | ⟨hcount', _ | ⟨hcheck', _ | _⟩⟩ := hrest
  exact ⟨first, _, _, pushes, hread, hfirst.unique hnumber, hpushes, hcount'.unique hcount,
    hcheck'.unique hcheck⟩

end MultisigTemplate

/-! ### The stack before the check -/

section Eval

variable [Sha2] [LegacyHash] {ctx : EvalContext} {flags : VerifyFlags} {checker : SignatureChecker}
  {sigVersion : SigVersion} {execData : ScriptExecutionData} {required n : Nat}
  {keys : List (List UInt8)} {stack : Stack} {s : EvalState}

omit [Sha2] [LegacyHash] in
lemma checkStackSize_eq_ok_iff {s s' : EvalState} :
    checkStackSize s = .ok s' ↔ s.stack.length + s.altstack.length ≤ maxStackSize ∧ s' = s := by
  constructor
  · intro h
    refine ⟨?_, (checkStackSize_eq_ok h)⟩
    by_contra hlt
    rw [checkStackSize_of_lt (Nat.lt_of_not_le hlt)] at h
    cases h
  · rintro ⟨hle, rfl⟩
    exact checkStackSize_of_le hle

/-- The pushes of the keys succeed if there is room for them. -/
lemma foldlM_pushes_iff {pushes : List Instruction}
    (hpushes : List.Forall₂ MultisigTemplate.Pushes pushes keys)
    (husual : ∀ key ∈ keys, key.length = 33 ∨ key.length = 65)
    (hroom : stack.length ≤ maxStackSize) :
    (pushes.map .ok).foldlM (step ctx) ⟨stack, [], [], n, 0, execData⟩ = .ok s ↔
      stack.length + keys.length ≤ maxStackSize ∧ s = ⟨stack ++ keys, [], [], n, 0, execData⟩ := by
  induction hpushes generalizing stack with
  | nil => simp [hroom, eq_comm]
  | @cons push key pushes keys hpush hpushes ih =>
    obtain ⟨hkey, husual⟩ := List.forall_mem_cons.mp husual
    obtain ⟨hopcode, hdata⟩ := hpush
    have hlow : push.opcode ≤ Opcode.opPushdata4 := by
      rw [UInt8.le_iff_toNat_le, hopcode, MultisigTemplate.toNat_length hkey]
      have hlimit : Opcode.opPushdata4.toNat = 0x4e := rfl
      omega
    rw [List.map_cons, List.foldlM_cons,
      step_push hlow (by rw [hdata, maxScriptElementSize]; omega)
        (by
          rw [hopcode, hdata]
          exact checkMinimalPush_of_length (MultisigTemplate.toNat_length hkey).symm (by omega)
            (by omega)), hdata]
    simp only [Result.bind_eq_ok, checkStackSize_eq_ok_iff]
    constructor
    · rintro ⟨s', ⟨hle, rfl⟩, h⟩
      have hsize : (stack ++ [key]).length ≤ maxStackSize := hle
      obtain ⟨hle', rfl⟩ := (ih husual hsize).mp h
      rw [List.length_append, List.length_singleton] at hle'
      exact ⟨by rw [List.length_cons]; omega, by rw [List.append_assoc, List.singleton_append]⟩
    · rintro ⟨hle, rfl⟩
      rw [List.length_cons] at hle
      have hsize : (stack ++ [key]).length ≤ maxStackSize := by
        rw [List.length_append, List.length_singleton]
        omega
      refine ⟨_, ⟨hsize, rfl⟩, (ih husual hsize).mpr ⟨?_, ?_⟩⟩
      · rw [List.length_append, List.length_singleton]
        omega
      · rw [List.append_assoc, List.singleton_append]

/-! ### The operands of the check -/

omit [Sha2] [LegacyHash] in
lemma pop_concat (rest : Stack) (top : List UInt8) : pop (rest ++ [top]) = .ok (top, rest) := by
  simp [pop, okOr]

omit [Sha2] [LegacyHash] in
lemma popMany_append (rest items : Stack) :
    popMany items.length (rest ++ items) = .ok (items, rest) := by
  induction items using List.reverseRecOn with
  | nil => simp [popMany]
  | append_singleton items top ih =>
    rw [List.length_append, List.length_singleton, popMany, ← List.append_assoc, pop_concat,
      Result.ok_bind]
    dsimp only
    rw [ih, Result.ok_bind]
    rfl

omit [Sha2] [LegacyHash] in
lemma popNum_small (h : n ≤ 16) (rest : Stack) (requireMinimal : Bool) :
    popNum (rest ++ [scriptNumEncode n]) requireMinimal = .ok ((n : Int), rest) := by
  have hsmall : ∀ (n : Fin 17) (requireMinimal : Bool),
      scriptNumDecode (scriptNumEncode n) requireMinimal defaultMaxNumSize = .ok n := by
    decide
  have hdecode := hsmall ⟨n, Nat.lt_succ_of_le h⟩ requireMinimal
  rw [popNum, pop_concat, Result.ok_bind]
  dsimp only
  rw [hdecode]
  rfl

omit [Sha2] [LegacyHash] in
/-- Under the numbers and the keys of the script are the signatures and one more element. -/
lemma multisigArgs_eq_ok_iff (h : MultisigTemplate required keys)
    (hcount : n + keys.length ≤ maxOpsPerScript) {args : MultisigArgs} :
    multisigArgs ctx (stack ++ [scriptNumEncode required] ++ keys ++ [scriptNumEncode keys.length])
        n = .ok args ↔
      ∃ rest dummy sigs, stack = rest ++ dummy :: sigs ∧ sigs.length = required ∧
        (ctx.flags.contains .nulldummy = true → dummy = []) ∧
        args = ⟨keys, sigs, rest, n + keys.length⟩ := by
  have hkeys := h.few
  have hle := h.le
  rw [multisigArgs, popNum_small h.few, Result.ok_bind]
  dsimp only
  rw [rejectIf, if_neg (by rw [maxPubkeysPerMultisig]; omega), Result.ok_bind, Int.toNat_natCast,
    rejectIf, if_neg (by omega), Result.ok_bind, requireDepth, rejectIf,
    if_neg (by rw [List.length_append]; omega), Result.ok_bind, popMany_append, Result.ok_bind]
  dsimp only
  rw [popNum_small (Nat.le_trans h.le h.few), Result.ok_bind]
  dsimp only
  rw [rejectIf, if_neg (by omega), Result.ok_bind, Int.toNat_natCast]
  simp only [Result.bind_eq_ok]
  constructor
  · rintro ⟨_, hdepth, ⟨sigs, rest⟩, hsigs, ⟨dummy, rest'⟩, hdummy, _, hnull, hargs⟩
    have hroom : required ≤ stack.length := by
      by_contra hlt
      rw [requireDepth, rejectIf, if_pos (by omega)] at hdepth
      cases hdepth
    have hdrop : (stack.drop (stack.length - required)).length = required := by
      rw [List.length_drop]
      omega
    have hpop := popMany_append (stack.take (stack.length - required))
      (stack.drop (stack.length - required))
    rw [List.take_append_drop, hdrop, hsigs] at hpop
    obtain ⟨rfl, rfl⟩ := Prod.mk.inj (Except.ok.inj hpop)
    have htake := pop_eq_ok hdummy
    refine ⟨rest', dummy, stack.drop (stack.length - required), ?_, hdrop, ?_,
      (Except.ok.inj hargs).symm⟩
    · rw [List.append_cons, ← htake, List.take_append_drop]
    · intro hflag
      by_contra hne
      rw [rejectIf, if_pos ⟨hflag, hne⟩] at hnull
      cases hnull
  · rintro ⟨rest, dummy, sigs, rfl, rfl, hnull, rfl⟩
    rw [List.append_cons]
    refine ⟨(), ?_, _, popMany_append _ _, _, pop_concat _ _, (), ?_, rfl⟩
    · rw [requireDepth, rejectIf, if_neg (by rw [List.length_append]; omega)]
    · rw [rejectIf, if_neg]
      rintro ⟨hflag, hne⟩
      exact hne (hnull hflag)

/-! ### The script -/

/-- A number from 1 to 16. -/
lemma step_smallInt {i : Instruction} {k : Nat} (hpos : 1 ≤ k) (hle : k ≤ 16)
    (hopcode : i.opcode = smallInt k) (hdata : i.data = []) :
    step ctx ⟨stack, [], [], n, 0, execData⟩ (.ok i) =
      checkStackSize ⟨stack ++ [scriptNumEncode k], [], [], n, 0, execData⟩ := by
  have hsmall : ∀ k : Fin 17, 1 ≤ k.val → ¬ smallInt k ≤ Opcode.opPushdata4 ∧
      Opcode.isDisabled (smallInt k) = false ∧
      Opcode.countsTowardsOpLimit (smallInt k) = false ∧
      Opcode.toOp (smallInt k) = .stack (.pushN k) := by
    decide
  obtain ⟨hop, hdisabled, hcounts, htoOp⟩ := hsmall ⟨k, Nat.lt_succ_of_le hle⟩ hpos
  have hcount : countOp ctx (smallInt k) n = .ok n := by
    rw [countOp, if_neg (by simp [hcounts])]
    rfl
  rw [step_stackOp hopcode hdata hop hdisabled hcount htoOp]
  rfl

lemma execOp_checkMultisig (hversion : ctx.sigVersion ≠ .tapscript)
    (i : Instruction) :
    execOp ctx true i ⟨stack, [], [], n, 0, execData⟩ (.checkMultisig false) =
      (evalCheckmultisig ctx 0 stack n >>= fun r =>
        .ok ⟨r.2.1 ++ [boolElement r.1], [], [], r.2.2, 0, execData⟩) := by
  rw [execOp, rejectIf, if_neg hversion, Result.ok_bind]
  cases evalCheckmultisig ctx 0 stack n <;> rfl

omit [Sha2] [LegacyHash] in
lemma length_flatten_pushKey (husual : ∀ key ∈ keys, key.length = 33 ∨ key.length = 65) :
    34 * keys.length ≤ (keys.map pushKey).flatten.length ∧
      (keys.map pushKey).flatten.length ≤ 66 * keys.length := by
  induction keys with
  | nil => simp
  | cons key keys ih =>
    obtain ⟨hkey, husual⟩ := List.forall_mem_cons.mp husual
    obtain ⟨hlow, hhigh⟩ := ih husual
    rw [List.map_cons, List.flatten_cons, List.length_append, pushKey, List.length_cons,
      List.length_cons]
    omega

omit [Sha2] [LegacyHash] in
lemma length_multisigScript (h : MultisigTemplate required keys) :
    37 ≤ (multisigScript required keys).length ∧
      (multisigScript required keys).length ≤ maxScriptSize := by
  obtain ⟨hlow, hhigh⟩ := length_flatten_pushKey h.usual
  have hpos := h.pos
  have hle := h.le
  have hfew := h.few
  simp only [multisigScript, multisigChunks, List.flatten_cons, List.flatten_append,
    List.flatten_nil, List.length_append, List.length_cons, List.length_nil, maxScriptSize]
  omega

/-- The last two instructions: the number of keys, and the check. -/
lemma foldlM_check_iff {count check : Instruction} {k : Nat}
    (hlegacy : ctx.sigVersion = .base ∨ ctx.sigVersion = .witnessV0) (hpos : 1 ≤ k) (hle : k ≤ 16)
    (hcount : count.opcode = smallInt k ∧ count.data = [])
    (hcheck : check.opcode = 0xae ∧ check.data = []) :
    ([count, check].map .ok).foldlM (step ctx) ⟨stack, [], [], 0, 0, execData⟩ = .ok s ↔
      stack.length + 1 ≤ maxStackSize ∧ ∃ success rest opCount,
        evalCheckmultisig ctx 0 (stack ++ [scriptNumEncode k]) 1 = .ok (success, rest, opCount) ∧
        rest.length + 1 ≤ maxStackSize ∧
        s = ⟨rest ++ [boolElement success], [], [], opCount, 0, execData⟩ := by
  have hlegacy' : ctx.legacyLimits = true := legacyLimits_eq_true hlegacy
  have hversion : ctx.sigVersion ≠ .tapscript := ne_tapscript_of_legacy hlegacy
  have hstep : ∀ stack, step ctx ⟨stack, [], [], 0, 0, execData⟩ (.ok check) =
      ((evalCheckmultisig ctx 0 stack 1 >>= fun r =>
        .ok ⟨r.2.1 ++ [boolElement r.1], [], [], r.2.2, 0, execData⟩) >>= checkStackSize) := by
    intro stack
    rw [step_op (by rw [hcheck.1]; decide) hcheck.2 (by rw [hcheck.1]; rfl)
      (by rw [hcheck.1]; exact countOp_of_lt hlegacy' rfl (by decide)) (by rw [hcheck.1]; rfl),
      hcheck.1]
    exact congrArg (· >>= checkStackSize) (execOp_checkMultisig hversion check)
  simp only [List.map_cons, List.map_nil, List.foldlM_cons, List.foldlM_nil,
    step_smallInt hpos hle hcount.1 hcount.2, Result.bind_eq_ok, checkStackSize_eq_ok_iff]
  constructor
  · rintro ⟨_, ⟨hroom, rfl⟩, s', hs', hs⟩
    rw [hstep] at hs'
    simp only [Result.bind_eq_ok, checkStackSize_eq_ok_iff] at hs'
    obtain ⟨_, ⟨⟨success, rest, opCount⟩, hcheck, hpushed⟩, hsize, rfl⟩ := hs'
    obtain rfl := Except.ok.inj hpushed
    exact ⟨by simpa using hroom, success, rest, opCount, hcheck, by simpa using hsize,
      (Except.ok.inj hs).symm⟩
  · rintro ⟨hroom, success, rest, opCount, hcheck, hsize, rfl⟩
    refine ⟨_, ⟨by simpa using hroom, rfl⟩, _, ?_, rfl⟩
    rw [hstep, hcheck, Result.ok_bind, Result.ok_bind]
    exact checkStackSize_of_le (by simpa using hsize)

/-- The pushes leave the operands of the check, which decides what is left. -/
lemma eval_multisigScript_eq_ok_iff (h : MultisigTemplate required keys)
    (hlegacy : sigVersion = .base ∨ sigVersion = .witnessV0) {stack' : Stack} :
    evalScriptWithData ⟨multisigScript required keys, flags, checker, sigVersion⟩ stack execData =
        .ok stack' ↔
      stack.length + keys.length + 2 ≤ maxStackSize ∧ ∃ success rest opCount,
        evalCheckmultisig ⟨multisigScript required keys, flags, checker, sigVersion⟩ 0
            (stack ++ [scriptNumEncode required] ++ keys ++ [scriptNumEncode keys.length]) 1 =
          .ok (success, rest, opCount) ∧
        rest.length + 1 ≤ maxStackSize ∧ stack' = rest ++ [boolElement success] := by
  obtain ⟨number, count, check, pushes, hread, ⟨hnumber, hnumber'⟩, hpushes, hcount, hcheck⟩ :=
    h.exists_instructions
  have hsize : ¬ (multisigScript required keys).length > maxScriptSize :=
    Nat.not_lt.mpr (length_multisigScript h).2
  have hpos : 1 ≤ keys.length := Nat.le_trans h.pos h.le
  have hlast := fun stack s => @foldlM_check_iff _ _
    ⟨multisigScript required keys, flags, checker, sigVersion⟩ execData stack s count check
    keys.length hlegacy hpos h.few hcount hcheck
  rw [evalScriptWithData]
  dsimp only
  rw [rejectIf, if_neg (fun hbig => hsize hbig.2), Result.ok_bind, hread, EvalState.start,
    List.map_cons, List.foldlM_cons,
    step_smallInt h.pos (Nat.le_trans h.le h.few) hnumber hnumber', List.map_append]
  simp only [Result.bind_eq_ok, checkStackSize_eq_ok_iff, List.foldlM_append]
  constructor
  · rintro ⟨s, ⟨_, ⟨hfirst, rfl⟩, middle, hmiddle, hs⟩, _, -, hret⟩
    obtain ⟨-, rfl⟩ := (foldlM_pushes_iff hpushes h.usual hfirst).mp hmiddle
    obtain ⟨hroom, success, rest, opCount, hverdict, hleft, rfl⟩ := (hlast _ _).mp hs
    simp only [List.length_append, List.length_singleton] at hroom
    exact ⟨by omega, success, rest, opCount, hverdict, hleft, (Except.ok.inj hret).symm⟩
  · rintro ⟨hroom, success, rest, opCount, hverdict, hleft, rfl⟩
    have hfirst : (stack ++ [scriptNumEncode required]).length ≤ maxStackSize := by
      rw [List.length_append, List.length_singleton]
      omega
    have hsecond : (stack ++ [scriptNumEncode required]).length + keys.length ≤ maxStackSize := by
      rw [List.length_append, List.length_singleton]
      omega
    have hthird : (stack ++ [scriptNumEncode required] ++ keys).length + 1 ≤ maxStackSize := by
      rw [List.length_append, List.length_append, List.length_singleton]
      omega
    exact ⟨_, ⟨_, ⟨hfirst, rfl⟩, _,
      (foldlM_pushes_iff hpushes h.usual hfirst).mpr ⟨hsecond, rfl⟩,
      (hlast _ _).mpr ⟨hthird, success, rest, opCount, hverdict, hleft, rfl⟩⟩, (), rfl, rfl⟩

variable (ctx) in
/-- The keys accept the signatures in order, and no pair that is looked at raises an error. -/
structure SignedInOrder (sigs keys : List (List UInt8)) : Prop where
  returned : ReachedValid (PairReturns ctx 0) (PairMatches ctx 0) sigs keys
  matched : List.SublistForall₂ (PairMatches ctx 0) sigs keys

omit [Sha2] [LegacyHash] in
lemma evalCheckmultisig_eq_true_iff {args : MultisigArgs}
    (hargs : multisigArgs ctx stack n = .ok args) {rest : Stack} {opCount : Nat} :
    evalCheckmultisig ctx 0 stack n = .ok (true, rest, opCount) ↔
      SignedInOrder ctx args.sigs args.pubkeys ∧ rest = args.stack ∧ opCount = args.opCount := by
  have hchecks := checks_checkPair ctx 0 args.sigs
  have hle := sigs_length_le hargs
  rw [evalCheckmultisig_eq hargs]
  constructor
  · intro h
    obtain ⟨⟨success, left⟩, hscan, h⟩ := Result.bind_eq_ok.mp h
    obtain ⟨_, -, h⟩ := Result.bind_eq_ok.mp h
    obtain ⟨rfl, hrest⟩ := Prod.mk.inj (Except.ok.inj h)
    obtain ⟨rfl, rfl⟩ := Prod.mk.inj hrest
    exact ⟨⟨(scan_returns_iff hchecks hle).mp ⟨_, hscan⟩,
      (scan_success_iff hchecks hscan).mp rfl⟩, rfl, rfl⟩
  · rintro ⟨hsigned, rfl, rfl⟩
    obtain ⟨⟨success, left⟩, hscan⟩ := (scan_returns_iff hchecks hle).mpr hsigned.returned
    obtain rfl := (scan_success_iff hchecks hscan).mpr hsigned.matched
    rw [hscan, Result.ok_bind]
    dsimp only
    rw [rejectIf, if_neg (by simp)]
    rfl

/-- The script leaves a true top exactly when the stack ends with as many signatures as it asks for,
which its keys accept in order, over the element that the check takes in excess. -/
lemma eval_multisigScript_iff (h : MultisigTemplate required keys)
    (hlegacy : sigVersion = .base ∨ sigVersion = .witnessV0) {stack' : Stack} :
    evalScriptWithData ⟨multisigScript required keys, flags, checker, sigVersion⟩ stack execData =
        .ok stack' ∧ topIsTrue stack' = true ↔
      ∃ rest dummy sigs, stack = rest ++ dummy :: sigs ∧ sigs.length = required ∧
        (flags.contains .nulldummy = true → dummy = []) ∧
        stack.length + keys.length + 2 ≤ maxStackSize ∧
        SignedInOrder ⟨multisigScript required keys, flags, checker, sigVersion⟩ sigs keys ∧
        stack' = rest ++ [[1]] := by
  have hfew := h.few
  have hargs := fun args => @multisigArgs_eq_ok_iff
    ⟨multisigScript required keys, flags, checker, sigVersion⟩ required 1 keys stack h
    (by rw [maxOpsPerScript]; omega) args
  rw [eval_multisigScript_eq_ok_iff h hlegacy]
  constructor
  · rintro ⟨⟨hroom, success, rest, opCount, hverdict, -, rfl⟩, htrue⟩
    obtain rfl : success = true := topIsTrue_append_boolElement htrue
    obtain ⟨args, hread, -⟩ := Result.bind_eq_ok.mp hverdict
    obtain ⟨hsigned, rfl, -⟩ := (evalCheckmultisig_eq_true_iff hread).mp hverdict
    obtain ⟨rest, dummy, sigs, hstack, hcount, hnull, rfl⟩ := (hargs args).mp hread
    exact ⟨rest, dummy, sigs, hstack, hcount, hnull, hroom, hsigned, rfl⟩
  · rintro ⟨rest, dummy, sigs, hstack, hcount, hnull, hroom, hsigned, rfl⟩
    have hread := (hargs _).mpr ⟨rest, dummy, sigs, hstack, hcount, hnull, rfl⟩
    refine ⟨⟨hroom, true, rest, _,
      (evalCheckmultisig_eq_true_iff hread).mpr ⟨hsigned, rfl, rfl⟩, ?_, rfl⟩,
      by simp [topIsTrue, castToBool]⟩
    rw [hstack, List.length_append, List.length_cons] at hroom
    omega

end Eval

/-! ### The outputs -/

section Outputs

variable [Sha2] [LegacyHash] {flags : VerifyFlags} {checker : SignatureChecker} {required : Nat}
  {keys : List (List UInt8)} {scriptSig : List UInt8} {items witness : List (List UInt8)}

/-- The script accepts the signatures over an element in excess, and nothing below it. -/
lemma runWitnessScript_multisigScript_iff (h : MultisigTemplate required keys) :
    runWitnessScript flags checker items (multisigScript required keys) .witnessV0 .new = .ok () ↔
      ∃ dummy sigs, items = dummy :: sigs ∧ sigs.length = required ∧
        (flags.contains .nulldummy = true → dummy = []) ∧
        (∀ item ∈ items, item.length ≤ maxScriptElementSize) ∧
        SignedInOrder ⟨multisigScript required keys, flags, checker, .witnessV0⟩ sigs keys := by
  have hiff := fun stack' => @eval_multisigScript_iff _ _ flags checker .witnessV0 .new required
    keys items h (.inr rfl) stack'
  rw [runWitnessScript_iff]
  constructor
  · rintro ⟨hsmall, stack', heval, htrue, hone⟩
    obtain ⟨rest, dummy, sigs, rfl, hcount, hnull, -, hsigned, rfl⟩ :=
      (hiff stack').mp ⟨heval, htrue⟩
    obtain rfl : rest = [] := by simpa using hone
    exact ⟨dummy, sigs, rfl, hcount, hnull, hsmall, hsigned⟩
  · rintro ⟨dummy, sigs, rfl, hcount, hnull, hsmall, hsigned⟩
    have hroom : (dummy :: sigs).length + keys.length + 2 ≤ maxStackSize := by
      have hle := h.le
      have hfew := h.few
      rw [List.length_cons, maxStackSize]
      omega
    obtain ⟨heval, htrue⟩ := (hiff [[1]]).mpr
      ⟨[], dummy, sigs, rfl, hcount, hnull, hroom, hsigned, rfl⟩
    exact ⟨hsmall, _, heval, htrue, rfl⟩

variable [Secp256k1]

/-- The version 0 program of the hash of a script is spent with this script exactly by an empty
scriptSig and elements that the script accepts. -/
lemma verifyScript_scriptHash_iff (hwitness : flags.contains .witness = true)
    (script : List UInt8) :
    verifyScript flags checker scriptSig ([0x00, 0x20] ++ (sha256 script).toList)
        (items ++ [script]) = .ok () ↔
      scriptSig = [] ∧ castToBool (sha256 script).toList = true ∧
        runWitnessScript flags checker items script .witnessV0 .new = .ok () := by
  have hlen : (sha256 script).toList.length = 32 := by simp
  have hparse : parseWitnessProgram ([0x00, 0x20] ++ (sha256 script).toList) =
      some ⟨0, (sha256 script).toList⟩ := by
    simp [parseWitnessProgram]
  have hp2sh : isPayToScriptHash ([0x00, 0x20] ++ (sha256 script).toList) = .ok false := by
    rw [isPayToScriptHash, if_neg (by simp)]
    rfl
  have hscript : witnessV0Script (items ++ [script]) (sha256 script).toList =
      .ok (script, items) := by
    rw [witnessV0Script, if_pos hlen, rejectIf, if_neg (by simp), Result.ok_bind,
      List.getLast?_concat, unwrap, Result.ok_bind, rejectIf, if_neg (by simp), Result.ok_bind,
      List.dropLast_concat]
    rfl
  rw [verifyScript_native_iff hwitness hparse hp2sh
      (evalScript_version0 hlen (by omega) (by omega)),
    verifyWitnessProgram, if_pos rfl, hscript, Result.ok_bind]
  dsimp only
  rw [executeWitnessScript, if_neg (by decide)]

/-- The version 0 program of the hash of the script is spent with this script exactly by an empty
scriptSig and as many signatures as it asks for, after one element in excess: the keys accept the
signatures in order. -/
theorem verifyScript_multisigProgram_iff (hwitness : flags.contains .witness = true)
    (h : MultisigTemplate required keys) :
    verifyScript flags checker scriptSig
        ([0x00, 0x20] ++ (sha256 (multisigScript required keys)).toList)
        (items ++ [multisigScript required keys]) = .ok () ↔
      scriptSig = [] ∧ castToBool (sha256 (multisigScript required keys)).toList = true ∧
        ∃ dummy sigs, items = dummy :: sigs ∧ sigs.length = required ∧
          (flags.contains .nulldummy = true → dummy = []) ∧
          (∀ item ∈ items, item.length ≤ maxScriptElementSize) ∧
          SignedInOrder ⟨multisigScript required keys, flags, checker, .witnessV0⟩ sigs keys := by
  rw [verifyScript_scriptHash_iff hwitness, runWitnessScript_multisigScript_iff h]

omit [Sha2] [LegacyHash] [Secp256k1] in
/-- The script is not a witness program. -/
lemma parseWitnessProgram_multisigScript (h : MultisigTemplate required keys) :
    parseWitnessProgram (multisigScript required keys) = none := by
  have hlow := (length_multisigScript h).1
  obtain ⟨key, others, rfl⟩ : ∃ key others, keys = key :: others :=
    List.exists_cons_of_length_pos (Nat.le_trans h.pos h.le)
  have hkey := h.usual key (by simp)
  have hscript : multisigScript required (key :: others) =
      smallInt required :: UInt8.ofNat key.length :: (key ++ ((others.map pushKey).flatten ++
        [smallInt (others.length + 1), 0xae])) := by
    simp [multisigScript, multisigChunks, pushKey]
  have hlength := congrArg List.length hscript
  simp only [List.length_cons, List.length_append, List.length_nil] at hlength
  have hother : (UInt8.ofNat key.length).toNat + 2 ≠
      (multisigScript required (key :: others)).length := by
    rw [MultisigTemplate.toNat_length hkey]
    omega
  unfold parseWitnessProgram
  by_cases hbounds : (multisigScript required (key :: others)).length < 4 ∨
      (multisigScript required (key :: others)).length > 42
  · rw [if_pos hbounds]
  · rw [if_neg hbounds]
    rw [hscript] at hother ⊢
    dsimp only
    rw [if_pos hother, ite_self]

/-- An accepted spend of the script in an output. -/
lemma signedInOrder_of_verifyScript (h : MultisigTemplate required keys)
    (hverify : verifyScript flags checker scriptSig (multisigScript required keys) witness =
      .ok ()) :
    ∃ sigs, sigs.length = required ∧
      SignedInOrder ⟨multisigScript required keys, flags, checker, .base⟩ sigs keys := by
  obtain ⟨afterSig, stack, -, -, hscript, htrue, -, -⟩ := parts_of_verifyScript hverify
  obtain ⟨-, -, sigs, -, hcount, -, -, hsigned, -⟩ :=
    (eval_multisigScript_iff h (.inl rfl)).mp ⟨hscript, htrue⟩
  exact ⟨sigs, hcount, hsigned⟩

/-- The script in an output is spent exactly by a scriptSig that leaves as many signatures as it
asks for on top of its stack, over one element in excess, without a witness: the keys accept the
signatures in order, for the script without the signatures themselves. -/
theorem verifyScript_multisigScript_iff (h : MultisigTemplate required keys) :
    verifyScript flags checker scriptSig (multisigScript required keys) witness = .ok () ↔
      witness = [] ∧
      rejectUnless (flags.contains .sigpushonly) (isPushOnly scriptSig) .sigPushOnly = .ok () ∧
      ∃ rest dummy sigs, evalScript flags checker [] scriptSig = .ok (rest ++ dummy :: sigs) ∧
        sigs.length = required ∧ (flags.contains .nulldummy = true → dummy = []) ∧
        rest.length + required + keys.length + 3 ≤ maxStackSize ∧
        (flags.contains .cleanstack = true → rest = []) ∧
        SignedInOrder ⟨multisigScript required keys, flags, checker, .base⟩ sigs keys := by
  have hp2sh : isPayToScriptHash (multisigScript required keys) = .ok false := by
    have hlow := (length_multisigScript h).1
    rw [isPayToScriptHash, if_neg (by omega)]
    rfl
  have heval := fun stack stack' => @eval_multisigScript_iff _ _ flags checker .base .new required
    keys stack h (.inl rfl) stack'
  rw [verifyScript_plain_iff (parseWitnessProgram_multisigScript h) hp2sh]
  refine and_congr_right fun _ => and_congr_right fun _ => ?_
  constructor
  · rintro ⟨afterSig, stack, hsig, hscript, htrue, hclean⟩
    obtain ⟨rest, dummy, sigs, rfl, hcount, hnull, hroom, hsigned, rfl⟩ :=
      (heval afterSig stack).mp ⟨hscript, htrue⟩
    rw [List.length_append, List.length_cons] at hroom
    refine ⟨rest, dummy, sigs, hsig, hcount, hnull, by omega, fun hflag => ?_, hsigned⟩
    simpa using hclean hflag
  · rintro ⟨rest, dummy, sigs, hsig, hcount, hnull, hroom, hclean, hsigned⟩
    have hroom' : (rest ++ dummy :: sigs).length + keys.length + 2 ≤ maxStackSize := by
      rw [List.length_append, List.length_cons]
      omega
    obtain ⟨hscript, htrue⟩ := (heval (rest ++ dummy :: sigs) (rest ++ [[1]])).mpr
      ⟨rest, dummy, sigs, rfl, hcount, hnull, hroom', hsigned, rfl⟩
    refine ⟨_, _, hsig, hscript, htrue, fun hflag => ?_⟩
    rw [hclean hflag]
    rfl

end Outputs

/-! ### Two of three -/

namespace Sample

/-- Keys that are told apart by their bytes. -/
def threeKeys : List (List UInt8) := [List.replicate 33 2, List.replicate 33 3, List.replicate 33 4]

/-- A key accepts the signatures that start with the same byte. -/
def headChecker : SignatureChecker := acceptsPairs fun sig pubkey => sig.head? = pubkey.head?

lemma template_threeKeys : MultisigTemplate 2 threeKeys where
  pos := by decide
  le := by decide
  few := by decide
  usual := by decide

lemma signedInOrder_threeKeys {sigVersion : SigVersion}
    (hlegacy : sigVersion = .base ∨ sigVersion = .witnessV0) :
    SignedInOrder ⟨multisigScript 2 threeKeys, segwitFlags, headChecker, sigVersion⟩ [[2], [4]]
      threeKeys := by
  have hpair : ∀ sig ∈ [[2], [4]], ∀ key ∈ threeKeys,
      checkPair ⟨multisigScript 2 threeKeys, segwitFlags, headChecker, sigVersion⟩ 0 sig key =
        .ok (sig.head? = key.head?) := by
    rcases hlegacy with rfl | rfl <;> decide +kernel
  refine ⟨?_, ?_⟩
  · intro j sig key hmeets hkey
    exact ⟨_, hpair sig hmeets.mem key (List.mem_of_getElem? hkey)⟩
  · exact .cons (hpair _ (by simp) _ (by simp [threeKeys]))
      (.cons_right (.cons (hpair _ (by simp) _ (by simp [threeKeys])) .nil))

theorem verifyScript_multisigProgram_threeKeys :
    verifyScript segwitFlags headChecker []
        ([0x00, 0x20] ++ (sha256 (multisigScript 2 threeKeys)).toList)
        ([[], [2], [4]] ++ [multisigScript 2 threeKeys]) = .ok () :=
  (verifyScript_multisigProgram_iff (by decide) template_threeKeys).mpr ⟨rfl, by decide +kernel, [],
    [[2], [4]], rfl, rfl, fun _ => rfl, by decide, signedInOrder_threeKeys (.inr rfl)⟩

theorem verifyScript_multisigScript_threeKeys :
    verifyScript segwitFlags headChecker [0x00, 0x01, 0x02, 0x01, 0x04] (multisigScript 2 threeKeys)
      [] = .ok () :=
  (verifyScript_multisigScript_iff template_threeKeys).mpr ⟨rfl, by decide, [], [], [[2], [4]],
    by decide +kernel, rfl, fun _ => rfl, by decide, fun _ => rfl,
    signedInOrder_threeKeys (.inl rfl)⟩

end Sample

end Bitcrab
