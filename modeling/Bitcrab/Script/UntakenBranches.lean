import Bitcrab.Script.CodeSeparators

/-!
# Branches that are not taken

Under a condition that is false, a balanced sequence of instructions changes nothing but the
operation count: the conditionals inside of it push their own entries on the condition stack, toggle
them and pop them again, and everything else is skipped.
-/

namespace Bitcrab

open Outcome

/-! ### Balanced sequences -/

/-- The number of open conditionals after one more opcode. An `OP_ELSE` or `OP_ENDIF` needs one. -/
def depthAfter (depth : Nat) (opcode : UInt8) : Option Nat :=
  if opcode = 0x63 ∨ opcode = 0x64 then some (depth + 1)
  else if opcode = 0x67 then if depth = 0 then none else some depth
  else if opcode = 0x68 then if depth = 0 then none else some (depth - 1)
  else some depth

/-- Every `OP_IF` and `OP_NOTIF` is closed, and every `OP_ELSE` and `OP_ENDIF` belongs to one of
them. -/
def Balanced (is : List Instruction) : Prop :=
  is.foldlM (fun depth i => depthAfter depth i.opcode) 0 = some 0

/-- An instruction that an evaluation skips: one of those that fail a script wherever they are is
none. -/
structure CanSkip (i : Instruction) : Prop where
  data : i.data.length ≤ 520
  enabled : Opcode.isDisabled i.opcode = false
  verIf : i.opcode ≠ 0x65
  verNotIf : i.opcode ≠ 0x66

/-! ### Evaluation -/

section Skip

variable [Sha2] [LegacyHash] {ctx : EvalContext} {s t : EvalState} {depth : Nat}

/-- The state `t` is `s` with some more operations counted and `depth` open conditionals on top. -/
def Inside (s : EvalState) (depth : Nat) (t : EvalState) : Prop :=
  ∃ opened opCount, opened.length = depth ∧
    t = { s with conditionStack := s.conditionStack ++ opened, opCount }

omit [Sha2] [LegacyHash] in
lemma Inside.not_executing (hfalse : s.conditionStack.all id = false) (h : Inside s depth t) :
    t.conditionStack.all id = false := by
  obtain ⟨opened, opCount, _, rfl⟩ := h
  rw [List.all_append, hfalse, Bool.false_and]

variable (ctx) in
omit [Sha2] [LegacyHash] in
/-- Counting an opcode fails with the limit, if at all. -/
lemma countOp_cases (opcode : UInt8) (opCount : Nat) :
    countOp ctx opcode opCount = fail .opCount ∨ ∃ n, countOp ctx opcode opCount = .ok n := by
  unfold countOp
  by_cases hcount : ctx.legacyLimits ∧ Opcode.countsTowardsOpLimit opcode
  · rw [if_pos hcount]
    by_cases hlimit : opCount + 1 > maxOpsPerScript
    · exact .inl (by rw [rejectIf, if_pos hlimit]; rfl)
    · exact .inr ⟨opCount + 1, by rw [rejectIf, if_neg hlimit]; rfl⟩
  · exact .inr ⟨opCount, by rw [if_neg hcount]; rfl⟩

omit [Sha2] [LegacyHash] in
lemma isConditional_cases {opcode : UInt8} (h : Opcode.isConditional opcode = true)
    (hver : opcode ≠ 0x65) (hvernot : opcode ≠ 0x66) :
    opcode = 0x63 ∨ opcode = 0x64 ∨ opcode = 0x67 ∨ opcode = 0x68 := by
  simp only [Opcode.isConditional, decide_eq_true_eq, UInt8.le_iff_toNat_le] at h
  simp only [ne_eq, ← UInt8.toNat_inj] at hver hvernot ⊢
  simp only [UInt8.reduceToNat] at h hver hvernot ⊢
  omega

variable (ctx) in
/-- The conditional opcodes in a branch that is not taken. -/
lemma execOp_inside (i : Instruction) (h : Inside s depth t) {depth' : Nat}
    (hdepth : depthAfter depth i.opcode = some depth')
    (hop : i.opcode = 0x63 ∨ i.opcode = 0x64 ∨ i.opcode = 0x67 ∨ i.opcode = 0x68) :
    ∃ t', execOp ctx false i t (Opcode.toOp i.opcode) = .ok t' ∧ Inside s depth' t' := by
  obtain ⟨opened, opCount, hlen, rfl⟩ := h
  -- an opcode that opens a conditional leaves a false entry, whatever the argument is
  have hopen : ∀ negated, Opcode.toOp i.opcode = .ifOp negated → depth' = depth + 1 →
      ∃ t', execOp ctx false i { s with conditionStack := s.conditionStack ++ opened, opCount }
        (Opcode.toOp i.opcode) = .ok t' ∧ Inside s depth' t' := by
    intro negated htoOp hd
    rw [htoOp, hd]
    exact ⟨_, rfl, opened ++ [false], opCount, by simp [hlen], by simp⟩
  -- an opcode that needs an open conditional finds one of those on top
  have hclose : depth ≠ 0 → ∃ init last, opened = init ++ [last] ∧ init.length = depth - 1 := by
    intro hne
    obtain rfl | ⟨init, last, rfl⟩ := List.eq_nil_or_concat opened
    · exact absurd hlen.symm hne
    · rw [List.length_concat] at hlen
      exact ⟨init, last, List.concat_eq_append, by omega⟩
  rcases hop with hop | hop | hop | hop <;> rw [hop] at hdepth
  · exact hopen false (by rw [hop]; decide) (by simpa [depthAfter] using hdepth.symm)
  · exact hopen true (by rw [hop]; decide) (by simpa [depthAfter] using hdepth.symm)
  · have htoOp : Opcode.toOp i.opcode = .elseOp := by
      rw [hop]
      decide
    obtain ⟨hne, rfl⟩ : depth ≠ 0 ∧ depth' = depth := by
      simpa [depthAfter, eq_comm] using hdepth
    obtain ⟨init, last, rfl, hinit⟩ := hclose hne
    refine ⟨{ s with conditionStack := s.conditionStack ++ (init ++ [!last]), opCount }, ?_,
      init ++ [!last], opCount, by simpa using hlen, rfl⟩
    rw [htoOp]
    simp [execOp, okOr, ← List.append_assoc]
  · have htoOp : Opcode.toOp i.opcode = .endif := by
      rw [hop]
      decide
    obtain ⟨hne, rfl⟩ : depth ≠ 0 ∧ depth' = depth - 1 := by
      simpa [depthAfter, eq_comm] using hdepth
    obtain ⟨init, last, rfl, hinit⟩ := hclose hne
    refine ⟨{ s with conditionStack := s.conditionStack ++ init, opCount }, ?_, init, opCount,
      hinit,
      rfl⟩
    rw [htoOp]
    simp [execOp, okOr, ← List.append_assoc]

variable (ctx) in
/-- One instruction that can be skipped. -/
lemma step_inside {i : Instruction} (hi : CanSkip i) (hfalse : s.conditionStack.all id = false)
    (hsize : s.stack.length + s.altstack.length ≤ maxStackSize) (h : Inside s depth t)
    {depth' : Nat} (hdepth : depthAfter depth i.opcode = some depth') :
    step ctx t (.ok i) = fail .opCount ∨
      ∃ t', step ctx t (.ok i) = .ok t' ∧ Inside s depth' t' := by
  have hdata : ¬ i.data.length > maxScriptElementSize := not_lt.mpr hi.data
  have hskip : ¬ Opcode.isDisabled i.opcode = true := by simp [hi.enabled]
  rw [step, Result.ok_bind, rejectIf, if_neg hdata, Result.ok_bind]
  obtain hlimit | ⟨n, hcount⟩ := countOp_cases ctx i.opcode t.opCount
  · exact .inl (by rw [hlimit]; rfl)
  refine .inr ?_
  rw [hcount, Result.ok_bind, rejectIf, if_neg hskip, Result.ok_bind]
  have hn : Inside s depth { t with opCount := n } := by
    obtain ⟨opened, opCount, hlen, rfl⟩ := h
    exact ⟨opened, n, hlen, rfl⟩
  have hexec := hn.not_executing hfalse
  rw [execInstruction, hexec]
  by_cases hcond : Opcode.isConditional i.opcode = true
  · have hop := isConditional_cases hcond hi.verIf hi.verNotIf
    obtain ⟨t', ht', hinside⟩ := execOp_inside ctx i hn hdepth hop
    have hpush : ¬ i.opcode ≤ Opcode.opPushdata4 := by
      rcases hop with hop | hop | hop | hop <;> rw [hop] <;> decide
    have hactive : isInactive ctx.flags (Opcode.toOp i.opcode) = false := by
      rcases hop with hop | hop | hop | hop <;> rw [hop] <;> rfl
    have hroom : ¬ t'.stack.length + t'.altstack.length > maxStackSize := by
      obtain ⟨_, _, _, rfl⟩ := hinside
      exact not_lt.mpr hsize
    refine ⟨t', ?_, hinside⟩
    rw [hcond, if_neg (by simp), if_neg hpush, hactive, if_neg (by simp), ht', Result.ok_bind,
      checkStackSize, rejectIf, if_neg hroom]
    rfl
  · refine ⟨{ t with opCount := n }, ?_, ?_⟩
    · rw [if_pos (by simp [hcond])]
      rfl
    · have hkeep : depthAfter depth i.opcode = some depth := by
        have hne : ∀ opcode, Opcode.isConditional opcode = true → i.opcode ≠ opcode := by
          rintro opcode hop rfl
          exact hcond hop
        simp [depthAfter, hne 0x63 (by decide), hne 0x64 (by decide), hne 0x67 (by decide),
          hne 0x68 (by decide)]
      obtain rfl : depth = depth' := Option.some.inj (hkeep.symm.trans hdepth)
      exact hn

variable (ctx) in
/-- A balanced sequence of instructions that can be skipped. -/
lemma foldlM_step_inside {is : List Instruction} (his : ∀ i ∈ is, CanSkip i)
    (hfalse : s.conditionStack.all id = false)
    (hsize : s.stack.length + s.altstack.length ≤ maxStackSize) (h : Inside s depth t)
    {depth' : Nat}
    (hdepth : is.foldlM (fun depth i => depthAfter depth i.opcode) depth = some depth') :
    (is.map .ok).foldlM (step ctx) t = fail .opCount ∨
      ∃ t', (is.map .ok).foldlM (step ctx) t = .ok t' ∧ Inside s depth' t' := by
  induction is generalizing depth t with
  | nil =>
    obtain rfl : depth = depth' := by simpa using hdepth
    exact .inr ⟨t, rfl, h⟩
  | cons i is ih =>
    rw [List.foldlM_cons] at hdepth
    obtain ⟨next, hnext, hdepth⟩ := Option.bind_eq_some_iff.mp hdepth
    rw [List.map_cons, List.foldlM_cons]
    obtain hlimit | ⟨t', ht', hinside⟩ := step_inside ctx (his i List.mem_cons_self) hfalse
      hsize h hnext
    · exact .inl (by rw [hlimit]; rfl)
    · rw [ht', Result.ok_bind]
      exact ih (fun j hj => his j (List.mem_cons_of_mem i hj)) hinside hdepth

/-! ### A segment of a script -/

omit [Sha2] [LegacyHash] in
/-- The same bytes, read at different offsets. -/
lemma same_of_encodesAll {chunks : List (List UInt8)} {is is' : List Instruction}
    (h : EncodesAll chunks is) (h' : EncodesAll chunks is') :
    List.Forall₂ (fun i i' : Instruction => i.opcode = i'.opcode ∧ i.data = i'.data) is is' := by
  induction h generalizing is' with
  | nil =>
    cases h'
    exact .nil
  | cons hi _ ih =>
    cases h' with
    | cons hi' htail => exact .cons (hi.unique hi') (ih htail)

omit [Sha2] [LegacyHash] in
/-- The instructions of a segment stand in the script after those before it. -/
lemma exists_take_instructions {script before segment after : List UInt8}
    {ib is : List Instruction} (hscript : script = before ++ segment ++ after)
    (hbefore : instructions before = ib.map .ok) (hsegment : instructions segment = is.map .ok) :
    ∃ is', List.Forall₂ (fun i i' : Instruction => i.opcode = i'.opcode ∧ i.data = i'.data) is is' ∧
      (instructions script).take (ib.length + is.length) =
        (instructions script).take ib.length ++ is'.map .ok := by
  obtain ⟨hwhole, hib⟩ := segments_of_instructions hbefore
  obtain ⟨hwhole', his⟩ := segments_of_instructions hsegment
  have hsegments : (segments script).1 =
      (segments before).1 ++ ((segments segment).1 ++ (segments after).1) := by
    rw [hscript, List.append_assoc, segments_append_of_whole hwhole,
      segments_append_of_whole hwhole']
  obtain ⟨items, hitems, hread⟩ := exists_instructions script
  rw [hsegments] at hitems
  have hlen := hib.length_eq
  have hlen' := his.length_eq
  have htotal := hitems.length_eq
  simp only [List.length_append] at htotal
  have hmiddle : EncodesAll (segments segment).1 ((items.drop ib.length).take is.length) := by
    have htake := List.forall₂_take is.length (List.forall₂_drop ib.length hitems)
    rwa [← hlen, ← hlen', List.drop_left, List.take_left, hlen, hlen'] at htake
  refine ⟨_, same_of_encodesAll his hmiddle, ?_⟩
  obtain ⟨tail, htail⟩ : ∃ tail, instructions script = items.map .ok ++ tail := by
    rcases hread with ⟨_, hread⟩ | ⟨_, e, hread⟩
    · exact ⟨[], by rw [hread, List.append_nil]⟩
    · exact ⟨[.error e], hread⟩
  have hroom : ib.length ≤ (items.map (Except.ok (ε := Fault ScriptError))).length := by
    rw [List.length_map]
    omega
  have hroom' : is.length ≤
      ((items.map (Except.ok (ε := Fault ScriptError))).drop ib.length).length := by
    rw [List.length_drop, List.length_map]
    omega
  rw [List.take_add, htail, List.drop_append_of_le_length hroom,
    List.take_append_of_le_length hroom', List.map_take, List.map_drop]

omit [Sha2] [LegacyHash] in
lemma canSkip_of_same {is is' : List Instruction}
    (h : List.Forall₂ (fun i i' : Instruction => i.opcode = i'.opcode ∧ i.data = i'.data) is is')
    (his : ∀ i ∈ is, CanSkip i) : ∀ i ∈ is', CanSkip i := by
  induction h with
  | nil => exact his
  | @cons i i' _ _ hi _ ih =>
    obtain ⟨hopcode, hdata⟩ := hi
    have hskip := his i List.mem_cons_self
    refine List.forall_mem_cons.mpr ⟨⟨?_, ?_, ?_, ?_⟩,
      ih fun k hk => his k (List.mem_cons_of_mem i hk)⟩
    · exact hdata ▸ hskip.data
    · exact hopcode ▸ hskip.enabled
    · exact hopcode ▸ hskip.verIf
    · exact hopcode ▸ hskip.verNotIf

omit [Sha2] [LegacyHash] in
lemma foldlM_depthAfter_of_same {is is' : List Instruction}
    (h : List.Forall₂ (fun i i' : Instruction => i.opcode = i'.opcode ∧ i.data = i'.data) is is')
    (depth : Nat) :
    is.foldlM (fun depth i => depthAfter depth i.opcode) depth =
      is'.foldlM (fun depth i => depthAfter depth i.opcode) depth := by
  induction h generalizing depth with
  | nil => rfl
  | cons hi _ ih =>
    rw [List.foldlM_cons, List.foldlM_cons, hi.1]
    exact bind_congr fun next => ih next

/-- A balanced segment of a script, run while a condition around it is false, changes nothing but
the operation count, and fails at the limit of this count if at all. -/
theorem state_of_untaken {stack : Stack} {execData : ScriptExecutionData}
    {before segment after : List UInt8} {ib is : List Instruction}
    (hscript : ctx.script = before ++ segment ++ after)
    (hbefore : instructions before = ib.map .ok) (hsegment : instructions segment = is.map .ok)
    (hskip : ∀ i ∈ is, CanSkip i) (hbalanced : Balanced is)
    (hs : stateBefore ctx stack execData ib.length = .ok s)
    (hfalse : s.conditionStack.all id = false)
    (hsize : s.stack.length + s.altstack.length ≤ maxStackSize) :
    stateBefore ctx stack execData (ib.length + is.length) = fail .opCount ∨
      ∃ opCount, stateBefore ctx stack execData (ib.length + is.length) =
        .ok { s with opCount } := by
  obtain ⟨is', hsame, htake⟩ := exists_take_instructions hscript hbefore hsegment
  have hskip' := canSkip_of_same hsame hskip
  have hbalanced' := (foldlM_depthAfter_of_same hsame 0).symm.trans hbalanced
  rw [stateBefore, htake, List.foldlM_append, ← stateBefore, hs, Result.ok_bind]
  have hinside : Inside s 0 s := ⟨[], s.opCount, rfl, by rw [List.append_nil]⟩
  obtain hlimit | ⟨t, ht, opened, opCount, hnil, rfl⟩ :=
    foldlM_step_inside ctx hskip' hfalse hsize hinside hbalanced'
  · exact .inl hlimit
  · obtain rfl := List.length_eq_zero_iff.mp hnil
    exact .inr ⟨opCount, by rw [ht, List.append_nil]⟩

end Skip

namespace Sample

/-- A script with a conditional inside a branch that is not taken. -/
def untakenContext : EvalContext :=
  ⟨[0x51, 0x00, 0x63] ++ [0x63, 0x76, 0x67, 0x02, 0xab, 0xab, 0x68] ++ [0x68], ⟨0⟩,
    nullSignatureChecker, .base⟩

/-- The state before this conditional. -/
def untakenState : EvalState := ⟨[[1]], [], [false], 1, 0, .new⟩

theorem state_of_untaken_untakenContext :
    stateBefore untakenContext [] .new (3 + 5) = fail .opCount ∨
      ∃ opCount, stateBefore untakenContext [] .new (3 + 5) =
        .ok { untakenState with opCount } :=
  @state_of_untaken _ _ untakenContext untakenState [] .new [0x51, 0x00, 0x63]
    [0x63, 0x76, 0x67, 0x02, 0xab, 0xab, 0x68] [0x68]
    [⟨0, 0x51, [], 1⟩, ⟨1, 0x00, [], 2⟩, ⟨2, 0x63, [], 3⟩]
    [⟨0, 0x63, [], 1⟩, ⟨1, 0x76, [], 2⟩, ⟨2, 0x67, [], 3⟩, ⟨3, 0x02, [0xab, 0xab], 6⟩,
      ⟨6, 0x68, [], 7⟩] rfl (by decide) (by decide)
    (by simp only [List.forall_mem_cons]; exact ⟨⟨by decide, by decide, by decide, by decide⟩,
      ⟨by decide, by decide, by decide, by decide⟩, ⟨by decide, by decide, by decide, by decide⟩,
      ⟨by decide, by decide, by decide, by decide⟩, ⟨by decide, by decide, by decide, by decide⟩,
      fun _ h => nomatch h⟩)
    rfl (by decide +kernel) rfl (by decide)

end Sample

end Bitcrab
