import Bitcrab.Script.Segments

/-!
# What the instruction iterator yields

The iterator goes from instruction to instruction and stops at the end of the script, or behind the
one error that it yields for a truncated push. Scripts that are whole sequences of instructions are
read one after the other when they are joined.
-/

namespace Bitcrab

open Bytes Outcome

/-! ### Truncated pushes -/

/-- The bytes start with a push of which the length field or the data is cut off. -/
inductive Truncated : List UInt8 → Prop
  | header {opcode : UInt8} {rest : List UInt8} : opcode ≤ Opcode.opPushdata4 →
      rest.length < headerLength opcode → Truncated (opcode :: rest)
  | data {opcode : UInt8} {header more : List UInt8} : opcode ≤ Opcode.opPushdata4 →
      header.length = headerLength opcode → more.length < pushedLength opcode header →
      Truncated (opcode :: (header ++ more))

/-- Some bytes start with a truncated push or with an instruction. -/
lemma truncated_or_encodes {bytes : List UInt8} (hne : bytes ≠ []) :
    Truncated bytes ∨ ∃ chunk more opcode data, bytes = chunk ++ more ∧
      Encodes chunk opcode data := by
  cases bytes with
  | nil => exact absurd rfl hne
  | cons opcode rest =>
    by_cases hop : opcode ≤ Opcode.opPushdata4
    · by_cases hheader : rest.length < headerLength opcode
      · exact .inl (.header hop hheader)
      · have hlen : (rest.take (headerLength opcode)).length = headerLength opcode :=
          List.length_take_of_le (not_lt.mp hheader)
        have hsplit := List.take_append_drop (headerLength opcode) rest
        by_cases hdata : (rest.drop (headerLength opcode)).length <
            pushedLength opcode (rest.take (headerLength opcode))
        · rw [← hsplit]
          exact .inl (.data hop hlen hdata)
        · right
          have htake := List.length_take_of_le (not_lt.mp hdata)
          refine ⟨_, (rest.drop (headerLength opcode)).drop
            (pushedLength opcode (rest.take (headerLength opcode))), opcode, _, ?_,
            .push _ _ hop hlen htake⟩
          rw [List.cons_append, List.append_assoc, List.take_append_drop, hsplit]
    · exact .inr ⟨[opcode], rest, opcode, [], rfl, .op (UInt8.not_le.mp hop)⟩

namespace Instructions

/-- A truncated push is `BadOpcode`. -/
lemma next_of_truncated {bytes : List UInt8} (h : Truncated bytes) :
    next bytes 0 = .error (.error .badOpcode) := by
  cases h with
  | @header opcode rest hop hheader =>
    have hindex : (index (opcode :: rest) 0 : Outcome ScriptError UInt8) = .ok opcode := rfl
    have hnot : ¬opcode < 0x4c := by
      intro hsmall
      simp [headerLength, hsmall] at hheader
    have hsize : headerLength opcode =
        if opcode = 0x4c then 1 else if opcode = 0x4d then 2 else 4 := by
      simp [headerLength, hnot]
    have hpush : pushLength (opcode :: rest) opcode 1 = .error (.error .badOpcode) := by
      unfold pushLength
      rw [if_neg hnot, ← hsize, sub_of_le (by simp), Result.ok_bind, rejectIf,
        if_pos (by simpa using hheader)]
      rfl
    rw [next, hindex, Result.ok_bind, payload, if_pos hop, hpush]
    rfl
  | @data opcode header more hop hheader hdata =>
    have hindex : (index (opcode :: (header ++ more)) 0 : Outcome ScriptError UInt8) =
      .ok opcode := rfl
    have hlen := pushLength_append more hheader
    rw [next, hindex, Result.ok_bind, payload, if_pos hop, hlen, Result.ok_bind]
    dsimp only
    rw [sub_of_le (by simp; omega), Result.ok_bind, rejectIf,
      if_pos (by simp only [List.length_cons, List.length_append]; omega)]
    rfl

/-- The bytes of an instruction of a script. -/
def span (script : List UInt8) (i : Instruction) : List UInt8 :=
  (script.drop i.offset).take (i.next - i.offset)

/-- What is read at a position of a script. -/
lemma next_cases {script : List UInt8} {pos : Nat} (hpos : pos < script.length) :
    (∃ i, next script pos = .ok i ∧ i.offset = pos ∧ pos < i.next ∧ i.next ≤ script.length ∧
        Encodes (span script i) i.opcode i.data) ∨
      (next script pos = .error (.error .badOpcode) ∧ Truncated (script.drop pos)) := by
  have hsplit := List.take_append_drop pos script
  have hbefore : (script.take pos).length = pos := List.length_take_of_le hpos.le
  have hnext := next_append_right (script.take pos) (script.drop pos) 0
  rw [hsplit, hbefore, Nat.add_zero] at hnext
  have hne : script.drop pos ≠ [] := by
    rw [Ne, List.drop_eq_nil_iff]
    omega
  rcases truncated_or_encodes hne with htruncated | ⟨chunk, more, opcode, data, hbytes, hchunk⟩
  · rw [next_of_truncated htruncated] at hnext
    exact .inr ⟨hnext, htruncated⟩
  · rw [hbytes, next_append hchunk, Result.ok_bind] at hnext
    have hlen := congrArg List.length hbytes
    rw [List.length_drop, List.length_append] at hlen
    have hcpos := hchunk.length_pos
    refine .inl ⟨_, hnext, rfl, by dsimp only; omega, by dsimp only; omega, ?_⟩
    simp only [span, Nat.add_zero, Nat.add_sub_cancel_left, hbytes, List.take_left]
    exact hchunk

end Instructions

/-! ### The iterator -/

/-- What the iterator yields from a position on, until it returns `None`. After an error its
position is the end of the script. -/
inductive Yields (script : List UInt8) : Nat → List (Outcome ScriptError Instruction) → Prop
  | done {pos : Nat} : script.length ≤ pos → Yields script pos []
  | ok {pos : Nat} {i : Instruction} {items : List (Outcome ScriptError Instruction)} :
      pos < script.length → Instructions.next script pos = .ok i → Yields script i.next items →
      Yields script pos (.ok i :: items)
  | error {pos : Nat} {e : Fault ScriptError} {items : List (Outcome ScriptError Instruction)} :
      pos < script.length → Instructions.next script pos = .error e →
      Yields script script.length items → Yields script pos (.error e :: items)

namespace Yields

variable {script a b : List UInt8} {pos : Nat}
    {items items' : List (Outcome ScriptError Instruction)}

/-- Nothing comes after the end. -/
lemma eq_nil (h : Yields script script.length items) : items = [] := by
  cases h with
  | done => rfl
  | ok hlt => exact absurd hlt (lt_irrefl _)
  | error hlt => exact absurd hlt (lt_irrefl _)

lemma unique (h : Yields script pos items) (h' : Yields script pos items') : items = items' := by
  induction h generalizing items' with
  | done hend =>
    cases h' with
    | done => rfl
    | ok hlt => omega
    | error hlt => omega
  | ok hlt hnext hrest ih =>
    cases h' with
    | done hend => omega
    | ok hlt' hnext' hrest' =>
      obtain rfl := Except.ok.inj (hnext.symm.trans hnext')
      rw [ih hrest']
    | error hlt' hnext' => cases hnext.symm.trans hnext'
  | error hlt hnext hrest ih =>
    cases h' with
    | done hend => omega
    | ok hlt' hnext' => cases hnext.symm.trans hnext'
    | error hlt' hnext' hrest' =>
      obtain rfl := Except.error.inj (hnext.symm.trans hnext')
      rw [ih hrest']

end Yields

/-- One step for each byte is enough. -/
lemma yields_instructionsFrom {script : List UInt8} {fuel pos : Nat}
    (hfuel : script.length ≤ pos + fuel) :
    Yields script pos (instructionsFrom script fuel pos) := by
  induction fuel generalizing pos with
  | zero =>
    rw [instructionsFrom, if_pos (by omega)]
    exact .done (by omega)
  | succ fuel ih =>
    unfold instructionsFrom
    split_ifs with hend
    · exact .done hend
    · have hlt : pos < script.length := not_le.mp hend
      rcases Instructions.next_cases hlt with ⟨i, hi, -, hnext, -⟩ | ⟨herror, -⟩
      · simp only [hi]
        exact .ok hlt hi (ih (by omega))
      · simp only [herror]
        exact .error hlt herror (.done le_rfl)

lemma yields_iff {script : List UInt8} {items : List (Outcome ScriptError Instruction)} :
    Yields script 0 items ↔ items = instructions script := by
  have hyields : Yields script 0 (instructions script) := yields_instructionsFrom (by omega)
  constructor
  · intro h
    exact h.unique hyields
  · rintro rfl
    exact hyields

/-! ### Spans -/

/-- The instructions follow one another from a position to another, and none is empty. -/
def Contiguous : Nat → List Instruction → Nat → Prop
  | start, [], stop => start = stop
  | start, i :: is, stop => i.offset = start ∧ start < i.next ∧ Contiguous i.next is stop

lemma Contiguous.le {start stop : Nat} {is : List Instruction} (h : Contiguous start is stop) :
    start ≤ stop := by
  induction is generalizing start with
  | nil => exact Nat.le_of_eq h
  | cons i is ih =>
    obtain ⟨-, hlt, hrest⟩ := h
    exact hlt.le.trans (ih hrest)

/-- The bytes of such instructions are those between the two positions. -/
lemma Contiguous.flatten_span {script : List UInt8} {start stop : Nat} {is : List Instruction}
    (h : Contiguous start is stop) : (is.map (Instructions.span script)).flatten =
      (script.drop start).take (stop - start) := by
  induction is generalizing start with
  | nil =>
    obtain rfl := h
    rw [Nat.sub_self, List.take_zero]
    rfl
  | cons i is ih =>
    obtain ⟨rfl, hlt, hrest⟩ := h
    have hstop : stop - i.offset = (i.next - i.offset) + (stop - i.next) := by
      have hle := hrest.le
      omega
    rw [List.map_cons, List.flatten_cons, ih hrest, hstop, List.take_add, List.drop_drop,
      Nat.add_sub_cancel' hlt.le]
    rfl

/-- The instructions that are yielded from a position on go to the end, or to a truncated push. -/
lemma Yields.spans {script : List UInt8} {pos : Nat}
    {items : List (Outcome ScriptError Instruction)}
    (h : Yields script pos items) (hpos : pos ≤ script.length) :
    ∃ is stop, Contiguous pos is stop ∧
      (∀ i ∈ is, Encodes (Instructions.span script i) i.opcode i.data) ∧
      (stop = script.length ∧ items = is.map .ok ∨
        stop < script.length ∧ Truncated (script.drop stop) ∧
          items = is.map .ok ++ [.error (.error .badOpcode)]) := by
  induction h with
  | @done pos hend => exact ⟨[], pos, rfl, by simp, .inl ⟨by omega, rfl⟩⟩
  | @ok pos i items hlt hnext hrest ih =>
    rcases Instructions.next_cases hlt with ⟨j, hj, hoffset, hposNext, hle, hencodes⟩ | ⟨herror, -⟩
    · obtain rfl := Except.ok.inj (hnext.symm.trans hj)
      obtain ⟨is, stop, hcontiguous, hall, hend⟩ := ih hle
      refine ⟨i :: is, stop, ⟨hoffset, hposNext, hcontiguous⟩,
        List.forall_mem_cons.mpr ⟨hencodes, hall⟩, ?_⟩
      rcases hend with ⟨hstop, rfl⟩ | ⟨hstop, htruncated, rfl⟩
      · exact .inl ⟨hstop, rfl⟩
      · exact .inr ⟨hstop, htruncated, rfl⟩
    · cases hnext.symm.trans herror
  | @error pos e items hlt hnext hrest ih =>
    rcases Instructions.next_cases hlt with ⟨j, hj, -⟩ | ⟨herror, htruncated⟩
    · cases hnext.symm.trans hj
    · obtain rfl := Except.error.inj (hnext.symm.trans herror)
      obtain rfl := hrest.eq_nil
      exact ⟨[], pos, rfl, by simp, .inr ⟨hlt, htruncated, rfl⟩⟩

/-- The only error is that of a truncated push. -/
lemma eq_badOpcode_of_mem_instructions {script : List UInt8} {e : Fault ScriptError}
    (h : .error e ∈ instructions script) : e = .error .badOpcode := by
  obtain ⟨is, stop, -, -, ⟨-, hitems⟩ | ⟨-, -, hitems⟩⟩ :=
    (yields_iff.mpr (rfl : instructions script = _)).spans (Nat.zero_le _)
  · rw [hitems] at h
    obtain ⟨i, -, hi⟩ := List.mem_map.mp h
    cases hi
  · rw [hitems] at h
    rcases List.mem_append.mp h with hok | hlast
    · obtain ⟨i, -, hi⟩ := List.mem_map.mp hok
      cases hi
    · exact Except.error.inj (List.mem_singleton.mp hlast)

/-! ### Joined scripts -/

namespace Instruction

/-- The same instruction, some bytes later. -/
def shift (n : Nat) (i : Instruction) : Instruction := ⟨n + i.offset, i.opcode, i.data, n + i.next⟩

/-- What an instruction does, apart from where it is. -/
def content (i : Instruction) : UInt8 × List UInt8 := (i.opcode, i.data)

end Instruction

/-- A script is a sequence of whole instructions. -/
def WellFormedScript (script : List UInt8) : Prop :=
  ∃ is : List Instruction, instructions script = is.map .ok

/-- An instruction is read whatever comes after the script. -/
lemma Instructions.next_append_left {a : List UInt8} {pos : Nat} {i : Instruction}
    (hpos : pos < a.length) (h : next a pos = .ok i) (b : List UInt8) :
    next (a ++ b) pos = .ok i := by
  have hsplit := List.take_append_drop pos a
  have hbefore : (a.take pos).length = pos := List.length_take_of_le hpos.le
  have hnext := next_append_right (a.take pos) (a.drop pos) 0
  have hnext' := next_append_right (a.take pos) (a.drop pos ++ b) 0
  rw [hsplit, hbefore, Nat.add_zero, h] at hnext
  rw [← List.append_assoc, hsplit, hbefore, Nat.add_zero] at hnext'
  obtain ⟨j, hj, hi⟩ := Result.bind_eq_ok.mp hnext.symm
  obtain ⟨chunk, more, hbytes, hchunk, heq⟩ := exists_of_next hj
  rw [hnext', hbytes, List.append_assoc, next_append hchunk, ← heq]
  exact hi

namespace Yields

variable {script a b : List UInt8} {pos : Nat} {items : List (Outcome ScriptError Instruction)}

/-- What is yielded depends on the bytes from the position on. -/
lemma append_right (h : Yields script pos items) (before : List UInt8) :
    Yields (before ++ script) (before.length + pos)
      (items.map (Except.map (Instruction.shift before.length))) := by
  have hlen : (before ++ script).length = before.length + script.length := List.length_append
  induction h with
  | done hend => exact .done (by omega)
  | @ok pos i items hlt hnext hrest ih =>
    refine .ok (by omega) ?_ ih
    rw [Instructions.next_append_right, hnext]
    rfl
  | @error pos e items hlt hnext hrest ih =>
    refine .error (by omega) ?_ ?_
    · rw [Instructions.next_append_right, hnext]
      rfl
    · rw [hlen]
      exact ih

/-- A sequence of whole instructions is read as in itself, and then what follows it. -/
lemma append_left {is : List Instruction} (h : Yields a pos (is.map .ok)) (hpos : pos ≤ a.length)
    (hrest : Yields (a ++ b) a.length items) : Yields (a ++ b) pos (is.map .ok ++ items) := by
  have hlen : (a ++ b).length = a.length + b.length := List.length_append
  induction is generalizing pos with
  | nil =>
    cases h with
    | done hend =>
      obtain rfl : pos = a.length := by omega
      exact hrest
  | cons i is ih =>
    cases h with
    | ok hlt hnext h =>
      have hle : i.next ≤ a.length := by
        rcases Instructions.next_cases hlt with ⟨j, hj, -, -, hle, -⟩ | ⟨herror, -⟩
        · obtain rfl := Except.ok.inj (hnext.symm.trans hj)
          exact hle
        · cases hnext.symm.trans herror
      exact .ok (by omega) (Instructions.next_append_left hlt hnext b) (ih h hle)

end Yields

/-- After a sequence of whole instructions the rest of a script is read as in itself. -/
lemma instructions_append {a : List UInt8} (ha : WellFormedScript a) (b : List UInt8) :
    instructions (a ++ b) =
      instructions a ++ (instructions b).map (Except.map (Instruction.shift a.length)) := by
  obtain ⟨is, his⟩ := ha
  have hb := (yields_iff.mpr (rfl : instructions b = _)).append_right a
  have hyields := yields_iff.mpr (rfl : instructions a = _)
  rw [his] at hyields
  rw [his]
  exact (yields_iff.mp (hyields.append_left (Nat.zero_le _) hb)).symm

lemma map_content_shift (n : Nat) (items : List (Outcome ScriptError Instruction)) :
    (items.map (Except.map (Instruction.shift n))).map (Except.map Instruction.content) =
      items.map (Except.map Instruction.content) := by
  rw [List.map_map]
  refine List.map_congr_left fun item _ => ?_
  cases item <;> rfl

lemma map_content_instructions_flatten {scripts : List (List UInt8)}
    (h : ∀ script ∈ scripts, WellFormedScript script) :
    (instructions scripts.flatten).map (Except.map Instruction.content) =
      scripts.flatMap fun script => (instructions script).map (Except.map Instruction.content) := by
  induction scripts with
  | nil => rfl
  | cons script scripts ih =>
    rw [List.flatten_cons, instructions_append (h script List.mem_cons_self), List.map_append,
      map_content_shift, ih fun s hs => h s (List.mem_cons_of_mem script hs), List.flatMap_cons]

/-! ### Pushes -/

/-- A script that is one instruction. -/
lemma instructions_of_encodes {chunk data : List UInt8} {opcode : UInt8}
    (h : Encodes chunk opcode data) :
    instructions chunk = [.ok ⟨0, opcode, data, chunk.length⟩] := by
  have hnext := Instructions.next_append h []
  rw [List.append_nil] at hnext
  exact (yields_iff.mp (.ok h.length_pos hnext (.done le_rfl))).symm

/-- The iterator ends; what it yields covers a script from its start to its end or to the first
truncated push, where it yields one error; whole scripts that are joined are read one after the
other; and a push of less than 2^32 bytes is one instruction with its data. -/
theorem instructions_spec :
    (∀ script items, Yields script 0 items ↔ items = instructions script) ∧
    (∀ script, ∃ is stop, Contiguous 0 is stop ∧
      (∀ i ∈ is, Encodes (Instructions.span script i) i.opcode i.data) ∧
      (is.map (Instructions.span script)).flatten = script.take stop ∧
      (stop = script.length ∧ instructions script = is.map .ok ∨
        stop < script.length ∧ Truncated (script.drop stop) ∧
          instructions script = is.map .ok ++ [.error (.error .badOpcode)])) ∧
    (∀ a b, WellFormedScript a → instructions (a ++ b) =
      instructions a ++ (instructions b).map (Except.map (Instruction.shift a.length))) ∧
    (∀ scripts : List (List UInt8), (∀ script ∈ scripts, WellFormedScript script) →
      (instructions scripts.flatten).map (Except.map Instruction.content) =
        scripts.flatMap fun script => (instructions script).map (Except.map Instruction.content)) ∧
    ∀ data : List UInt8, data.length < 2 ^ 32 →
      ∃ opcode, instructions (pushData data) = [.ok ⟨0, opcode, data, (pushData data).length⟩] := by
  refine ⟨fun script items => yields_iff, ?_, ?_, ?_, ?_⟩
  · intro script
    obtain ⟨is, stop, hcontiguous, hall, hend⟩ :=
      (yields_iff.mpr (rfl : instructions script = _)).spans (Nat.zero_le _)
    exact ⟨is, stop, hcontiguous, hall, hcontiguous.flatten_span, hend⟩
  · intro a b ha
    exact instructions_append ha b
  · intro scripts h
    exact map_content_instructions_flatten h
  · intro data hdata
    obtain ⟨opcode, hpush⟩ := encodes_pushData hdata
    exact ⟨opcode, instructions_of_encodes hpush⟩

namespace Sample

/-- The push of a signature, and `OP_DUP` before a push that is cut off. -/
theorem instructions_push_dup :
    (∃ opcode, instructions (pushData [0xde, 0xad]) = [.ok ⟨0, opcode, [0xde, 0xad], 3⟩]) ∧
      instructions (pushData [0xde, 0xad] ++ [0x76, 0x05, 0x01]) =
        instructions (pushData [0xde, 0xad]) ++
          [.ok ⟨3, 0x76, [], 4⟩, .error (.error .badOpcode)] := by
  obtain ⟨-, -, happend, -, hpush⟩ := instructions_spec
  obtain ⟨opcode, hone⟩ := hpush [0xde, 0xad] (by decide)
  refine ⟨⟨opcode, hone⟩, ?_⟩
  rw [happend _ [0x76, 0x05, 0x01] ⟨[_], hone⟩]
  rfl

end Sample

end Bitcrab
