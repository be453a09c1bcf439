import Bitcrab.Script.ParseSafety
import Bitcrab.Wire.Canonical
import Mathlib.Data.List.Flatten

/-!
# Scripts as sequences of instructions

A script is a sequence of whole instructions, up to the end or to bytes that no instruction can be
read from. `find_and_delete` works on bytes, but a push that it finds at an instruction boundary is
the whole instruction there, so it removes instructions of that sequence.
-/

namespace Bitcrab

open Bytes Outcome

/-! ### One instruction -/

/-- The number of bytes that hold the length of a push. -/
def headerLength (opcode : UInt8) : Nat :=
  if opcode < 0x4c then 0 else if opcode = 0x4c then 1 else if opcode = 0x4d then 2 else 4

lemma headerLength_le (opcode : UInt8) : headerLength opcode ≤ 4 := by
  unfold headerLength
  split_ifs <;> simp

/-- The length of a push with the given header. -/
def pushedLength (opcode : UInt8) (header : List UInt8) : Nat :=
  if opcode < 0x4c then opcode.toNat else ofLeBytes header

/-- The bytes of one instruction, its opcode and the data that it pushes. -/
inductive Encodes : List UInt8 → UInt8 → List UInt8 → Prop
  | op {opcode : UInt8} : Opcode.opPushdata4 < opcode → Encodes [opcode] opcode []
  | push {opcode : UInt8} (header data : List UInt8) : opcode ≤ Opcode.opPushdata4 →
      header.length = headerLength opcode → data.length = pushedLength opcode header →
      Encodes (opcode :: (header ++ data)) opcode data

namespace Encodes

variable {chunk data : List UInt8} {opcode : UInt8}

lemma ne_nil (h : Encodes chunk opcode data) : chunk ≠ [] := by
  cases h <;> simp

lemma length_pos (h : Encodes chunk opcode data) : 0 < chunk.length :=
  List.length_pos_iff.mpr h.ne_nil

/-- The length of a push fits its bytes. -/
lemma data_length_lt_max (h : Encodes chunk opcode data) :
    data.length < max 0x4c (256 ^ headerLength opcode) := by
  cases h with
  | op => simp
  | push size _ hop hsize hlen =>
    rw [hlen, pushedLength]
    split_ifs with hsmall
    · exact lt_max_of_lt_left (UInt8.lt_iff_toNat_lt.mp hsmall)
    · rw [← hsize]
      exact lt_max_of_lt_right (ofLeBytes_lt size)

lemma length_eq (h : Encodes chunk opcode data) (hpush : opcode ≤ Opcode.opPushdata4) :
    chunk.length = 1 + headerLength opcode + data.length := by
  cases h with
  | op hop => exact absurd hop (UInt8.not_lt.mpr hpush)
  | push size _ _ hsize _ =>
    simp only [List.length_cons, List.length_append]
    omega

lemma data_length_lt (h : Encodes chunk opcode data) : data.length < 2 ^ 32 := by
  have hlt := h.data_length_lt_max
  have hpow : 256 ^ headerLength opcode ≤ 256 ^ 4 :=
    Nat.pow_le_pow_right (by decide) (headerLength_le opcode)
  omega

/-- An instruction has at most 2^32 + 4 bytes. -/
lemma length_lt (h : Encodes chunk opcode data) : chunk.length < 2 ^ 32 + 5 := by
  have hdata := h.data_length_lt
  have hheader := headerLength_le opcode
  by_cases hpush : opcode ≤ Opcode.opPushdata4
  · have hlen := h.length_eq hpush
    omega
  · cases h with
    | op => simp
    | push _ _ hop => exact absurd hop hpush

end Encodes

namespace Instructions

/-- The length of a push, read after its opcode. -/
lemma pushLength_append {opcode : UInt8} {header : List UInt8} (more : List UInt8)
    (hheader : header.length = headerLength opcode) :
    pushLength (opcode :: (header ++ more)) opcode 1 =
      .ok (pushedLength opcode header, 1 + header.length) := by
  unfold pushLength pushedLength
  by_cases hsmall : opcode < 0x4c
  · have hnil : header = [] := by
      simpa [headerLength, hsmall] using hheader
    simp [hsmall, hnil]
  · have hsize : header.length =
        if opcode = 0x4c then 1 else if opcode = 0x4d then 2 else 4 := by
      simpa [headerLength, hsmall] using hheader
    rw [if_neg hsmall, if_neg hsmall, ← hsize, sub_of_le (by simp), Result.ok_bind]
    rw [slice_of_le (by omega) (by simp; omega)]
    simp [rejectIf]

/-- An instruction is read from its bytes, whatever comes after them. -/
lemma next_append {chunk data : List UInt8} {opcode : UInt8} (h : Encodes chunk opcode data)
    (more : List UInt8) : next (chunk ++ more) 0 = .ok ⟨0, opcode, data, chunk.length⟩ := by
  cases h with
  | op hop =>
    have hnot : ¬ opcode ≤ Opcode.opPushdata4 := UInt8.not_le.mpr hop
    simp [next, payload, index, unwrap, hnot]
  | push header _ hop hheader hdata =>
    have hlen := pushLength_append (data ++ more) hheader
    have hindex : (index (opcode :: (header ++ (data ++ more))) 0 : Outcome ScriptError UInt8) =
        .ok opcode := rfl
    simp only [List.cons_append, List.append_assoc, next, payload]
    rw [hindex, Result.ok_bind, if_pos hop, hlen, Result.ok_bind]
    dsimp only
    rw [sub_of_le (by simp; omega), Result.ok_bind, ← hdata]
    simp only [List.length_cons, List.length_append]
    rw [rejectIf, if_neg (by omega), Result.ok_bind, Result.pure_eq_ok, Result.ok_bind,
      slice_of_le (by omega) (by simp; omega)]
    have hdrop : (opcode :: (header ++ (data ++ more))).drop (1 + header.length) =
        data ++ more := by
      rw [Nat.add_comm, List.drop_succ_cons, List.drop_left]
    rw [hdrop]
    simp
    omega

/-- What is read as the length of a push. -/
lemma exists_of_pushLength {opcode : UInt8} {rest : List UInt8} {len cursor : Nat}
    (h : pushLength (opcode :: rest) opcode 1 = .ok (len, cursor)) :
    ∃ header more, rest = header ++ more ∧ header.length = headerLength opcode ∧
      len = pushedLength opcode header ∧ cursor = 1 + header.length := by
  unfold pushLength at h
  by_cases hsmall : opcode < 0x4c
  · rw [if_pos hsmall] at h
    cases h
    exact ⟨[], rest, rfl, by simp [headerLength, hsmall], by simp [pushedLength, hsmall], rfl⟩
  · have hsize : headerLength opcode =
        if opcode = 0x4c then 1 else if opcode = 0x4d then 2 else 4 := by
      simp [headerLength, hsmall]
    rw [if_neg hsmall, ← hsize, sub_of_le (by simp), Result.ok_bind] at h
    simp only [List.length_cons, Nat.add_sub_cancel] at h
    obtain ⟨_, hroom, h⟩ := Result.bind_eq_ok.mp h
    have hle : headerLength opcode ≤ rest.length := by
      by_contra hlt
      simp [rejectIf, Nat.not_le.mp hlt, fail] at hroom
    rw [slice_of_le (by omega) (by simp; omega)] at h
    cases h
    refine ⟨rest.take (headerLength opcode), rest.drop (headerLength opcode),
      (List.take_append_drop _ _).symm, by simpa using hle, ?_, by simpa using hle⟩
    simp [pushedLength, hsmall]

/-- What is read is at the start of the bytes. -/
lemma exists_of_next {bytes : List UInt8} {i : Instruction} (h : next bytes 0 = .ok i) :
    ∃ chunk more, bytes = chunk ++ more ∧ Encodes chunk i.opcode i.data ∧
      i = ⟨0, i.opcode, i.data, chunk.length⟩ := by
  cases bytes with
  | nil => cases h
  | cons opcode rest =>
    have hindex : (index (opcode :: rest) 0 : Outcome ScriptError UInt8) = .ok opcode := rfl
    rw [next, hindex, Result.ok_bind, payload] at h
    by_cases hop : opcode ≤ Opcode.opPushdata4
    · rw [if_pos hop] at h
      simp only [Result.bind_eq_ok] at h
      obtain ⟨⟨len, cursor⟩, ⟨⟨len', cursor'⟩, hlen, left, hleft, _, hroom, heq⟩, data, hdata,
        hi⟩ := h
      cases heq
      obtain ⟨header, more, rfl, hheader, rfl, rfl⟩ := exists_of_pushLength hlen
      dsimp only at hleft hroom hdata hi
      rw [sub_of_le (by simp; omega)] at hleft
      cases hleft
      have hle : pushedLength opcode header ≤ more.length := by
        by_contra hlt
        simp [rejectIf, fail] at hroom
        omega
      have hdrop : (opcode :: (header ++ more)).drop (1 + header.length) = more := by
        rw [Nat.add_comm, List.drop_succ_cons, List.drop_left]
      rw [slice_of_le (by omega) (by simp; omega), hdrop, Nat.add_sub_cancel_left] at hdata
      cases hdata
      cases hi
      have htake : (more.take (pushedLength opcode header)).length =
        pushedLength opcode header := by
        simpa using hle
      refine ⟨opcode :: (header ++ more.take (pushedLength opcode header)),
        more.drop (pushedLength opcode header), ?_, .push header _ hop hheader htake, ?_⟩
      · simp
      · simp [htake]
        omega
    · rw [if_neg hop] at h
      simp only [Result.pure_eq_ok, Result.ok_bind, Nat.add_zero] at h
      rw [slice_of_le le_rfl (by simp)] at h
      cases h
      exact ⟨[opcode], rest, rfl, by simpa using Encodes.op (UInt8.not_le.mp hop), by simp⟩

end Instructions

namespace Instructions

variable {ε α : Type} (before bytes : List UInt8)

lemma index_append_right (l l' : List α) (i : Nat) :
    (index (l ++ l') (l.length + i) : Outcome ε α) = index l' i := by
  rw [index, index, List.getElem?_append_right (Nat.le_add_right _ _), Nat.add_sub_cancel_left]

lemma slice_append_right (l l' : List α) (i j : Nat) :
    (slice (l ++ l') (l.length + i) (l.length + j) : Outcome ε (List α)) = slice l' i j := by
  have hdrop : (l ++ l').drop (l.length + i) = l'.drop i := by
    rw [← List.drop_drop, List.drop_left]
  have hiff : (l.length + i ≤ l.length + j ∧ l.length + j ≤ (l ++ l').length) ↔
      i ≤ j ∧ j ≤ l'.length := by
    rw [List.length_append]
    omega
  simp only [slice, hiff, hdrop, Nat.add_sub_add_left]

lemma sub_append_right (l l' : List α) (i : Nat) :
    (sub (l ++ l').length (l.length + i) : Outcome ε Nat) = sub l'.length i := by
  rw [List.length_append, sub, sub, Nat.add_sub_add_left]
  simp only [Nat.add_le_add_iff_left]

lemma pushLength_append_right (opcode : UInt8) (cursor : Nat) :
    pushLength (before ++ bytes) opcode (before.length + cursor) =
      pushLength bytes opcode cursor >>= fun p => .ok (p.1, before.length + p.2) := by
  unfold pushLength
  by_cases hsmall : opcode < 0x4c
  · rw [if_pos hsmall, if_pos hsmall]
    rfl
  · rw [if_neg hsmall, if_neg hsmall, sub_append_right]
    simp only [Nat.add_assoc, slice_append_right, bind_assoc, Result.pure_eq_ok, Result.ok_bind]

lemma payload_append_right (opcode : UInt8) (cursor : Nat) :
    payload (before ++ bytes) opcode (before.length + cursor) =
      payload bytes opcode cursor >>= fun p => .ok (p.1, before.length + p.2) := by
  unfold payload
  by_cases hpush : opcode ≤ Opcode.opPushdata4
  · rw [if_pos hpush, if_pos hpush, pushLength_append_right]
    simp only [bind_assoc, Result.ok_bind, sub_append_right, Result.pure_eq_ok]
  · rw [if_neg hpush, if_neg hpush]
    rfl

/-- What is read at a position depends on the bytes from there on. -/
lemma next_append_right (pos : Nat) :
    next (before ++ bytes) (before.length + pos) = next bytes pos >>= fun i =>
      .ok ⟨before.length + i.offset, i.opcode, i.data, before.length + i.next⟩ := by
  unfold next
  simp only [index_append_right, Nat.add_assoc, payload_append_right, bind_assoc, Result.ok_bind,
    slice_append_right, Result.pure_eq_ok]

end Instructions

/-- The bytes of an instruction determine its opcode and its data. -/
lemma Encodes.unique {chunk data data' : List UInt8} {opcode opcode' : UInt8}
    (h : Encodes chunk opcode data) (h' : Encodes chunk opcode' data') :
    opcode = opcode' ∧ data = data' := by
  have hnext := Instructions.next_append h []
  rw [Instructions.next_append h' []] at hnext
  simp only [Except.ok.injEq, Instruction.mk.injEq] at hnext
  exact ⟨hnext.2.1.symm, hnext.2.2.1.symm⟩

/-- No instruction can be read from the bytes. -/
def Stuck (bytes : List UInt8) : Prop := ∀ i, Instructions.next bytes 0 ≠ .ok i

lemma stuck_nil : Stuck [] := by
  intro i h
  cases h

lemma Encodes.not_stuck {chunk data more : List UInt8} {opcode : UInt8}
    (h : Encodes chunk opcode data) : ¬ Stuck (chunk ++ more) :=
  fun hstuck => hstuck _ (Instructions.next_append h more)

/-- The instruction at the start of some bytes is determined by them. -/
lemma Encodes.eq_of_append_eq {chunk chunk' data data' more more' : List UInt8}
    {opcode opcode' : UInt8} (h : Encodes chunk opcode data) (h' : Encodes chunk' opcode' data')
    (heq : chunk ++ more = chunk' ++ more') : chunk = chunk' ∧ more = more' := by
  have hnext := Instructions.next_append h more
  rw [heq, Instructions.next_append h' more'] at hnext
  simp only [Except.ok.injEq, Instruction.mk.injEq] at hnext
  exact List.append_inj heq hnext.2.2.2.symm

/-- Scripts by their instructions: bytes that nothing can be read from, or an instruction and more
bytes. -/
theorem script_induction {motive : List UInt8 → Prop}
    (stuck : ∀ bytes, Stuck bytes → motive bytes)
    (append : ∀ chunk opcode data more, Encodes chunk opcode data → motive more →
      motive (chunk ++ more)) (bytes : List UInt8) : motive bytes := by
  induction hlen : bytes.length using Nat.strong_induction_on generalizing bytes with
  | _ n ih =>
    by_cases hstuck : Stuck bytes
    · exact stuck bytes hstuck
    · simp only [Stuck, ne_eq, not_forall, not_not] at hstuck
      obtain ⟨i, hi⟩ := hstuck
      obtain ⟨chunk, more, rfl, hchunk, _⟩ := Instructions.exists_of_next hi
      have hpos := hchunk.length_pos
      refine append chunk _ _ more hchunk (ih more.length ?_ more rfl)
      rw [← hlen, List.length_append]
      omega

/-! ### The instructions of a script -/

/-- The bytes of the instructions, and those that no instruction can be read from. -/
def segmentsFrom : Nat → List UInt8 → List (List UInt8) × List UInt8
  | 0, bytes => ([], bytes)
  | fuel + 1, bytes =>
    match Instructions.next bytes 0 with
    | .ok i =>
      let rest := segmentsFrom fuel (bytes.drop i.next)
      (bytes.take i.next :: rest.1, rest.2)
    | .error _ => ([], bytes)

/-- The instructions of a script and the bytes after them. -/
def segments (script : List UInt8) : List (List UInt8) × List UInt8 :=
  segmentsFrom script.length script

lemma segmentsFrom_of_stuck {bytes : List UInt8} (h : Stuck bytes) (fuel : Nat) :
    segmentsFrom fuel bytes = ([], bytes) := by
  cases fuel with
  | zero => rfl
  | succ fuel =>
    rw [segmentsFrom]
    split
    · rename_i i hi
      exact absurd hi (h i)
    · rfl

lemma segmentsFrom_append {chunk data : List UInt8} {opcode : UInt8}
    (h : Encodes chunk opcode data) (more : List UInt8) (fuel : Nat) :
    segmentsFrom (fuel + 1) (chunk ++ more) =
      (chunk :: (segmentsFrom fuel more).1, (segmentsFrom fuel more).2) := by
  simp [segmentsFrom, Instructions.next_append h more]

/-- One step for each byte is enough. -/
lemma segmentsFrom_eq_segments {bytes : List UInt8} {fuel : Nat} (h : bytes.length ≤ fuel) :
    segmentsFrom fuel bytes = segments bytes := by
  induction bytes using script_induction generalizing fuel with
  | stuck bytes hstuck => rw [segments, segmentsFrom_of_stuck hstuck, segmentsFrom_of_stuck hstuck]
  | append chunk opcode data more hchunk ih =>
    have hpos := hchunk.length_pos
    rw [List.length_append] at h
    obtain ⟨k, rfl⟩ : ∃ k, fuel = k + 1 := ⟨fuel - 1, by omega⟩
    obtain ⟨l, hl⟩ : ∃ l, (chunk ++ more).length = l + 1 :=
      ⟨(chunk ++ more).length - 1, by rw [List.length_append]; omega⟩
    have hle : more.length ≤ l := by
      rw [List.length_append] at hl
      omega
    rw [segments, hl, segmentsFrom_append hchunk, segmentsFrom_append hchunk, ih (by omega), ih hle]

@[simp] lemma segments_of_stuck {bytes : List UInt8} (h : Stuck bytes) :
    segments bytes = ([], bytes) := segmentsFrom_of_stuck h _

lemma segments_append {chunk data : List UInt8} {opcode : UInt8} (h : Encodes chunk opcode data)
    (more : List UInt8) :
    segments (chunk ++ more) = (chunk :: (segments more).1, (segments more).2) := by
  rw [← segmentsFrom_eq_segments (Nat.le_succ (chunk ++ more).length), segmentsFrom_append h,
    segmentsFrom_eq_segments (by simp)]

/-- The instructions and the bytes after them are the script. -/
lemma segments_flatten (script : List UInt8) :
    (segments script).1.flatten ++ (segments script).2 = script := by
  induction script using script_induction with
  | stuck bytes h => simp [h]
  | append chunk opcode data more hchunk ih =>
    rw [segments_append hchunk, List.flatten_cons, List.append_assoc, ih]

lemma encodes_of_mem_segments {script chunk : List UInt8} (h : chunk ∈ (segments script).1) :
    ∃ opcode data, Encodes chunk opcode data := by
  induction script using script_induction with
  | stuck bytes hstuck => simp [hstuck] at h
  | append first opcode data more hfirst ih =>
    rw [segments_append hfirst] at h
    obtain rfl | h := List.mem_cons.mp h
    · exact ⟨opcode, data, hfirst⟩
    · exact ih h

lemma stuck_segments (script : List UInt8) : Stuck (segments script).2 := by
  induction script using script_induction with
  | stuck bytes h =>
    rw [segments_of_stuck h]
    exact h
  | append chunk opcode data more hchunk ih =>
    rw [segments_append hchunk]
    exact ih

/-- A sequence of instructions with bytes that nothing can be read from is read as such. -/
lemma segments_of_chunks {chunks : List (List UInt8)} {tail : List UInt8}
    (hchunks : ∀ chunk ∈ chunks, ∃ opcode data, Encodes chunk opcode data) (htail : Stuck tail) :
    segments (chunks.flatten ++ tail) = (chunks, tail) := by
  induction chunks with
  | nil => simp [htail]
  | cons chunk chunks ih =>
    obtain ⟨opcode, data, hchunk⟩ := hchunks chunk List.mem_cons_self
    rw [List.flatten_cons, List.append_assoc, segments_append hchunk,
      ih fun c hc => hchunks c (List.mem_cons_of_mem chunk hc)]

lemma length_le_of_mem_segments {script chunk : List UInt8} (h : chunk ∈ (segments script).1) :
    chunk.length ≤ script.length := by
  have hsub := List.sublist_flatten_of_mem h
  have hlen := congrArg List.length (segments_flatten script)
  rw [List.length_append] at hlen
  have := hsub.length_le
  omega

/-- After whole instructions, the rest of a script is read as such. -/
lemma segments_append_of_whole {before : List UInt8} (h : (segments before).2 = [])
    (rest : List UInt8) :
    segments (before ++ rest) = ((segments before).1 ++ (segments rest).1, (segments rest).2) := by
  have hbefore := segments_flatten before
  rw [h, List.append_nil] at hbefore
  have hread : segments (((segments before).1 ++ (segments rest).1).flatten ++ (segments rest).2) =
      ((segments before).1 ++ (segments rest).1, (segments rest).2) :=
    segments_of_chunks (fun chunk hchunk => (List.mem_append.mp hchunk).elim
      encodes_of_mem_segments encodes_of_mem_segments) (stuck_segments rest)
  rwa [List.flatten_append, List.append_assoc, segments_flatten, hbefore] at hread

/-- The instructions, in order, are those of the bytes. -/
abbrev EncodesAll : List (List UInt8) → List Instruction → Prop :=
  List.Forall₂ fun chunk i => Encodes chunk i.opcode i.data

/-- Whole instructions are read one after the other, whatever comes before and after them. -/
lemma exists_instructionsFrom {chunks : List (List UInt8)}
    (hchunks : ∀ chunk ∈ chunks, ∃ opcode data, Encodes chunk opcode data)
    (before after : List UInt8) (fuel : Nat) :
    ∃ is, EncodesAll chunks is ∧
      instructionsFrom (before ++ (chunks.flatten ++ after)) (chunks.length + fuel) before.length =
        is.map .ok ++ instructionsFrom (before ++ (chunks.flatten ++ after)) fuel
          (before.length + chunks.flatten.length) := by
  induction chunks generalizing before with
  | nil => exact ⟨[], .nil, by simp⟩
  | cons chunk chunks ih =>
    obtain ⟨opcode, data, hchunk⟩ := hchunks chunk List.mem_cons_self
    obtain ⟨is, his, hrest⟩ := ih (fun c hc => hchunks c (List.mem_cons_of_mem chunk hc))
      (before ++ chunk)
    have hnext := Instructions.next_append_right before (chunk ++ (chunks.flatten ++ after)) 0
    rw [Instructions.next_append hchunk, Result.ok_bind, Nat.add_zero] at hnext
    have hpos := hchunk.length_pos
    have hlt : ¬ before.length ≥ (before ++ ((chunk :: chunks).flatten ++ after)).length := by
      rw [List.flatten_cons, List.length_append, List.length_append, List.length_append]
      omega
    refine ⟨⟨before.length, opcode, data, before.length + chunk.length⟩ :: is, .cons hchunk his, ?_⟩
    rw [List.length_cons, Nat.add_right_comm, instructionsFrom, if_neg hlt]
    rw [List.flatten_cons, List.append_assoc, hnext]
    dsimp only
    rw [List.append_assoc, List.length_append, Nat.add_assoc] at hrest
    rw [hrest, List.length_append, List.map_cons, List.cons_append]

/-- The instructions of a script are those of its chunks; what comes after them cannot be read. -/
lemma exists_instructions (script : List UInt8) :
    ∃ is, EncodesAll (segments script).1 is ∧
      ((segments script).2 = [] ∧ instructions script = is.map .ok ∨
        (segments script).2 ≠ [] ∧ ∃ e, instructions script = is.map .ok ++ [.error e]) := by
  have hflatten := segments_flatten script
  have hcount : (segments script).1.length ≤ (segments script).1.flatten.length := by
    rw [List.length_flatten, ← List.length_map (f := List.length)]
    refine List.length_le_sum_of_one_le _ fun n hn => ?_
    obtain ⟨chunk, hchunk, rfl⟩ := List.mem_map.mp hn
    obtain ⟨opcode, data, hencodes⟩ := encodes_of_mem_segments hchunk
    exact hencodes.length_pos
  have htotal := congrArg List.length hflatten
  rw [List.length_append] at htotal
  obtain ⟨fuel, hfuel⟩ := Nat.exists_eq_add_of_le (hcount.trans (htotal ▸ Nat.le_add_right _ _))
  obtain ⟨is, his, hread⟩ := exists_instructionsFrom
    (fun chunk hchunk => encodes_of_mem_segments hchunk) [] (segments script).2 fuel
  rw [List.nil_append, hflatten, ← hfuel, List.length_nil, Nat.zero_add] at hread
  refine ⟨is, his, ?_⟩
  rw [instructions, hread]
  by_cases htail : (segments script).2 = []
  · refine .inl ⟨htail, ?_⟩
    rw [htail, List.length_nil, Nat.add_zero] at htotal
    cases fuel <;> simp [instructionsFrom, htotal]
  · refine .inr ⟨htail, ?_⟩
    have hpos := List.length_pos_iff.mpr htail
    obtain ⟨k, rfl⟩ : ∃ k, fuel = k + 1 := ⟨fuel - 1, by omega⟩
    have hnext := Instructions.next_append_right (segments script).1.flatten (segments script).2 0
    rw [hflatten, Nat.add_zero] at hnext
    cases hread : Instructions.next (segments script).2 0 with
    | ok i => exact absurd hread (stuck_segments script i)
    | error e =>
      rw [hread] at hnext
      refine ⟨e, ?_⟩
      rw [instructionsFrom, if_neg (by omega), hnext]
      rfl

/-- A script without an error is the sequence of its instructions. -/
lemma segments_of_instructions {script : List UInt8} {is : List Instruction}
    (h : instructions script = is.map .ok) :
    (segments script).2 = [] ∧ EncodesAll (segments script).1 is := by
  obtain ⟨is', his', ⟨htail, heq⟩ | ⟨_, e, heq⟩⟩ := exists_instructions script
  · rw [heq] at h
    have hinj : is' = is := List.map_injective_iff.mpr (fun _ _ => Except.ok.inj) h
    exact ⟨htail, hinj ▸ his'⟩
  · have hmem : (.error e : Outcome ScriptError Instruction) ∈ is.map .ok := by
      rw [← h, heq]
      simp
    obtain ⟨i, _, hi⟩ := List.mem_map.mp hmem
    cases hi

/-- A script without the instructions whose bytes are among the given ones. -/
def deleteChunks (script : List UInt8) (chunks : List (List UInt8)) : List UInt8 :=
  ((segments script).1.filter (· ∉ chunks)).flatten ++ (segments script).2

lemma segments_deleteChunks (script : List UInt8) (chunks : List (List UInt8)) :
    segments (deleteChunks script chunks) =
      ((segments script).1.filter (· ∉ chunks), (segments script).2) := by
  refine segments_of_chunks ?_ (stuck_segments script)
  intro chunk hchunk
  exact encodes_of_mem_segments (List.mem_of_mem_filter hchunk)

lemma deleteChunks_deleteChunks (script : List UInt8) (a b : List (List UInt8)) :
    deleteChunks (deleteChunks script a) b = deleteChunks script (a ++ b) := by
  rw [deleteChunks, segments_deleteChunks, deleteChunks, List.filter_filter]
  simp [not_or, Bool.and_comm]

lemma deleteChunks_of_forall_notMem {script : List UInt8} {chunks : List (List UInt8)}
    (h : ∀ chunk ∈ chunks, chunk ∉ (segments script).1) : deleteChunks script chunks = script := by
  have hfilter : (segments script).1.filter (· ∉ chunks) = (segments script).1 := by
    rw [List.filter_eq_self]
    intro chunk hmem
    exact decide_eq_true fun hdel => h chunk hdel hmem
  rw [deleteChunks, hfilter, segments_flatten]

/-- Deleting more instructions changes nothing more when none of them is there. -/
lemma deleteChunks_singleton_eq_iff {script chunk : List UInt8} {chunks : List (List UInt8)}
    (hmem : chunk ∈ chunks) :
    deleteChunks script [chunk] = deleteChunks script chunks ↔
      ∀ other ∈ chunks, other ≠ chunk → other ∉ (segments script).1 := by
  constructor
  · intro heq other hother hne hin
    have hfilter := congrArg (fun bytes => (segments bytes).1) heq
    simp only [segments_deleteChunks] at hfilter
    have hkept : other ∈ (segments script).1.filter (· ∉ [chunk]) := by simp [hin, hne]
    rw [hfilter] at hkept
    simp [hother] at hkept
  · intro h
    have hfilter : (segments script).1.filter (· ∉ [chunk]) =
        (segments script).1.filter (· ∉ chunks) := by
      refine List.filter_congr fun other hin => decide_eq_decide.mpr (not_congr ?_)
      rw [List.mem_singleton]
      constructor
      · rintro rfl
        exact hmem
      · intro hother
        by_contra hne
        exact h other hother hne hin
    rw [deleteChunks, deleteChunks, hfilter]

/-! ### FindAndDelete -/

/-- A data push is an instruction, when its length fits its header. -/
lemma encodes_pushData {data : List UInt8} (h : data.length < 2 ^ 32) :
    ∃ opcode, Encodes (pushData data) opcode data := by
  unfold pushData
  dsimp only
  split_ifs with hdirect h1 h2
  · refine ⟨UInt8.ofNat data.length, ?_⟩
    have hnat : (UInt8.ofNat data.length).toNat = data.length :=
      UInt8.toNat_ofNat_of_lt (by change _ < 256; omega)
    have hsmall : UInt8.ofNat data.length < 0x4c := by
      rw [UInt8.lt_iff_toNat_lt, hnat]
      exact hdirect
    have hpush : UInt8.ofNat data.length ≤ Opcode.opPushdata4 := by
      rw [UInt8.le_iff_toNat_le, hnat]
      exact hdirect.le.trans (by decide)
    exact .push [] data hpush (by simp [headerLength, hsmall])
      (by simp [pushedLength, hsmall, hnat])
  · have hnat : (UInt8.ofNat data.length).toNat = data.length :=
      UInt8.toNat_ofNat_of_lt (by change _ < 256; omega)
    exact ⟨0x4c, .push [UInt8.ofNat data.length] data (by decide) rfl
      (by simp [pushedLength, ofLeBytes, hnat])⟩
  · refine ⟨0x4d, .push (leBytes 2 data.length) data (by decide) rfl ?_⟩
    simp [pushedLength, ofLeBytes_leBytes 2 data.length (by omega)]
  · refine ⟨0x4e, .push (leBytes 4 data.length) data (by decide) rfl ?_⟩
    simp [pushedLength, ofLeBytes_leBytes 4 data.length (by omega)]

lemma length_le_pushData (data : List UInt8) : data.length ≤ (pushData data).length := by
  rw [pushData, List.length_append]
  omega

/-- The data of a push that fits its header is determined by its bytes. -/
lemma pushData_injective {a b : List UInt8} (hlen : (pushData a).length < 2 ^ 32)
    (heq : pushData a = pushData b) : a = b := by
  obtain ⟨_, ha⟩ := encodes_pushData ((length_le_pushData a).trans_lt hlen)
  obtain ⟨_, hb⟩ := encodes_pushData ((length_le_pushData b).trans_lt (heq ▸ hlen))
  have hnext := Instructions.next_append ha []
  rw [heq, Instructions.next_append hb []] at hnext
  simp only [Except.ok.injEq, Instruction.mk.injEq] at hnext
  exact hnext.2.2.1.symm

/-- What the loop of `find_and_delete` does from a position on, where `bytes` are left: it keeps
the bytes up to the position and deletes the push from the others. -/
structure FindState.Deletes (script push bytes : List UInt8) (s t : FindState) : Prop where
  lastKept_le : t.lastKept ≤ script.length
  result_eq : t.result ++ script.drop t.lastKept =
    s.result ++ (script.drop s.lastKept).take (s.pos - s.lastKept) ++ deleteChunks bytes [push]
  found_eq : t.found = s.found + (segments bytes).1.count push

namespace FindState

variable {script push bytes : List UInt8} {s t : FindState}

/-- Where the push is not left, the loop may end. -/
lemma Deletes.of_notMem (hbytes : script.drop s.pos = bytes) (hpos : s.pos ≤ script.length)
    (hkept : s.lastKept ≤ s.pos) (hnone : push ∉ (segments bytes).1) :
    Deletes script push bytes s s where
  lastKept_le := hkept.trans hpos
  result_eq := by
    have hsplit := List.take_append_drop (s.pos - s.lastKept) (script.drop s.lastKept)
    rw [List.drop_drop, Nat.add_sub_cancel' hkept, hbytes] at hsplit
    rw [deleteChunks_of_forall_notMem (by simpa using hnone), List.append_assoc, hsplit]
  found_eq := by simp [List.count_eq_zero.mpr hnone]

/-- A round that deletes the push. -/
lemma Deletes.delete {data : List UInt8} {opcode : UInt8} (hpush : Encodes push opcode data)
    (h : Deletes script push bytes
      ⟨s.result ++ (script.drop s.lastKept).take (s.pos - s.lastKept), s.found + 1,
        s.pos + push.length, s.pos + push.length⟩ t) :
    Deletes script push (push ++ bytes) s t where
  lastKept_le := h.lastKept_le
  result_eq := by
    rw [h.result_eq]
    simp [deleteChunks, segments_append hpush]
  found_eq := by
    rw [h.found_eq, segments_append hpush, List.count_cons_self]
    dsimp only
    omega

/-- A round that keeps an instruction. -/
lemma Deletes.keep {chunk data : List UInt8} {opcode : UInt8} (hchunk : Encodes chunk opcode data)
    (hne : chunk ≠ push) (hbytes : script.drop s.pos = chunk ++ bytes)
    (hkept : s.lastKept ≤ s.pos)
    (h : Deletes script push bytes { s with pos := s.pos + chunk.length } t) :
    Deletes script push (chunk ++ bytes) s t where
  lastKept_le := h.lastKept_le
  result_eq := by
    have hsum : s.pos + chunk.length - s.lastKept = s.pos - s.lastKept + chunk.length := by omega
    have hkeep : (script.drop s.lastKept).take (s.pos + chunk.length - s.lastKept) =
        (script.drop s.lastKept).take (s.pos - s.lastKept) ++ chunk := by
      rw [hsum, List.take_add, List.drop_drop, Nat.add_sub_cancel' hkept, hbytes, List.take_left]
    rw [h.result_eq]
    dsimp only
    rw [hkeep]
    simp [deleteChunks, segments_append hchunk, hne]
  found_eq := by rw [h.found_eq, segments_append hchunk, List.count_cons_of_ne hne]

end FindState

/-- The loop of `find_and_delete` from an instruction boundary on. -/
lemma findAndDeleteLoop_eq {script push data : List UInt8} {opcode : UInt8}
    (hpush : Encodes push opcode data) (bytes : List UInt8) (fuel : Nat) (s : FindState)
    (hbytes : script.drop s.pos = bytes) (hpos : s.pos ≤ script.length)
    (hkept : s.lastKept ≤ s.pos) (hfuel : bytes.length < fuel) :
    ∃ t, findAndDeleteLoop script push fuel s = .ok t ∧ s.Deletes script push bytes t := by
  induction bytes using script_induction generalizing fuel s with
  | stuck bytes hstuck =>
    have hnone : push ∉ (segments bytes).1 := by simp [hstuck]
    refine ⟨s, ?_, .of_notMem hbytes hpos hkept hnone⟩
    have hlen : script.length = s.pos + bytes.length := by
      rw [← hbytes, List.length_drop]
      omega
    obtain ⟨fuel, rfl⟩ : ∃ k, fuel = k + 1 := ⟨fuel - 1, by omega⟩
    rw [findAndDeleteLoop]
    by_cases hroom : s.pos + push.length ≤ script.length
    · have hne : bytes.take push.length ≠ push := by
        intro heq
        rw [← List.take_append_drop push.length bytes, heq] at hstuck
        exact hpush.not_stuck hstuck
      have hrest : (script.drop s.pos).take (script.length - s.pos) = bytes := by
        rw [hbytes, List.take_of_length_le (by omega)]
      have hppos := hpush.length_pos
      have hsafe : Holds False (Instructions.next bytes 0) fun i =>
        0 < i.next ∧ i.next ≤ bytes.length :=
        Instructions.holds_next (by omega)
      rw [if_pos hroom, slice_of_le (by omega) hroom, Result.ok_bind, Nat.add_sub_cancel_left,
        hbytes, if_neg hne, slice_of_le hpos le_rfl, Result.ok_bind, hrest, if_neg (by omega)]
      split
      · rename_i i hi
        exact absurd hi (hstuck i)
      · rfl
      · rename_i hpanic
        exact absurd hpanic hsafe.ne_panic
    · rw [if_neg hroom]
  | append chunk op data' more hchunk ih =>
    have hlen : script.length = s.pos + (chunk.length + more.length) := by
      rw [← List.length_append, ← hbytes, List.length_drop]
      omega
    have hmore : script.drop (s.pos + chunk.length) = more := by
      rw [← List.drop_drop, hbytes, List.drop_left]
    rw [List.length_append] at hfuel
    have hcpos := hchunk.length_pos
    obtain ⟨fuel, rfl⟩ : ∃ k, fuel = k + 1 := ⟨fuel - 1, by omega⟩
    rw [findAndDeleteLoop]
    by_cases hroom : s.pos + push.length ≤ script.length
    · rw [if_pos hroom, slice_of_le (by omega) hroom, Result.ok_bind, Nat.add_sub_cancel_left,
        hbytes]
      by_cases hcand : (chunk ++ more).take push.length = push
      · -- the push at a boundary is the whole instruction there
        have heq : chunk ++ more = push ++ (chunk ++ more).drop push.length := by
          rw [← hcand, List.length_take, Nat.min_eq_left, List.take_append_drop]
          rw [List.length_append]
          omega
        obtain ⟨rfl, _⟩ := hchunk.eq_of_append_eq hpush heq
        rw [if_pos hcand, slice_of_le hkept hpos, Result.ok_bind]
        obtain ⟨t, ht, hdel⟩ := ih fuel
          ⟨s.result ++ (script.drop s.lastKept).take (s.pos - s.lastKept), s.found + 1,
            s.pos + chunk.length, s.pos + chunk.length⟩ hmore (by dsimp only; omega) le_rfl
          (by omega)
        exact ⟨t, ht, hdel.delete hchunk⟩
      · have hne : chunk ≠ push := by
          rintro rfl
          exact hcand List.take_left
        have hrest : (script.drop s.pos).take (script.length - s.pos) = chunk ++ more := by
          rw [hbytes, List.take_of_length_le (by rw [List.length_append]; omega)]
        rw [if_neg hcand, slice_of_le hpos le_rfl, Result.ok_bind, hrest,
          if_neg (by rw [List.length_append]; omega), Instructions.next_append hchunk more]
        obtain ⟨t, ht, hdel⟩ := ih fuel { s with pos := s.pos + chunk.length }
          hmore (by dsimp only; omega) (by dsimp only; omega) (by omega)
        exact ⟨t, ht, hdel.keep hchunk hne hbytes hkept⟩
    · rw [if_neg hroom]
      refine ⟨s, rfl, .of_notMem hbytes hpos hkept ?_⟩
      intro hmem
      have hshort := length_le_of_mem_segments hmem
      rw [List.length_append] at hshort
      omega

/-- `find_and_delete` removes the instructions that are the given push. -/
theorem findAndDelete_eq {script push data : List UInt8} {opcode : UInt8}
    (hpush : Encodes push opcode data) :
    findAndDelete script push =
      .ok (deleteChunks script [push], (segments script).1.count push) := by
  have hpos := hpush.length_pos
  rw [findAndDelete]
  by_cases hshort : push.length = 0 ∨ script.length < push.length
  · have hnone : push ∉ (segments script).1 := by
      intro hmem
      have := length_le_of_mem_segments hmem
      omega
    rw [if_pos hshort, deleteChunks_of_forall_notMem (by simpa using hnone),
      List.count_eq_zero.mpr hnone]
    rfl
  · obtain ⟨t, ht, hdel⟩ := findAndDeleteLoop_eq hpush script (script.length + 1)
      ⟨[], 0, 0, 0⟩ List.drop_zero (Nat.zero_le _) le_rfl (Nat.lt_succ_self _)
    rw [if_neg hshort, ht, Result.ok_bind, slice_of_le hdel.lastKept_le le_rfl, Result.ok_bind,
      List.take_of_length_le (by simp), hdel.result_eq, hdel.found_eq]
    simp

/-- The push of a signature: one that does not fit its header is too long for the script. -/
theorem findAndDelete_pushData {script : List UInt8} (hscript : script.length < 2 ^ 32)
    (data : List UInt8) :
    findAndDelete script (pushData data) =
      .ok (deleteChunks script [pushData data], (segments script).1.count (pushData data)) := by
  by_cases hdata : data.length < 2 ^ 32
  · obtain ⟨opcode, hpush⟩ := encodes_pushData hdata
    exact findAndDelete_eq hpush
  · have hlong : script.length < (pushData data).length := by
      rw [pushData, List.length_append]
      omega
    have hnone : pushData data ∉ (segments script).1 := by
      intro hmem
      have := length_le_of_mem_segments hmem
      omega
    rw [findAndDelete, if_pos (.inr hlong), deleteChunks_of_forall_notMem (by simpa using hnone),
      List.count_eq_zero.mpr hnone]
    rfl

/-- Deleting the pushes of several signatures, one after the other and in any order. -/
theorem foldlM_findAndDelete {script : List UInt8} (hscript : script.length < 2 ^ 32)
    (sigs : List (List UInt8)) :
    sigs.foldlM (fun bytes sig => do return (← findAndDelete bytes (pushData sig)).1) script =
      .ok (deleteChunks script (sigs.map pushData)) := by
  induction sigs generalizing script with
  | nil => simp [deleteChunks_of_forall_notMem]
  | cons sig sigs ih =>
    have hlen : (deleteChunks script [pushData sig]).length ≤ script.length := by
      conv_rhs => rw [← segments_flatten script]
      rw [deleteChunks, List.length_append, List.length_append]
      exact Nat.add_le_add_right (List.filter_sublist.flatten).length_le _
    have hfirst : (do return (← findAndDelete script (pushData sig)).1 :
        Outcome ScriptError (List UInt8)) = .ok (deleteChunks script [pushData sig]) := by
      rw [findAndDelete_pushData hscript]
      rfl
    rw [List.foldlM_cons, hfirst, Result.ok_bind, ih (hlen.trans_lt hscript),
      deleteChunks_deleteChunks]
    rfl

/-! ### The scriptCode -/

lemma eq_drop_of_slice {script suffix : List UInt8} {start : Nat}
    (h : (slice script start script.length : Outcome ScriptError (List UInt8)) = .ok suffix) :
    suffix = script.drop start := by
  by_cases hle : start ≤ script.length
  · rw [slice_of_le hle le_rfl, List.take_of_length_le (by simp)] at h
    exact (Except.ok.inj h).symm
  · simp [slice, hle] at h

/-- What `build_script_code` returns in a script that fits the size limit. -/
lemma eq_of_buildScriptCode {script : List UInt8} {lastCodeseparator : Nat} {sig code : List UInt8}
    {flags : VerifyFlags} (hscript : script.length < 2 ^ 32)
    (h : buildScriptCode script lastCodeseparator sig .base flags = .ok code) :
    code = deleteChunks (script.drop lastCodeseparator) [pushData sig] := by
  rw [buildScriptCode] at h
  obtain ⟨suffix, hslice, h⟩ := Result.bind_eq_ok.mp h
  obtain rfl := eq_drop_of_slice hslice
  have hlen : (script.drop lastCodeseparator).length < 2 ^ 32 := by
    rw [List.length_drop]
    omega
  rw [if_pos rfl, findAndDelete_pushData hlen, Result.ok_bind] at h
  simp only [Result.bind_eq_ok] at h
  obtain ⟨_, _, _, _, _, _, h⟩ := h
  exact (Except.ok.inj h).symm

end Bitcrab
