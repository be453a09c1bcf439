import Bitcrab.Script.InstructionParser

/-!
# What FindAndDelete removes

`find_and_delete` compares bytes, at the boundaries of instructions. A push of less than 2^32 bytes
that it finds there is the whole instruction, so what it removes are instructions, and the others
are still the instructions of what is left. A longer push is no instruction: its length field has
four bytes.
-/

namespace Bitcrab

open Bytes Outcome

/-! ### Pushes of 2^32 bytes and more -/

lemma length_pushData_of_long {data : List UInt8} (h : 2 ^ 32 ≤ data.length) :
    (pushData data).length = data.length + 5 := by
  unfold pushData
  dsimp only
  rw [if_neg (by omega), if_neg (by omega), if_neg (by omega), List.length_append, List.length_cons,
    length_leBytes]
  omega

/-- Such a push is no instruction of any script, but it is found and removed. -/
lemma findAndDelete_of_long {sig : List UInt8} (h : 2 ^ 32 ≤ sig.length) :
    findAndDelete (pushData sig) (pushData sig) = .ok ([], 1) ∧
      pushData sig ∉ (segments (pushData sig)).1 := by
  have hlen := length_pushData_of_long h
  refine ⟨?_, fun hmem => ?_⟩
  · rw [findAndDelete, if_neg (by omega)]
    unfold findAndDeleteLoop
    rw [if_pos (by simp), slice_of_le (by simp) (by simp), Result.ok_bind, Nat.zero_add,
      Nat.sub_zero,
      List.drop_zero, List.take_length, if_pos rfl, slice_of_le le_rfl (Nat.zero_le _),
        Result.ok_bind]
    have hend : findAndDeleteLoop (pushData sig) (pushData sig) (pushData sig).length
        ⟨[], 1, (pushData sig).length, (pushData sig).length⟩ =
        .ok ⟨[], 1, (pushData sig).length, (pushData sig).length⟩ := by
      unfold findAndDeleteLoop
      split
      · rw [if_neg (by dsimp only; omega)]
      · rw [if_neg (by dsimp only; omega)]
    rw [List.take_zero, List.append_nil, Nat.zero_add]
    dsimp only
    rw [hend, Result.ok_bind]
    dsimp only
    rw [slice_of_le le_rfl le_rfl, Nat.sub_self, List.take_zero]
    rfl
  · obtain ⟨opcode, data, hencodes⟩ := encodes_of_mem_segments hmem
    have hlt := hencodes.length_lt
    omega

/-! ### Shorter pushes -/

/-- Removing one kind of instruction makes a script shorter by their bytes. -/
lemma length_deleteChunks_singleton (script chunk : List UInt8) :
    (deleteChunks script [chunk]).length + (segments script).1.count chunk * chunk.length =
      script.length := by
  have hflatten := congrArg List.length (segments_flatten script)
  rw [List.length_append] at hflatten
  have hfilter : ∀ chunks : List (List UInt8),
      (chunks.filter (· ∉ [chunk])).flatten.length + chunks.count chunk * chunk.length =
        chunks.flatten.length := by
    intro chunks
    induction chunks with
    | nil => simp
    | cons first chunks ih =>
      by_cases hfirst : first = chunk
      · subst hfirst
        rw [List.count_cons_self, Nat.succ_mul, List.flatten_cons, List.length_append, ← ih]
        simp
        omega
      · rw [List.count_cons_of_ne hfirst, List.flatten_cons, List.length_append, ← ih]
        simp [hfirst]
        omega
  rw [deleteChunks, List.length_append]
  have hcount := hfilter (segments script).1
  omega

/-- `find_and_delete` removes the instructions that are the push of the signature, and no others. -/
theorem findAndDelete_removes_pushes (script sig : List UInt8) (hsig : sig.length < 2 ^ 32) :
    ∃ chunks tail is result count, chunks.flatten ++ tail = script ∧ EncodesAll chunks is ∧
      (tail = [] ∧ instructions script = is.map .ok ∨
        tail ≠ [] ∧ instructions script = is.map .ok ++ [.error (.error .badOpcode)]) ∧
      result = (chunks.filter (· ≠ pushData sig)).flatten ++ tail ∧
      count = chunks.count (pushData sig) ∧
      findAndDelete script (pushData sig) = .ok (result, count) ∧
      result.length = script.length - count * (pushData sig).length ∧
      count * (pushData sig).length ≤ script.length ∧
      findAndDelete result (pushData sig) = .ok (result, 0) := by
  obtain ⟨opcode, hpush⟩ := encodes_pushData hsig
  obtain ⟨is, his, hitems⟩ := exists_instructions script
  have hlen := length_deleteChunks_singleton script (pushData sig)
  have hresult : deleteChunks script [pushData sig] =
      ((segments script).1.filter (· ≠ pushData sig)).flatten ++ (segments script).2 := by
    simp [deleteChunks]
  refine ⟨(segments script).1, (segments script).2, is, deleteChunks script [pushData sig],
    (segments script).1.count (pushData sig), segments_flatten script, his, ?_, hresult, rfl,
    findAndDelete_eq hpush, by omega, by omega, ?_⟩
  · rcases hitems with hwhole | ⟨htail, e, hitems⟩
    · exact .inl hwhole
    · refine .inr ⟨htail, ?_⟩
      have hmem : .error e ∈ instructions script := by
        rw [hitems]
        exact List.mem_append_right _ (List.mem_singleton_self _)
      rw [hitems, eq_badOpcode_of_mem_instructions hmem]
  · -- what is left has no such instruction
    have hnone : pushData sig ∉ (segments (deleteChunks script [pushData sig])).1 := by
      simp [segments_deleteChunks]
    rw [findAndDelete_eq hpush, deleteChunks_of_forall_notMem (by simpa using hnone),
      List.count_eq_zero.mpr hnone]

namespace Sample

/-- A signature of 2^32 bytes: its push is removed, though it is no instruction. -/
theorem findAndDelete_of_4GiB :
    ∃ sig, findAndDelete (pushData sig) (pushData sig) = .ok ([], 1) ∧
      pushData sig ∉ (segments (pushData sig)).1 :=
  ⟨List.replicate (2 ^ 32) 0, findAndDelete_of_long (by rw [List.length_replicate])⟩

/-- Of `OP_1 <07> OP_1` and a push that is cut off, the push of the byte 7 is removed. -/
theorem findAndDelete_of_push :
    (([7] : List UInt8).length < 2 ^ 32) ∧
      findAndDelete [0x51, 1, 7, 0x51, 5, 1, 7] (pushData [7]) = .ok ([0x51, 0x51, 5, 1, 7], 1) ∧
      findAndDelete [0x51, 0x51, 5, 1, 7] (pushData [7]) = .ok ([0x51, 0x51, 5, 1, 7], 0) := by
  obtain ⟨-, -, -, result, count, -, -, -, -, -, hrun, -, -, hagain⟩ :=
    findAndDelete_removes_pushes [0x51, 1, 7, 0x51, 5, 1, 7] [7] (by decide)
  have hfirst : findAndDelete [0x51, 1, 7, 0x51, 5, 1, 7] (pushData [7]) =
      .ok ([0x51, 0x51, 5, 1, 7], 1) := by decide +kernel
  rw [hfirst] at hrun
  obtain ⟨rfl, rfl⟩ := Prod.mk.inj (Except.ok.inj hrun)
  exact ⟨by decide, hfirst, hagain⟩

end Sample

end Bitcrab
