import Bitcrab.Script.Interpreter

/-!
# Parsing and encoding checks do not panic

Every offset that the script iterator, `find_and_delete` and the DER checks read has been compared
with the length of the bytes before, and the loops move forward with every round.
-/

namespace Bitcrab

open Bytes Outcome

variable {P : Prop}

lemma index_eq_getD {α : Type} {l : List α} {i : Nat} (h : i < l.length) (d : α) :
    (index l i : Outcome ScriptError α) = .ok (l.getD i d) := by
  simp [index, unwrap, List.getD_eq_getElem?_getD, h]

/-! ### Instructions -/

namespace Instructions

variable {script : List UInt8}

lemma holds_pushLength {opcode : UInt8} {cursor : Nat} (hcursor : cursor ≤ script.length) :
    Holds P (pushLength script opcode cursor) fun r => cursor ≤ r.2 ∧ r.2 ≤ script.length := by
  simp only [pushLength, holds_ite, holds_bind, holds_pure]
  refine ⟨fun _ => ⟨le_rfl, hcursor⟩, fun _ => ?_⟩
  rw [sub_of_le hcursor, holds_ok, holds_rejectIf]
  intro hsize
  rw [slice_of_le (by omega) (by omega), holds_ok]
  exact ⟨by omega, by omega⟩

lemma holds_payload {opcode : UInt8} {cursor : Nat} (hcursor : cursor ≤ script.length) :
    Holds P (payload script opcode cursor)
      fun r => cursor ≤ r.2 ∧ r.2 + r.1 ≤ script.length := by
  simp only [payload, holds_ite, holds_bind, holds_pure]
  refine ⟨fun _ => ?_, fun _ => ⟨le_rfl, hcursor⟩⟩
  refine (holds_pushLength hcursor).mono fun r hr => ?_
  rw [sub_of_le hr.2, holds_ok, holds_rejectIf]
  intro hlen
  exact ⟨hr.1, by omega⟩

/-- An instruction ends after it starts and within the script. -/
lemma holds_next {pos : Nat} (hpos : pos < script.length) :
    Holds P (next script pos) fun i => pos < i.next ∧ i.next ≤ script.length := by
  simp only [next, holds_bind]
  rw [index_of_lt hpos, holds_ok]
  refine (holds_payload (by omega)).mono fun r hr => ?_
  rw [slice_of_le (by omega) hr.2, holds_ok]
  exact ⟨by dsimp only; omega, hr.2⟩

end Instructions

/-- Each byte of the script is enough for one step of the iterator. -/
lemma holds_of_mem_instructionsFrom {script : List UInt8} (fuel : Nat) {pos : Nat}
    (hfuel : script.length ≤ pos + fuel) {item : Outcome ScriptError Instruction}
    (hitem : item ∈ instructionsFrom script fuel pos) :
    Holds P item fun i => i.next ≤ script.length := by
  induction fuel generalizing pos with
  | zero => simp [instructionsFrom, show pos ≥ script.length by omega] at hitem
  | succ fuel ih =>
    unfold instructionsFrom at hitem
    split_ifs at hitem with hend
    · simp at hitem
    have hnext := Instructions.holds_next (P := P) (not_le.mp hend)
    split at hitem
    · rename_i i hi
      rw [hi] at hnext
      rcases List.mem_cons.mp hitem with rfl | hitem
      · exact hnext.2
      · exact ih (by have := hnext.1; omega) hitem
    · rename_i e he
      rw [he] at hnext
      rw [List.mem_singleton.mp hitem]
      match e, hnext with
      | .error _, _ => trivial
      | .panic, hp => exact hp

lemma holds_of_mem_instructions {script : List UInt8} {item : Outcome ScriptError Instruction}
    (hitem : item ∈ instructions script) : Holds P item fun i => i.next ≤ script.length :=
  holds_of_mem_instructionsFrom script.length (by omega) hitem

section Loops

variable {items : List (Outcome ScriptError Instruction)}

lemma holds_allPushes (h : ∀ item ∈ items, Holds P item fun _ => True) :
    Holds P (allPushes items) fun _ => True := by
  induction items with
  | nil => trivial
  | cons item items ih =>
    have hitems := ih fun j hj => h j (List.mem_cons_of_mem item hj)
    match item, h item List.mem_cons_self with
    | .ok i, _ =>
      simp only [allPushes, holds_ite]
      exact ⟨fun _ => hitems, fun _ => trivial⟩
    | .error (.error _), _ => trivial
    | .error .panic, hp => exact hp

lemma holds_anyCodeseparator (h : ∀ item ∈ items, Holds P item fun _ => True) :
    Holds P (anyCodeseparator items) fun _ => True := by
  induction items with
  | nil => trivial
  | cons item items ih =>
    have hitems := ih fun j hj => h j (List.mem_cons_of_mem item hj)
    match item, h item List.mem_cons_self with
    | .ok i, _ =>
      simp only [anyCodeseparator, holds_ite]
      exact ⟨fun _ => trivial, fun _ => hitems⟩
    | .error (.error _), _ => exact hitems
    | .error .panic, hp => exact hp

lemma holds_anyOpSuccess (h : ∀ item ∈ items, Holds P item fun _ => True) :
    Holds P (anyOpSuccess items) fun _ => True := by
  induction items with
  | nil => trivial
  | cons item items ih =>
    simp only [anyOpSuccess, holds_bind, holds_ite]
    refine (h item List.mem_cons_self).mono fun i _ => ?_
    exact ⟨fun _ => trivial, fun _ => ih fun j hj => h j (List.mem_cons_of_mem item hj)⟩

end Loops

lemma holds_mem_instructions_true (script : List UInt8) :
    ∀ item ∈ instructions script, Holds P item fun _ => True :=
  fun _ hitem => (holds_of_mem_instructions hitem).mono fun _ _ => trivial

lemma holds_isPushOnly (script : List UInt8) : Holds P (isPushOnly script) fun _ => True :=
  holds_allPushes (holds_mem_instructions_true script)

lemma holds_containsCodeseparator (script : List UInt8) :
    Holds P (containsCodeseparator script) fun _ => True :=
  holds_anyCodeseparator (holds_mem_instructions_true script)

lemma holds_isPayToScriptHash (script : List UInt8) :
    Holds P (isPayToScriptHash script) fun _ => True := by
  unfold isPayToScriptHash
  split_ifs with hlen
  · simp (disch := omega) only [index_of_lt, Result.ok_bind, holds_pure]
  · trivial

lemma holds_checkMinimalPush (data : List UInt8) (op : UInt8) :
    Holds P (checkMinimalPush data op) fun _ => True := by
  rw [checkMinimalPush, holds_ite]
  refine ⟨fun _ => trivial, fun hempty => ?_⟩
  have hpos : 0 < data.length := by
    rw [List.length_pos_iff]
    simpa using hempty
  rw [index_of_lt hpos, Result.ok_bind]
  simp only [holds_ite, holds_pure, implies_true, and_self]

/-! ### FindAndDelete -/

/-- The positions of the loop of `find_and_delete` stay in order and within the script. -/
lemma holds_findAndDeleteLoop {script push : List UInt8} (hpush : 0 < push.length) (fuel : Nat)
    {s : FindState} (hkept : s.lastKept ≤ s.pos) (hpos : s.pos ≤ script.length)
    (hfuel : script.length < s.pos + fuel) :
    Holds P (findAndDeleteLoop script push fuel s) fun t => t.lastKept ≤ script.length := by
  induction fuel generalizing s with
  | zero => omega
  | succ fuel ih =>
    unfold findAndDeleteLoop
    split_ifs with hroom
    · rw [slice_of_le (by omega) hroom, Result.ok_bind, holds_ite]
      refine ⟨fun _ => ?_, fun _ => ?_⟩
      · rw [slice_of_le hkept hpos, Result.ok_bind]
        exact ih le_rfl hroom (by dsimp only; omega)
      · rw [slice_of_le hpos le_rfl, Result.ok_bind]
        have hrest : ((script.drop s.pos).take (script.length - s.pos)).length =
            script.length - s.pos := by simp
        rw [if_neg (by omega)]
        have hstart : 0 < ((script.drop s.pos).take (script.length - s.pos)).length := by omega
        have hnext := Instructions.holds_next (P := P) hstart
        rw [hrest] at hnext
        split
        · rename_i i hi
          rw [hi] at hnext
          obtain ⟨hlt, hle⟩ := hnext
          exact ih (by dsimp only; omega) (by dsimp only; omega) (by dsimp only; omega)
        · exact hkept.trans hpos
        · rename_i hp
          rw [hp] at hnext
          exact hnext
    · exact hkept.trans hpos

lemma holds_findAndDelete (script push : List UInt8) :
    Holds P (findAndDelete script push) fun _ => True := by
  simp only [findAndDelete, holds_ite, holds_bind]
  refine ⟨fun _ => trivial, fun hpush => ?_⟩
  refine (holds_findAndDeleteLoop (by omega) _ le_rfl (Nat.zero_le _) (by simp)).mono
    fun s hs => ?_
  rw [slice_of_le hs le_rfl]
  trivial

lemma holds_buildScriptCode {script : List UInt8} {lastCodeseparator : Nat}
    (h : lastCodeseparator ≤ script.length) (sig : List UInt8) (sigVersion : SigVersion)
    (flags : VerifyFlags) :
    Holds P (buildScriptCode script lastCodeseparator sig sigVersion flags) fun _ => True := by
  simp only [buildScriptCode, holds_bind]
  rw [slice_of_le h le_rfl, holds_ok, holds_ite]
  refine ⟨fun _ => ?_, fun _ => trivial⟩
  rw [holds_bind]
  refine (holds_findAndDelete _ _).mono fun r _ => ?_
  simp only [holds_bind, holds_rejectIf, holds_ite]
  intro _
  exact ⟨fun _ => (holds_containsCodeseparator script).mono fun _ _ _ => trivial,
    fun _ _ => trivial⟩

/-! ### Signatures and public keys -/

lemma holds_isValidInteger {sig : List UInt8} {tag start len : Nat} (htag : tag < sig.length)
    (hend : start + len < sig.length) :
    Holds P (isValidInteger sig tag start len) fun _ => True := by
  unfold isValidInteger
  rw [index_of_lt htag, Result.ok_bind]
  split_ifs with _ hlen
  · trivial
  · trivial
  · rw [index_of_lt (by omega), Result.ok_bind]
    split_ifs
    · trivial
    · rw [index_of_lt (by omega)]
      trivial
    · trivial

/-- The lengths of a signature that passes the DER check. -/
structure DerLengths (sig : List UInt8) (lenR lenS : Nat) : Prop where
  lenR_eq : lenR = (sig.getD 3 0).toNat
  lenS_eq : lenS = (sig.getD (5 + lenR) 0).toNat
  room : 5 + lenR < sig.length
  total : lenR + lenS + 7 = sig.length

lemma holds_isValidSignatureEncoding (sig : List UInt8) :
    Holds P (isValidSignatureEncoding sig)
      fun ok => ok = true → ∃ lenR lenS, DerLengths sig lenR lenS := by
  unfold isValidSignatureEncoding
  split_ifs with hlen
  · simp
  have hlen' : 9 ≤ sig.length := by omega
  rw [index_of_lt (by omega), Result.ok_bind]
  split_ifs
  · simp
  rw [index_of_lt (by omega), Result.ok_bind, sub_of_le (by omega), Result.ok_bind]
  split_ifs
  · simp
  rw [index_eq_getD (by omega) 0, Result.ok_bind]
  dsimp only
  split_ifs with hroom
  · simp
  rw [index_eq_getD (not_le.mp hroom) 0, Result.ok_bind]
  split_ifs with htotal
  · simp
  have hder := DerLengths.mk rfl rfl (not_le.mp hroom) (not_not.mp htotal)
  have hsum := hder.total
  rw [holds_bind]
  refine (holds_isValidInteger (by omega) (by omega)).mono fun validR _ => ?_
  rw [holds_ite]
  refine ⟨fun _ => ?_, fun _ => by simp⟩
  exact (holds_isValidInteger (by omega) (by omega)).mono fun _ _ _ => ⟨_, _, hder⟩

lemma holds_isLowDerSignature (sig : List UInt8) :
    Holds P (isLowDerSignature sig) fun _ => True := by
  unfold isLowDerSignature
  rw [holds_bind]
  refine (holds_isValidSignatureEncoding sig).mono fun ok hok => ?_
  rw [holds_ite]
  refine ⟨fun hvalid => ?_, fun _ => trivial⟩
  obtain ⟨lenR, lenS, hder⟩ := hok hvalid
  have hroom := hder.room
  have htotal := hder.total
  rw [index_eq_getD (by omega) 0, Result.ok_bind, ← hder.lenR_eq]
  dsimp only
  rw [index_eq_getD hroom 0, Result.ok_bind, ← hder.lenS_eq]
  rw [slice_of_le (by omega) (by omega), Result.ok_bind]
  split_ifs with hlong
  · trivial
  · rw [sub_of_le (not_lt.mp hlong)]
    trivial

lemma holds_checkSignatureEncoding (sig : List UInt8) (flags : VerifyFlags) :
    Holds P (checkSignatureEncoding sig flags) fun _ => True := by
  unfold checkSignatureEncoding
  split_ifs
  · trivial
  · simp only [holds_bind, holds_rejectUnless, holds_pure, implies_true, and_true]
    have hhash : (flags.contains .lowS = true → Holds P (isLowDerSignature sig) fun _ => True) :=
      fun _ => holds_isLowDerSignature sig
    refine ⟨fun _ => (holds_isValidSignatureEncoding sig).mono fun _ _ _ => ?_, fun _ => ?_⟩
    · simpa using hhash
    · simpa using hhash

lemma holds_isCompressedPubkey (pubkey : List UInt8) :
    Holds P (isCompressedPubkey pubkey) fun _ => True := by
  unfold isCompressedPubkey
  split_ifs
  · rw [index_of_lt (by omega)]
    trivial
  · trivial

lemma holds_isCompressedOrUncompressedPubkey (pubkey : List UInt8) :
    Holds P (isCompressedOrUncompressedPubkey pubkey) fun _ => True := by
  unfold isCompressedOrUncompressedPubkey
  split_ifs
  · rw [index_of_lt (by omega)]
    trivial
  · rw [index_of_lt (by omega)]
    trivial
  · trivial

lemma holds_checkPubkeyEncoding (pubkey : List UInt8) (flags : VerifyFlags) (isWitnessV0 : Bool) :
    Holds P (checkPubkeyEncoding pubkey flags isWitnessV0) fun _ => True := by
  have hwitness : Holds P (rejectUnless (flags.contains .witnessPubkeytype && isWitnessV0)
      (isCompressedPubkey pubkey) .witnessPubkeyType) fun _ => True := by
    rw [holds_rejectUnless]
    exact ⟨fun _ => (holds_isCompressedPubkey pubkey).mono fun _ _ _ => trivial, fun _ => trivial⟩
  rw [checkPubkeyEncoding, holds_bind, holds_rejectUnless]
  exact ⟨fun _ => (holds_isCompressedOrUncompressedPubkey pubkey).mono fun _ _ _ => hwitness,
    fun _ => hwitness⟩

end Bitcrab
