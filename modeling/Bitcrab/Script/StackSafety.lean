import Bitcrab.Script.StackOps

/-!
# Operations on the main stack do not panic

Each operation checks the depth of the stack before it indexes it, and numbers are decoded from so
few bytes that no arithmetic on them overflows. The elements an operation leaves are elements it
found, digests and encoded numbers, all of them small.
-/

namespace Bitcrab

open Bytes Outcome

/-! ### Numbers -/

section Numbers

variable {P : Prop}

lemma holds_isMinimallyEncoded (data : List UInt8) :
    Holds P (isMinimallyEncoded data) fun _ => True := by
  unfold isMinimallyEncoded
  split
  · trivial
  · split_ifs with _ hlen
    · have hlt : data.length - 2 < data.length := by omega
      simp [sub_of_le (show 2 ≤ data.length by omega), hlt]
    · trivial
    · trivial

lemma holds_shl64 {x n : Nat} (hx : x < 256) (hn : 8 + n ≤ 64) :
    Holds P (shl64 x n) fun r => r < 2 ^ (8 + n) := by
  have hlt : n < 64 := by omega
  simp only [shl64, hlt, if_true, holds_ok]
  calc x <<< n % 2 ^ 64 ≤ x <<< n := Nat.mod_le _ _
    _ = x * 2 ^ n := Nat.shiftLeft_eq x n
    _ < 2 ^ 8 * 2 ^ n := Nat.mul_lt_mul_of_pos_right hx (Nat.two_pow_pos n)
    _ = 2 ^ (8 + n) := (pow_add 2 8 n).symm

/-- The loop of `decode_unchecked` stays within the bits of the bytes it has read. -/
lemma holds_decodeBits (bytes : List UInt8) (i result : Nat) (hresult : result < 2 ^ (8 * i))
    (hlen : i + bytes.length ≤ 8) :
    Holds P (decodeBits i result bytes) fun r => r < 2 ^ (8 * (i + bytes.length)) := by
  induction bytes generalizing i result with
  | nil => simpa [decodeBits] using hresult
  | cons byte bytes ih =>
    simp only [List.length_cons] at hlen
    simp only [decodeBits, holds_bind]
    refine (holds_shl64 byte.toNat_lt (by omega)).mono fun shifted hshifted => ?_
    have hor : result ||| shifted < 2 ^ (8 * (i + 1)) := by
      have hle : 2 ^ (8 * i) ≤ 2 ^ (8 * (i + 1)) := Nat.pow_le_pow_right (by omega) (by omega)
      have heq : 8 + 8 * i = 8 * (i + 1) := by omega
      rw [heq] at hshifted
      exact Nat.or_lt_two_pow (lt_of_lt_of_le hresult hle) hshifted
    have hind := ih (i + 1) _ hor (by omega)
    rw [show i + 1 + bytes.length = i + (byte :: bytes).length by simp; omega] at hind
    exact hind

lemma i64OfBits_of_lt {n : Nat} (h : n < 2 ^ 63) : i64OfBits n = n :=
  if_pos h

/-- Numbers of at most five bytes are far from the bounds of `i64`. -/
lemma holds_decodeUnchecked {data : List UInt8} (hlen : data.length ≤ 5) :
    Holds P (decodeUnchecked data) fun n => |n| < 2 ^ 40 := by
  unfold decodeUnchecked
  split
  · simp
  · rename_i last hlast
    have hne : data ≠ [] := by
      rintro rfl
      simp at hlast
    have hpos := List.length_pos_iff.mpr hne
    have hpow : 2 ^ (8 * (0 + data.length)) ≤ 2 ^ 40 :=
      Nat.pow_le_pow_right (by omega) (by omega)
    rw [holds_bind]
    refine (holds_decodeBits data 0 0 (by simp) (by omega)).mono fun r hr => ?_
    have hr40 : r < 2 ^ 40 := lt_of_lt_of_le hr hpow
    rw [holds_ite]
    refine ⟨fun _ => ?_, fun _ => ?_⟩
    · rw [sub_of_le (by omega : 1 ≤ data.length), Result.ok_bind, holds_bind]
      refine (holds_shl64 (by omega) (by omega)).mono fun sign _ => ?_
      have hand : r &&& (2 ^ 64 - 1 - sign) < 2 ^ 40 := lt_of_le_of_lt Nat.and_le_left hr40
      rw [i64OfBits_of_lt (by omega), i64_of_mem (by omega) (by omega), holds_ok, abs_neg,
        Nat.abs_cast]
      exact_mod_cast hand
    · rw [holds_pure, i64OfBits_of_lt (by omega), Nat.abs_cast]
      exact_mod_cast hr40

lemma holds_scriptNumDecode (data : List UInt8) (requireMinimal : Bool) {maxSize : Nat}
    (hmax : maxSize ≤ 5) :
    Holds P (scriptNumDecode data requireMinimal maxSize) fun n => |n| < 2 ^ 40 := by
  simp only [scriptNumDecode, holds_bind, holds_rejectIf, holds_rejectUnless]
  intro hlen
  have hdecode := holds_decodeUnchecked (P := P) (by omega : data.length ≤ 5)
  exact ⟨fun _ => (holds_isMinimallyEncoded data).mono fun _ _ _ => hdecode, fun _ => hdecode⟩

lemma length_magnitudeBytes_le (fuel n : Nat) : (magnitudeBytes fuel n).length ≤ fuel := by
  induction fuel generalizing n with
  | zero => simp [magnitudeBytes]
  | succ fuel ih =>
    unfold magnitudeBytes
    split_ifs
    · simp
    · simpa using ih (n / 256)

/-- An encoded number has at most nine bytes. -/
lemma length_scriptNumEncode_le (value : Int) : (scriptNumEncode value).length ≤ 9 := by
  have hlen := length_magnitudeBytes_le 8 value.natAbs
  unfold scriptNumEncode
  dsimp only
  split
  · simp
  · split_ifs <;> simp <;> omega

end Numbers

/-! ### Stack helpers -/

/-- Every element of a stack is within the size limit. -/
def Bounded (stack : Stack) : Prop := ∀ e ∈ stack, e.length ≤ 520

lemma bounded_append {s t : Stack} : Bounded (s ++ t) ↔ Bounded s ∧ Bounded t := by
  simp [Bounded, or_imp, forall_and]

lemma bounded_singleton {e : List UInt8} : Bounded [e] ↔ e.length ≤ 520 := by
  simp [Bounded]

lemma Bounded.of_subset {s t : Stack} (h : Bounded s) (hst : t ⊆ s) : Bounded t :=
  fun e he => h e (hst he)

lemma length_boolElement_le (b : Bool) : (boolElement b).length ≤ 520 := by
  cases b <;> simp [boolElement]

section Helpers

variable {P : Prop} {stack : Stack}

/-- The popped element and the elements that are left were on the stack. -/
lemma holds_pop {Q : List UInt8 × Stack → Prop}
    (h : ∀ top rest, top ∈ stack → rest ⊆ stack → rest.length + 1 = stack.length → Q (top, rest)) :
    Holds P (pop stack) Q := by
  simp only [pop, holds_bind, holds_okOr, holds_pure]
  intro top htop
  have hmem := List.mem_of_mem_getLast? htop
  have hpos := List.length_pos_of_mem hmem
  refine h top stack.dropLast hmem (List.dropLast_subset stack) ?_
  rw [List.length_dropLast]
  omega

lemma holds_requireDepth {Q : Unit → Prop} {depth : Nat} (h : depth ≤ stack.length → Q ()) :
    Holds P (requireDepth stack depth) Q := by
  simp only [requireDepth, holds_rejectIf, not_lt]
  exact h

lemma holds_index_mem {Q : List UInt8 → Prop} {i : Nat} (hi : i < stack.length)
    (h : ∀ e ∈ stack, Q e) : Holds P (index stack i : Outcome ScriptError _) Q := by
  rw [index_of_lt hi]
  exact h _ (List.getElem_mem hi)

lemma holds_fromTop {Q : List UInt8 → Prop} {depth : Nat} (hpos : 0 < depth)
    (hdepth : depth ≤ stack.length) (h : ∀ e ∈ stack, Q e) : Holds P (fromTop stack depth) Q := by
  rw [fromTop, sub_of_le hdepth, Result.ok_bind]
  exact holds_index_mem (by omega) h

lemma holds_stackTop {Q : List UInt8 → Prop} {depth : Nat} (hpos : 0 < depth)
    (h : ∀ e ∈ stack, Q e) : Holds P (stackTop stack depth) Q := by
  simp only [stackTop, holds_bind, holds_rejectIf, not_lt]
  intro hdepth
  exact holds_fromTop hpos hdepth h

lemma holds_remove {Q : List UInt8 × Stack → Prop} {i : Nat} (hi : i < stack.length)
    (h : ∀ e rest, e ∈ stack → rest ⊆ stack → rest.length + 1 = stack.length → Q (e, rest)) :
    Holds P (remove stack i : Outcome ScriptError _) Q := by
  rw [remove_of_lt hi]
  refine h _ _ (List.getElem_mem hi) List.eraseIdx_subset ?_
  rw [List.length_eraseIdx_of_lt hi]
  omega

lemma holds_swap {Q : Stack → Prop} {i j : Nat} (hi : i < stack.length) (hj : j < stack.length)
    (h : ∀ s : Stack, s ⊆ stack → s.length = stack.length → Q s) :
    Holds P (Outcome.swap stack i j : Outcome ScriptError _) Q := by
  rw [swap_of_lt hi hj]
  refine h _ ?_ (by simp)
  intro e he
  rcases List.mem_or_eq_of_mem_set he with he | rfl
  · rcases List.mem_or_eq_of_mem_set he with he | rfl
    · exact he
    · exact List.getElem_mem hj
  · exact List.getElem_mem hi

lemma holds_popNum {requireMinimal : Bool} {Q : Int × Stack → Prop}
    (h : ∀ n rest, |n| < 2 ^ 40 → rest ⊆ stack → rest.length + 1 = stack.length → Q (n, rest)) :
    Holds P (popNum stack requireMinimal) Q := by
  rw [popNum, holds_bind]
  refine holds_pop fun top rest _ hrest hlen => ?_
  rw [holds_bind]
  refine (holds_scriptNumDecode top requireMinimal (by decide)).mono fun n hn => ?_
  exact h n rest hn hrest hlen

end Helpers

/-! ### The operations -/

section Operations

variable {P : Prop}

lemma holds_evalUnary (op : UnaryOp) {value : Int} (h : |value| < 2 ^ 40) :
    Holds P (evalUnary op value) fun _ => True := by
  have hv := abs_lt.mp h
  have hnonneg := abs_nonneg value
  cases op with
  | add1 => rw [evalUnary, i64_of_mem (by omega) (by omega)]; trivial
  | sub1 => rw [evalUnary, i64_of_mem (by omega) (by omega)]; trivial
  | negate => rw [evalUnary, i64_of_mem (by omega) (by omega)]; trivial
  | abs => rw [evalUnary, i64_of_mem (by omega) (by omega)]; trivial
  | not => trivial
  | notEqual0 => trivial

lemma holds_evalBinary (op : BinaryOp) {a b : Int} (ha : |a| < 2 ^ 40) (hb : |b| < 2 ^ 40) :
    Holds P (evalBinary op a b) fun _ => True := by
  have ha' := abs_lt.mp ha
  have hb' := abs_lt.mp hb
  cases op with
  | add => rw [evalBinary, i64_of_mem (by omega) (by omega)]; trivial
  | sub => rw [evalBinary, i64_of_mem (by omega) (by omega)]; trivial
  | _ => trivial

variable [Sha2] [LegacyHash]

lemma length_evalHash_le (op : HashOp) (data : List UInt8) : (evalHash op data).length ≤ 520 := by
  cases op <;> simp [evalHash]

omit [Sha2] [LegacyHash] in
/-- What is pushed back comes from the stack or is small. -/
lemma Bounded.push {s t : Stack} (h : Bounded s) (hts : t ⊆ s) {pushed : Stack}
    (hpushed : ∀ e ∈ pushed, e ∈ s ∨ e.length ≤ 520) : Bounded (t ++ pushed) := by
  rw [bounded_append]
  refine ⟨h.of_subset hts, fun e he => ?_⟩
  rcases hpushed e he with hmem | hlen
  · exact h e hmem
  · exact hlen

/-- An operation on the main stack does not panic, and keeps its elements small. -/
lemma holds_execStackOp (requireMinimal : Bool) (stack : Stack) (op : StackOp) :
    Holds P (execStackOp requireMinimal stack op) fun s => Bounded stack → Bounded s := by
  have hnum : ∀ n, (scriptNumEncode n).length ≤ 520 :=
    fun n => (length_scriptNumEncode_le n).trans (by decide)
  cases op with
  | pushN value => exact fun h => h.push (List.Subset.refl _) (by simp [hnum])
  | verify =>
    simp only [execStackOp, holds_bind]
    refine holds_pop fun top rest _ hrest _ => ?_
    simp only [holds_rejectIf, holds_pure]
    exact fun _ h => h.of_subset hrest
  | drop2 =>
    simp only [execStackOp, holds_bind]
    refine holds_requireDepth fun _ h => ?_
    exact h.of_subset (List.Subset.trans (List.dropLast_subset _) (List.dropLast_subset _))
  | dup2 =>
    simp only [execStackOp, holds_bind]
    refine holds_requireDepth fun hlen => ?_
    refine holds_fromTop (by omega) (by omega) fun a ha => ?_
    refine holds_fromTop (by omega) (by omega) fun b hb => ?_
    exact fun h => h.push (List.Subset.refl _) (by simp [ha, hb])
  | dup3 =>
    simp only [execStackOp, holds_bind]
    refine holds_requireDepth fun hlen => ?_
    refine holds_fromTop (by omega) (by omega) fun a ha => ?_
    refine holds_fromTop (by omega) (by omega) fun b hb => ?_
    refine holds_fromTop (by omega) (by omega) fun c hc => ?_
    exact fun h => h.push (List.Subset.refl _) (by simp [ha, hb, hc])
  | over2 =>
    simp only [execStackOp, holds_bind]
    refine holds_requireDepth fun hlen => ?_
    refine holds_fromTop (by omega) (by omega) fun a ha => ?_
    refine holds_fromTop (by omega) (by omega) fun b hb => ?_
    exact fun h => h.push (List.Subset.refl _) (by simp [ha, hb])
  | rot2 =>
    simp only [execStackOp, holds_bind]
    refine holds_requireDepth fun hlen => ?_
    simp (disch := omega) only [sub_of_le, holds_ok]
    refine holds_remove (by omega) fun a rest ha hrest hrestLen => ?_
    dsimp only
    refine holds_remove (by omega) fun b rest' hb hrest' _ => ?_
    have hb' := hrest hb
    exact fun h => h.push (List.Subset.trans hrest' hrest) (by simp [ha, hb'])
  | swap2 =>
    simp only [execStackOp, holds_bind]
    refine holds_requireDepth fun hlen => ?_
    simp (disch := omega) only [sub_of_le, holds_ok]
    refine holds_swap (by omega) (by omega) fun s hs hsLen => ?_
    refine holds_swap (by omega) (by omega) fun t ht _ h => ?_
    exact h.of_subset (List.Subset.trans ht hs)
  | ifDup =>
    simp only [execStackOp, holds_bind]
    refine holds_stackTop (by omega) fun top htop => ?_
    intro h
    split_ifs
    · exact h.push (List.Subset.refl _) (by simp [htop])
    · exact h
  | depth => exact fun h => h.push (List.Subset.refl _) (by simp [hnum])
  | drop =>
    simp only [execStackOp, holds_bind]
    refine holds_pop fun top rest _ hrest _ => ?_
    exact fun h => h.of_subset hrest
  | dup =>
    simp only [execStackOp, holds_bind]
    refine holds_stackTop (by omega) fun top htop => ?_
    exact fun h => h.push (List.Subset.refl _) (by simp [htop])
  | nip =>
    simp only [execStackOp, holds_bind]
    refine holds_requireDepth fun hlen => ?_
    simp (disch := omega) only [sub_of_le, holds_ok]
    refine holds_remove (by omega) fun a rest _ hrest _ => ?_
    exact fun h => h.of_subset hrest
  | «over» =>
    simp only [execStackOp, holds_bind]
    refine holds_stackTop (by omega) fun item hitem => ?_
    exact fun h => h.push (List.Subset.refl _) (by simp [hitem])
  | pick roll =>
    simp only [execStackOp, holds_bind]
    refine holds_requireDepth fun hlen => ?_
    refine holds_popNum fun n rest _ hrest hrestLen => ?_
    simp only [holds_rejectIf, not_or, not_lt, not_le, ge_iff_le]
    rintro ⟨hn, hlt⟩
    simp (disch := omega) only [sub_of_le, holds_ok]
    split_ifs
    · simp only [holds_bind]
      refine holds_remove (by omega) fun item rest' hitem hrest' _ => ?_
      have hitem' := hrest hitem
      exact fun h => h.push (List.Subset.trans hrest' hrest) (by simp [hitem'])
    · simp only [holds_bind]
      refine holds_index_mem (by omega) fun item hitem => ?_
      have hitem' := hrest hitem
      exact fun h => h.push hrest (by simp [hitem'])
  | rot =>
    simp only [execStackOp, holds_bind]
    refine holds_requireDepth fun hlen => ?_
    simp (disch := omega) only [sub_of_le, holds_ok]
    refine holds_swap (by omega) (by omega) fun s hs hsLen => ?_
    refine holds_swap (by omega) (by omega) fun t ht _ h => ?_
    exact h.of_subset (List.Subset.trans ht hs)
  | swap =>
    simp only [execStackOp, holds_bind]
    refine holds_requireDepth fun hlen => ?_
    simp (disch := omega) only [sub_of_le, holds_ok]
    refine holds_swap (by omega) (by omega) fun s hs _ h => ?_
    exact h.of_subset hs
  | tuck =>
    simp only [execStackOp, holds_bind]
    refine holds_requireDepth fun hlen => ?_
    refine holds_fromTop (by omega) (by omega) fun top htop => ?_
    rw [sub_of_le hlen, holds_ok, insert_of_le (by omega), holds_ok]
    intro h e he
    rcases List.eq_or_mem_of_mem_insertIdx he with rfl | he
    · exact h _ htop
    · exact h e he
  | size =>
    simp only [execStackOp, holds_bind]
    refine holds_stackTop (by omega) fun top htop => ?_
    exact fun h => h.push (List.Subset.refl _) (by simp [hnum])
  | equal verify =>
    simp only [execStackOp, holds_bind]
    refine holds_requireDepth fun hlen => ?_
    refine holds_pop fun b rest _ hrest _ => ?_
    refine holds_pop fun a rest' _ hrest' _ => ?_
    have hsub := List.Subset.trans hrest' hrest
    cases verify with
    | true =>
      simp only [if_true, holds_bind, holds_rejectIf, holds_pure]
      exact fun _ h => h.of_subset hsub
    | false => exact fun h => h.push hsub (by simp [length_boolElement_le])
  | unary op =>
    simp only [execStackOp, holds_bind]
    refine holds_popNum fun value rest hvalue hrest _ => ?_
    refine (holds_evalUnary op hvalue).mono fun result _ => ?_
    exact fun h => h.push hrest (by simp [hnum])
  | binary op =>
    simp only [execStackOp, holds_bind]
    refine holds_requireDepth fun hlen => ?_
    refine holds_popNum fun b rest hb hrest _ => ?_
    refine holds_popNum fun a rest' ha hrest' _ => ?_
    have hsub := List.Subset.trans hrest' hrest
    refine (holds_evalBinary op ha hb).mono fun result _ => ?_
    split_ifs
    · simp only [holds_bind, holds_rejectIf, holds_pure]
      exact fun _ h => h.of_subset hsub
    · exact fun h => h.push hsub (by simp [hnum])
  | within =>
    simp only [execStackOp, holds_bind]
    refine holds_requireDepth fun hlen => ?_
    refine holds_popNum fun max rest _ hrest _ => ?_
    refine holds_popNum fun min rest' _ hrest' _ => ?_
    refine holds_popNum fun value rest'' _ hrest'' _ => ?_
    have hsub := List.Subset.trans hrest'' (List.Subset.trans hrest' hrest)
    exact fun h => h.push hsub (by simp [length_boolElement_le])
  | hash op =>
    simp only [execStackOp, holds_bind]
    refine holds_pop fun data rest _ hrest _ => ?_
    exact fun h => h.push hrest (by simp [length_evalHash_le])

end Operations

end Bitcrab
