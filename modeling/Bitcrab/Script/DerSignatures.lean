import Bitcrab.Lib.Der
import Bitcrab.Script.NumEncoding
import Bitcrab.Script.Segments

/-!
# Strict DER

`is_valid_signature_encoding` reads the lengths of the two integers before it checks that they add
up, so they decide where every later byte is read. What it accepts are the signatures of the
grammar, of which there is one for every two integers and hash type.
-/

namespace Bitcrab

open Bytes Outcome Der

/-- `30 len 02 |R| R 02 |S| S hashtype`. -/
structure DerSignature (sig r s : List UInt8) (hashtype : UInt8) : Prop where
  layout : ∃ len lenR lenS : UInt8,
    sig = 0x30 :: len :: 0x02 :: lenR :: (r ++ 0x02 :: lenS :: (s ++ [hashtype])) ∧
      len.toNat + 3 = sig.length ∧ lenR.toNat = r.length ∧ lenS.toNat = s.length
  min_length : 9 ≤ sig.length
  max_length : sig.length ≤ 73
  integer_r : IsInteger r
  integer_s : IsInteger s

/-! ### The check -/

/-- One integer, where its tag and its first bytes are read. -/
lemma isValidInteger_eq {before content after : List UInt8} {tag : Nat} {t : UInt8}
    (htag : index (before ++ (content ++ after)) tag = (.ok t : Outcome ScriptError UInt8)) :
    isValidInteger (before ++ (content ++ after)) tag before.length content.length =
      .ok (decide (t = 0x02 ∧ IsInteger content)) := by
  rw [isValidInteger, htag, Result.ok_bind]
  by_cases ht : t = 0x02
  · rw [if_neg (not_not.mpr ht)]
    cases content with
    | nil => exact congrArg Except.ok (decide_eq_false fun h => not_isInteger_nil h.2).symm
    | cons first rest =>
      have hfirst : (index (before ++ (first :: rest ++ after)) before.length :
          Outcome ScriptError UInt8) = .ok first :=
        Instructions.index_append_right before (first :: rest ++ after) 0
      have hhigh := and_0x80_eq_zero_iff first
      rw [if_neg (by simp), hfirst, Result.ok_bind]
      by_cases hnonneg : first &&& 0x80 = 0
      · rw [if_neg (not_not.mpr hnonneg)]
        rw [hhigh] at hnonneg
        by_cases hpadded : (first :: rest).length > 1 ∧ first = 0x00
        · -- the second byte says whether the first is needed
          obtain ⟨hlen, rfl⟩ := hpadded
          obtain ⟨second, rest, rfl⟩ : ∃ second rest', rest = second :: rest' := by
            cases rest with
            | nil => exact absurd hlen (lt_irrefl _)
            | cons second rest => exact ⟨second, rest, rfl⟩
          have hsecond : (index (before ++ (0x00 :: second :: rest ++ after)) (before.length + 1) :
              Outcome ScriptError UInt8) = .ok second :=
            Instructions.index_append_right before (0x00 :: second :: rest ++ after) 1
          rw [if_pos ⟨hlen, rfl⟩, hsecond, Result.ok_bind]
          refine congrArg Except.ok (decide_eq_decide.mpr ?_)
          rw [ne_eq, and_0x80_eq_zero_iff, isInteger_cons]
          constructor
          · intro hbit
            refine ⟨ht, hnonneg, ?_⟩
            rintro _ _ - heq
            obtain ⟨rfl, -⟩ := List.cons.inj heq
            omega
          · rintro ⟨-, -, hminimal⟩
            have := hminimal second rest rfl rfl
            omega
        · rw [if_neg hpadded]
          refine congrArg Except.ok (decide_eq_true ⟨ht, isInteger_cons.mpr ⟨hnonneg, ?_⟩⟩).symm
          rintro second rest' rfl rfl
          exact absurd ⟨by simp, rfl⟩ hpadded
      · rw [if_pos hnonneg]
        rw [hhigh] at hnonneg
        exact congrArg Except.ok (decide_eq_false fun h => hnonneg (isInteger_cons.mp h.2).1).symm
  · rw [if_pos ht]
    exact congrArg Except.ok (decide_eq_false fun h => ht h.1).symm

section Shape

variable {sig r rest : List UInt8} {b₀ b₁ b₂ lenR t lenS : UInt8}

/-- A signature whose first length leaves room for the second one. -/
lemma isValidSignatureEncoding_eq
    (hsig : sig = b₀ :: b₁ :: b₂ :: lenR :: (r ++ t :: lenS :: rest)) (hr : lenR.toNat = r.length)
    (hmin : 9 ≤ sig.length) (hmax : sig.length ≤ 73) :
    isValidSignatureEncoding sig =
      .ok (decide (b₀ = 0x30 ∧ b₁.toNat + 3 = sig.length ∧ rest.length = lenS.toNat + 1 ∧
        (b₂ = 0x02 ∧ IsInteger r) ∧ t = 0x02 ∧ IsInteger (rest.take lenS.toNat))) := by
  have hlen : sig.length = r.length + 6 + rest.length := by
    rw [hsig]
    simp
    omega
  have hindex₀ : (index sig 0 : Outcome ScriptError UInt8) = .ok b₀ := by rw [hsig]; rfl
  have hindex₁ : (index sig 1 : Outcome ScriptError UInt8) = .ok b₁ := by rw [hsig]; rfl
  have hindex₂ : (index sig 2 : Outcome ScriptError UInt8) = .ok b₂ := by rw [hsig]; rfl
  have hindex₃ : (index sig 3 : Outcome ScriptError UInt8) = .ok lenR := by rw [hsig]; rfl
  have hafter : ∀ i, (index sig (4 + r.length + i) : Outcome ScriptError UInt8) =
      index (t :: lenS :: rest) i := by
    intro i
    have h := Instructions.index_append_right (ε := ScriptError) (b₀ :: b₁ :: b₂ :: lenR :: r)
      (t :: lenS :: rest) i
    rw [List.length_cons, List.length_cons, List.length_cons, List.length_cons] at h
    rw [hsig, Nat.add_comm 4]
    exact h
  have hindexT : (index sig (r.length + 4) : Outcome ScriptError UInt8) = .ok t := by
    rw [Nat.add_comm]
    exact hafter 0
  have hindexS : (index sig (5 + r.length) : Outcome ScriptError UInt8) = .ok lenS := by
    rw [Nat.add_comm, ← Nat.add_assoc _ 4 1, Nat.add_comm _ 4]
    exact hafter 1
  have hvalidR : isValidInteger sig 2 4 r.length = .ok (decide (b₂ = 0x02 ∧ IsInteger r)) := by
    rw [hsig] at hindex₂ ⊢
    exact @isValidInteger_eq [b₀, b₁, b₂, lenR] r (t :: lenS :: rest) 2 b₂ hindex₂
  rw [isValidSignatureEncoding, if_neg (by omega), hindex₀, Result.ok_bind, hindex₁, Result.ok_bind,
    sub_of_le (by omega), Result.ok_bind, hindex₃, Result.ok_bind]
  dsimp only
  rw [hr, if_neg (show ¬5 + r.length ≥ sig.length by omega), hindexS, Result.ok_bind, hvalidR,
    Result.ok_bind]
  by_cases h₀ : b₀ = 0x30
  · by_cases h₁ : b₁.toNat + 3 = sig.length
    · by_cases hrest : rest.length = lenS.toNat + 1
      · have hvalidS : isValidInteger sig (r.length + 4) (r.length + 6) lenS.toNat =
            .ok (decide (t = 0x02 ∧ IsInteger (rest.take lenS.toNat))) := by
          have hsplit : sig = (b₀ :: b₁ :: b₂ :: lenR :: (r ++ [t, lenS])) ++
              (rest.take lenS.toNat ++ rest.drop lenS.toNat) := by
            rw [hsig, List.take_append_drop]
            simp
          have hbefore : (b₀ :: b₁ :: b₂ :: lenR :: (r ++ [t, lenS])).length = r.length +
            6 := by simp
          have hcontent : (rest.take lenS.toNat).length = lenS.toNat :=
            List.length_take_of_le (by omega)
          rw [hsplit] at hindexT
          have hvalid := isValidInteger_eq hindexT
          rwa [hcontent, hbefore, ← hsplit] at hvalid
        rw [if_neg (not_not.mpr h₀), if_neg (by omega), if_neg (by omega), hvalidS]
        by_cases hvalid : b₂ = 0x02 ∧ IsInteger r
        · rw [if_pos (decide_eq_true hvalid)]
          exact congrArg Except.ok (decide_eq_decide.mpr
            ⟨fun h => ⟨h₀, h₁, hrest, hvalid, h⟩, fun h => h.2.2.2.2⟩)
        · rw [if_neg (by simpa using hvalid)]
          exact congrArg Except.ok (decide_eq_false fun h => hvalid h.2.2.2.1).symm
      · rw [if_neg (not_not.mpr h₀), if_neg (by omega), if_pos (by omega)]
        exact congrArg Except.ok (decide_eq_false fun h => hrest h.2.2.1).symm
    · rw [if_neg (not_not.mpr h₀), if_pos (by omega)]
      exact congrArg Except.ok (decide_eq_false fun h => h₁ h.2.1).symm
  · rw [if_pos h₀]
    exact congrArg Except.ok (decide_eq_false fun h => h₀ h.1).symm

/-- Otherwise there are fewer bytes than the first length says. -/
lemma exists_shape (hmin : 9 ≤ sig.length) :
    (∃ b₀ b₁ b₂ lenR t lenS r rest, sig = b₀ :: b₁ :: b₂ :: lenR :: (r ++ t :: lenS :: rest) ∧
        lenR.toNat = r.length) ∨
      ∀ lenR, (index sig 3 : Outcome ScriptError UInt8) = .ok lenR →
        sig.length ≤ 5 + lenR.toNat := by
  match sig, hmin with
  | b₀ :: b₁ :: b₂ :: lenR :: bytes, hmin =>
    by_cases hroom : lenR.toNat + 2 ≤ bytes.length
    · left
      have hdrop : 2 ≤ (bytes.drop lenR.toNat).length := by
        rw [List.length_drop]
        omega
      match hbytes : bytes.drop lenR.toNat, hdrop with
      | t :: lenS :: rest, _ =>
        refine ⟨b₀, b₁, b₂, lenR, t, lenS, bytes.take lenR.toNat, rest, ?_, ?_⟩
        · rw [← hbytes, List.take_append_drop]
        · rw [List.length_take_of_le (by omega)]
    · right
      intro lenR' hlenR
      obtain rfl : lenR = lenR' := Except.ok.inj hlenR
      simp only [List.length_cons]
      omega

lemma isValidSignatureEncoding_of_lt (h : ∀ lenR, (index sig 3 : Outcome ScriptError UInt8) =
    .ok lenR → sig.length ≤ 5 + lenR.toNat) : isValidSignatureEncoding sig = .ok false := by
  rw [isValidSignatureEncoding]
  split_ifs with hlen
  · rfl
  have hindex : ∀ {i}, i < 9 → ∃ b, (index sig i : Outcome ScriptError UInt8) = .ok b := by
    intro i hi
    exact ⟨_, index_of_lt (by omega)⟩
  obtain ⟨b₀, h₀⟩ := hindex (i := 0) (by decide)
  obtain ⟨b₁, h₁⟩ := hindex (i := 1) (by decide)
  obtain ⟨lenR, h₃⟩ := hindex (i := 3) (by decide)
  have hroom := h lenR h₃
  rw [h₀, Result.ok_bind, h₁, Result.ok_bind, sub_of_le (by omega), Result.ok_bind, h₃,
    Result.ok_bind]
  dsimp only
  rw [if_pos (show 5 + lenR.toNat ≥ sig.length from hroom)]
  split_ifs <;> rfl

end Shape

/-- `is_valid_signature_encoding` accepts the signatures of the grammar. -/
lemma isValidSignatureEncoding_iff (sig : List UInt8) :
    ∃ valid, isValidSignatureEncoding sig = .ok valid ∧
      (valid = true ↔ ∃ r s hashtype, DerSignature sig r s hashtype) := by
  by_cases hlen : sig.length < 9 ∨ sig.length > 73
  · refine ⟨false, by rw [isValidSignatureEncoding, if_pos hlen]; rfl, by simp, ?_⟩
    rintro ⟨r, s, hashtype, h⟩
    have hmin := h.min_length
    have hmax := h.max_length
    omega
  obtain ⟨b₀, b₁, b₂, lenR, t, lenS, r, rest, hsig, hr⟩ | hshort := @exists_shape sig (by omega)
  · refine ⟨_, isValidSignatureEncoding_eq hsig hr (by omega) (by omega), ?_⟩
    rw [decide_eq_true_eq]
    constructor
    · rintro ⟨rfl, hb₁, hrest, ⟨rfl, hintegerR⟩, rfl, hintegerS⟩
      have hdrop : (rest.drop lenS.toNat).length = 1 := by
        rw [List.length_drop]
        omega
      obtain ⟨hashtype, hhashtype⟩ := List.length_eq_one_iff.mp hdrop
      refine ⟨r, rest.take lenS.toNat, hashtype,
        ⟨b₁, lenR, lenS, ?_, hb₁, hr, ?_⟩, by omega, by omega,
        hintegerR, hintegerS⟩
      · rw [hsig, ← hhashtype, List.take_append_drop]
      · rw [List.length_take_of_le (by omega)]
    · rintro ⟨r', s, hashtype, ⟨len, lenR', lenS', hlayout, hlen', hr', hs⟩, -, -, hintegerR,
        hintegerS⟩
      rw [hsig] at hlayout
      simp only [List.cons.injEq] at hlayout
      obtain ⟨rfl, rfl, rfl, rfl, hafter⟩ := hlayout
      obtain ⟨rfl, htail⟩ := List.append_inj hafter (hr.symm.trans hr')
      simp only [List.cons.injEq] at htail
      obtain ⟨rfl, rfl, rfl⟩ := htail
      rw [hs, List.take_left]
      exact ⟨rfl, hlen', by simp, ⟨rfl, hintegerR⟩, rfl, hintegerS⟩
  · refine ⟨false, isValidSignatureEncoding_of_lt hshort, by simp, ?_⟩
    rintro ⟨r, s, hashtype, ⟨len, lenR, lenS, hlayout, -, hr, -⟩, -⟩
    have hlen' := congrArg List.length hlayout
    have hroom := hshort lenR (by rw [hlayout]; rfl)
    simp at hlen'
    omega

/-! ### Low values -/

/-- The order of the curve. -/
def curveOrder : Nat := 0xFFFFFFFFFFFFFFFFFFFFFFFFFFFFFFFEBAAEDCE6AF48A03BBFD25E8CD0364141

lemma ofBeBytes_halfCurveOrder : ofBeBytes halfCurveOrder = curveOrder / 2 := by
  decide +kernel

/-- Arrays of the same length are compared as numbers. -/
lemma bytesLe_iff {as bs : List UInt8} (h : as.length = bs.length) :
    bytesLe as bs = true ↔ ofBeBytes as ≤ ofBeBytes bs := by
  induction as generalizing bs with
  | nil =>
    obtain rfl := List.length_eq_zero_iff.mp h.symm
    simp [bytesLe]
  | cons a as ih =>
    match bs, h with
    | b :: bs, h =>
      have hlen : as.length = bs.length := Nat.succ.inj h
      have has := ofBeBytes_lt as
      have hbs := ofBeBytes_lt bs
      rw [bytesLe, ofBeBytes_cons, ofBeBytes_cons, hlen]
      rw [hlen] at has
      simp only [Bool.or_eq_true, Bool.and_eq_true, decide_eq_true_eq, ih hlen,
        UInt8.lt_iff_toNat_lt, ← UInt8.toNat_inj]
      rcases Nat.lt_trichotomy a.toNat b.toNat with hlt | heq | hgt
      · have hmul := Nat.mul_le_mul_left (256 ^ bs.length) (Nat.succ_le_of_lt hlt)
        rw [Nat.mul_succ] at hmul
        exact iff_of_true (.inl hlt) (by omega)
      · rw [heq]
        simp
      · have hmul := Nat.mul_le_mul_left (256 ^ bs.length) (Nat.succ_le_of_lt hgt)
        rw [Nat.mul_succ] at hmul
        exact iff_of_false (by omega) (by omega)

lemma stripLeadingZero_of_ne {s : List UInt8} (h : ∀ b bs, s ≠ 0x00 :: b :: bs) :
    stripLeadingZero s = s := by
  rw [stripLeadingZero]
  exact h

/-- Without the padding the integer is the same, and has no bytes that it does not need. -/
lemma stripLeadingZero_spec {s : List UInt8} (h : IsInteger s) :
    ofBeBytes (stripLeadingZero s) = ofBeBytes s ∧
      (1 < (stripLeadingZero s).length →
        256 ^ ((stripLeadingZero s).length - 1) ≤ ofBeBytes s) := by
  have hpow : ∀ (first : UInt8) (rest : List UInt8), 0 < first.toNat →
      256 ^ rest.length ≤ ofBeBytes (first :: rest) := by
    intro first rest hpos
    have hmul := Nat.mul_le_mul_left (256 ^ rest.length) hpos
    rw [ofBeBytes_cons]
    omega
  match s, h with
  | [], h => exact absurd h not_isInteger_nil
  | [first], _ =>
    rw [stripLeadingZero_of_ne (by simp)]
    exact ⟨rfl, fun hlong => absurd hlong (lt_irrefl _)⟩
  | first :: second :: rest, h =>
    rw [isInteger_cons] at h
    by_cases hzero : first = 0
    · subst hzero
      have hvalue : ofBeBytes (0 :: second :: rest) = ofBeBytes (second :: rest) :=
        ofBeBytes_replicate_zero_append 1 _
      have hsecond := h.2 second rest rfl rfl
      rw [hvalue]
      exact ⟨rfl, fun _ => hpow second rest (by omega)⟩
    · have hstrip : stripLeadingZero (first :: second :: rest) = first :: second :: rest :=
        stripLeadingZero_of_ne fun b bs heq => hzero (List.cons.inj heq).1
      have hpos : 0 < first.toNat := by
        rw [Nat.pos_iff_ne_zero, ne_eq, ← UInt8.toNat_zero, UInt8.toNat_inj]
        exact hzero
      rw [hstrip]
      exact ⟨rfl, fun _ => hpow first (second :: rest) hpos⟩

lemma isLowDerSignature_eq {sig r s : List UInt8} {hashtype : UInt8}
    (h : DerSignature sig r s hashtype) :
    isLowDerSignature sig = .ok (decide (ofBeBytes s ≤ curveOrder / 2)) := by
  obtain ⟨valid, hvalid, hiff⟩ := isValidSignatureEncoding_iff sig
  obtain rfl : valid = true := hiff.mpr ⟨r, s, hashtype, h⟩
  obtain ⟨hstrip, hlong⟩ := stripLeadingZero_spec h.integer_s
  obtain ⟨⟨len, lenR, lenS, hlayout, -, hr, hs⟩, -⟩ := h
  have hsplit : sig = (0x30 :: len :: 0x02 :: lenR :: (r ++ [0x02, lenS])) ++
    (s ++ [hashtype]) := by
    rw [hlayout]
    simp
  have hbefore : (0x30 :: len :: 0x02 :: lenR :: (r ++ [0x02, lenS])).length = r.length +
    6 := by simp
  have hindex₃ : (index sig 3 : Outcome ScriptError UInt8) = .ok lenR := by rw [hlayout]; rfl
  have hindexS : (index sig (5 + r.length) : Outcome ScriptError UInt8) = .ok lenS := by
    have hafter :=
      Instructions.index_append_right (ε := ScriptError) (0x30 :: len :: 0x02 :: lenR :: r)
      (0x02 :: lenS :: (s ++ [hashtype])) 1
    rw [hlayout, Nat.add_comm]
    exact hafter
  have hslice : (slice sig (r.length + 6) (r.length + 6 + s.length) :
      Outcome ScriptError (List UInt8)) = .ok s := by
    have hafter := Instructions.slice_append_right (ε := ScriptError)
      (0x30 :: len :: 0x02 :: lenR :: (r ++ [0x02, lenS])) (s ++ [hashtype]) 0 s.length
    rw [hbefore, Nat.add_zero, ← hsplit, slice_of_le (Nat.zero_le _) (by simp), List.drop_zero,
      Nat.sub_zero, List.take_left] at hafter
    exact hafter
  rw [isLowDerSignature, hvalid, Result.ok_bind, if_pos rfl, hindex₃, Result.ok_bind, hr]
  dsimp only
  rw [hindexS, Result.ok_bind, hs, hslice, Result.ok_bind, ← hstrip]
  rw [← hstrip] at hlong
  generalize stripLeadingZero s = stripped at *
  by_cases hlen : stripped.length > 32
  · have hpow : 256 ^ 32 ≤ 256 ^ (stripped.length - 1) :=
      Nat.pow_le_pow_right (by decide) (by omega)
    have hhalf : curveOrder / 2 < 256 ^ 32 := by decide
    have hle := hlong (by omega)
    rw [if_pos hlen]
    exact congrArg Except.ok (decide_eq_false (by omega)).symm
  · have hpadded : (List.replicate (32 - stripped.length) 0 ++ stripped).length =
        halfCurveOrder.length := by
      rw [List.length_append, List.length_replicate, Nat.sub_add_cancel (by omega)]
      rfl
    rw [if_neg hlen, sub_of_le (by omega), Result.ok_bind]
    refine congrArg Except.ok ?_
    rw [Bool.eq_iff_iff, bytesLe_iff hpadded, ofBeBytes_replicate_zero_append,
      ofBeBytes_halfCurveOrder, decide_eq_true_eq]

/-! ### One signature for every two integers -/

/-- The signature of two integers. -/
def derSignature (r s : Nat) (hashtype : UInt8) : List UInt8 :=
  0x30 :: UInt8.ofNat ((integer r).length + (integer s).length + 4) :: 0x02 ::
    UInt8.ofNat (integer r).length :: (integer r ++
      0x02 :: UInt8.ofNat (integer s).length :: (integer s ++ [hashtype]))

lemma length_derSignature (r s : Nat) (hashtype : UInt8) :
    (derSignature r s hashtype).length = (integer r).length + (integer s).length + 7 := by
  simp [derSignature]
  omega

/-- Integers of 32 bytes have a signature. -/
lemma derSignature_spec {r s : Nat} (hr : r < 256 ^ 32) (hs : s < 256 ^ 32) (hashtype : UInt8) :
    DerSignature (derSignature r s hashtype) (integer r) (integer s) hashtype := by
  have hlen := length_derSignature r s hashtype
  have hsizeR : (integer r).length ≤ 33 := (length_beBytes _ _).trans_le (size_le hr)
  have hsizeS : (integer s).length ≤ 33 := (length_beBytes _ _).trans_le (size_le hs)
  have hposR := List.length_pos_iff.mpr (isInteger_integer r).ne_nil
  have hposS := List.length_pos_iff.mpr (isInteger_integer s).ne_nil
  have hbyte : ∀ {n}, n < 256 → (UInt8.ofNat n).toNat = n := fun h => UInt8.toNat_ofNat_of_lt h
  refine ⟨⟨_, _, _, rfl, ?_, hbyte (by omega), hbyte (by omega)⟩, by omega, by omega,
    isInteger_integer r, isInteger_integer s⟩
  rw [hbyte (by omega), hlen]

/-- The integers and the hash type determine the signature. -/
lemma DerSignature.eq_derSignature {sig r s : List UInt8} {hashtype : UInt8}
    (h : DerSignature sig r s hashtype) :
    sig = derSignature (ofBeBytes r) (ofBeBytes s) hashtype := by
  have hr := h.integer_r.eq_integer
  have hs := h.integer_s.eq_integer
  obtain ⟨⟨len, lenR, lenS, hlayout, hlen, hlenR, hlenS⟩, -⟩ := h
  have htotal : sig.length = r.length + s.length + 7 := by
    rw [hlayout]
    simp
    omega
  have hbyte : ∀ {b : UInt8} {n}, b.toNat = n → UInt8.ofNat n = b := by
    rintro b _ rfl
    exact UInt8.ofNat_toNat
  rw [derSignature, ← hr, ← hs, hbyte hlenR, hbyte hlenS, hbyte (b := len) (by omega)]
  exact hlayout

/-- `is_valid_signature_encoding` accepts the grammar of strict DER, `is_low_der_signature` compares
the second integer, and there is one accepted signature for every two integers and hash type. -/
theorem strictDer_spec (sig : List UInt8) :
    (∃ valid, isValidSignatureEncoding sig = .ok valid ∧
      (valid = true ↔ ∃ r s hashtype, DerSignature sig r s hashtype)) ∧
    (∀ r s hashtype, DerSignature sig r s hashtype →
      isLowDerSignature sig = .ok (decide (ofBeBytes s ≤ curveOrder / 2))) ∧
    ∀ (r s : Nat) (hashtype : UInt8), r < 256 ^ 32 → s < 256 ^ 32 →
      ∃! sig, isValidSignatureEncoding sig = .ok true ∧
        ∃ rBytes sBytes, DerSignature sig rBytes sBytes hashtype ∧
          ofBeBytes rBytes = r ∧ ofBeBytes sBytes = s := by
  refine ⟨isValidSignatureEncoding_iff sig, fun r s hashtype => isLowDerSignature_eq, ?_⟩
  intro r s hashtype hr hs
  have hder := derSignature_spec hr hs hashtype
  obtain ⟨valid, hvalid, hiff⟩ := isValidSignatureEncoding_iff (derSignature r s hashtype)
  obtain rfl : valid = true := hiff.mpr ⟨_, _, _, hder⟩
  refine ⟨derSignature r s hashtype,
    ⟨hvalid, _, _, hder, ofBeBytes_integer r, ofBeBytes_integer s⟩, ?_⟩
  rintro sig' ⟨-, rBytes, sBytes, h, rfl, rfl⟩
  exact h.eq_derSignature

namespace Sample

/-- A signature of two small integers is accepted, and its second integer is low. -/
theorem strictDer_small :
    isValidSignatureEncoding (derSignature 0x11 0x22 1) = .ok true ∧
      isLowDerSignature (derSignature 0x11 0x22 1) = .ok true := by
  obtain ⟨⟨valid, hvalid, hiff⟩, hlow, -⟩ := strictDer_spec (derSignature 0x11 0x22 1)
  have hder : DerSignature (derSignature 0x11 0x22 1) (integer 0x11) (integer 0x22) 1 :=
    derSignature_spec (by decide) (by decide) 1
  obtain rfl : valid = true := hiff.mpr ⟨_, _, _, hder⟩
  refine ⟨hvalid, (hlow _ _ _ hder).trans ?_⟩
  rw [ofBeBytes_integer]
  decide

end Sample

end Bitcrab
