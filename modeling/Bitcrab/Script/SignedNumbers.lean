import Bitcrab.Lib.SignMagnitude
import Bitcrab.Script.NumEncoding
import Bitcrab.Script.StackSafety
import Bitcrab.Types.CompactTarget

/-!
# Signed numbers in scripts

The bytes of a script number are its absolute value, least significant first, with the sign in the
highest bit of the last one. The encoder writes the fewest bytes that can hold both; the decoder
reads any number of bytes up to eight. `is_minimally_encoded` and `cast_to_bool` look only at the
bytes, and agree with them.
-/

namespace Bitcrab

open Bytes Outcome SignMagnitude

/-! ### Bits of a byte -/

lemma and_0x7f_eq_zero_iff (byte : UInt8) : byte &&& 0x7f = 0 ↔ byte.toNat % 128 = 0 := by
  have hmod : byte.toNat &&& 127 = byte.toNat % 128 := Nat.and_two_pow_sub_one_eq_mod _ 7
  rw [← UInt8.toNat_inj, UInt8.toNat_and]
  simp only [UInt8.reduceToNat, hmod]

lemma toNat_or_0x80 {byte : UInt8} (h : byte.toNat < 128) :
    (byte ||| 0x80).toNat = byte.toNat + 128 := by
  have hadd : 128 + byte.toNat = 128 ||| byte.toNat := Nat.two_pow_add_eq_or_of_lt (i := 7) h 1
  rw [UInt8.toNat_or, Nat.or_comm, Nat.add_comm]
  exact hadd.symm

/-! ### Decoding -/

lemma pow_succ_div_two (k : Nat) : 256 ^ (k + 1) / 2 = 128 * 256 ^ k := by
  rw [Nat.pow_succ]
  omega

/-- The bytes from position `i` on are added to what was read before. -/
lemma decodeBits_eq {bytes : List UInt8} {i acc : Nat} (hlen : i + bytes.length ≤ 8)
    (hacc : acc < 256 ^ i) : decodeBits i acc bytes = .ok (acc + 256 ^ i * ofLeBytes bytes) := by
  induction bytes generalizing i acc with
  | nil => simp [decodeBits, ofLeBytes]
  | cons byte bytes ih =>
    rw [List.length_cons] at hlen
    have hbyte := byte.toNat_lt
    have hpow : (2 : Nat) ^ (8 * i) = 256 ^ i := Nat.pow_mul 2 8 i
    have hsucc : 256 ^ (i + 1) = 256 ^ i * 256 := Nat.pow_succ ..
    have hmul : 256 ^ i * byte.toNat ≤ 256 ^ i * 255 := Nat.mul_le_mul_left _ (by omega)
    have hle : 256 ^ (i + 1) ≤ 256 ^ 8 := Nat.pow_le_pow_right (by decide) (by omega)
    have hshift : (shl64 byte.toNat (8 * i) : Outcome ScriptError Nat) =
      .ok (256 ^ i * byte.toNat) := by
      rw [shl64, if_pos (by omega), Nat.shiftLeft_eq, hpow, Nat.mul_comm,
        Nat.mod_eq_of_lt (by omega)]
    have hor : acc ||| 256 ^ i * byte.toNat = acc + 256 ^ i * byte.toNat := by
      have hadd := Nat.two_pow_add_eq_or_of_lt (i := 8 * i) (by rwa [hpow]) byte.toNat
      rw [hpow] at hadd
      rw [Nat.or_comm, ← hadd, Nat.add_comm]
    rw [decodeBits, hshift, Result.ok_bind, hor, ih (by omega) (by omega), ofLeBytes, hsucc]
    congr 1
    ring

/-- `decode_unchecked` of at most eight bytes. -/
lemma decodeUnchecked_concat {init : List UInt8} (hlen : init.length < 8) (last : UInt8) :
    decodeUnchecked (init ++ [last]) =
      .ok (value (128 * 256 ^ init.length) (ofLeBytes (init ++ [last]))) := by
  have hbits : decodeBits 0 0 (init ++ [last]) = .ok (ofLeBytes (init ++ [last])) := by
    rw [decodeBits_eq (by simp; omega) (by decide), Nat.zero_add, Nat.pow_zero, Nat.one_mul]
  have hbytes : (2 : Nat) ^ (8 * init.length) = 256 ^ init.length := Nat.pow_mul 2 8 _
  have hpow : 128 * 256 ^ init.length = 2 ^ (8 * init.length + 7) := by
    rw [Nat.pow_add, hbytes, Nat.mul_comm]
  have hle : 2 ^ (8 * init.length + 7) ≤ 2 ^ 63 := Nat.pow_le_pow_right (by decide) (by omega)
  have hlt := ofLeBytes_concat_lt init last
  have hsign : last &&& 0x80 = 0 ↔ ofLeBytes (init ++ [last]) < 128 * 256 ^ init.length := by
    rw [and_0x80_eq_zero_iff, ofLeBytes_concat_lt_iff]
  rw [decodeUnchecked, List.getLast?_concat]
  dsimp only
  rw [hbits, Result.ok_bind, value]
  simp only [ne_eq, hsign]
  generalize ofLeBytes (init ++ [last]) = x at *
  by_cases hx : x < 128 * 256 ^ init.length
  · rw [if_neg (not_not.mpr hx), if_pos hx, i64OfBits_of_lt (by omega)]
    rfl
  · have hlast : (sub (init ++ [last]).length 1 : Outcome ScriptError Nat) = .ok init.length := by
      simp [sub]
    have hmask : (shl64 0x80 (8 * init.length) : Outcome ScriptError Nat) =
        .ok (2 ^ (8 * init.length + 7)) := by
      rw [shl64, if_pos (by omega), Nat.shiftLeft_eq, hbytes, hpow, Nat.mod_eq_of_lt (by omega)]
    rw [if_pos hx, if_neg hx, hlast, Result.ok_bind, hmask, Result.ok_bind]
    obtain ⟨low, rfl⟩ := Nat.exists_eq_add_of_le (Nat.le_of_not_lt hx)
    rw [hpow] at hlt ⊢
    rw [and_compl_two_pow (by omega) (by omega), i64OfBits_of_lt (by omega),
      Nat.add_sub_cancel_left,
      i64, if_pos (by omega)]

/-- `decode_unchecked` of at most eight bytes. -/
lemma decodeUnchecked_eq {data : List UInt8} (hlen : data.length ≤ 8) :
    decodeUnchecked data = .ok (value (256 ^ data.length / 2) (ofLeBytes data)) := by
  obtain rfl | ⟨init, last, rfl⟩ := List.eq_nil_or_concat' data
  · rfl
  · rw [List.length_append, List.length_singleton] at hlen ⊢
    rw [decodeUnchecked_concat (by omega), pow_succ_div_two]

/-! ### Encoding -/

/-- A negative number is written as its absolute value, with the sign bit set. -/
lemma scriptNumEncode_neg {n : Nat} (hpos : 0 < n) :
    ∃ init last, scriptNumEncode n = init ++ [last] ∧ last.toNat < 128 ∧
      scriptNumEncode (-n) = init ++ [last ||| 0x80] := by
  have hnot : ¬((n : Int) < 0) := by omega
  have hneg : -(n : Int) < 0 := by omega
  have hne : magnitudeBytes 8 n ≠ [] := by
    rw [magnitudeBytes, if_neg (by omega)]
    exact List.cons_ne_nil _ _
  unfold scriptNumEncode
  rw [Int.natAbs_neg, Int.natAbs_natCast]
  obtain ⟨init, last, hbytes⟩ := (List.eq_nil_or_concat' (magnitudeBytes 8 n)).resolve_left hne
  rw [hbytes]
  dsimp only
  rw [List.getLast?_concat]
  dsimp only
  rw [if_neg hnot, if_neg hnot, if_pos hneg, if_pos hneg, List.dropLast_concat]
  by_cases hlast : last &&& 0x80 = 0
  · refine ⟨init, last, ?_, (and_0x80_eq_zero_iff last).mp hlast, ?_⟩
    · rw [if_neg (not_not.mpr hlast)]
    · rw [if_neg (not_not.mpr hlast)]
  · -- the sign has a byte of its own
    refine ⟨init ++ [last], 0, ?_, by decide, ?_⟩
    · rw [if_pos hlast]
    · rw [if_pos hlast]
      rfl

/-- The bytes that a number needs have room for its sign. -/
lemma lt_half_scriptNumSize {n : Nat} (hpos : 0 < n) : n < 256 ^ scriptNumSize n / 2 := by
  have hle : 2 * n + 1 ≤ 256 ^ scriptNumSize n := Nat.le_pow_clog (by decide) _
  obtain ⟨k, hk⟩ : ∃ k, scriptNumSize n = k + 1 := ⟨_, clog_succ_of_pos (by omega)⟩
  rw [hk, Nat.pow_succ] at hle
  rw [hk, pow_succ_div_two]
  omega

/-- `ScriptNum::encode` has as many bytes as the absolute value needs, with the sign bit. -/
lemma scriptNumEncode_spec {v : Int} (hv : v.natAbs < 256 ^ 8) :
    (scriptNumEncode v).length = scriptNumSize v.natAbs ∧
      ofLeBytes (scriptNumEncode v) = bits (256 ^ scriptNumSize v.natAbs / 2) v := by
  have hnat := scriptNumEncode_natCast hv
  have hfits : v.natAbs < 256 ^ scriptNumSize v.natAbs := by
    have hle := Nat.le_pow_clog (by decide : 1 < 256) (2 * v.natAbs + 1)
    rw [scriptNumSize]
    omega
  have hvalue := ofLeBytes_leBytes _ _ hfits
  by_cases hneg : v < 0
  · obtain ⟨init, last, hinit, hlast, hencode⟩ := scriptNumEncode_neg (n := v.natAbs) (by omega)
    have hsize : scriptNumSize v.natAbs = init.length + 1 := by
      have hlen := congrArg List.length (hnat.symm.trans hinit)
      simpa using hlen
    have hsame : v = -(v.natAbs : Int) := by omega
    rw [← hnat, hinit, ofLeBytes_concat] at hvalue
    rw [hsize, pow_succ_div_two, bits, if_pos hneg, ← hvalue, hsame, hencode, ofLeBytes_concat,
      toNat_or_0x80 hlast, Nat.mul_add, Nat.add_assoc, Nat.mul_comm _ 128]
    exact ⟨by simp, rfl⟩
  · have hsame : v = (v.natAbs : Int) := by omega
    rw [bits, if_neg hneg]
    rw [← hsame] at hnat
    rw [hnat]
    exact ⟨length_leBytes _ _, hvalue⟩

/-- Encoding what is read gives the same bytes if they are as many as needed. -/
lemma scriptNumEncode_value_iff {data : List UInt8} (hlen : data.length ≤ 8) :
    data = scriptNumEncode (value (256 ^ data.length / 2) (ofLeBytes data)) ↔
      scriptNumSize (value (256 ^ data.length / 2) (ofLeBytes data)).natAbs = data.length := by
  obtain rfl | ⟨init, last, rfl⟩ := List.eq_nil_or_concat' data
  · decide
  have hlt := ofLeBytes_concat_lt init last
  have hpow : 256 ^ (init.length + 1) ≤ 256 ^ 8 :=
    Nat.pow_le_pow_right (by decide) (by simpa using hlen)
  have hsucc : 256 ^ (init.length + 1) = 256 ^ init.length * 256 := Nat.pow_succ ..
  rw [List.length_append, List.length_singleton, pow_succ_div_two]
  have habs := natAbs_value_lt hlt
  obtain ⟨hlength, hbytes⟩ := scriptNumEncode_spec
    (v := value (128 * 256 ^ init.length) (ofLeBytes (init ++ [last]))) (by omega)
  constructor
  · intro h
    rw [← hlength, ← h]
    simp
  · intro hsize
    rw [hsize, pow_succ_div_two, bits_value] at hbytes
    · rw [hsize] at hlength
      rw [← leBytes_ofLeBytes (scriptNumEncode _), hlength, hbytes]
      have hself := leBytes_ofLeBytes (init ++ [last])
      rw [List.length_append, List.length_singleton] at hself
      exact hself.symm
    · -- the negative zero has no bytes when it is written anew
      intro hzero
      rw [value_eq_zero_iff.mpr (.inr hzero)] at hsize
      simp [scriptNumSize] at hsize

/-! ### Minimal encodings -/

/-- The absolute value is what is left without the highest bit. -/
lemma natAbs_value_concat (init : List UInt8) (last : UInt8) :
    (value (128 * 256 ^ init.length) (ofLeBytes (init ++ [last]))).natAbs =
      ofLeBytes init + 256 ^ init.length * (last.toNat % 128) := by
  have hsign := ofLeBytes_concat_lt_iff init last
  have hbyte := last.toNat_lt
  rw [value]
  split_ifs with h
  · rw [Int.natAbs_natCast, ofLeBytes_concat, Nat.mod_eq_of_lt (hsign.mp h)]
  · have hlast : last.toNat = 128 + last.toNat % 128 := by omega
    rw [Int.natAbs_neg, Int.natAbs_natCast, ofLeBytes_concat, hlast, Nat.mul_add,
      Nat.mul_comm _ 128, Nat.add_left_comm, Nat.add_sub_cancel_left]
    congr 2
    omega

/-- As many bytes as there are are needed when the bit below those of the last byte is set. -/
lemma scriptNumSize_eq_succ_iff {n k : Nat} (h : n < 128 * 256 ^ k) :
    scriptNumSize n = k + 1 ↔ 256 ^ k ≤ 2 * n := by
  have hpow : 256 ^ (k + 1) = 256 ^ k * 256 := Nat.pow_succ ..
  have hle : scriptNumSize n ≤ k + 1 := Nat.clog_le_of_le_pow (by omega)
  have hlt : k < scriptNumSize n ↔ 256 ^ k < 2 * n + 1 := Nat.lt_clog_iff_pow_lt (by decide)
  omega

/-- `is_minimally_encoded` says whether fewer bytes are enough for the number. -/
lemma isMinimallyEncoded_eq (data : List UInt8) : isMinimallyEncoded data =
    .ok (decide (scriptNumSize (value (256 ^ data.length / 2) (ofLeBytes data)).natAbs =
      data.length)) := by
  obtain rfl | ⟨init, last, rfl⟩ := List.eq_nil_or_concat' data
  · rfl
  have hlt := ofLeBytes_concat_lt init last
  have hsize := scriptNumSize_eq_succ_iff (natAbs_value_lt hlt)
  rw [natAbs_value_concat] at hsize
  rw [isMinimallyEncoded, List.getLast?_concat, List.length_append, List.length_singleton,
    pow_succ_div_two]
  dsimp only
  simp only [natAbs_value_concat, hsize, and_0x7f_eq_zero_iff]
  by_cases hlast : last.toNat % 128 = 0
  · rw [if_pos hlast, hlast, Nat.mul_zero, Nat.add_zero]
    obtain rfl | ⟨below, byte, rfl⟩ := List.eq_nil_or_concat' init
    · rfl
    · have hindex : (index (below ++ [byte] ++ [last]) below.length : Outcome ScriptError UInt8) =
          .ok byte := by
        simp [index, unwrap]
      have hsub : (sub ((below ++ [byte]).length + 1) 2 : Outcome ScriptError Nat) =
          .ok below.length := by
        simp [sub]
      have hbyte := ofLeBytes_concat_lt_iff below byte
      have hpow : 256 ^ (below.length + 1) = 256 ^ below.length * 256 := Nat.pow_succ ..
      rw [if_pos (by simp), hsub, Result.ok_bind, hindex, Result.ok_bind, List.length_append,
        List.length_singleton]
      refine congrArg Except.ok (decide_eq_decide.mpr ?_)
      rw [ne_eq, and_0x80_eq_zero_iff, ← hbyte]
      omega
  · have hmul := Nat.mul_le_mul_left (256 ^ init.length) (Nat.pos_of_ne_zero hlast)
    rw [if_neg hlast]
    exact congrArg Except.ok (decide_eq_true (by omega)).symm

/-! ### Truth -/

lemma castToBool_cons {byte : UInt8} {bytes : List UInt8} (h : bytes ≠ []) :
    castToBool (byte :: bytes) = if byte ≠ 0 then true else castToBool bytes := by
  cases bytes with
  | nil => exact absurd rfl h
  | cons => rfl

lemma castToBool_concat (init : List UInt8) (last : UInt8) :
    castToBool (init ++ [last]) =
      decide (ofLeBytes init + 256 ^ init.length * (last.toNat % 128) ≠ 0) := by
  have hbyte := last.toNat_lt
  induction init with
  | nil =>
    have hzero : last = 0 ↔ last.toNat = 0 := UInt8.toNat_inj.symm
    have hsign : last = 0x80 ↔ last.toNat = 128 := UInt8.toNat_inj.symm
    rw [Bool.eq_iff_iff]
    simp only [castToBool, List.nil_append, ofLeBytes, List.length_nil, Nat.pow_zero, Nat.one_mul,
      Nat.zero_add, Bool.and_eq_true, decide_eq_true_eq, ne_eq, hzero, hsign]
    omega
  | cons byte init ih =>
    have hzero : byte = 0 ↔ byte.toNat = 0 := UInt8.toNat_inj.symm
    rw [List.cons_append, castToBool_cons (by simp), ih, ofLeBytes, List.length_cons, Nat.pow_succ',
      Nat.mul_assoc, Nat.add_assoc, ← Nat.mul_add]
    by_cases h : byte = 0
    · rw [if_neg (not_not.mpr h), hzero.mp h]
      exact decide_eq_decide.mpr (by omega)
    · rw [if_pos h]
      exact (decide_eq_true (by rw [hzero] at h; omega)).symm

/-- `cast_to_bool` says whether the number is zero, with either sign. -/
lemma castToBool_eq (data : List UInt8) : castToBool data =
    decide (value (256 ^ data.length / 2) (ofLeBytes data) ≠ 0) := by
  obtain rfl | ⟨init, last, rfl⟩ := List.eq_nil_or_concat' data
  · rfl
  rw [castToBool_concat, List.length_append, List.length_singleton, pow_succ_div_two,
    ← natAbs_value_concat]
  exact decide_eq_decide.mpr (not_congr Int.natAbs_eq_zero)

/-- Script numbers are read back from their encodings; of at most eight bytes, those that are
minimal are the encodings of what is read from them, and those that are true are not zero. -/
theorem scriptNum_spec {v : Int} {maxSize : Nat} {data : List UInt8} (hlow : -2 ^ 63 < v)
    (hhigh : v < 2 ^ 63) (hmax : (scriptNumEncode v).length ≤ maxSize) (hlen : data.length ≤ 8) :
    scriptNumDecode (scriptNumEncode v) true maxSize = .ok v ∧
      ∃ value minimal, -2 ^ 63 < value ∧ value < 2 ^ 63 ∧ decodeUnchecked data = .ok value ∧
        (∀ maxSize, data.length ≤ maxSize → scriptNumDecode data false maxSize = .ok value) ∧
        isMinimallyEncoded data = .ok minimal ∧
        (minimal = true ↔ data = scriptNumEncode value) ∧
        (castToBool data = true ↔ value ≠ 0) := by
  -- eight bytes have room for every absolute value below 2^63
  have hsize : ∀ {n : Nat}, n < 2 ^ 63 → scriptNumSize n ≤ 8 := by
    intro n hn
    exact Nat.clog_le_of_le_pow (by omega)
  constructor
  · have hn : v.natAbs < 2 ^ 63 := by omega
    obtain ⟨hlength, hbytes⟩ := scriptNumEncode_spec (v := v) (by omega)
    have hself :
        value (256 ^ (scriptNumEncode v).length / 2) (ofLeBytes (scriptNumEncode v)) = v := by
      by_cases hzero : v = 0
      · subst hzero
        rfl
      · rw [hlength, hbytes, value_bits (lt_half_scriptNumSize (by omega))]
    have hminimal : isMinimallyEncoded (scriptNumEncode v) = .ok true := by
      rw [isMinimallyEncoded_eq, hself, hlength, decide_eq_true rfl]
    have hdecode := decodeUnchecked_eq (hlength.trans_le (hsize hn))
    rw [scriptNumDecode, rejectIf, if_neg (by omega), Result.ok_bind, hminimal, hdecode, hself]
    rfl
  · have hiff := scriptNumEncode_value_iff hlen
    have hdecode := decodeUnchecked_eq hlen
    have habs : (value (256 ^ data.length / 2) (ofLeBytes data)).natAbs < 2 ^ 63 := by
      obtain rfl | ⟨init, last, rfl⟩ := List.eq_nil_or_concat' data
      · decide
      · have hpow : 256 ^ (init ++ [last]).length ≤ 256 ^ 8 := Nat.pow_le_pow_right (by decide) hlen
        have habs := natAbs_value_lt (ofLeBytes_concat_lt init last)
        rw [List.length_append, List.length_singleton] at hpow ⊢
        rw [pow_succ_div_two]
        omega
    refine ⟨_, _, by omega, by omega, hdecode, ?_, isMinimallyEncoded_eq data, ?_, ?_⟩
    · intro maxSize hmax
      rw [scriptNumDecode, rejectIf, if_neg (by omega), Result.ok_bind, hdecode]
      rfl
    · rw [decide_eq_true_eq, hiff]
    · rw [castToBool_eq, decide_eq_true_eq]

namespace Sample

/-- The smallest number is read back from eight bytes; the negative zero of two bytes is false. -/
theorem scriptNum_min_negativeZero :
    scriptNumDecode (scriptNumEncode (-2 ^ 63 + 1)) true 8 = .ok (-2 ^ 63 + 1) ∧
      (∃ minimal, isMinimallyEncoded [0x00, 0x80] = .ok minimal ∧
        (minimal = true ↔ ([0x00, 0x80] : List UInt8) = scriptNumEncode 0)) ∧
      (castToBool [0x00, 0x80] = true ↔ (0 : Int) ≠ 0) := by
  obtain ⟨hself, value, minimal, -, -, hdecode, -, hminimal, hiff, hbool⟩ :=
    @scriptNum_spec (-2 ^ 63 + 1) 8 [0x00, 0x80] (by decide) (by decide) (by decide +kernel)
      (by decide)
  have hzero : decodeUnchecked [0x00, 0x80] = .ok 0 := by decide +kernel
  obtain rfl : 0 = value := Except.ok.inj (hzero.symm.trans hdecode)
  exact ⟨hself, ⟨minimal, hminimal, hiff⟩, hbool⟩

end Sample

end Bitcrab
