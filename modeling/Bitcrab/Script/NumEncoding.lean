import Bitcrab.Script.StackOps
import Mathlib.Data.Nat.Bitwise
import Mathlib.Data.Nat.Log

/-!
# Numbers in scripts

A number that is not negative is written with the fewest bytes that have a bit left for the sign.
-/

namespace Bitcrab

open Bytes

/-! ### Bytes of a number -/

lemma clog_succ_of_pos {n : Nat} (hpos : 0 < n) :
    Nat.clog 256 (n + 1) = Nat.clog 256 (n / 256 + 1) + 1 := by
  have hdiv : (n + 1 + 256 - 1) / 256 = n / 256 + 1 := by
    rw [Nat.add_right_comm, Nat.add_sub_cancel, Nat.add_div_right n (by decide)]
  rw [Nat.clog_of_one_lt (by decide) (by omega), hdiv]

/-- The bytes that the loop of the encoder collects are all those of the number. -/
lemma magnitudeBytes_eq {fuel n : Nat} (h : n < 256 ^ fuel) :
    magnitudeBytes fuel n = leBytes (Nat.clog 256 (n + 1)) n := by
  induction fuel generalizing n with
  | zero =>
    obtain rfl : n = 0 := by simpa using h
    simp [magnitudeBytes, leBytes]
  | succ fuel ih =>
    rw [magnitudeBytes]
    by_cases hzero : n = 0
    · simp [hzero, leBytes]
    · have hdiv : n / 256 < 256 ^ fuel := by
        rw [Nat.div_lt_iff_lt_mul (by decide), ← Nat.pow_succ]
        exact h
      rw [if_neg hzero, ih hdiv, clog_succ_of_pos (Nat.pos_of_ne_zero hzero), leBytes]

lemma and_0x80_eq_zero_iff (byte : UInt8) : byte &&& 0x80 = 0 ↔ byte.toNat < 128 := by
  have hlt := byte.toNat_lt
  have hbit : byte.toNat &&& 128 = (byte.toNat.testBit 7).toNat * 128 := Nat.and_two_pow _ 7
  rw [Nat.testBit_eq_decide_div_mod_eq] at hbit
  rw [← UInt8.toNat_inj, UInt8.toNat_and]
  simp only [UInt8.reduceToNat, hbit]
  by_cases hhigh : byte.toNat / 2 ^ 7 % 2 = 1
  · rw [decide_eq_true hhigh, Bool.toNat_true]
    omega
  · rw [decide_eq_false hhigh, Bool.toNat_false]
    omega

/-! ### The number and its sign bit -/

/-- The number of bytes of a number that is not negative, with its sign bit. -/
def scriptNumSize (n : Nat) : Nat := Nat.clog 256 (2 * n + 1)

/-- One byte more than those of the number is needed when its highest bit is taken. -/
lemma scriptNumSize_eq {k n : Nat} (hlow : 256 ^ k ≤ n) (hhigh : n < 256 ^ (k + 1)) :
    scriptNumSize n = if n / 256 ^ k < 128 then k + 1 else k + 2 := by
  have hpow : 256 ^ (k + 1) = 256 ^ k * 256 := Nat.pow_succ ..
  have hpow' : 256 ^ (k + 2) = 256 ^ (k + 1) * 256 := Nat.pow_succ ..
  have hiff : n / 256 ^ k < 128 ↔ n < 128 * 256 ^ k := Nat.div_lt_iff_lt_mul (by positivity)
  rw [scriptNumSize]
  split_ifs with h
  · rw [hiff] at h
    refine le_antisymm (Nat.clog_le_of_le_pow (by omega)) ?_
    exact (Nat.lt_clog_iff_pow_lt (by decide)).mpr (by omega)
  · rw [hiff] at h
    refine le_antisymm (Nat.clog_le_of_le_pow (by omega)) ?_
    exact (Nat.lt_clog_iff_pow_lt (by decide)).mpr (by omega)

/-- `ScriptNum::encode` of a number that is not negative is minimal. -/
theorem scriptNumEncode_natCast {n : Nat} (h : n < 256 ^ 8) :
    scriptNumEncode n = leBytes (scriptNumSize n) n := by
  rw [scriptNumEncode, Int.natAbs_natCast, magnitudeBytes_eq h]
  by_cases hzero : n = 0
  · subst hzero
    simp [scriptNumSize, leBytes]
  obtain ⟨k, hk⟩ : ∃ k, Nat.clog 256 (n + 1) = k + 1 := ⟨_, clog_succ_of_pos (by omega)⟩
  have hhigh : n < 256 ^ (k + 1) := by
    have hle := Nat.le_pow_clog (by decide : 1 < 256) (n + 1)
    rw [hk] at hle
    omega
  have hlow : 256 ^ k ≤ n := by
    have := (Nat.lt_clog_iff_pow_lt (by decide : 1 < 256)).mp (by omega : k < Nat.clog 256 (n + 1))
    omega
  have hbyte : n / 256 ^ k < 256 := by
    rw [Nat.div_lt_iff_lt_mul (by positivity), ← Nat.pow_succ']
    exact hhigh
  have hsign : UInt8.ofNat (n / 256 ^ k) &&& 0x80 ≠ 0 ↔ ¬ n / 256 ^ k < 128 := by
    have hlast : (UInt8.ofNat (n / 256 ^ k)).toNat = n / 256 ^ k := UInt8.toNat_ofNat_of_lt hbyte
    rw [ne_eq, and_0x80_eq_zero_iff, hlast]
  rw [hk, leBytes_succ, List.getLast?_concat, scriptNumSize_eq hlow hhigh]
  dsimp only
  by_cases hsmall : n / 256 ^ k < 128
  · rw [if_neg (not_not.mpr hsmall ∘ hsign.mp), if_neg (by omega), if_pos hsmall, leBytes_succ]
  · rw [if_pos (hsign.mpr hsmall), if_neg (by omega), if_neg hsmall, leBytes_succ, leBytes_succ,
      Nat.div_eq_of_lt hhigh]
    rfl

/-- A short push has its length before it. -/
lemma pushData_of_length_lt {data : List UInt8} (h : data.length < 0x4c) :
    pushData data = UInt8.ofNat data.length :: data := by
  rw [pushData, if_pos h, List.singleton_append]

end Bitcrab
