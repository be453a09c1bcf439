import Mathlib.Data.Nat.Bitwise
import Mathlib.Tactic.SplitIfs

/-!
# Signed numbers with a sign bit

Of the natural numbers below `2 * h` the lower half are the integers that are not negative, and the
upper half the negative ones, by their absolute value. Zero is in both halves.
-/

namespace SignMagnitude

variable {h x : ℕ} {v : ℤ}

/-- The integer that a number stands for, when numbers from `h` on have the sign. -/
def value (h x : ℕ) : ℤ := if x < h then x else -(x - h : ℕ)

/-- The number that stands for an integer. -/
def bits (h : ℕ) (v : ℤ) : ℕ := if v < 0 then v.natAbs + h else v.natAbs

lemma natAbs_value_lt (hx : x < 2 * h) : (value h x).natAbs < h := by
  unfold value
  split_ifs <;> omega

theorem value_bits (hv : v.natAbs < h) : value h (bits h v) = v := by
  unfold value bits
  split_ifs <;> omega

/-- Only the negative zero is not the number of its integer. -/
theorem bits_value (hx : x ≠ h) : bits h (value h x) = x := by
  unfold value bits
  split_ifs <;> omega

lemma value_eq_zero_iff : value h x = 0 ↔ x = 0 ∨ x = h := by
  unfold value
  split_ifs <;> omega

/-- The sign bit is cleared by a mask. -/
lemma and_compl_two_pow {w k low : ℕ} (hk : k < w) (hlow : low < 2 ^ k) :
    (2 ^ k + low) &&& (2 ^ w - 1 - 2 ^ k) = low := by
  have hpow : 2 ^ k < 2 ^ w := Nat.pow_lt_pow_right (by decide) hk
  have hmask : 2 ^ w - 1 - 2 ^ k = 2 ^ w - (2 ^ k + 1) := by omega
  have hor : 2 ^ k + low = 2 ^ k ||| low := by
    have hadd := Nat.two_pow_add_eq_or_of_lt hlow 1
    rwa [Nat.mul_one] at hadd
  apply Nat.eq_of_testBit_eq
  intro i
  rw [hmask, hor, Nat.testBit_and, Nat.testBit_or, Nat.testBit_two_pow_sub_succ hpow,
    Nat.testBit_two_pow]
  by_cases hi : k = i
  · subst hi
    rw [Nat.testBit_lt_two_pow hlow]
    simp
  · by_cases hw : i < w
    · simp [hi, hw]
    · have hhigh : low < 2 ^ i := hlow.trans_le (Nat.pow_le_pow_right (by decide) (by omega))
      rw [Nat.testBit_lt_two_pow hhigh]
      simp [hi, hw]

end SignMagnitude
