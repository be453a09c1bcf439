import Mathlib.Data.Nat.Log
import Mathlib.Tactic.Ring

/-!
# Truncation to a mantissa and an exponent

The numbers `m * B ^ k` whose mantissa is below a bound `M` are a grid that gets coarser with size.
Dropping the low digits of a number, as few as make the rest a mantissa, rounds it down to the
grid: the result is the greatest number of the grid that is not above it. Rounding down is monotone.
-/

namespace Truncation

variable {B M n r k : ℕ}

/-- The number is a mantissa below `M`, scaled by a power of `B`. -/
def Representable (B M n : ℕ) : Prop := ∃ m k, m < M ∧ n = m * B ^ k

/-- The number of low digits to drop: as few as leave a mantissa. -/
def shift (B M n : ℕ) : ℕ := Nat.clog B (n / M + 1)

/-- What is left of the number. -/
def mantissa (B M n : ℕ) : ℕ := n / B ^ shift B M n

/-- The number with its low digits zeroed. -/
def trunc (B M n : ℕ) : ℕ := mantissa B M n * B ^ shift B M n

/-! ### How many digits are dropped -/

section Shift

variable (hB : 1 < B) (hM : 0 < M)

include hB hM

/-- A number of digits is enough when it leaves a mantissa. -/
lemma shift_le_iff : shift B M n ≤ k ↔ n < M * B ^ k := by
  rw [shift, Nat.clog_le_iff_le_pow hB, Nat.succ_le_iff, Nat.div_lt_iff_lt_mul hM, mul_comm]

lemma lt_mul_pow_shift (n : ℕ) : n < M * B ^ shift B M n := (shift_le_iff hB hM).mp le_rfl

lemma mantissa_lt (n : ℕ) : mantissa B M n < M := by
  rw [mantissa, Nat.div_lt_iff_lt_mul (Nat.pow_pos (by omega))]
  exact lt_mul_pow_shift hB hM n

/-- The number of digits to drop is the only one that is enough and not too many. -/
lemma shift_eq_iff : shift B M n = k ↔ n < M * B ^ k ∧ (k = 0 ∨ M * B ^ (k - 1) ≤ n) := by
  constructor
  · rintro rfl
    refine ⟨lt_mul_pow_shift hB hM n, ?_⟩
    by_contra h
    push Not at h
    have hle := (shift_le_iff hB hM).mpr h.2
    omega
  · rintro ⟨hlt, hmin⟩
    apply le_antisymm ((shift_le_iff hB hM).mpr hlt)
    by_contra h
    have hle := (shift_le_iff hB hM (n := n) (k := k - 1)).mp (by omega)
    omega

end Shift

/-! ### Rounding down -/

lemma trunc_le (B M n : ℕ) : trunc B M n ≤ n := Nat.div_mul_le_self n _

section Trunc

variable (hB : 1 < B) (hM : 0 < M) (hdvd : B ∣ M)

include hB hM

lemma representable_trunc (n : ℕ) : Representable B M (trunc B M n) :=
  ⟨mantissa B M n, shift B M n, mantissa_lt hB hM n, rfl⟩

include hdvd

/-- A number of the grid stays below what is left of a greater one. -/
lemma le_trunc (hr : Representable B M r) (h : r ≤ n) : r ≤ trunc B M n := by
  obtain ⟨m, j, hm, rfl⟩ := hr
  rw [trunc, mantissa]
  generalize hk : shift B M n = k
  obtain ⟨hlt, hmin⟩ := (shift_eq_iff hB hM).mp hk
  have hpos : 0 < B ^ k := Nat.pow_pos (by omega)
  -- what is left is the greatest multiple of the scale that is not above the number
  have hmultiple : ∀ c, c * B ^ k ≤ n → c * B ^ k ≤ n / B ^ k * B ^ k := fun c hc =>
    Nat.mul_le_mul_right _ ((Nat.le_div_iff_mul_le hpos).mpr hc)
  obtain hle | hlt' := le_or_gt k j
  · obtain ⟨i, rfl⟩ := Nat.exists_eq_add_of_le hle
    have hscale : m * B ^ (k + i) = m * B ^ i * B ^ k := by ring
    rw [hscale] at h ⊢
    exact hmultiple _ h
  · obtain ⟨i, rfl⟩ := Nat.exists_eq_add_of_lt hlt'
    have hbound : M * B ^ (j + i) ≤ n := by simpa using hmin
    obtain ⟨c, rfl⟩ := hdvd
    have hscale : B * c * B ^ (j + i) = c * B ^ (j + i + 1) := by ring
    have hsmall : m * B ^ j ≤ B * c * B ^ (j + i) :=
      Nat.mul_le_mul hm.le (Nat.pow_le_pow_right (by omega) (by omega))
    rw [hscale] at hbound hsmall
    exact hsmall.trans (hmultiple c hbound)

lemma trunc_mono : Monotone (trunc B M) := fun _ _ h =>
  le_trunc hB hM hdvd (representable_trunc hB hM _) ((trunc_le B M _).trans h)

/-- As many digits are dropped from what is left as from the number. -/
lemma shift_trunc (n : ℕ) : shift B M (trunc B M n) = shift B M n := by
  generalize hk : shift B M n = k
  obtain ⟨hlt, hmin⟩ := (shift_eq_iff hB hM).mp hk
  refine (shift_eq_iff hB hM).mpr ⟨(trunc_le B M n).trans_lt hlt, ?_⟩
  cases k with
  | zero => exact .inl rfl
  | succ k =>
    have hbound : M * B ^ k ≤ n := by simpa using hmin
    obtain ⟨c, rfl⟩ := hdvd
    have hc : c < B * c := lt_mul_of_one_lt_left (Nat.pos_of_mul_pos_left hM) hB
    have hgrid : Representable B (B * c) (B * c * B ^ k) := ⟨c, k + 1, hc, by ring⟩
    exact .inr (le_trunc hB hM ⟨c, rfl⟩ hgrid hbound)

lemma mantissa_trunc (n : ℕ) : mantissa B M (trunc B M n) = mantissa B M n := by
  rw [mantissa, shift_trunc hB hM hdvd, trunc, Nat.mul_div_cancel _ (Nat.pow_pos (by omega))]

end Trunc

end Truncation
