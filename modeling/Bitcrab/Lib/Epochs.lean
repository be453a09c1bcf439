import Mathlib.Algebra.BigOperators.Group.Finset.Basic
import Mathlib.Algebra.Order.BigOperators.Group.Finset

/-!
# Sums over epochs

A quantity that is constant on epochs of the same length, and zero from some epoch on: its sum over
any number of steps is bounded by the sum over the epochs, times their length.
-/

namespace Epochs

open Finset

variable (f : ℕ → ℕ) {len : ℕ}

/-- The sum over whole epochs. -/
lemma sum_range_mul (hlen : 0 < len) (epochs : ℕ) :
    ∑ i ∈ range (epochs * len), f (i / len) = len * ∑ k ∈ range epochs, f k := by
  induction epochs with
  | zero => simp
  | succ epochs ih =>
    have hlast : ∀ i ∈ range len, f ((epochs * len + i) / len) = f epochs := by
      intro i hi
      rw [Nat.mul_comm, Nat.mul_add_div hlen, Nat.div_eq_of_lt (mem_range.mp hi), Nat.add_zero]
    rw [Nat.succ_mul, sum_range_add, ih, sum_const_nat hlast, card_range, sum_range_succ,
      Nat.mul_add]

/-- The sum over the epochs stays the same when it goes beyond the last one that counts. -/
lemma sum_range_of_le {epochs more : ℕ} (hle : epochs ≤ more) (hzero : ∀ k, epochs ≤ k → f k = 0) :
    ∑ k ∈ range more, f k = ∑ k ∈ range epochs, f k := by
  symm
  apply sum_subset (range_subset_range.mpr hle)
  intro k _ hk
  exact hzero k (not_lt.mp fun hlt => hk (mem_range.mpr hlt))

/-- The bound for any number of steps. -/
lemma sum_range_le (hlen : 0 < len) {epochs : ℕ} (hzero : ∀ k, epochs ≤ k → f k = 0) (steps : ℕ) :
    ∑ i ∈ range steps, f (i / len) ≤ len * ∑ k ∈ range epochs, f k := by
  have hsteps : steps ≤ (epochs + steps) * len :=
    (Nat.le_add_left steps epochs).trans (Nat.le_mul_of_pos_right _ hlen)
  calc ∑ i ∈ range steps, f (i / len)
      ≤ ∑ i ∈ range ((epochs + steps) * len), f (i / len) :=
        sum_le_sum_of_subset (range_subset_range.mpr hsteps)
    _ = len * ∑ k ∈ range (epochs + steps), f k := sum_range_mul f hlen _
    _ = len * ∑ k ∈ range epochs, f k := by
        rw [sum_range_of_le f (Nat.le_add_right epochs steps) hzero]

end Epochs
