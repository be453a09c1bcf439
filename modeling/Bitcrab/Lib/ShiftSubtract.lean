import Mathlib.Tactic.Ring

/-!
# Shift-subtract division

Long division in base two: the bits of the numerator enter the remainder from the most significant
one on, and the divisor is subtracted where it fits.
-/

namespace ShiftSubtract

/-- One round, for bit `i` of the numerator, on a quotient and a remainder. -/
def round (n d i : ℕ) (s : ℕ × ℕ) : ℕ × ℕ :=
  if d ≤ 2 * s.2 + n / 2 ^ i % 2 then (s.1 + 2 ^ i, 2 * s.2 + n / 2 ^ i % 2 - d)
  else (s.1, 2 * s.2 + n / 2 ^ i % 2)

/-- The quotient and the remainder when the bits from `i` on have entered. -/
def partialQuotient (n d i : ℕ) : ℕ × ℕ := (n / 2 ^ i / d * 2 ^ i, n / 2 ^ i % d)

variable {n d i : ℕ}

lemma partialQuotient_zero : partialQuotient n d 0 = (n / d, n % d) := by
  simp [partialQuotient]

/-- Nothing has entered. -/
lemma partialQuotient_of_lt (h : n < 2 ^ i) : partialQuotient n d i = (0, 0) := by
  simp [partialQuotient, Nat.div_eq_of_lt h]

/-- The remainder has room for one more bit. -/
lemma partialQuotient_snd_le : 2 * (partialQuotient n d (i + 1)).2 + n / 2 ^ i % 2 ≤ n := by
  have hle : n / 2 ^ i / 2 % d ≤ n / 2 ^ i / 2 := Nat.mod_le _ _
  have hdiv : n / 2 ^ i ≤ n := Nat.div_le_self _ _
  rw [partialQuotient, pow_succ, ← Nat.div_div_eq_div_mul]
  dsimp only
  omega

/-- A round keeps quotient and remainder right. -/
theorem round_partialQuotient (hd : 0 < d) :
    round n d i (partialQuotient n d (i + 1)) = partialQuotient n d i := by
  rw [round, partialQuotient, partialQuotient, pow_succ, ← Nat.div_div_eq_div_mul]
  dsimp only
  generalize n / 2 ^ i = m
  have hlt : m / 2 % d < d := Nat.mod_lt _ hd
  have hm : m = 2 * (m / 2 % d) + m % 2 + d * (2 * (m / 2 / d)) := by
    calc m = 2 * (m / 2) + m % 2 := by omega
      _ = 2 * (m / 2 % d + d * (m / 2 / d)) + m % 2 := by rw [Nat.mod_add_div]
      _ = _ := by ring
  generalize hr : 2 * (m / 2 % d) + m % 2 = r at hm
  have hquotient : m / d = r / d + 2 * (m / 2 / d) := by
    rw [hm, Nat.add_mul_div_left _ _ hd, ← hm]
  have hremainder : m % d = r % d := by
    rw [hm, Nat.add_mul_mod_self_left]
  rw [hquotient, hremainder]
  have htwo : r < d + d := by omega
  split_ifs with hle
  · obtain ⟨rest, rfl⟩ := Nat.exists_eq_add_of_le hle
    have hrest : rest < d := by omega
    rw [Nat.add_div_left _ hd, Nat.add_mod_left, Nat.div_eq_of_lt hrest, Nat.mod_eq_of_lt hrest,
      Nat.add_sub_cancel_left]
    congr 1
    ring
  · have hsmall : r < d := by omega
    rw [Nat.div_eq_of_lt hsmall, Nat.mod_eq_of_lt hsmall]
    congr 1
    ring

end ShiftSubtract
