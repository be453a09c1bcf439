import Mathlib.Data.Nat.Digits.Lemmas
import Mathlib.Tactic.Ring

/-!
# Arithmetic limb by limb

A number on a fixed number of limbs in base `b` is multiplied by a number from its least significant
limb on, with a carry, and divided by a number from its most significant limb on, with a remainder.
-/

namespace Limbs

variable {b : ℕ}

/-- The limbs of a product, least significant first. -/
def mul (b m : ℕ) : List ℕ → ℕ → List ℕ
  | [], _ => []
  | x :: xs, carry => (x * m + carry) % b :: mul b m xs ((x * m + carry) / b)

/-- The limbs of a quotient, most significant first, each cut to its width. -/
def div (b d : ℕ) : List ℕ → ℕ → List ℕ
  | [], _ => []
  | x :: xs, remainder => (x + remainder * b) / d % b :: div b d xs ((x + remainder * b) % d)

@[simp] lemma length_mul (m : ℕ) (xs : List ℕ) (carry : ℕ) :
    (mul b m xs carry).length = xs.length := by
  induction xs generalizing carry with
  | nil => rfl
  | cons x xs ih => simp [mul, ih]

@[simp] lemma length_div (d : ℕ) (xs : List ℕ) (remainder : ℕ) :
    (div b d xs remainder).length = xs.length := by
  induction xs generalizing remainder with
  | nil => rfl
  | cons x xs ih => simp [div, ih]

lemma lt_of_mem_mul (hb : 0 < b) {m carry : ℕ} {xs : List ℕ} :
    ∀ x ∈ mul b m xs carry, x < b := by
  induction xs generalizing carry with
  | nil => simp [mul]
  | cons x xs ih =>
    rw [mul]
    exact List.forall_mem_cons.mpr ⟨Nat.mod_lt _ hb, ih⟩

lemma lt_of_mem_div (hb : 0 < b) {d remainder : ℕ} {xs : List ℕ} :
    ∀ x ∈ div b d xs remainder, x < b := by
  induction xs generalizing remainder with
  | nil => simp [div]
  | cons x xs ih =>
    rw [div]
    exact List.forall_mem_cons.mpr ⟨Nat.mod_lt _ hb, ih⟩

/-- The product, up to what does not fit. -/
theorem ofDigits_mul (hb : 0 < b) (m : ℕ) (xs : List ℕ) (carry : ℕ) :
    Nat.ofDigits b (mul b m xs carry) = (Nat.ofDigits b xs * m + carry) % b ^ xs.length := by
  induction xs generalizing carry with
  | nil => simp [mul, Nat.mod_one]
  | cons x xs ih =>
    have hlow := Nat.mod_add_div (x * m + carry) b
    generalize hval : x * m + carry = val at hlow
    have hsum : (x + b * Nat.ofDigits b xs) * m + carry =
        val % b + b * (Nat.ofDigits b xs * m + val / b) := by
      calc (x + b * Nat.ofDigits b xs) * m + carry
          = val + b * (Nat.ofDigits b xs * m) := by rw [← hval]; ring
        _ = val % b + b * (val / b) + b * (Nat.ofDigits b xs * m) := by rw [hlow]
        _ = val % b + b * (Nat.ofDigits b xs * m + val / b) := by ring
    rw [mul, Nat.ofDigits_cons, Nat.ofDigits_cons, ih, hval, List.length_cons, pow_succ', hsum,
      Nat.mod_mul, Nat.add_mul_mod_self_left, Nat.mod_mod, Nat.add_mul_div_left _ _ hb,
      Nat.div_eq_of_lt (Nat.mod_lt val hb), zero_add]

/-- The quotient. -/
theorem ofDigits_div {d : ℕ} (hd : 0 < d) {xs : List ℕ} (hxs : ∀ x ∈ xs, x < b)
    {remainder : ℕ} (hr : remainder < d) :
    Nat.ofDigits b (div b d xs remainder).reverse =
      (Nat.ofDigits b xs.reverse + remainder * b ^ xs.length) / d := by
  induction xs generalizing remainder with
  | nil => simp [div, Nat.div_eq_of_lt hr]
  | cons x xs ih =>
    obtain ⟨hx, hrest⟩ := List.forall_mem_cons.mp hxs
    have hdigit : (x + remainder * b) / d < b := by
      rw [Nat.div_lt_iff_lt_mul hd]
      nlinarith
    have hval := Nat.mod_add_div (x + remainder * b) d
    have hsum : Nat.ofDigits b xs.reverse + b ^ xs.length * x + remainder * b ^ (xs.length + 1) =
        Nat.ofDigits b xs.reverse + (x + remainder * b) * b ^ xs.length := by ring
    have hquotient : Nat.ofDigits b (div b d (x :: xs) remainder).reverse =
        Nat.ofDigits b (div b d xs ((x + remainder * b) % d)).reverse +
          b ^ xs.length * ((x + remainder * b) / d) := by
      rw [div, Nat.mod_eq_of_lt hdigit, List.reverse_cons, Nat.ofDigits_append,
        List.length_reverse, length_div, Nat.ofDigits_singleton]
    generalize x + remainder * b = val at hval hdigit hsum hquotient
    calc Nat.ofDigits b (div b d (x :: xs) remainder).reverse
        = Nat.ofDigits b (div b d xs (val % d)).reverse + b ^ xs.length * (val / d) := hquotient
      _ = (Nat.ofDigits b xs.reverse + val % d * b ^ xs.length) / d +
          b ^ xs.length * (val / d) := by rw [ih hrest (Nat.mod_lt val hd)]
      _ = (Nat.ofDigits b xs.reverse + val % d * b ^ xs.length +
          d * (b ^ xs.length * (val / d))) / d := by rw [Nat.add_mul_div_left _ _ hd]
      _ = (Nat.ofDigits b xs.reverse + (val % d + d * (val / d)) * b ^ xs.length) / d := by ring_nf
      _ = _ := by
        rw [hval, ← hsum, List.reverse_cons, Nat.ofDigits_append, List.length_reverse,
          Nat.ofDigits_singleton, List.length_cons]

/-! ### Cutting a number to fewer limbs -/

section Cut

variable {xs : List ℕ} {k : ℕ}

lemma ofDigits_take_add_drop (hk : k ≤ xs.length) :
    Nat.ofDigits b xs = Nat.ofDigits b (xs.take k) + b ^ k * Nat.ofDigits b (xs.drop k) := by
  conv_lhs => rw [← List.take_append_drop k xs, Nat.ofDigits_append, List.length_take_of_le hk]

/-- A number whose other limbs are zero fits. -/
lemma ofDigits_take_of_forall_eq_zero (hk : k ≤ xs.length) (h : ∀ x ∈ xs.drop k, x = 0) :
    Nat.ofDigits b (xs.take k) = Nat.ofDigits b xs := by
  rw [ofDigits_take_add_drop hk, List.eq_replicate_of_mem h, Nat.ofDigits_replicate_zero,
    mul_zero, add_zero]

/-- A number with another limb that is not zero does not fit. -/
lemma pow_le_ofDigits_of_exists_ne_zero (hb : 0 < b) (hk : k ≤ xs.length)
    (h : ∃ x ∈ xs.drop k, x ≠ 0) : b ^ k ≤ Nat.ofDigits b xs := by
  obtain ⟨x, hx, hne⟩ := h
  have hpos : 0 < Nat.ofDigits b (xs.drop k) := by
    refine Nat.pos_of_ne_zero fun hzero => hne ?_
    exact Nat.digits_zero_of_eq_zero hb.ne' hzero x hx
  rw [ofDigits_take_add_drop hk]
  exact (Nat.le_mul_of_pos_right _ hpos).trans (Nat.le_add_left _ _)

end Cut

end Limbs
