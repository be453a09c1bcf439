import Bitcrab.Lib.Bytes
import Mathlib.Data.Nat.Log

/-!
# Integers in DER

An integer that is not negative is written most significant byte first, with the fewest bytes whose
highest bit, the sign, is not set. Zero has one byte.
-/

namespace Bytes

lemma ofBeBytes_cons (first : UInt8) (rest : List UInt8) :
    ofBeBytes (first :: rest) = ofBeBytes rest + 256 ^ rest.length * first.toNat := by
  rw [ofBeBytes, List.reverse_cons, ofLeBytes_concat, List.length_reverse, ofBeBytes]

lemma ofBeBytes_lt (bs : List UInt8) : ofBeBytes bs < 256 ^ bs.length := by
  have hlt := ofLeBytes_lt bs.reverse
  rwa [List.length_reverse] at hlt

lemma ofBeBytes_injective {as bs : List UInt8} (hlen : as.length = bs.length)
    (h : ofBeBytes as = ofBeBytes bs) : as = bs :=
  List.reverse_inj.mp (ofLeBytes_injective (by simpa using hlen) h)

lemma ofBeBytes_replicate_zero_append (n : ℕ) (bs : List UInt8) :
    ofBeBytes (List.replicate n 0 ++ bs) = ofBeBytes bs := by
  rw [ofBeBytes, List.reverse_append, List.reverse_replicate, ofLeBytes_append,
    ofLeBytes_replicate_zero, Nat.mul_zero, Nat.add_zero, ofBeBytes]

end Bytes

namespace Der

open Bytes

variable {bytes : List UInt8} {n k : ℕ}

/-- The bytes of an integer that is not negative, and no more of them than it needs. -/
structure IsInteger (bytes : List UInt8) : Prop where
  ne_nil : bytes ≠ []
  nonneg : ∀ first rest, bytes = first :: rest → first.toNat < 128
  minimal : ∀ second rest, bytes = 0 :: second :: rest → 128 ≤ second.toNat

lemma not_isInteger_nil : ¬IsInteger [] := fun h => h.ne_nil rfl

lemma isInteger_cons {first : UInt8} {rest : List UInt8} : IsInteger (first :: rest) ↔
    first.toNat < 128 ∧ ∀ second rest', first = 0 → rest = second :: rest' →
      128 ≤ second.toNat := by
  constructor
  · intro h
    refine ⟨h.nonneg first rest rfl, ?_⟩
    rintro second rest' rfl rfl
    exact h.minimal second rest' rfl
  · rintro ⟨hfirst, hsecond⟩
    refine ⟨List.cons_ne_nil _ _, ?_, ?_⟩
    · intro first' rest' heq
      obtain ⟨rfl, -⟩ := List.cons.inj heq
      exact hfirst
    · intro second rest' heq
      obtain ⟨hzero, hrest⟩ := List.cons.inj heq
      exact hsecond second rest' hzero hrest

/-- The number of bytes that an integer needs. -/
def size (n : ℕ) : ℕ := Nat.log 256 (2 * n) + 1

/-- The bytes of an integer. -/
def integer (n : ℕ) : List UInt8 := beBytes (size n) n

lemma size_eq_succ_iff : size n = k + 1 ↔ n < 128 * 256 ^ k ∧ (k = 0 ∨ 256 ^ k ≤ 2 * n) := by
  have hsucc : 256 ^ (k + 1) = 256 ^ k * 256 := Nat.pow_succ ..
  rw [size, Nat.succ_inj]
  cases k with
  | zero =>
    rw [Nat.log_eq_zero_iff]
    omega
  | succ k =>
    rw [Nat.log_eq_iff (.inl (Nat.succ_ne_zero k))]
    omega

lemma size_le (h : n < 256 ^ k) : size n ≤ k + 1 := by
  have hlog : Nat.log 256 (2 * n) < k + 1 := by
    refine Nat.log_lt_of_lt_pow' (Nat.succ_ne_zero k) ?_
    rw [Nat.pow_succ]
    omega
  exact hlog

lemma lt_pow_size (n : ℕ) : n < 256 ^ size n := by
  have hlt := Nat.lt_pow_succ_log_self (by decide : 1 < 256) (2 * n)
  rw [size]
  omega

/-- An integer that is not negative has as many bytes as it needs. -/
theorem isInteger_iff : IsInteger bytes ↔ bytes.length = size (ofBeBytes bytes) := by
  cases bytes with
  | nil => exact iff_of_false not_isInteger_nil (Nat.succ_ne_zero _).symm
  | cons first rest =>
    have hsign := ofLeBytes_concat_lt_iff rest.reverse first
    have hvalue := ofLeBytes_concat rest.reverse first
    rw [List.length_reverse] at hsign hvalue
    have hsize := size_eq_succ_iff (n := ofBeBytes (first :: rest)) (k := rest.length)
    rw [isInteger_cons, List.length_cons, eq_comm (a := rest.length + 1), hsize, ofBeBytes,
      List.reverse_cons, hsign]
    refine and_congr_right fun _ => ?_
    by_cases hfirst : first = 0
    · -- the highest bit of the second byte decides
      subst hfirst
      rw [UInt8.toNat_zero, Nat.mul_zero, Nat.add_zero] at hvalue
      rw [hvalue]
      cases rest with
      | nil => simp
      | cons second rest =>
        have hsecond := ofLeBytes_concat_lt_iff rest.reverse second
        rw [List.length_reverse] at hsecond
        have hpow : 256 ^ (rest.length + 1) = 256 ^ rest.length * 256 := Nat.pow_succ ..
        rw [List.length_cons, List.reverse_cons]
        constructor
        · intro h
          have := h second rest rfl rfl
          omega
        · rintro h second' rest' - heq
          obtain ⟨rfl, -⟩ := List.cons.inj heq
          omega
    · have hpos : 0 < first.toNat := by
        rw [Nat.pos_iff_ne_zero, ne_eq, ← UInt8.toNat_zero, UInt8.toNat_inj]
        exact hfirst
      have hmul := Nat.mul_le_mul_left (256 ^ rest.length) hpos
      refine iff_of_true (fun _ _ hzero => absurd hzero hfirst) (.inr ?_)
      omega

instance (bytes : List UInt8) : Decidable (IsInteger bytes) :=
  decidable_of_iff _ isInteger_iff.symm

lemma ofBeBytes_integer (n : ℕ) : ofBeBytes (integer n) = n := by
  rw [ofBeBytes, integer, beBytes, List.reverse_reverse, ofLeBytes_leBytes _ _ (lt_pow_size n)]

lemma isInteger_integer (n : ℕ) : IsInteger (integer n) := by
  rw [isInteger_iff, ofBeBytes_integer, integer, length_beBytes]

/-- The bytes of an integer are determined by it. -/
lemma IsInteger.eq_integer (h : IsInteger bytes) : bytes = integer (ofBeBytes bytes) := by
  rw [isInteger_iff] at h
  rw [integer, ← h, beBytes, ofBeBytes, ← List.length_reverse, leBytes_ofLeBytes,
    List.reverse_reverse]

end Der
