import Mathlib.Data.Nat.Digits.Defs
import Mathlib.Tactic.Ring

/-!
# Fixed-width integers as bytes

The little-endian and big-endian representation of a natural number on a fixed number of bytes,
and its inverse. Machine integers of any width are obtained by composing with their own
conversions to and from `Nat`.
-/

namespace Bytes

/-- The `k` low bytes of `n`, least significant first. -/
def leBytes : Nat → Nat → List UInt8
  | 0, _ => []
  | k + 1, n => UInt8.ofNat n :: leBytes k (n / 256)

/-- The number whose bytes, least significant first, are `bs`. -/
def ofLeBytes : List UInt8 → Nat
  | [] => 0
  | b :: bs => b.toNat + 256 * ofLeBytes bs

/-- The `k` low bytes of `n`, most significant first. -/
def beBytes (k n : Nat) : List UInt8 := (leBytes k n).reverse

/-- The number whose bytes, most significant first, are `bs`. -/
def ofBeBytes (bs : List UInt8) : Nat := ofLeBytes bs.reverse

@[simp] lemma length_leBytes (k n : Nat) : (leBytes k n).length = k := by
  induction k generalizing n with
  | zero => rfl
  | succ k ih => simp [leBytes, ih]

@[simp] lemma length_beBytes (k n : Nat) : (beBytes k n).length = k := by
  simp [beBytes]

/-- Reading back the bytes of a number that fits gives the number. -/
theorem ofLeBytes_leBytes (k n : Nat) (h : n < 256 ^ k) : ofLeBytes (leBytes k n) = n := by
  induction k generalizing n with
  | zero =>
    simp only [pow_zero, Nat.lt_one_iff] at h
    simp [leBytes, ofLeBytes, h]
  | succ k ih =>
    have hq : n / 256 < 256 ^ k := by
      rw [pow_succ] at h
      exact Nat.div_lt_of_lt_mul (by rwa [mul_comm] at h)
    have hb : (UInt8.ofNat n).toNat = n % 256 := by simp
    simp only [leBytes, ofLeBytes, ih _ hq, hb]
    omega

lemma leBytes_injective {k m n : Nat} (hm : m < 256 ^ k) (hn : n < 256 ^ k)
    (h : leBytes k m = leBytes k n) : m = n := by
  rw [← ofLeBytes_leBytes k m hm, ← ofLeBytes_leBytes k n hn, h]

lemma beBytes_injective {k m n : Nat} (hm : m < 256 ^ k) (hn : n < 256 ^ k)
    (h : beBytes k m = beBytes k n) : m = n :=
  leBytes_injective hm hn (List.reverse_inj.mp h)

/-- The bytes of the number that the bytes `bs` are. -/
lemma leBytes_ofLeBytes (bs : List UInt8) : leBytes bs.length (ofLeBytes bs) = bs := by
  induction bs with
  | nil => rfl
  | cons b bs ih =>
    have hlow : UInt8.ofNat (b.toNat + 256 * ofLeBytes bs) = b := by
      apply UInt8.toNat_inj.mp
      have hb := b.toNat_lt
      simp only [UInt8.toNat_ofNat']
      omega
    have hhigh : (b.toNat + 256 * ofLeBytes bs) / 256 = ofLeBytes bs := by
      have hb := b.toNat_lt
      omega
    simp only [List.length_cons, ofLeBytes, leBytes, hlow, hhigh, ih]

lemma ofLeBytes_lt (bs : List UInt8) : ofLeBytes bs < 256 ^ bs.length := by
  induction bs with
  | nil => simp [ofLeBytes]
  | cons b bs ih =>
    have hb := b.toNat_lt
    simp only [ofLeBytes, List.length_cons, pow_succ]
    omega

lemma ofLeBytes_injective {a b : List UInt8} (hlen : a.length = b.length)
    (h : ofLeBytes a = ofLeBytes b) : a = b := by
  rw [← leBytes_ofLeBytes a, ← leBytes_ofLeBytes b, h, hlen]

/-- A list of bytes is a list of digits. -/
lemma ofLeBytes_eq_ofDigits (bs : List UInt8) :
    ofLeBytes bs = Nat.ofDigits 256 (bs.map UInt8.toNat) := by
  induction bs with
  | nil => rfl
  | cons b bs ih => rw [ofLeBytes, List.map_cons, Nat.ofDigits_cons, ih]

lemma ofLeBytes_append (as bs : List UInt8) :
    ofLeBytes (as ++ bs) = ofLeBytes as + 256 ^ as.length * ofLeBytes bs := by
  rw [ofLeBytes_eq_ofDigits, List.map_append, Nat.ofDigits_append, List.length_map,
    ← ofLeBytes_eq_ofDigits, ← ofLeBytes_eq_ofDigits]

lemma ofLeBytes_replicate_zero (n : ℕ) : ofLeBytes (List.replicate n 0) = 0 := by
  induction n with
  | zero => rfl
  | succ n ih => rw [List.replicate_succ, ofLeBytes, ih]; rfl

lemma leBytes_succ (k n : Nat) :
    leBytes (k + 1) n = leBytes k n ++ [UInt8.ofNat (n / 256 ^ k)] := by
  induction k generalizing n with
  | zero => simp [leBytes]
  | succ k ih =>
    rw [leBytes, ih, leBytes, List.cons_append, Nat.div_div_eq_div_mul, ← Nat.pow_succ']

/-! ### The last byte -/

lemma ofLeBytes_concat (init : List UInt8) (last : UInt8) :
    ofLeBytes (init ++ [last]) = ofLeBytes init + 256 ^ init.length * last.toNat := by
  rw [ofLeBytes_append]
  simp [ofLeBytes]

lemma ofLeBytes_concat_lt (init : List UInt8) (last : UInt8) :
    ofLeBytes (init ++ [last]) < 2 * (128 * 256 ^ init.length) := by
  have hlt := ofLeBytes_lt (init ++ [last])
  rw [List.length_append, List.length_singleton, Nat.pow_succ] at hlt
  omega

/-- The highest bit of a number is that of its last byte. -/
lemma ofLeBytes_concat_lt_iff (init : List UInt8) (last : UInt8) :
    ofLeBytes (init ++ [last]) < 128 * 256 ^ init.length ↔ last.toNat < 128 := by
  have hlt := ofLeBytes_lt init
  rw [ofLeBytes_concat]
  constructor
  · intro h
    by_contra hlast
    have := Nat.mul_le_mul_left (256 ^ init.length) (Nat.le_of_not_lt hlast)
    omega
  · intro h
    have := Nat.mul_le_mul_left (256 ^ init.length) (Nat.le_of_lt_succ h)
    omega

end Bytes
