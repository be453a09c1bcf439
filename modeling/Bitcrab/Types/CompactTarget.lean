import Bitcrab.Lib.Truncation
import Bitcrab.Types.Block
import Bitcrab.Wire.Canonical
import Mathlib.Data.Nat.Bitwise

/-!
# Compact targets

The compact form of a target is a mantissa below 2²³ and an exponent of 256: the target is rounded
down to such a number. The conversion from the compact form does not shift the mantissa to the
right, as it should for the exponents 1 and 2.
-/

namespace Bitcrab

open Bytes Truncation

/-! ### Hashes as numbers -/

/-- A byte of a number. -/
lemma toNat_getD (bs : List UInt8) (i : ℕ) :
    (bs.getD i 0).toNat = ofLeBytes bs / 256 ^ i % 256 := by
  induction bs generalizing i with
  | nil => simp [ofLeBytes]
  | cons b bs ih =>
    have hb := b.toNat_lt
    cases i with
    | zero =>
      rw [List.getD_cons_zero, ofLeBytes, pow_zero, Nat.div_one]
      omega
    | succ i =>
      rw [List.getD_cons_succ, ih, ofLeBytes, pow_succ', ← Nat.div_div_eq_div_mul]
      congr 2
      omega

namespace Digest

variable {k : HashKind} {a b : Digest k}

/-- The number that a hash is compared as. -/
def toNat (h : Digest k) : ℕ := ofLeBytes h.bytes.toList

lemma toNat_lt (h : Digest k) : h.toNat < 256 ^ 32 := by
  have hlt := ofLeBytes_lt h.bytes.toList
  rwa [List.Vector.toList_length] at hlt

lemma toNat_injective : Function.Injective (toNat : Digest k → ℕ) := by
  intro a b h
  have hbytes : a.bytes.toList = b.bytes.toList := by
    rw [← leBytes_ofLeBytes a.bytes.toList, ← leBytes_ofLeBytes b.bytes.toList,
      List.Vector.toList_length, List.Vector.toList_length]
    exact congrArg (leBytes 32) h
  exact Digest.ext (List.Vector.toList_injective hbytes)

/-- Comparing from the most significant byte on compares the numbers. -/
lemma cmpBytes_eq_compare_ofLeBytes {as bs : List UInt8} (h : as.length = bs.length) :
    cmpBytes as bs = compare (ofLeBytes as.reverse) (ofLeBytes bs.reverse) := by
  induction as generalizing bs with
  | nil =>
    cases bs with
    | nil => rfl
    | cons b bs => simp at h
  | cons a as ih =>
    cases bs with
    | nil => simp at h
    | cons b bs =>
      have hlen : as.length = bs.length := by simpa using h
      have has := ofLeBytes_lt as.reverse
      have hbs := ofLeBytes_lt bs.reverse
      rw [List.length_reverse] at has hbs
      rw [cmpBytes, ih hlen, List.reverse_cons, List.reverse_cons, ofLeBytes_append,
        ofLeBytes_append, List.length_reverse, List.length_reverse, ← hlen]
      rw [← hlen] at hbs
      have hdigit : ∀ c : UInt8, ofLeBytes [c] = c.toNat := fun c => by simp [ofLeBytes]
      have hcompare : compare a b = if a < b then .lt else if a = b then .eq else .gt := rfl
      rw [hdigit, hdigit, hcompare]
      generalize 256 ^ as.length = scale at has hbs
      -- the most significant byte decides, as the rest is below one unit of it
      have hscale : ∀ {m n x y : ℕ}, x < scale → m < n → x + scale * m < y + scale * n := by
        intro m n x y hx hmn
        have hstep : scale * (m + 1) ≤ scale * n := Nat.mul_le_mul_left scale hmn
        rw [mul_add, mul_one] at hstep
        omega
      obtain hlt | heq | hgt := lt_trichotomy a.toNat b.toNat
      · rw [if_pos (UInt8.lt_iff_toNat_lt.mpr hlt)]
        exact (compare_lt_iff_lt.mpr (hscale has hlt)).symm
      · obtain rfl := UInt8.toNat_inj.mp heq
        rw [if_neg (UInt8.lt_irrefl a), if_pos rfl]
        simp [Nat.compare_eq_ite_lt]
      · have hle : ¬ a < b := by
          rw [UInt8.lt_iff_toNat_lt]
          omega
        have hne : a ≠ b := fun heq => hgt.ne (congrArg UInt8.toNat heq.symm)
        rw [if_neg hle, if_neg hne]
        exact (compare_gt_iff_gt.mpr (hscale hbs hgt)).symm

/-- Hashes are ordered as numbers are. -/
lemma cmp_eq_compare (a b : Digest k) : a.cmp b = compare a.toNat b.toNat := by
  have hlen : a.bytes.toList.reverse.length = b.bytes.toList.reverse.length := by simp
  rw [cmp, cmpBytes_eq_compare_ofLeBytes hlen, List.reverse_reverse, List.reverse_reverse]
  rfl

lemma gt_iff : a.gt b = true ↔ b.toNat < a.toNat := by
  rw [gt, cmp_eq_compare, beq_iff_eq, compare_gt_iff_gt]

lemma le_iff_toNat_le : a.le b = true ↔ a.toNat ≤ b.toNat := by
  rw [le, cmp_eq_compare, bne_iff_ne, Ne, compare_gt_iff_gt, not_lt]

lemma isZero_iff_toNat_eq_zero : a.isZero = true ↔ a.toNat = 0 := by
  have hzero : ∀ bs : List UInt8, bs.all (· == 0) = true ↔ ofLeBytes bs = 0 := by
    intro bs
    induction bs with
    | nil => simp [ofLeBytes]
    | cons b bs ih =>
      rw [List.all_cons, Bool.and_eq_true, ih, beq_iff_eq, ofLeBytes, ← UInt8.toNat_inj,
        UInt8.toNat_zero]
      omega
  exact hzero _

end Digest

namespace BlockHeader

/-! ### From the compact form -/

/-- The exponent in the compact form. -/
def exponentOf (bits : UInt32) : ℕ := bits.toNat / 2 ^ 24

/-- The mantissa in the compact form, with the bit of its sign. -/
def mantissaOf (bits : UInt32) : ℕ := bits.toNat % 2 ^ 24

/-- Three bytes written into zeros, as far as they fit. -/
lemma ofLeBytes_set (n p : ℕ) (a b c : UInt8) :
    ofLeBytes ((((List.replicate n 0).set p a).set (p + 1) b).set (p + 2) c) =
      (a.toNat + 256 * b.toNat + 65536 * c.toNat) * 256 ^ p % 256 ^ n := by
  induction p generalizing n with
  | zero =>
    have ha := a.toNat_lt
    have hb := b.toNat_lt
    have hc := c.toNat_lt
    match n with
    | 0 => simp [ofLeBytes, Nat.mod_one]
    | 1 =>
      simp [ofLeBytes]
      omega
    | 2 =>
      simp [ofLeBytes]
      omega
    | n + 3 =>
      have hpow : 256 ^ 3 ≤ 256 ^ (n + 3) := Nat.pow_le_pow_right (by omega) (by omega)
      rw [pow_zero, mul_one, Nat.mod_eq_of_lt (by omega)]
      simp only [List.replicate_succ, List.set_cons_zero, List.set_cons_succ, ofLeBytes,
        ofLeBytes_replicate_zero]
      ring
  | succ p ih =>
    cases n with
    | zero => simp [ofLeBytes, Nat.mod_one]
    | succ n =>
      simp only [List.replicate_succ, List.set_cons_succ, ofLeBytes]
      rw [ih, ← Nat.mul_mod_mul_left, ← pow_succ', pow_succ' 256 p, UInt8.toNat_zero, zero_add]
      congr 1
      ring

/-- The bytes of a mantissa. -/
lemma toNat_mantissaBytes {m : UInt32} (h : m.toNat < 2 ^ 24) :
    (m &&& 0xFF).toUInt8.toNat + 256 * ((m >>> 8) &&& 0xFF).toUInt8.toNat +
      65536 * ((m >>> 16) &&& 0xFF).toUInt8.toNat = m.toNat := by
  have hbyte : ∀ x : UInt32, (x &&& 0xFF).toUInt8.toNat = x.toNat % 256 := by
    intro x
    have hmask : (x &&& 0xFF).toNat = x.toNat % 256 := by
      rw [UInt32.toNat_and]
      exact Nat.and_two_pow_sub_one_eq_mod _ 8
    rw [UInt32.toNat_toUInt8, hmask, Nat.mod_mod]
  have hshift8 : (m >>> 8).toNat = m.toNat / 256 := by
    simp [Nat.shiftRight_eq_div_pow]
  have hshift16 : (m >>> 16).toNat = m.toNat / 65536 := by
    simp [Nat.shiftRight_eq_div_pow]
  rw [hbyte, hbyte, hbyte, hshift8, hshift16]
  omega

/-- The target is the scaled mantissa, as far as it fits. -/
lemma toNat_bitsToTarget (bits : UInt32) :
    (bitsToTarget bits).toNat =
      if exponentOf bits = 0 then 0
      else mantissaOf bits * 256 ^ (exponentOf bits - 3) % 256 ^ 32 := by
  have hexponent : (bits >>> 24).toNat = exponentOf bits := by
    simp [exponentOf, Nat.shiftRight_eq_div_pow]
  have hmantissa : (bits &&& 0x00FFFFFF).toNat = mantissaOf bits := by
    rw [UInt32.toNat_and]
    exact Nat.and_two_pow_sub_one_eq_mod _ 24
  unfold bitsToTarget
  by_cases hzero : exponentOf bits = 0
  · rw [if_pos hzero, if_pos (hexponent.trans hzero)]
    exact ofLeBytes_replicate_zero 32
  · rw [if_neg hzero, if_neg (hexponent.trans_ne hzero)]
    refine (ofLeBytes_set 32 _ _ _ _).trans ?_
    rw [toNat_mantissaBytes, hmantissa, hexponent]
    exact hmantissa ▸ Nat.mod_lt _ (by decide)

/-! ### To the compact form -/

/-- The number of significant bytes. -/
lemma significantBytes_spec {bytes : List UInt8} {n : ℕ} (h : ofLeBytes bytes < 256 ^ n) :
    ofLeBytes bytes < 256 ^ significantBytes bytes n ∧ significantBytes bytes n ≤ n ∧
      (significantBytes bytes n = 0 ∨ 256 ^ (significantBytes bytes n - 1) ≤ ofLeBytes bytes) := by
  induction n with
  | zero => exact ⟨h, le_rfl, .inl rfl⟩
  | succ n ih =>
    have hdigit := toNat_getD bytes n
    rw [pow_succ] at h
    have hpos : 0 < 256 ^ n := Nat.pow_pos (by omega)
    have hquotient : ofLeBytes bytes / 256 ^ n < 256 :=
      (Nat.div_lt_iff_lt_mul hpos).mpr (by linarith)
    rw [Nat.mod_eq_of_lt hquotient] at hdigit
    rw [significantBytes]
    split_ifs with hzero
    · rw [hzero, UInt8.toNat_zero] at hdigit
      have hlt := (Nat.div_eq_zero_iff_lt hpos).mp hdigit.symm
      obtain ⟨hsize, hle, hleast⟩ := ih hlt
      exact ⟨hsize, by omega, hleast⟩
    · refine ⟨by rwa [pow_succ], le_rfl, .inr ?_⟩
      rw [Nat.add_sub_cancel]
      by_contra hlt
      rw [Nat.div_eq_of_lt (by omega)] at hdigit
      exact hzero (UInt8.toNat_inj.mp hdigit)

lemma toNat_shiftLeft_of_lt {a k : UInt32} (hk : k.toNat < 32)
    (ha : a.toNat * 2 ^ k.toNat < 2 ^ 32) : (a <<< k).toNat = a.toNat * 2 ^ k.toNat := by
  rw [UInt32.toNat_shiftLeft, Nat.mod_eq_of_lt hk, Nat.shiftLeft_eq, Nat.mod_eq_of_lt ha]

/-- Bits that do not overlap add up. -/
lemma toNat_shiftLeft_or {a x k : UInt32} (hk : k.toNat < 32)
    (ha : a.toNat * 2 ^ k.toNat < 2 ^ 32) (hx : x.toNat < 2 ^ k.toNat) :
    (a <<< k ||| x).toNat = a.toNat * 2 ^ k.toNat + x.toNat := by
  rw [UInt32.toNat_or, toNat_shiftLeft_of_lt hk ha, mul_comm, Nat.two_pow_add_eq_or_of_lt hx]

/-- The bit of the sign. -/
lemma and_signBit_eq_zero_iff {x : UInt32} : x &&& 0x00800000 = 0 ↔ x.toNat / 2 ^ 23 % 2 = 0 := by
  rw [← UInt32.toNat_inj, UInt32.toNat_and]
  change x.toNat &&& 2 ^ 23 = 0 ↔ _
  rw [Nat.and_comm, Nat.two_pow_and, Nat.testBit_eq_decide_div_mod_eq]
  simp

/-- The leading three bytes of a number of `nSize` bytes, or as many as there are, at the top of a
mantissa. -/
def leadingBytes (byte : ℕ → UInt32) (nSize : ℕ) : UInt32 :=
  if nSize ≥ 3 then byte (nSize - 1) <<< 16 ||| byte (nSize - 2) <<< 8 ||| byte (nSize - 3)
  else if nSize = 2 then byte 1 <<< 16 ||| byte 0 <<< 8
  else byte 0 <<< 16

lemma toNat_leadingBytes {byte : ℕ → UInt32} {t nSize : ℕ}
    (hbyte : ∀ i, (byte i).toNat = t / 256 ^ i % 256) (h : t < 256 ^ nSize) (hpos : 0 < nSize) :
    (leadingBytes byte nSize).toNat = t * 256 ^ 3 / 256 ^ nSize := by
  have hlt : ∀ i, (byte i).toNat < 256 := fun i => (hbyte i).trans_lt (Nat.mod_lt _ (by decide))
  match nSize with
  | 1 =>
    rw [leadingBytes, if_neg (by decide), if_neg (by decide),
      toNat_shiftLeft_of_lt (by decide) (by have := hlt 0; simp; omega), hbyte]
    simp
    omega
  | 2 =>
    have hlow : (byte 0 <<< 8).toNat = (byte 0).toNat * 2 ^ 8 :=
      toNat_shiftLeft_of_lt (by decide) (by have := hlt 0; simp; omega)
    rw [leadingBytes, if_neg (by decide), if_pos rfl,
      toNat_shiftLeft_or (by decide) (by have := hlt 1; simp; omega)
        (by rw [hlow]; have := hlt 0; simp; omega), hlow, hbyte, hbyte]
    simp
    omega
  | j + 3 =>
    have hfirst := hbyte (j + 2)
    have hsecond := hbyte (j + 1)
    have hthird := hbyte j
    rw [pow_add, ← Nat.div_div_eq_div_mul] at hfirst hsecond
    rw [pow_add, Nat.mul_div_mul_right _ _ (by decide)]
    have hsize : t / 256 ^ j < 256 ^ 3 := by
      rw [Nat.div_lt_iff_lt_mul (Nat.pow_pos (by omega)), mul_comm, ← pow_add]
      exact h
    generalize t / 256 ^ j = u at hfirst hsecond hthird hsize
    have hlow : (byte (j + 1) <<< 8 ||| byte j).toNat =
        (byte (j + 1)).toNat * 2 ^ 8 + (byte j).toNat :=
      toNat_shiftLeft_or (by decide) (by have := hlt (j + 1); simp; omega) (hlt j)
    have hsmall : (byte (j + 1) <<< 8 ||| byte j).toNat < 2 ^ 16 := by
      have := hlt (j + 1)
      have := hlt j
      omega
    rw [leadingBytes, if_pos (by omega), show j + 3 - 1 = j + 2 by omega,
      show j + 3 - 2 = j + 1 by omega, Nat.add_sub_cancel, UInt32.or_assoc,
      toNat_shiftLeft_or (by decide) (by have := hlt (j + 2); simp; omega) hsmall, hlow]
    simp only [UInt32.reduceToNat]
    omega

/-- The size and the mantissa together, shifted by a byte where the mantissa has the bit of the
sign. -/
def packed (nSize mantissa : UInt32) : UInt32 :=
  if mantissa &&& 0x00800000 ≠ 0 then (nSize + 1) <<< 24 ||| mantissa >>> 8
  else nSize <<< 24 ||| mantissa

lemma toNat_packed {nSize mantissa : UInt32} (hsize : nSize.toNat ≤ 32)
    (hmantissa : mantissa.toNat < 2 ^ 24) :
    (packed nSize mantissa).toNat =
      if mantissa.toNat < 2 ^ 23 then nSize.toNat * 2 ^ 24 + mantissa.toNat
      else (nSize.toNat + 1) * 2 ^ 24 + mantissa.toNat / 256 := by
  have hsign : mantissa &&& 0x00800000 = 0 ↔ mantissa.toNat < 2 ^ 23 := by
    rw [and_signBit_eq_zero_iff]
    omega
  rw [packed]
  by_cases hsmall : mantissa.toNat < 2 ^ 23
  · rw [if_neg (not_not.mpr (hsign.mpr hsmall)), if_pos hsmall]
    exact toNat_shiftLeft_or (by decide) (by simp; omega) hmantissa
  · have hsucc : (nSize + 1).toNat = nSize.toNat + 1 := by
      rw [UInt32.toNat_add]
      simp
      omega
    have hshift : (mantissa >>> 8).toNat = mantissa.toNat / 256 := by
      simp [Nat.shiftRight_eq_div_pow]
    rw [if_pos (mt hsign.mp hsmall), if_neg hsmall, ← hsucc, ← hshift]
    exact toNat_shiftLeft_or (by decide) (by rw [hsucc]; simp; omega) (by rw [hshift]; simp; omega)

lemma targetToBits_eq (target : Hash256) :
    targetToBits target =
      if significantBytes target.bytes.toList 32 = 0 then 0
      else packed (UInt32.ofNat (significantBytes target.bytes.toList 32))
        (leadingBytes (fun i => (target.bytes.toList.getD i 0).toUInt32)
          (significantBytes target.bytes.toList 32)) := rfl

/-- The compact form in numbers. -/
lemma exists_toNat_targetToBits {target : Hash256} (h : target.toNat ≠ 0) :
    ∃ nSize, 0 < nSize ∧ nSize ≤ 32 ∧ 256 ^ (nSize - 1) ≤ target.toNat ∧
      target.toNat < 256 ^ nSize ∧
      (targetToBits target).toNat =
        if target.toNat * 256 ^ 3 / 256 ^ nSize < 2 ^ 23 then
          nSize * 2 ^ 24 + target.toNat * 256 ^ 3 / 256 ^ nSize
        else (nSize + 1) * 2 ^ 24 + target.toNat * 256 ^ 3 / 256 ^ nSize / 256 := by
  obtain ⟨hsize, hle, hleast⟩ := significantBytes_spec target.toNat_lt
  have heq := targetToBits_eq target
  generalize significantBytes target.bytes.toList 32 = nSize at hsize hle hleast heq
  have hpos : 0 < nSize := by
    by_contra hzero
    rw [Nat.le_zero.mp (Nat.not_lt.mp hzero), pow_zero, Nat.lt_one_iff] at hsize
    exact h hsize
  have hbyte : ∀ i, ((target.bytes.toList.getD i 0).toUInt32).toNat =
      target.toNat / 256 ^ i % 256 := fun i => toNat_getD _ i
  have hmantissa := toNat_leadingBytes hbyte hsize hpos
  have hbound : target.toNat * 256 ^ 3 / 256 ^ nSize < 2 ^ 24 := by
    rw [Nat.div_lt_iff_lt_mul (Nat.pow_pos (by omega)), mul_comm]
    exact Nat.mul_lt_mul_of_pos_left hsize (by decide)
  have hcast : (UInt32.ofNat nSize).toNat = nSize :=
    UInt32.toNat_ofNat_of_lt' (hle.trans_lt (by decide))
  refine ⟨nSize, hpos, hle, hleast.resolve_left hpos.ne', hsize, ?_⟩
  rw [heq, if_neg hpos.ne', toNat_packed (hcast.trans_le hle) (hmantissa.trans_lt hbound), hcast,
    hmantissa]

/-! ### There and back -/

section RoundTrip

variable {target : Hash256} {bits : UInt32}

lemma one_lt_base : 1 < 256 := by decide

lemma mantissaBound_pos : 0 < 2 ^ 23 := by decide

lemma base_dvd_mantissaBound : 256 ∣ 2 ^ 23 := by decide

lemma targetToBits_of_toNat_eq_zero (h : target.toNat = 0) : targetToBits target = 0 := by
  obtain ⟨-, -, hleast⟩ := significantBytes_spec target.toNat_lt
  have hzero : significantBytes target.bytes.toList 32 = 0 := by
    refine hleast.resolve_right fun hle => ?_
    have hpos : 0 < 256 ^ (significantBytes target.bytes.toList 32 - 1) := Nat.pow_pos (by decide)
    exact absurd (hpos.trans_le hle) (by rw [← Digest.toNat, h]; decide)
  rw [targetToBits_eq, if_pos hzero]

/-- From 2¹⁵ on, the compact form is what truncation leaves: the exponent and the mantissa. -/
lemma toNat_targetToBits_of_le (h : 2 ^ 15 ≤ target.toNat) :
    shift 256 (2 ^ 23) target.toNat ≤ 30 ∧
      (targetToBits target).toNat =
        (shift 256 (2 ^ 23) target.toNat + 3) * 2 ^ 24 + mantissa 256 (2 ^ 23) target.toNat := by
  have hne : target.toNat ≠ 0 := by omega
  obtain ⟨nSize, hpos, hle, hlow, hhigh, hbits⟩ := exists_toNat_targetToBits hne
  generalize target.toNat = t at h hne hlow hhigh hbits ⊢
  have hshift : ∀ {k : ℕ}, t < 2 ^ 23 * 256 ^ k → (k = 0 ∨ 2 ^ 23 * 256 ^ (k - 1) ≤ t) →
      shift 256 (2 ^ 23) t = k := fun hlt hmin =>
    (shift_eq_iff one_lt_base mantissaBound_pos).mpr ⟨hlt, hmin⟩
  match nSize with
  | 1 => omega
  | 2 =>
    rw [hbits, mantissa, hshift (by omega : t < 2 ^ 23 * 256 ^ 0) (.inl rfl), if_neg (by omega)]
    omega
  | j + 3 =>
    rw [pow_add, Nat.mul_div_mul_right _ _ (by decide)] at hbits
    rw [show j + 3 - 1 = j + 2 by omega, pow_add] at hlow
    rw [pow_add] at hhigh
    have hscale : 0 < 256 ^ j := Nat.pow_pos (by decide)
    rw [hbits, mantissa]
    by_cases hsmall : t / 256 ^ j < 2 ^ 23
    · have hj : shift 256 (2 ^ 23) t = j := by
        refine hshift ?_ ?_
        · exact (Nat.div_lt_iff_lt_mul hscale).mp hsmall
        · cases j with
          | zero => exact .inl rfl
          | succ i =>
            refine .inr ?_
            rw [Nat.add_sub_cancel]
            rw [pow_succ] at hlow
            omega
      rw [hj, if_pos hsmall]
      omega
    · have hj : shift 256 (2 ^ 23) t = j + 1 := by
        refine hshift ?_ (.inr ?_)
        · rw [pow_succ]
          omega
        · rw [Nat.add_sub_cancel]
          by_contra hlt
          exact hsmall ((Nat.div_lt_iff_lt_mul hscale).mpr (by omega))
      have hdrop : t / 256 ^ (j + 1) = t / 256 ^ j / 256 := by
        rw [pow_succ, Nat.div_div_eq_div_mul]
      rw [hj, if_neg hsmall, hdrop]
      omega

/-- Below 2¹⁵, the mantissa stands at the top of its three bytes. -/
lemma exists_toNat_targetToBits_of_lt (hne : target.toNat ≠ 0) (h : target.toNat < 2 ^ 15) :
    ∃ exponent, (exponent = 1 ∨ exponent = 2) ∧
      2 ^ 15 ≤ target.toNat * 256 ^ (3 - exponent) ∧
      target.toNat * 256 ^ (3 - exponent) < 2 ^ 23 ∧
      (targetToBits target).toNat =
        exponent * 2 ^ 24 + target.toNat * 256 ^ (3 - exponent) := by
  obtain ⟨nSize, hpos, hle, hlow, hhigh, hbits⟩ := exists_toNat_targetToBits hne
  generalize target.toNat = t at h hne hlow hhigh hbits ⊢
  match nSize with
  | 1 =>
    by_cases hsmall : t < 2 ^ 7
    · rw [if_pos (by omega)] at hbits
      exact ⟨1, .inl rfl, by omega, by omega, by omega⟩
    · rw [if_neg (by omega)] at hbits
      exact ⟨2, .inr rfl, by omega, by omega, by omega⟩
  | 2 =>
    rw [if_pos (by omega)] at hbits
    exact ⟨2, .inr rfl, by omega, by omega, by omega⟩
  | j + 3 =>
    rw [show j + 3 - 1 = j + 2 by omega, pow_add] at hlow
    have hscale : 0 < 256 ^ j := Nat.pow_pos (by decide)
    omega

lemma exponentOf_mantissaOf {exponent value : ℕ} (h : bits.toNat = exponent * 2 ^ 24 + value)
    (hvalue : value < 2 ^ 24) : exponentOf bits = exponent ∧ mantissaOf bits = value := by
  rw [exponentOf, mantissaOf]
  omega

/-- From 2¹⁵ on, the target comes back truncated. -/
theorem toNat_bitsToTarget_targetToBits (h : 2 ^ 15 ≤ target.toNat) :
    (bitsToTarget (targetToBits target)).toNat = trunc 256 (2 ^ 23) target.toNat := by
  obtain ⟨hle, hbits⟩ := toNat_targetToBits_of_le h
  have hmantissa : mantissa 256 (2 ^ 23) target.toNat < 2 ^ 23 :=
    mantissa_lt one_lt_base mantissaBound_pos _
  obtain ⟨hexponent, hvalue⟩ := exponentOf_mantissaOf hbits (by omega)
  have hlt : trunc 256 (2 ^ 23) target.toNat < 256 ^ 32 :=
    (trunc_le _ _ _).trans_lt target.toNat_lt
  rw [toNat_bitsToTarget, hexponent, hvalue, if_neg (by omega), Nat.add_sub_cancel]
  exact Nat.mod_eq_of_lt hlt

end RoundTrip

end BlockHeader

end Bitcrab
