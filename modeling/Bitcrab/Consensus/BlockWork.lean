import Bitcrab.Consensus.Pow
import Bitcrab.Lib.ShiftSubtract
import Bitcrab.Types.CompactTarget

/-!
# The work of a block

The division of `calculate_block_work` runs on bytes. Each of its loops is an operation on the
numbers that the bytes stand for, and a round of it is one of shift-subtract division.
-/

namespace Bitcrab

open Bytes ShiftSubtract

/-! ### The loops on bytes -/

lemma length_addBytes {as bs : List UInt8} (h : as.length = bs.length) (carry : UInt16) :
    (addBytes as bs carry).length = as.length := by
  induction as generalizing bs carry with
  | nil => rfl
  | cons a as ih =>
    cases bs with
    | nil => simp at h
    | cons b bs => rw [addBytes, List.length_cons, ih (by simpa using h), List.length_cons]

/-- The sum of two numbers, as far as it fits. -/
lemma ofLeBytes_addBytes {as bs : List UInt8} (h : as.length = bs.length) {carry : UInt16}
    (hcarry : carry.toNat < 2) :
    ofLeBytes (addBytes as bs carry) =
      (ofLeBytes as + ofLeBytes bs + carry.toNat) % 256 ^ as.length := by
  induction as generalizing bs carry with
  | nil => simp [addBytes, ofLeBytes, Nat.mod_one]
  | cons a as ih =>
    cases bs with
    | nil => simp at h
    | cons b bs =>
      have ha := a.toNat_lt
      have hb := b.toNat_lt
      have hsum : (a.toUInt16 + b.toUInt16 + carry).toNat = a.toNat + b.toNat + carry.toNat := by
        rw [UInt16.toNat_add, UInt16.toNat_add, UInt8.toNat_toUInt16, UInt8.toNat_toUInt16]
        omega
      have hlow : ((a.toUInt16 + b.toUInt16 + carry) &&& 0xFF).toUInt8.toNat =
          (a.toNat + b.toNat + carry.toNat) % 256 := by
        have hmask : (0xFF : UInt16).toNat = 2 ^ 8 - 1 := rfl
        rw [UInt16.toNat_toUInt8, UInt16.toNat_and, hsum, hmask, Nat.and_two_pow_sub_one_eq_mod]
        omega
      have hhigh : ((a.toUInt16 + b.toUInt16 + carry) >>> 8).toNat =
          (a.toNat + b.toNat + carry.toNat) / 256 := by
        rw [UInt16.toNat_shiftRight, hsum, Nat.shiftRight_eq_div_pow]
        rfl
      have hmod : (a.toNat + 256 * ofLeBytes as + (b.toNat + 256 * ofLeBytes bs) +
          carry.toNat) % 256 = (a.toNat + b.toNat + carry.toNat) % 256 := by omega
      have hdiv : (a.toNat + 256 * ofLeBytes as + (b.toNat + 256 * ofLeBytes bs) +
          carry.toNat) / 256 =
          ofLeBytes as + ofLeBytes bs + (a.toNat + b.toNat + carry.toNat) / 256 := by omega
      rw [addBytes, ofLeBytes, hlow, ih (by simpa using h) (by rw [hhigh]; omega), hhigh,
        ofLeBytes, ofLeBytes, List.length_cons, pow_succ', Nat.mod_mul, hmod, hdiv]

/-- A carry is added as a number of zeros is. -/
lemma addCarry_eq_addBytes (bs : List UInt8) (carry : UInt16) :
    addCarry bs carry = addBytes bs (List.replicate bs.length 0) carry := by
  induction bs generalizing carry with
  | nil => rfl
  | cons b bs ih =>
    rw [List.length_cons, List.replicate_succ, addCarry, addBytes, ← ih]
    simp

lemma length_addCarry (bs : List UInt8) (carry : UInt16) :
    (addCarry bs carry).length = bs.length := by
  rw [addCarry_eq_addBytes, length_addBytes (by simp)]

lemma ofLeBytes_addCarry_one (bs : List UInt8) :
    ofLeBytes (addCarry bs 1) = (ofLeBytes bs + 1) % 256 ^ bs.length := by
  rw [addCarry_eq_addBytes, ofLeBytes_addBytes (by simp) (by decide), ofLeBytes_replicate_zero]
  rfl

/-- The complement of a number. -/
lemma ofLeBytes_map_not (bs : List UInt8) :
    ofLeBytes (bs.map fun b => ~~~b) + ofLeBytes bs + 1 = 256 ^ bs.length := by
  induction bs with
  | nil => rfl
  | cons b bs ih =>
    have hnot : (~~~b).toNat + b.toNat = 255 := by
      have hb := b.toNat_lt
      rw [UInt8.toNat_not, UInt8.size]
      omega
    rw [List.map_cons, ofLeBytes, ofLeBytes, List.length_cons, pow_succ', ← ih]
    omega

lemma length_shiftLeft1 (bs : List UInt8) (c : UInt8) : (shiftLeft1 bs c).length = bs.length := by
  induction bs generalizing c with
  | nil => rfl
  | cons b bs ih => rw [shiftLeft1, List.length_cons, ih, List.length_cons]

/-- Shifting a bit in. -/
lemma ofLeBytes_shiftLeft1 (bs : List UInt8) {c : UInt8} (hc : c.toNat < 2) :
    ofLeBytes (shiftLeft1 bs c) = (2 * ofLeBytes bs + c.toNat) % 256 ^ bs.length := by
  induction bs generalizing c with
  | nil => simp [shiftLeft1, ofLeBytes, Nat.mod_one]
  | cons b bs ih =>
    have hb := b.toNat_lt
    have hlow : (b <<< 1 ||| c).toNat = (2 * b.toNat + c.toNat) % 256 := by
      have hshift : (b <<< 1).toNat = 2 ^ 1 * (b.toNat % 128) := by
        rw [UInt8.toNat_shiftLeft, Nat.shiftLeft_eq]
        simp
        omega
      rw [UInt8.toNat_or, hshift, ← Nat.two_pow_add_eq_or_of_lt hc]
      omega
    have hhigh : (b >>> 7).toNat = b.toNat / 128 := by
      rw [UInt8.toNat_shiftRight, Nat.shiftRight_eq_div_pow]
      rfl
    have hmod : (2 * (b.toNat + 256 * ofLeBytes bs) + c.toNat) % 256 =
        (2 * b.toNat + c.toNat) % 256 := by omega
    have hdiv : (2 * (b.toNat + 256 * ofLeBytes bs) + c.toNat) / 256 =
        2 * ofLeBytes bs + b.toNat / 128 := by omega
    rw [shiftLeft1, ofLeBytes, hlow, ih (by rw [hhigh]; omega), hhigh, ofLeBytes, List.length_cons,
      pow_succ', Nat.mod_mul, hmod, hdiv]

/-- The bit that is set in the shifted remainder is one shifted in. -/
lemma set_shiftLeft1 (bs : List UInt8) (bit : UInt8) :
    (shiftLeft1 bs 0).set 0 ((shiftLeft1 bs 0).getD 0 0 ||| bit) = shiftLeft1 bs bit := by
  cases bs with
  | nil => rfl
  | cons b bs => simp [shiftLeft1]

lemma length_subBytes {as bs : List UInt8} (h : as.length = bs.length) (borrow : ℕ) :
    (subBytes as bs borrow).length = as.length := by
  induction as generalizing bs borrow with
  | nil => rfl
  | cons a as ih =>
    cases bs with
    | nil => simp at h
    | cons b bs =>
      rw [subBytes]
      split_ifs <;> simp [ih (by simpa using h)]

/-- A subtraction, with what is borrowed from above. -/
lemma ofLeBytes_subBytes_add {as bs : List UInt8} (h : as.length = bs.length) {borrow : ℕ}
    (hborrow : borrow ≤ 1) :
    ∃ above, ofLeBytes (subBytes as bs borrow) + ofLeBytes bs + borrow =
      ofLeBytes as + 256 ^ as.length * above := by
  induction as generalizing bs borrow with
  | nil =>
    cases bs with
    | nil => exact ⟨borrow, by simp [subBytes, ofLeBytes]⟩
    | cons b bs => simp at h
  | cons a as ih =>
    cases bs with
    | nil => simp at h
    | cons b bs =>
      have hlen : as.length = bs.length := by simpa using h
      have ha := a.toNat_lt
      have hb := b.toNat_lt
      rw [subBytes]
      split_ifs with hlt
      · obtain ⟨above, habove⟩ := ih hlen le_rfl
        refine ⟨above, ?_⟩
        have hdigit : (UInt8.ofNat (a.toNat + 256 - b.toNat - borrow)).toNat =
            a.toNat + 256 - b.toNat - borrow := UInt8.toNat_ofNat_of_lt' (show _ < 256 by omega)
        rw [ofLeBytes, hdigit, ofLeBytes, ofLeBytes, List.length_cons, pow_succ', mul_assoc]
        omega
      · obtain ⟨above, habove⟩ := ih hlen (Nat.zero_le 1)
        refine ⟨above, ?_⟩
        have hdigit : (UInt8.ofNat (a.toNat - b.toNat - borrow)).toNat =
            a.toNat - b.toNat - borrow := UInt8.toNat_ofNat_of_lt' (show _ < 256 by omega)
        rw [ofLeBytes, hdigit, ofLeBytes, ofLeBytes, List.length_cons, pow_succ', mul_assoc]
        omega

/-- Subtracting what fits. -/
lemma ofLeBytes_subBytes {as bs : List UInt8} (h : as.length = bs.length)
    (hle : ofLeBytes bs ≤ ofLeBytes as) :
    ofLeBytes (subBytes as bs 0) = ofLeBytes as - ofLeBytes bs := by
  obtain ⟨above, habove⟩ := ofLeBytes_subBytes_add h (Nat.zero_le 1)
  have hlt := ofLeBytes_lt (subBytes as bs 0)
  rw [length_subBytes h] at hlt
  have hzero : above = 0 := by
    by_contra hne
    have := Nat.le_mul_of_pos_right (256 ^ as.length) (Nat.pos_of_ne_zero hne)
    omega
  rw [hzero] at habove
  omega

/-- The comparison is the one of hashes. -/
lemma geBytes_eq (rs ds : List UInt8) : geBytes rs ds = (Digest.cmpBytes rs ds != .lt) := by
  induction rs generalizing ds with
  | nil => rfl
  | cons r rs ih =>
    cases ds with
    | nil => rfl
    | cons d ds =>
      have hcompare : compare r d = if r < d then .lt else if r = d then .eq else .gt := rfl
      rw [geBytes, Digest.cmpBytes, hcompare]
      split_ifs with hlt hgt heq heq
      · rfl
      · rw [heq] at hgt
        exact absurd hgt (UInt8.lt_irrefl d)
      · rfl
      · exact ih ds
      · obtain hlt' | heq' | hgt' := lt_trichotomy r.toNat d.toNat
        · exact absurd (UInt8.lt_iff_toNat_lt.mpr hlt') hlt
        · exact absurd (UInt8.toNat_inj.mp heq') heq
        · exact absurd (UInt8.lt_iff_toNat_lt.mpr hgt') hgt

lemma geBytes_reverse_iff {as bs : List UInt8} (h : as.length = bs.length) :
    geBytes as.reverse bs.reverse = true ↔ ofLeBytes bs ≤ ofLeBytes as := by
  rw [geBytes_eq, Digest.cmpBytes_eq_compare_ofLeBytes (by simpa using h), List.reverse_reverse,
    List.reverse_reverse, bne_iff_ne, Ne, compare_lt_iff_lt, not_lt]

/-- A bit of a number. -/
lemma toNat_bit (bs : List UInt8) (i : ℕ) :
    ((bs.getD (i / 8) 0 >>> UInt8.ofNat (i % 8)) &&& 1).toNat = ofLeBytes bs / 2 ^ i % 2 := by
  have hk : i % 8 < 8 := Nat.mod_lt _ (by decide)
  have hshift : (UInt8.ofNat (i % 8)).toNat % 8 = i % 8 := by
    rw [UInt8.toNat_ofNat_of_lt' (show _ < 256 by omega)]
    omega
  have hpow : 256 ^ (i / 8) = 2 ^ (8 * (i / 8)) := (pow_mul 2 8 (i / 8)).symm
  have hi : 8 * (i / 8) + i % 8 = i := Nat.div_add_mod i 8
  rw [UInt8.toNat_and, UInt8.toNat_shiftRight, hshift, toNat_getD, hpow,
    Nat.shiftRight_eq_div_pow]
  have hmask : (1 : UInt8).toNat = 2 ^ 1 - 1 := rfl
  rw [hmask, Nat.and_two_pow_sub_one_eq_mod, pow_one, ← Nat.toNat_testBit, ← Nat.toNat_testBit]
  congr 1
  have hbyte : (256 : ℕ) = 2 ^ 8 := rfl
  rw [hbyte, Nat.testBit_mod_two_pow, Nat.testBit_div_two_pow, decide_eq_true hk, Bool.true_and]
  congr 1
  omega

/-- Writing a byte. -/
lemma ofLeBytes_set_add {bs : List UInt8} {j : ℕ} (h : j < bs.length) (v : UInt8) :
    ofLeBytes (bs.set j v) + 256 ^ j * (bs.getD j 0).toNat =
      ofLeBytes bs + 256 ^ j * v.toNat := by
  induction bs generalizing j with
  | nil => simp at h
  | cons b bs ih =>
    cases j with
    | zero =>
      rw [List.set_cons_zero, List.getD_cons_zero, ofLeBytes, ofLeBytes, pow_zero]
      omega
    | succ j =>
      have hj := ih (Nat.lt_of_succ_lt_succ h)
      rw [List.set_cons_succ, List.getD_cons_succ, ofLeBytes, ofLeBytes, pow_succ', mul_assoc,
        mul_assoc]
      omega

/-- Setting a bit below those that are set. -/
lemma ofLeBytes_setBit {bs : List UInt8} {i : ℕ} (hi : i < 8 * bs.length)
    (hdvd : 2 ^ (i + 1) ∣ ofLeBytes bs) :
    ofLeBytes (bs.set (i / 8) (bs.getD (i / 8) 0 ||| 1 <<< UInt8.ofNat (i % 8))) =
      ofLeBytes bs + 2 ^ i := by
  have hk : i % 8 < 8 := Nat.mod_lt _ (by decide)
  have hpow : 256 ^ (i / 8) = 2 ^ (8 * (i / 8)) := (pow_mul 2 8 (i / 8)).symm
  have hsplit : 2 ^ (8 * (i / 8)) * 2 ^ (i % 8) = 2 ^ i := by
    rw [← pow_add, Nat.div_add_mod]
  have hold : 2 ^ (i % 8 + 1) ∣ (bs.getD (i / 8) 0).toNat := by
    rw [toNat_getD, hpow]
    have hbyte : 2 ^ (i % 8 + 1) ∣ 256 := pow_dvd_pow 2 (show i % 8 + 1 ≤ 8 by omega)
    refine (Nat.dvd_mod_iff hbyte).mpr (Nat.dvd_div_of_mul_dvd ?_)
    rwa [pow_succ, ← mul_assoc, hsplit, ← pow_succ]
  have hbit : (1 <<< UInt8.ofNat (i % 8) : UInt8).toNat = 2 ^ (i % 8) := by
    rw [UInt8.toNat_shiftLeft, UInt8.toNat_ofNat_of_lt' (show _ < 256 by omega), Nat.shiftLeft_eq,
      Nat.mod_eq_of_lt hk]
    have hlt : 2 ^ (i % 8) < 2 ^ 8 := Nat.pow_lt_pow_right (by decide) hk
    exact (congrArg (· % 2 ^ 8) (one_mul _)).trans (Nat.mod_eq_of_lt hlt)
  have hvalue : (bs.getD (i / 8) 0 ||| 1 <<< UInt8.ofNat (i % 8)).toNat =
      (bs.getD (i / 8) 0).toNat + 2 ^ (i % 8) := by
    obtain ⟨rest, hrest⟩ := hold
    have hlt : 2 ^ (i % 8) < 2 ^ (i % 8 + 1) :=
      Nat.pow_lt_pow_right (by decide) (Nat.lt_succ_self _)
    rw [UInt8.toNat_or, hbit, hrest, ← Nat.two_pow_add_eq_or_of_lt hlt]
  have hset := ofLeBytes_set_add (show i / 8 < bs.length by omega)
    (bs.getD (i / 8) 0 ||| 1 <<< UInt8.ofNat (i % 8))
  rw [hvalue, mul_add, hpow, hsplit] at hset
  omega

/-! ### The division -/

/-- The quotient and the remainder before the round for bit `i - 1`, of `numerator` divided by
`denominator`. -/
structure DivideState (numerator denominator : List UInt8) (i : ℕ)
    (quotient remainder : List UInt8) : Prop where
  length_quotient : quotient.length = 32
  length_remainder : remainder.length = 32
  value : (ofLeBytes quotient, ofLeBytes remainder) =
    partialQuotient (ofLeBytes numerator) (ofLeBytes denominator) i

section Divide

variable {numerator denominator quotient remainder : List UInt8} {i : ℕ}

/-- One round: the remainder has room for the bit that is shifted in, however large the denominator
is. -/
lemma DivideState.divideBit (hnumerator : numerator.length = 32)
    (hdenominator : denominator.length = 32) (hpos : 0 < ofLeBytes denominator) (hi : i < 256)
    (h : DivideState numerator denominator (i + 1) quotient remainder) :
    DivideState numerator denominator i
      (divideBit numerator denominator i quotient remainder).1
      (divideBit numerator denominator i quotient remainder).2 := by
  obtain ⟨hquotient, hremainder, hvalue⟩ := h
  have hround := round_partialQuotient (n := ofLeBytes numerator) (i := i) hpos
  have hroom := partialQuotient_snd_le (n := ofLeBytes numerator) (d := ofLeBytes denominator)
    (i := i)
  rw [← hvalue] at hround hroom
  have hbit := toNat_bit numerator i
  have hnumlt := ofLeBytes_lt numerator
  rw [hnumerator] at hnumlt
  have hshifted : ofLeBytes (shiftLeft1 remainder
      (numerator.getD (i / 8) 0 >>> UInt8.ofNat (i % 8) &&& 1)) =
      2 * ofLeBytes remainder + ofLeBytes numerator / 2 ^ i % 2 := by
    rw [ofLeBytes_shiftLeft1 _ (by rw [hbit]; exact Nat.mod_lt _ (by decide)), hbit, hremainder]
    exact Nat.mod_eq_of_lt (hroom.trans_lt hnumlt)
  have hlength : (shiftLeft1 remainder
      (numerator.getD (i / 8) 0 >>> UInt8.ofNat (i % 8) &&& 1)).length = denominator.length := by
    rw [length_shiftLeft1, hremainder, hdenominator]
  have hdvd : 2 ^ (i + 1) ∣ ofLeBytes quotient := by
    have hfst := congrArg Prod.fst hvalue
    exact ⟨_, hfst.trans (mul_comm _ _)⟩
  have hge := geBytes_reverse_iff hlength
  rw [hshifted] at hge
  rw [Bitcrab.divideBit]
  rw [set_shiftLeft1]
  rw [ShiftSubtract.round] at hround
  split_ifs with hcond
  · have hle := hge.mp hcond
    rw [if_pos hle] at hround
    refine ⟨by simpa using hquotient, ?_, ?_⟩
    · rw [length_subBytes hlength, length_shiftLeft1, hremainder]
    · rw [ofLeBytes_setBit (by omega) hdvd, ofLeBytes_subBytes hlength (by rwa [hshifted]),
        hshifted, ← hround]
  · have hlt : ¬ ofLeBytes denominator ≤
        2 * ofLeBytes remainder + ofLeBytes numerator / 2 ^ i % 2 := fun hle => hcond (hge.mpr hle)
    rw [if_neg hlt] at hround
    refine ⟨hquotient, ?_, ?_⟩
    · rw [length_shiftLeft1, hremainder]
    · rw [hshifted, ← hround]

end Divide

/-- The quotient and the remainder after the first `k` of the 256 rounds. -/
def divideRounds (numerator denominator : List UInt8) : ℕ → List UInt8 × List UInt8
  | 0 => (List.replicate 32 0, List.replicate 32 0)
  | k + 1 => divideBit numerator denominator (255 - k) (divideRounds numerator denominator k).1
      (divideRounds numerator denominator k).2

section Rounds

variable {numerator denominator : List UInt8} {k : ℕ}

/-- The rounds are those of the loop. -/
lemma divideBits_divideRounds (hk : k ≤ 256) :
    divideBits numerator denominator (256 - k) (divideRounds numerator denominator k).1
        (divideRounds numerator denominator k).2 =
      divideBits numerator denominator 256 (List.replicate 32 0) (List.replicate 32 0) := by
  induction k with
  | zero => rfl
  | succ k ih =>
    have hsucc : 256 - k = 255 - k + 1 := by omega
    have hpred : 256 - (k + 1) = 255 - k := by omega
    rw [← ih (Nat.le_of_succ_le hk), hsucc, hpred]
    rfl

lemma DivideState.divideRounds (hnumerator : numerator.length = 32)
    (hdenominator : denominator.length = 32) (hpos : 0 < ofLeBytes denominator) (hk : k ≤ 256) :
    DivideState numerator denominator (256 - k) (divideRounds numerator denominator k).1
      (divideRounds numerator denominator k).2 := by
  induction k with
  | zero =>
    have hlt := ofLeBytes_lt numerator
    rw [hnumerator] at hlt
    refine ⟨List.length_replicate, List.length_replicate, ?_⟩
    rw [partialQuotient_of_lt (hlt.trans_le (by decide))]
    exact congrArg (fun n => (n, n)) (ofLeBytes_replicate_zero 32)
  | succ k ih =>
    have hstate := ih (Nat.le_of_succ_le hk)
    have hsucc : 256 - k = 255 - k + 1 := by omega
    have hpred : 256 - (k + 1) = 255 - k := by omega
    rw [hsucc] at hstate
    rw [hpred]
    exact hstate.divideBit hnumerator hdenominator hpos (by omega)

/-- The quotient of the 256 rounds. -/
lemma ofLeBytes_divideBits (hnumerator : numerator.length = 32)
    (hdenominator : denominator.length = 32) (hpos : 0 < ofLeBytes denominator) :
    (divideBits numerator denominator 256 (List.replicate 32 0) (List.replicate 32 0)).length = 32 ∧
      ofLeBytes (divideBits numerator denominator 256 (List.replicate 32 0)
        (List.replicate 32 0)) = ofLeBytes numerator / ofLeBytes denominator := by
  obtain ⟨hlength, -, hvalue⟩ :=
    DivideState.divideRounds hnumerator hdenominator hpos (le_refl 256)
  rw [Nat.sub_self, partialQuotient_zero, Prod.mk.injEq] at hvalue
  rw [← divideBits_divideRounds (le_refl 256)]
  exact ⟨hlength, hvalue.1⟩

/-- The top bit of the remainder is clear whenever it is shifted out. -/
lemma topBit_divideRounds (hnumerator : numerator.length = 32)
    (hdenominator : denominator.length = 32) (hpos : 0 < ofLeBytes denominator) (hk : k < 256) :
    (divideRounds numerator denominator k).2.getD 31 0 >>> 7 = 0 := by
  obtain ⟨-, hlength, hvalue⟩ :=
    DivideState.divideRounds hnumerator hdenominator hpos hk.le
  have hnumlt := ofLeBytes_lt numerator
  rw [hnumerator] at hnumlt
  have hsucc : 256 - k = 255 - k + 1 := by omega
  have hroom := partialQuotient_snd_le (n := ofLeBytes numerator) (d := ofLeBytes denominator)
    (i := 255 - k)
  rw [← hsucc, ← hvalue] at hroom
  have hbyte := toNat_getD (divideRounds numerator denominator k).2 31
  apply UInt8.toNat_inj.mp
  rw [UInt8.toNat_shiftRight, hbyte, Nat.shiftRight_eq_div_pow]
  change _ / 2 ^ 7 = 0
  have hsmall : ofLeBytes (divideRounds numerator denominator k).2 / 256 ^ 31 < 128 := by
    rw [Nat.div_lt_iff_lt_mul (by decide)]
    have hroom' : 2 * ofLeBytes (divideRounds numerator denominator k).2 < 256 ^ 32 := by omega
    omega
  omega

end Rounds

/-! ### The work -/

/-- No target is the greatest number there is, so one more than a target does not wrap. -/
lemma toNat_bitsToTarget_succ_lt (bits : UInt32) :
    (BlockHeader.bitsToTarget bits).toNat + 1 < 256 ^ 32 := by
  have hlt := (BlockHeader.bitsToTarget bits).toNat_lt
  rw [BlockHeader.toNat_bitsToTarget] at hlt ⊢
  split_ifs at hlt ⊢ with hexponent
  · decide
  · have hmantissa : BlockHeader.mantissaOf bits < 2 ^ 24 := Nat.mod_lt _ (by decide)
    generalize BlockHeader.exponentOf bits - 3 = e at hlt ⊢
    cases e with
    | zero =>
      rw [pow_zero, mul_one]
      omega
    | succ e =>
      have hdvd : 256 ∣ BlockHeader.mantissaOf bits * 256 ^ (e + 1) % 256 ^ 32 := by
        refine (Nat.dvd_mod_iff (dvd_pow_self 256 (by decide))).mpr ?_
        exact Dvd.dvd.mul_left (dvd_pow_self 256 (Nat.succ_ne_zero e)) _
      omega

/-- The numerator of the division: the complement of the target. -/
def workNumerator (bits : UInt32) : List UInt8 :=
  (BlockHeader.bitsToTarget bits).bytes.toList.map fun b => ~~~b

/-- The denominator of the division: the target and one. -/
def workDenominator (bits : UInt32) : List UInt8 :=
  addCarry (BlockHeader.bitsToTarget bits).bytes.toList 1

lemma length_workNumerator (bits : UInt32) : (workNumerator bits).length = 32 := by
  simp [workNumerator]

lemma length_workDenominator (bits : UInt32) : (workDenominator bits).length = 32 := by
  simp [workDenominator, length_addCarry]

lemma ofLeBytes_workDenominator (bits : UInt32) :
    ofLeBytes (workDenominator bits) = (BlockHeader.bitsToTarget bits).toNat + 1 := by
  rw [workDenominator, ofLeBytes_addCarry_one, List.Vector.toList_length]
  exact Nat.mod_eq_of_lt (toNat_bitsToTarget_succ_lt bits)

lemma ofLeBytes_workNumerator (bits : UInt32) :
    ofLeBytes (workNumerator bits) + ofLeBytes (workDenominator bits) = 2 ^ 256 := by
  have hnot := ofLeBytes_map_not (BlockHeader.bitsToTarget bits).bytes.toList
  rw [List.Vector.toList_length] at hnot
  rw [ofLeBytes_workDenominator, workNumerator]
  exact hnot

/-- The work for a number as a target. -/
def expectedHashes (target : ℕ) : ℕ := if target = 0 then 0 else 2 ^ 256 / (target + 1)

/-- The work is the number of hashes that are expected. -/
lemma toNat_calculateBlockWork (bits : UInt32) :
    (calculateBlockWork bits).toNat = expectedHashes (BlockHeader.bitsToTarget bits).toNat := by
  rw [calculateBlockWork, expectedHashes]
  by_cases hzero : (BlockHeader.bitsToTarget bits).toNat = 0
  · rw [if_pos hzero, if_pos (Digest.isZero_iff_toNat_eq_zero.mpr hzero)]
    exact ofLeBytes_replicate_zero 32
  · rw [if_neg hzero, if_neg (fun h => hzero (Digest.isZero_iff_toNat_eq_zero.mp h))]
    have hden := ofLeBytes_workDenominator bits
    have hnum := ofLeBytes_workNumerator bits
    have hpos : 0 < ofLeBytes (workDenominator bits) := by omega
    obtain ⟨hlength, hquotient⟩ := ofLeBytes_divideBits (length_workNumerator bits)
      (length_workDenominator bits) hpos
    have hsum : ofLeBytes (workNumerator bits) / ofLeBytes (workDenominator bits) + 1 =
        2 ^ 256 / ofLeBytes (workDenominator bits) := by
      rw [← Nat.add_div_right _ hpos, hnum]
    have hsmall : 2 ^ 256 / ofLeBytes (workDenominator bits) < 256 ^ 32 := by
      have hhalf : 2 ^ 256 / ofLeBytes (workDenominator bits) ≤ 2 ^ 256 / 2 :=
        Nat.div_le_div_left (by omega) (by decide)
      exact hhalf.trans_lt (by decide)
    change ofLeBytes (toBytes32 (addCarry (divideBits (workNumerator bits) (workDenominator bits)
      256 (List.replicate 32 0) (List.replicate 32 0)) 1)).toList = _
    rw [toList_toBytes32 (by rw [length_addCarry, hlength]), ofLeBytes_addCarry_one, hlength,
      hquotient, hsum, Nat.mod_eq_of_lt hsmall, hden]

/-- The work as a hash, computed by dividing numbers. -/
lemma calculateBlockWork_eq_division : calculateBlockWork = fun bits =>
    ⟨⟨leBytes 32 (expectedHashes (ofLeBytes (BlockHeader.bitsToTarget bits).bytes.toList)),
      length_leBytes _ _⟩⟩ := by
  funext bits
  apply Digest.toNat_injective
  have hlt := (calculateBlockWork bits).toNat_lt
  rw [toNat_calculateBlockWork] at hlt
  rw [toNat_calculateBlockWork]
  exact (ofLeBytes_leBytes 32 _ hlt).symm

lemma toNat_addChainWork (a b : Hash256) :
    (addChainWork a b).toNat = (a.toNat + b.toNat) % 2 ^ 256 := by
  have hlength : a.bytes.toList.length = b.bytes.toList.length := by simp
  have hsum : (addBytes a.bytes.toList b.bytes.toList 0).length = 32 := by
    rw [length_addBytes hlength, List.Vector.toList_length]
  rw [addChainWork, Digest.toNat, toList_toBytes32 hsum, ofLeBytes_addBytes hlength (by decide),
    List.Vector.toList_length]
  rfl

lemma expectedHashes_antitone {target target' : ℕ} (hpos : target ≠ 0) (hle : target ≤ target') :
    expectedHashes target' ≤ expectedHashes target := by
  rw [expectedHashes, expectedHashes, if_neg hpos, if_neg (by omega)]
  exact Nat.div_le_div_left (by omega) (by omega)

lemma expectedHashes_pos {target : ℕ} (hpos : target ≠ 0) (hlt : target < 2 ^ 256) :
    0 < expectedHashes target := by
  rw [expectedHashes, if_neg hpos]
  exact Nat.div_pos (by omega) (by omega)

/-- The work is the quotient of the number of hashes and the number of those at or below the target;
no bit is lost on the way. Easier targets give less work, and every block adds to the work of its
chain. -/
theorem calculateBlockWork_exact {bits : UInt32}
    (h : (BlockHeader.bitsToTarget bits).toNat ≠ 0) :
    (calculateBlockWork bits).toNat = 2 ^ 256 / ((BlockHeader.bitsToTarget bits).toNat + 1) ∧
      (∀ k < 256,
        (divideRounds (workNumerator bits) (workDenominator bits) k).2.getD 31 0 >>> 7 = 0) ∧
      (∀ bits' : UInt32,
        (BlockHeader.bitsToTarget bits).toNat ≤ (BlockHeader.bitsToTarget bits').toNat →
          (calculateBlockWork bits').le (calculateBlockWork bits) = true) ∧
      (∀ a b : Hash256, (addChainWork a b).toNat = (a.toNat + b.toNat) % 2 ^ 256 ∧
        a.cmp b = compare a.toNat b.toNat) ∧
      ∀ parent child : BlockIndex, child.header.bits = bits →
        child.chainWork = addChainWork parent.chainWork (calculateBlockWork bits) →
        parent.chainWork.toNat + (calculateBlockWork bits).toNat < 2 ^ 256 →
          child.chainWork.gt parent.chainWork = true := by
  have hwork := toNat_calculateBlockWork bits
  refine ⟨?_, ?_, ?_, fun a b => ⟨toNat_addChainWork a b, Digest.cmp_eq_compare a b⟩, ?_⟩
  · rw [hwork, expectedHashes, if_neg h]
  · intro k hk
    refine topBit_divideRounds (length_workNumerator bits) (length_workDenominator bits) ?_ hk
    rw [ofLeBytes_workDenominator]
    omega
  · intro bits' hle
    rw [Digest.le_iff_toNat_le, hwork, toNat_calculateBlockWork]
    exact expectedHashes_antitone h hle
  · intro parent child _ hchild hsum
    have hpos := expectedHashes_pos h (BlockHeader.bitsToTarget bits).toNat_lt
    rw [Digest.gt_iff, hchild, toNat_addChainWork, Nat.mod_eq_of_lt hsum, hwork]
    omega

namespace Sample

/-- The target of the first blocks. -/
theorem calculateBlockWork_firstBits :
    (calculateBlockWork 0x1d00ffff).toNat = 0x100010001 :=
  (@calculateBlockWork_exact 0x1d00ffff (by decide +kernel)).1.trans (by decide +kernel)

end Sample

end Bitcrab
