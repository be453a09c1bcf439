import Bitcrab.Consensus.Pow
import Bitcrab.Lib.Limbs
import Bitcrab.Types.CompactForms

/-!
# The bounds of a retarget

The new target is the old one, scaled by the clamped timespan, clamped to the limit and truncated.
-/

namespace Bitcrab

open Bytes Truncation BlockHeader

/-! ### Multiplying and dividing -/

/-- The limbs of a multiple of four bytes. -/
lemma ofDigits_limbs {bs : List UInt8} {n : ℕ} (h : bs.length = 4 * n) :
    (limbs bs).length = n ∧ (∀ x ∈ limbs bs, x < 2 ^ 32) ∧
      Nat.ofDigits (2 ^ 32) (limbs bs) = ofLeBytes bs := by
  induction n generalizing bs with
  | zero =>
    obtain rfl := List.eq_nil_of_length_eq_zero h
    exact ⟨rfl, by simp [limbs], rfl⟩
  | succ n ih =>
    match bs, h with
    | a :: b :: c :: d :: bs, h =>
      have hrest : bs.length = 4 * n := by
        simp only [List.length_cons] at h
        omega
      obtain ⟨hlen, hlt, hvalue⟩ := ih hrest
      have hlimb := ofLeBytes_lt [a, b, c, d]
      have hsplit := ofLeBytes_append [a, b, c, d] bs
      rw [List.length_cons, List.length_cons, List.length_cons, List.length_singleton]
        at hlimb hsplit
      refine ⟨by rw [limbs, List.length_cons, hlen], List.forall_mem_cons.mpr ⟨hlimb, hlt⟩, ?_⟩
      rw [limbs, Nat.ofDigits_cons, hvalue]
      exact hsplit.symm

lemma mulLimbs_eq (m : ℕ) (xs : List ℕ) (carry : ℕ) :
    mulLimbs m xs carry = Limbs.mul (2 ^ 32) m xs carry := by
  induction xs generalizing carry with
  | nil => rfl
  | cons x xs ih => rw [mulLimbs, Limbs.mul, ih]

lemma divLimbs_eq (d : ℕ) (xs : List ℕ) (remainder : ℕ) :
    divLimbs d xs remainder = Limbs.div (2 ^ 32) d xs remainder := by
  induction xs generalizing remainder with
  | nil => rfl
  | cons x xs ih => rw [divLimbs, Limbs.div, ih]

/-- The bytes of limbs. -/
lemma ofLeBytes_flatMap_leBytes {xs : List ℕ} (h : ∀ x ∈ xs, x < 2 ^ 32) :
    ofLeBytes (xs.flatMap (leBytes 4)) = Nat.ofDigits (2 ^ 32) xs := by
  induction xs with
  | nil => rfl
  | cons x xs ih =>
    obtain ⟨hx, hxs⟩ := List.forall_mem_cons.mp h
    rw [List.flatMap_cons, ofLeBytes_append, ofLeBytes_leBytes 4 x hx, length_leBytes, ih hxs,
      Nat.ofDigits_cons]
    rfl

/-- The limbs of the quotient. -/
lemma ofDigits_quotient (target : Hash256) (mul : UInt64) {div : UInt64} (hdiv : 0 < div.toNat) :
    let expanded := limbs target.bytes.toList ++ List.replicate 8 0
    let quotient := (divLimbs div.toNat (mulLimbs mul.toNat expanded 0).reverse 0).reverse
    quotient.length = 16 ∧ (∀ x ∈ quotient, x < 2 ^ 32) ∧
      Nat.ofDigits (2 ^ 32) quotient = target.toNat * mul.toNat / div.toNat := by
  intro expanded quotient
  have hbase : 0 < 2 ^ 32 := by decide
  obtain ⟨hlen, -, hvalue⟩ :=
    ofDigits_limbs (show target.bytes.toList.length = 4 * 8 by simp)
  have hexpanded : expanded.length = 16 := by simp [expanded, hlen]
  have hproduct : Nat.ofDigits (2 ^ 32) (mulLimbs mul.toNat expanded 0) =
      target.toNat * mul.toNat := by
    have hlt : target.toNat * mul.toNat < 256 ^ 32 * 2 ^ 64 :=
      Nat.mul_lt_mul'' target.toNat_lt mul.toNat_lt
    rw [mulLimbs_eq, Limbs.ofDigits_mul hbase, hexpanded, add_zero,
      Nat.ofDigits_append_replicate_zero, hvalue]
    exact Nat.mod_eq_of_lt (hlt.trans (by decide))
  have hlimbs : ∀ x ∈ (mulLimbs mul.toNat expanded 0).reverse, x < 2 ^ 32 := by
    intro x hx
    rw [mulLimbs_eq] at hx
    exact Limbs.lt_of_mem_mul hbase x (List.mem_reverse.mp hx)
  have hquotient : quotient = (Limbs.div (2 ^ 32) div.toNat
      (mulLimbs mul.toNat expanded 0).reverse 0).reverse :=
    congrArg List.reverse (divLimbs_eq _ _ _)
  refine ⟨by simp [hquotient, mulLimbs_eq, hexpanded], ?_, ?_⟩
  · intro x hx
    rw [hquotient, List.mem_reverse] at hx
    exact Limbs.lt_of_mem_div hbase x hx
  · rw [hquotient, Limbs.ofDigits_div hdiv hlimbs hdiv, List.reverse_reverse, hproduct, zero_mul,
      add_zero]

/-- The scaled target, saturated at the top of the range. -/
theorem toNat_multiplyAndDivide (target : Hash256) (mul : UInt64) {div : UInt64}
    (hdiv : 0 < div.toNat) :
    (multiplyAndDivide target mul div).toNat =
      min (target.toNat * mul.toNat / div.toNat) (256 ^ 32 - 1) := by
  obtain ⟨hlen, hlt, hvalue⟩ := ofDigits_quotient target mul hdiv
  rw [multiplyAndDivide]
  generalize (divLimbs div.toNat (mulLimbs mul.toNat
    (limbs target.bytes.toList ++ List.replicate 8 0) 0).reverse 0).reverse = quotient
    at hlen hlt hvalue
  rw [← hvalue]
  have hdrop : (quotient.drop 8).any (· != 0) = true ↔ ∃ x ∈ quotient.drop 8, x ≠ 0 := by simp
  split_ifs with hoverflow
  · have hle : (2 ^ 32) ^ 8 ≤ Nat.ofDigits (2 ^ 32) quotient :=
      Limbs.pow_le_ofDigits_of_exists_ne_zero (by decide) (by omega) (hdrop.mp hoverflow)
    rw [min_eq_right (by omega)]
    decide
  · rw [hdrop] at hoverflow
    push Not at hoverflow
    have hfits : Nat.ofDigits (2 ^ 32) (quotient.take 8) = Nat.ofDigits (2 ^ 32) quotient :=
      Limbs.ofDigits_take_of_forall_eq_zero (by omega) hoverflow
    have hlimbs : ∀ x ∈ quotient.take 8, x < 2 ^ 32 := fun x hx => hlt x (List.mem_of_mem_take hx)
    have hbytes := ofLeBytes_flatMap_leBytes hlimbs
    have hlength : ((quotient.take 8).flatMap (leBytes 4)).length = 32 := by
      simp [List.length_flatMap, hlen]
    have hlast := ofLeBytes_lt ((quotient.take 8).flatMap (leBytes 4))
    rw [hlength, hbytes, hfits] at hlast
    rw [min_eq_left (by omega), Digest.toNat, toList_toBytes32 hlength, hbytes, hfits]

/-! ### The clamped timespan -/

/-- Comparing as `i64` values: the upper half is negative. -/
lemma toInt64_lt_iff (x y : UInt64) :
    x.toInt64 < y.toInt64 ↔
      (if x.toNat < 2 ^ 63 then (x.toNat : ℤ) else x.toNat - 2 ^ 64) <
        if y.toNat < 2 ^ 63 then (y.toNat : ℤ) else y.toNat - 2 ^ 64 := by
  have hvalue : ∀ z : UInt64, z.toInt64.toInt =
      if z.toNat < 2 ^ 63 then (z.toNat : ℤ) else z.toNat - 2 ^ 64 := by
    intro z
    have hcond : z.toInt64.toInt = if 2 * z.toNat < 2 ^ 64 then (z.toNat : ℤ)
        else (z.toNat : ℤ) - (2 ^ 64 : ℕ) := BitVec.toInt_eq_toNat_cond z.toBitVec
    rw [hcond]
    split_ifs
    all_goals omega
  rw [Int64.lt_iff_toInt_lt, hvalue, hvalue]

/-- The clamped timespan: a product that is negative as an `i64` is below every timespan. -/
lemma toNat_clampedTimespan (time firstBlockTime : UInt32) (powTargetTimespan : UInt64) :
    (clampedTimespan time firstBlockTime powTargetTimespan).toNat =
      if (powTargetTimespan * 4).toNat < 2 ^ 63 then
        min (max (time.toNat - firstBlockTime.toNat) (powTargetTimespan.toNat / 4))
          (powTargetTimespan * 4).toNat
      else (powTargetTimespan * 4).toNat := by
  have htime := time.toNat_lt
  have htimespan := powTargetTimespan.toNat_lt
  have hactual : (UInt64.ofNat (time.toNat - firstBlockTime.toNat)).toNat =
      time.toNat - firstBlockTime.toNat :=
    UInt64.toNat_ofNat_of_lt' ((Nat.sub_le _ _).trans_lt (htime.trans (by decide)))
  have hmin : (powTargetTimespan / 4).toNat = powTargetTimespan.toNat / 4 := by simp
  rw [← hactual, ← hmin]
  unfold clampedTimespan
  have hactual' : (UInt64.ofNat (time.toNat - firstBlockTime.toNat)).toNat < 2 ^ 63 := by omega
  have hmin' : (powTargetTimespan / 4).toNat < 2 ^ 63 := by omega
  dsimp only
  generalize UInt64.ofNat (time.toNat - firstBlockTime.toNat) = actual at hactual' ⊢
  generalize powTargetTimespan / 4 = low at hmin' ⊢
  generalize powTargetTimespan * 4 = high
  -- the lower bound first: neither of the two is negative
  obtain ⟨raised, hraised, hvalue⟩ : ∃ raised : UInt64,
      (if actual.toInt64 < low.toInt64 then low.toInt64 else actual.toInt64) = raised.toInt64 ∧
        raised.toNat = max actual.toNat low.toNat := by
    by_cases hlt : actual.toInt64 < low.toInt64
    · refine ⟨low, if_pos hlt, ?_⟩
      rw [toInt64_lt_iff, if_pos hactual', if_pos hmin'] at hlt
      omega
    · refine ⟨actual, if_neg hlt, ?_⟩
      rw [toInt64_lt_iff, if_pos hactual', if_pos hmin'] at hlt
      omega
  have hraised' : raised.toNat < 2 ^ 63 := by omega
  rw [hraised, ← hvalue]
  by_cases hgt : raised.toInt64 > high.toInt64
  · rw [if_pos hgt, UInt64.toUInt64_toInt64]
    rw [gt_iff_lt, toInt64_lt_iff, if_pos hraised'] at hgt
    split_ifs at hgt ⊢
    · omega
    · rfl
  · rw [if_neg hgt, UInt64.toUInt64_toInt64]
    rw [gt_iff_lt, toInt64_lt_iff, if_pos hraised'] at hgt
    have hhigh := high.toNat_lt
    split_ifs at hgt ⊢
    · omega
    · omega

section Clamp

variable {time time' firstBlockTime firstBlockTime' : UInt32} {powTargetTimespan : UInt64}

/-- The clamped timespan is within its bounds, unless the upper one has wrapped below the lower
one. -/
lemma clampedTimespan_bounds (time firstBlockTime : UInt32)
    (hclamp : powTargetTimespan / 4 ≤ powTargetTimespan * 4) :
    powTargetTimespan.toNat / 4 ≤
        (clampedTimespan time firstBlockTime powTargetTimespan).toNat ∧
      (clampedTimespan time firstBlockTime powTargetTimespan).toNat ≤
        4 * powTargetTimespan.toNat := by
  have hlow : powTargetTimespan.toNat / 4 ≤ (powTargetTimespan * 4).toNat := by
    simpa using UInt64.le_iff_toNat_le.mp hclamp
  have hhigh : (powTargetTimespan * 4).toNat ≤ 4 * powTargetTimespan.toNat := by
    rw [UInt64.toNat_mul, mul_comm]
    exact Nat.mod_le _ _
  rw [toNat_clampedTimespan]
  split_ifs
  · omega
  · omega

lemma clampedTimespan_mono (htime : time ≤ time') (hfirst : firstBlockTime' ≤ firstBlockTime) :
    (clampedTimespan time firstBlockTime powTargetTimespan).toNat ≤
      (clampedTimespan time' firstBlockTime' powTargetTimespan).toNat := by
  rw [UInt32.le_iff_toNat_le] at htime hfirst
  rw [toNat_clampedTimespan, toNat_clampedTimespan]
  split_ifs
  · omega
  · exact le_rfl

end Clamp

/-! ### The new target -/

section Retarget

variable {indexPrev : BlockIndex} {firstBlockTime : UInt32} {params : ConsensusParams}

/-- The target of the new bits. -/
def nextTarget (indexPrev : BlockIndex) (firstBlockTime : UInt32) (params : ConsensusParams) : ℕ :=
  (bitsToTarget (calculateNextWorkRequired indexPrev firstBlockTime params)).toNat

/-- The scaled target before it is made compact. -/
def scaledTarget (indexPrev : BlockIndex) (firstBlockTime : UInt32) (params : ConsensusParams) :
    ℕ :=
  min (min ((bitsToTarget indexPrev.header.bits).toNat *
      (clampedTimespan indexPrev.header.time firstBlockTime params.powTargetTimespan).toNat /
        params.powTargetTimespan.toNat) (256 ^ 32 - 1))
    params.powLimit.toNat

/-- The new target is the scaled one, truncated. -/
lemma nextTarget_eq (hon : params.powNoRetargeting = false)
    (hpos : 0 < params.powTargetTimespan.toNat)
    (hlarge : 2 ^ 15 ≤ scaledTarget indexPrev firstBlockTime params) :
    nextTarget indexPrev firstBlockTime params =
      trunc 256 (2 ^ 23) (scaledTarget indexPrev firstBlockTime params) := by
  have hlimit : ∀ target limit : Hash256,
      (if target.gt limit then limit else target).toNat = min target.toNat limit.toNat := by
    intro target limit
    by_cases hgt : target.gt limit = true
    · rw [if_pos hgt, min_eq_right (Digest.gt_iff.mp hgt).le]
    · rw [if_neg hgt, min_eq_left (not_lt.mp (mt Digest.gt_iff.mpr hgt))]
  rw [nextTarget, calculateNextWorkRequired, if_neg (by simp [hon])]
  dsimp only
  have hscaled : scaledTarget indexPrev firstBlockTime params =
      (if (multiplyAndDivide (bitsToTarget indexPrev.header.bits)
            (clampedTimespan indexPrev.header.time firstBlockTime params.powTargetTimespan)
            params.powTargetTimespan).gt params.powLimit then params.powLimit
        else multiplyAndDivide (bitsToTarget indexPrev.header.bits)
            (clampedTimespan indexPrev.header.time firstBlockTime params.powTargetTimespan)
            params.powTargetTimespan).toNat := by
    rw [hlimit, toNat_multiplyAndDivide _ _ hpos, scaledTarget]
  rw [hscaled] at hlarge ⊢
  exact toNat_bitsToTarget_targetToBits hlarge

/-- The scaled target is within a quarter and four times the old one. -/
lemma scaledTarget_bounds (hpos : 0 < params.powTargetTimespan.toNat)
    (hdvd : 4 ∣ params.powTargetTimespan.toNat)
    (hclamp : params.powTargetTimespan / 4 ≤ params.powTargetTimespan * 4) :
    min ((bitsToTarget indexPrev.header.bits).toNat / 4) params.powLimit.toNat ≤
        scaledTarget indexPrev firstBlockTime params ∧
      scaledTarget indexPrev firstBlockTime params ≤
        4 * (bitsToTarget indexPrev.header.bits).toNat ∧
      scaledTarget indexPrev firstBlockTime params ≤ params.powLimit.toNat := by
  obtain ⟨hlow, hhigh⟩ := clampedTimespan_bounds indexPrev.header.time firstBlockTime hclamp
  have hlt := (bitsToTarget indexPrev.header.bits).toNat_lt
  rw [scaledTarget]
  generalize (bitsToTarget indexPrev.header.bits).toNat = old at hlt ⊢
  generalize (clampedTimespan indexPrev.header.time firstBlockTime params.powTargetTimespan).toNat =
    timespan at hlow hhigh ⊢
  obtain ⟨quarter, hquarter⟩ := hdvd
  rw [hquarter, Nat.mul_div_cancel_left quarter (by decide)] at hlow
  have hbelow : old / 4 ≤ old * timespan / params.powTargetTimespan.toNat := by
    calc old / 4 = old * quarter / (4 * quarter) := (Nat.mul_div_mul_right old 4 (by omega)).symm
      _ ≤ old * timespan / (4 * quarter) := Nat.div_le_div_right (Nat.mul_le_mul_left old hlow)
      _ = _ := by rw [hquarter]
  have habove : old * timespan / params.powTargetTimespan.toNat ≤ 4 * old := by
    apply Nat.div_le_of_le_mul
    calc old * timespan ≤ old * (4 * params.powTargetTimespan.toNat) :=
          Nat.mul_le_mul_left old hhigh
      _ = params.powTargetTimespan.toNat * (4 * old) := by ring
  omega

/-- The new target is within its bounds and follows the timestamps, unless the upper bound of the
timespan has wrapped below the lower one. -/
theorem nextTarget_bounds (hon : params.powNoRetargeting = false)
    (hpos : 0 < params.powTargetTimespan.toNat) (hdvd : 4 ∣ params.powTargetTimespan.toNat)
    (hclamp : params.powTargetTimespan / 4 ≤ params.powTargetTimespan * 4)
    (hold : 2 ^ 26 ≤ (bitsToTarget indexPrev.header.bits).toNat)
    (hlimit : (bitsToTarget indexPrev.header.bits).toNat ≤ params.powLimit.toNat) :
    nextTarget indexPrev firstBlockTime params ≤ params.powLimit.toNat ∧
    nextTarget indexPrev firstBlockTime params ≤
      4 * (bitsToTarget indexPrev.header.bits).toNat ∧
    keepLeading (min ((bitsToTarget indexPrev.header.bits).toNat / 4) params.powLimit.toNat) ≤
      nextTarget indexPrev firstBlockTime params ∧
    ∀ (indexPrev' : BlockIndex) (firstBlockTime' : UInt32),
      indexPrev'.header.bits = indexPrev.header.bits →
      indexPrev.header.time ≤ indexPrev'.header.time → firstBlockTime' ≤ firstBlockTime →
      nextTarget indexPrev firstBlockTime params ≤
        nextTarget indexPrev' firstBlockTime' params := by
  have hmono : Monotone (trunc 256 (2 ^ 23)) :=
    trunc_mono one_lt_base mantissaBound_pos base_dvd_mantissaBound
  obtain ⟨hlow, hfour, htop⟩ : min ((bitsToTarget indexPrev.header.bits).toNat / 4)
      params.powLimit.toNat ≤ scaledTarget indexPrev firstBlockTime params ∧ _ :=
    scaledTarget_bounds hpos hdvd hclamp
  have hlarge : 2 ^ 15 ≤ scaledTarget indexPrev firstBlockTime params := by omega
  have hnext := nextTarget_eq hon hpos hlarge
  have hle : trunc 256 (2 ^ 23) (scaledTarget indexPrev firstBlockTime params) ≤
      scaledTarget indexPrev firstBlockTime params := trunc_le _ _ _
  rw [hnext, keepLeading_eq_trunc]
  refine ⟨hle.trans htop, hle.trans hfour, hmono hlow, ?_⟩
  intro indexPrev' firstBlockTime' hbits htime hfirst
  have hscaled : scaledTarget indexPrev firstBlockTime params ≤
      scaledTarget indexPrev' firstBlockTime' params := by
    rw [scaledTarget, scaledTarget, hbits]
    exact min_le_min_right _ (min_le_min_right _
      (Nat.div_le_div_right (Nat.mul_le_mul_left _ (clampedTimespan_mono htime hfirst))))
  rw [nextTarget_eq hon hpos (hlarge.trans hscaled)]
  exact hmono hscaled

end Retarget

namespace Sample

/-- The parameters with retargeting and another timespan. -/
def retargetParams (powTargetTimespan : UInt64) : ConsensusParams :=
  { regtestParams.consensus with powNoRetargeting := false, powTargetTimespan }

/-- The last block of a period, with the target of the first blocks. -/
def retargetIndex (time : UInt32) : BlockIndex :=
  ⟨⟨1, default, default, time, 0x1d00ffff, 0⟩, 2015, Digest.zero, none, none⟩

/-- Two periods of two weeks, one of them longer by an hour. -/
theorem nextTarget_bounds_twoWeeks :
    nextTarget (retargetIndex 1209600) 0 (retargetParams 1209600) ≤
        (retargetParams 1209600).powLimit.toNat ∧
      nextTarget (retargetIndex 1209600) 0 (retargetParams 1209600) ≤
        nextTarget (retargetIndex 1213200) 0 (retargetParams 1209600) := by
  have hbounds : nextTarget (retargetIndex 1209600) 0 (retargetParams 1209600) ≤ _ ∧ _ :=
    nextTarget_bounds rfl (by decide) (by decide) (by decide) (by decide +kernel)
      (by decide +kernel)
  exact ⟨hbounds.1, hbounds.2.2.2 (retargetIndex 1213200) 0 rfl (by decide) (by decide)⟩

lemma nextTarget_wrapped :
    (bitsToTarget (retargetIndex 0).header.bits).toNat = 0xffff * 256 ^ 26 ∧
      nextTarget (retargetIndex 0) 0 (retargetParams 0x4000000000000000) = 0 := by
  decide +kernel

/-- Four times the timespan wraps to zero, and the new target is zero. -/
theorem nextTarget_lt_of_wrapped :
    (retargetParams 0x4000000000000000).powNoRetargeting = false ∧
      0 < (retargetParams 0x4000000000000000).powTargetTimespan.toNat ∧
      4 ∣ (retargetParams 0x4000000000000000).powTargetTimespan.toNat ∧
      2 ^ 26 ≤ (bitsToTarget (retargetIndex 0).header.bits).toNat ∧
      (bitsToTarget (retargetIndex 0).header.bits).toNat ≤
        (retargetParams 0x4000000000000000).powLimit.toNat ∧
      nextTarget (retargetIndex 0) 0 (retargetParams 0x4000000000000000) <
        keepLeading (min ((bitsToTarget (retargetIndex 0).header.bits).toNat / 4)
          (retargetParams 0x4000000000000000).powLimit.toNat) := by
  obtain ⟨hold, hzero⟩ := nextTarget_wrapped
  refine ⟨rfl, by decide, by decide, by rw [hold]; decide, by rw [hold]; decide, ?_⟩
  have hone : Representable 256 (2 ^ 23) 1 := ⟨1, 0, by decide, rfl⟩
  rw [hzero, keepLeading_eq_trunc]
  exact le_trunc one_lt_base mantissaBound_pos base_dvd_mantissaBound hone
    (by rw [hold]; decide)

end Sample

end Bitcrab
