import Bitcrab.Types.CompactTarget

/-!
# The compact forms of targets

The conversions agree with the ones of the reference implementation for every exponent but 1 and 2,
and for these the targets below 2¹⁵ do not come back.
-/

namespace Bitcrab

open Truncation

namespace BlockHeader

/-- What the compact form stands for: the mantissa without the bit of its sign, scaled by a power of
256, or shifted right by whole bytes. -/
def setCompact (bits : UInt32) : ℕ :=
  let word := bits.toNat % 2 ^ 23
  if exponentOf bits < 3 then word / 256 ^ (3 - exponentOf bits)
  else word * 256 ^ (exponentOf bits - 3)

/-- A number with all but its leading bytes zeroed: three of them, or two when the first is at least
`0x80`. -/
def keepLeading (n : ℕ) : ℕ :=
  let size := Nat.log 256 n + 1
  let kept := if 0x80 ≤ n / 256 ^ (size - 1) then 2 else 3
  n / 256 ^ (size - kept) * 256 ^ (size - kept)

/-- Zeroing all but the leading bytes truncates to a mantissa of 23 bits. -/
lemma keepLeading_eq_trunc (n : ℕ) : keepLeading n = trunc 256 (2 ^ 23) n := by
  suffices hshift : shift 256 (2 ^ 23) n =
      Nat.log 256 n + 1 - if 0x80 ≤ n / 256 ^ (Nat.log 256 n + 1 - 1) then 2 else 3 by
    rw [keepLeading, trunc, mantissa, hshift]
  rw [Nat.add_sub_cancel]
  obtain rfl | hne := eq_or_ne n 0
  · rfl
  have hlow := Nat.pow_log_le_self 256 hne
  have hhigh := Nat.lt_pow_succ_log_self one_lt_base n
  generalize Nat.log 256 n = size at hlow hhigh ⊢
  rw [shift_eq_iff one_lt_base mantissaBound_pos]
  have hscale : 0 < 256 ^ size := Nat.pow_pos (by decide)
  rw [pow_succ] at hhigh
  by_cases htop : 0x80 ≤ n / 256 ^ size
  · rw [if_pos htop]
    have hbound : 0x80 * 256 ^ size ≤ n := (Nat.le_div_iff_mul_le hscale).mp htop
    obtain _ | _ | i := size
    · omega
    · omega
    · rw [show i + 1 + 1 + 1 - 2 = i + 1 by omega, Nat.add_sub_cancel, pow_succ]
      rw [pow_succ, pow_succ] at hbound hhigh
      omega
  · rw [if_neg htop]
    have hbound : n < 0x80 * 256 ^ size := (Nat.div_lt_iff_lt_mul hscale).mp (by omega)
    obtain _ | _ | _ | i := size
    · omega
    · omega
    · omega
    · rw [show i + 1 + 1 + 1 + 1 - 3 = i + 1 by omega, Nat.add_sub_cancel, pow_succ]
      rw [pow_succ, pow_succ, pow_succ] at hlow hbound
      omega

lemma keepLeading_le (n : ℕ) : keepLeading n ≤ n :=
  (keepLeading_eq_trunc n).trans_le (trunc_le _ _ n)

/-- The conversion agrees with the reference but for a mantissa that should be shifted right. -/
lemma bitsToTarget_eq_setCompact_iff {bits : UInt32} (hsign : bits &&& 0x00800000 = 0)
    (hfits : setCompact bits < 2 ^ 256) :
    (bitsToTarget bits).toNat = setCompact bits ↔
      ¬ ((exponentOf bits = 1 ∨ exponentOf bits = 2) ∧ mantissaOf bits ≠ 0) := by
  have hword : bits.toNat % 2 ^ 23 = mantissaOf bits := by
    rw [and_signBit_eq_zero_iff] at hsign
    rw [mantissaOf]
    omega
  have hmantissa : mantissaOf bits < 2 ^ 23 := hword ▸ Nat.mod_lt _ (by decide)
  rw [setCompact, hword] at hfits ⊢
  rw [toNat_bitsToTarget]
  generalize mantissaOf bits = value at hmantissa hfits ⊢
  have hfit : value % 256 ^ 32 = value := Nat.mod_eq_of_lt (hmantissa.trans (by decide))
  generalize exponentOf bits = exponent at hfits ⊢
  obtain _ | _ | _ | e := exponent
  · simp
    omega
  · rw [if_neg (by decide), if_pos (by decide), Nat.zero_add, Nat.sub_eq_zero_of_le (by decide),
      pow_zero, mul_one, hfit]
    omega
  · rw [if_neg (by decide), if_pos (by decide), Nat.zero_add, Nat.sub_eq_zero_of_le (by decide),
      pow_zero, mul_one, hfit]
    omega
  · have hpower : e + 1 + 1 + 1 - 3 = e := by omega
    rw [if_neg (by omega), hpower] at hfits ⊢
    rw [if_neg (by omega), Nat.mod_eq_of_lt (by simpa using hfits)]
    omega

section Targets

variable {target : Hash256}

/-- Zero comes back. -/
lemma toNat_bitsToTarget_of_eq_zero (h : target.toNat = 0) :
    (bitsToTarget (targetToBits target)).toNat = 0 := by
  rw [targetToBits_of_toNat_eq_zero h, toNat_bitsToTarget]
  rfl

/-- A smaller target than 2¹⁵ comes back greater, with the mantissa where it stood. -/
lemma exists_toNat_bitsToTarget_of_lt (hne : target.toNat ≠ 0) (h : target.toNat < 2 ^ 15) :
    (exponentOf (targetToBits target) = 1 ∨ exponentOf (targetToBits target) = 2) ∧
      target.toNat < (bitsToTarget (targetToBits target)).toNat ∧
      2 ^ 15 ≤ (bitsToTarget (targetToBits target)).toNat := by
  obtain ⟨exponent, hsmall, hle, hlt, hbits⟩ := exists_toNat_targetToBits_of_lt hne h
  obtain ⟨hexponent, hmantissa⟩ := exponentOf_mantissaOf hbits (by omega)
  have hvalue : (bitsToTarget (targetToBits target)).toNat =
      target.toNat * 256 ^ (3 - exponent) := by
    have hscale : exponent - 3 = 0 := by omega
    rw [toNat_bitsToTarget, hexponent, hmantissa, if_neg (by omega), hscale, pow_zero, mul_one]
    exact Nat.mod_eq_of_lt (hlt.trans (by decide : 2 ^ 23 < 256 ^ 32))
  rw [hexponent, hvalue]
  refine ⟨hsmall, ?_, hle⟩
  obtain rfl | rfl := hsmall
  · omega
  · omega

/-- Exactly the targets from 2¹⁵ on, and zero, come back truncated. -/
lemma toNat_bitsToTarget_eq_iff :
    (bitsToTarget (targetToBits target)).toNat = keepLeading target.toNat ↔
      target.toNat = 0 ∨ 2 ^ 15 ≤ target.toNat := by
  rw [keepLeading_eq_trunc]
  constructor
  · intro heq
    by_contra h
    push Not at h
    obtain ⟨-, hgt, -⟩ := exists_toNat_bitsToTarget_of_lt h.1 h.2
    have hle := trunc_le 256 (2 ^ 23) target.toNat
    omega
  · rintro (hzero | hle)
    · rw [toNat_bitsToTarget_of_eq_zero hzero, hzero]
      rfl
    · exact toNat_bitsToTarget_targetToBits hle

/-- Exactly these do not come back greater. -/
lemma toNat_bitsToTarget_le_iff :
    (bitsToTarget (targetToBits target)).toNat ≤ target.toNat ↔
      target.toNat = 0 ∨ 2 ^ 15 ≤ target.toNat := by
  constructor
  · intro hle
    by_contra h
    push Not at h
    obtain ⟨-, hgt, -⟩ := exists_toNat_bitsToTarget_of_lt h.1 h.2
    omega
  · intro h
    rw [toNat_bitsToTarget_eq_iff.mpr h]
    exact keepLeading_le _

/-- The compact form of a target that is read back. -/
lemma targetToBits_bitsToTarget_of_le (h : 2 ^ 15 ≤ target.toNat) :
    targetToBits (bitsToTarget (targetToBits target)) = targetToBits target := by
  have hback := toNat_bitsToTarget_targetToBits h
  have hgrid : Representable 256 (2 ^ 23) (2 ^ 15) := ⟨2 ^ 15, 0, by decide, by decide⟩
  have hle : 2 ^ 15 ≤ (bitsToTarget (targetToBits target)).toNat := by
    rw [hback]
    exact le_trunc one_lt_base mantissaBound_pos base_dvd_mantissaBound hgrid h
  obtain ⟨-, hbits⟩ := toNat_targetToBits_of_le h
  obtain ⟨-, hbits'⟩ := toNat_targetToBits_of_le hle
  apply UInt32.toNat_inj.mp
  rw [hbits', hbits, hback, shift_trunc one_lt_base mantissaBound_pos base_dvd_mantissaBound,
    mantissa_trunc one_lt_base mantissaBound_pos base_dvd_mantissaBound]

/-- Of the compact forms of targets, those with an exponent other than 1 and 2 are read back. -/
lemma targetToBits_bitsToTarget_iff {bits : UInt32} (h : bits ∈ Set.range targetToBits) :
    targetToBits (bitsToTarget bits) = bits ↔ ¬ (exponentOf bits = 1 ∨ exponentOf bits = 2) := by
  obtain ⟨target, rfl⟩ := h
  obtain hle | hlt := le_or_gt (2 ^ 15) target.toNat
  · obtain ⟨-, hbits⟩ := toNat_targetToBits_of_le hle
    have hmantissa : mantissa 256 (2 ^ 23) target.toNat < 2 ^ 23 :=
      mantissa_lt one_lt_base mantissaBound_pos _
    obtain ⟨hexponent, -⟩ := exponentOf_mantissaOf hbits (by omega)
    rw [hexponent]
    exact iff_of_true (targetToBits_bitsToTarget_of_le hle) (by omega)
  obtain hzero | hne := eq_or_ne target.toNat 0
  · have hback := targetToBits_of_toNat_eq_zero (toNat_bitsToTarget_of_eq_zero hzero)
    rw [hback, targetToBits_of_toNat_eq_zero hzero]
    decide
  · obtain ⟨hexponent, -, hle⟩ := exists_toNat_bitsToTarget_of_lt hne hlt
    refine iff_of_false (fun heq => ?_) (not_not.mpr hexponent)
    obtain ⟨-, hbits⟩ := toNat_targetToBits_of_le hle
    rw [heq] at hbits
    rw [exponentOf] at hexponent
    omega

end Targets

/-- The conversions and the reference agree exactly where no mantissa has to be shifted right: for
the exponents other than 1 and 2, and for zero and the targets from 2¹⁵ on. -/
theorem compactTarget_agrees_iff (bits : UInt32) (target : Hash256) :
    (bits &&& 0x00800000 = 0 → setCompact bits < 2 ^ 256 →
      ((bitsToTarget bits).toNat = setCompact bits ↔
        ¬ ((exponentOf bits = 1 ∨ exponentOf bits = 2) ∧ mantissaOf bits ≠ 0))) ∧
    (((bitsToTarget (targetToBits target)).toNat = keepLeading target.toNat ↔
        target.toNat = 0 ∨ 2 ^ 15 ≤ target.toNat) ∧
      ((bitsToTarget (targetToBits target)).toNat ≤ target.toNat ↔
        target.toNat = 0 ∨ 2 ^ 15 ≤ target.toNat)) ∧
    (bits ∈ Set.range targetToBits → (targetToBits (bitsToTarget bits) = bits ↔
      ¬ (exponentOf bits = 1 ∨ exponentOf bits = 2))) :=
  ⟨fun hsign hfits => bitsToTarget_eq_setCompact_iff hsign hfits,
    ⟨toNat_bitsToTarget_eq_iff, toNat_bitsToTarget_le_iff⟩,
    fun h => targetToBits_bitsToTarget_iff h⟩

end BlockHeader

namespace Sample

open BlockHeader

/-- The target of the first blocks, which is read as the reference reads it. -/
theorem compactTarget_agrees_firstBits :
    (bitsToTarget 0x1d00ffff).toNat = setCompact 0x1d00ffff :=
  ((compactTarget_agrees_iff 0x1d00ffff Digest.zero).1 (by decide) (by decide)).mpr (by decide)

/-- The target 5. -/
def smallTarget : Hash256 := ⟨⟨0x05 :: List.replicate 31 0, rfl⟩⟩

/-- A compact form with the exponent 1, and the target that it comes from. -/
theorem smallTarget_disagrees :
    (0x01050000 : UInt32) &&& 0x00800000 = 0 ∧ setCompact 0x01050000 = 5 ∧
      (bitsToTarget 0x01050000).toNat = 0x050000 ∧
      targetToBits smallTarget = 0x01050000 ∧ smallTarget.toNat = 5 ∧
      targetToBits (bitsToTarget 0x01050000) = 0x03050000 := by
  decide +kernel

end Sample

end Bitcrab
