import Bitcrab.Consensus.Pow
import Bitcrab.Lib.Outcome
import Bitcrab.Types.Networks

/-!
# The minimum-difficulty rule

`get_next_work_required` in the two build profiles of the workspace: arithmetic on `u32` and `u64`
panics on overflow in one of them and wraps in the other. The time from which a block may have the
minimum difficulty is such a sum.
-/

namespace Bitcrab

/-- The build profiles of the workspace. -/
inductive BuildProfile where
  | dev
  | release
  deriving Repr, DecidableEq

namespace BuildProfile

/-- `overflow-checks`. -/
def overflowChecks : BuildProfile → Bool
  | dev => true
  | release => false

variable (profile : BuildProfile)

/-- The result of arithmetic on `u32`. -/
def u32 (n : ℕ) : Outcome Empty UInt32 :=
  if profile.overflowChecks = true ∧ 2 ^ 32 ≤ n then .error .panic else .ok (UInt32.ofNat n)

/-- The result of arithmetic on `u64`. -/
def u64 (n : ℕ) : Outcome Empty UInt64 :=
  if profile.overflowChecks = true ∧ 2 ^ 64 ≤ n then .error .panic else .ok (UInt64.ofNat n)

/-- `calculate_next_work_required`, which multiplies the timespan by four and divides by it. -/
def calculateNextWorkRequired (indexPrev : BlockIndex) (firstBlockTime : UInt32)
    (params : ConsensusParams) : Outcome Empty UInt32 :=
  if params.powNoRetargeting then return indexPrev.header.bits
  else do
    let _ ← profile.u64 (params.powTargetTimespan.toNat * 4)
    if params.powTargetTimespan = 0 then .error .panic
    else return Bitcrab.calculateNextWorkRequired indexPrev firstBlockTime params

/-- `get_next_work_required`. -/
def getNextWorkRequired (indexPrev : BlockIndex) (header : BlockHeader)
    (params : ConsensusParams) (provider : BlockIndexProvider) : Outcome Empty UInt32 :=
  if params.powNoRetargeting then return indexPrev.header.bits
  else if params.fPowAllowMinDifficultyBlocks then do
    let spacing ← profile.u32 (params.powTargetSpacing.toUInt32.toNat * 2)
    let latest ← profile.u32 (indexPrev.header.time.toNat + spacing.toNat)
    if header.time > latest then return BlockHeader.targetToBits params.powLimit
    else return indexPrev.header.bits
  else do
    let nextHeight ← profile.u32 (indexPrev.height.toNat + 1)
    if params.powTargetSpacing = 0 then .error .panic
    else do
      let interval := (params.powTargetTimespan / params.powTargetSpacing).toUInt32
      if interval = 0 then .error .panic
      else if nextHeight % interval ≠ 0 then return indexPrev.header.bits
      else
        let firstHeight := UInt32.ofNat (indexPrev.height.toNat - (interval - 1).toNat)
        match provider firstHeight with
        | none => return indexPrev.header.bits
        | some indexFirst =>
          profile.calculateNextWorkRequired indexPrev indexFirst.header.time params

end BuildProfile

section MinDifficulty

variable {profile : BuildProfile} {indexPrev : BlockIndex} {header : BlockHeader}
  {params : ConsensusParams} {provider : BlockIndexProvider}

lemma BuildProfile.u32_release (n : ℕ) : BuildProfile.u32 .release n = .ok (UInt32.ofNat n) := rfl

lemma BuildProfile.u32_dev (n : ℕ) :
    BuildProfile.u32 .dev n = if 2 ^ 32 ≤ n then .error .panic else .ok (UInt32.ofNat n) := by
  simp [BuildProfile.u32, BuildProfile.overflowChecks]

lemma ofNat_toNat_add (a b : UInt32) : UInt32.ofNat (a.toNat + b.toNat) = a + b := by
  rw [UInt32.ofNat_add, UInt32.ofNat_toNat, UInt32.ofNat_toNat]

lemma ofNat_toNat_mul (a b : UInt32) : UInt32.ofNat (a.toNat * b.toNat) = a * b := by
  rw [UInt32.ofNat_mul, UInt32.ofNat_toNat, UInt32.ofNat_toNat]

/-- Without overflow checks nothing panics but a division by zero. -/
theorem BuildProfile.getNextWorkRequired_release (hspacing : params.powTargetSpacing ≠ 0)
    (htimespan : params.powTargetTimespan ≠ 0)
    (hinterval : (params.powTargetTimespan / params.powTargetSpacing).toUInt32 ≠ 0) :
    BuildProfile.release.getNextWorkRequired indexPrev header params provider =
      .ok (Bitcrab.getNextWorkRequired indexPrev header params provider) := by
  have hnext : UInt32.ofNat (indexPrev.height.toNat + 1) = indexPrev.height + 1 :=
    ofNat_toNat_add indexPrev.height 1
  have hspacing2 : UInt32.ofNat (params.powTargetSpacing.toUInt32.toNat * 2) =
      params.powTargetSpacing.toUInt32 * 2 := ofNat_toNat_mul params.powTargetSpacing.toUInt32 2
  simp only [BuildProfile.getNextWorkRequired, Bitcrab.getNextWorkRequired,
    BuildProfile.u32_release,
    BuildProfile.calculateNextWorkRequired, hspacing2, hnext, ofNat_toNat_add, if_neg hspacing,
    if_neg hinterval, if_neg htimespan, bind, Except.bind, pure, Except.pure]
  split_ifs <;> try rfl
  cases provider _ with
  | none => rfl
  | some indexFirst =>
    simp only [Bitcrab.calculateNextWorkRequired]
    split_ifs <;> rfl

/-- The time after which a block may have the minimum difficulty. -/
def minDifficultyTime (indexPrev : BlockIndex) (params : ConsensusParams) : ℕ :=
  indexPrev.header.time.toNat + 2 * params.powTargetSpacing.toNat

/-- The rule: a block after that time has the bits of the limit, and another one those of its
parent. -/
def MinDifficultyExact (profile : BuildProfile) (indexPrev : BlockIndex) (header : BlockHeader)
    (params : ConsensusParams) (provider : BlockIndexProvider) : Prop :=
  profile.getNextWorkRequired indexPrev header params provider =
    .ok (if minDifficultyTime indexPrev params < header.time.toNat then
      BlockHeader.targetToBits params.powLimit else indexPrev.header.bits)

section

variable (hretarget : params.powNoRetargeting = false)
  (hmin : params.fPowAllowMinDifficultyBlocks = true)

include hretarget hmin

/-- With overflow checks, the spacing is truncated and the sum is checked. -/
lemma getNextWorkRequired_dev :
    BuildProfile.dev.getNextWorkRequired indexPrev header params provider =
      if indexPrev.header.time.toNat + 2 * (params.powTargetSpacing.toNat % 2 ^ 32) < 2 ^ 32 then
        .ok (if indexPrev.header.time.toNat + 2 * (params.powTargetSpacing.toNat % 2 ^ 32) <
          header.time.toNat then BlockHeader.targetToBits params.powLimit else
            indexPrev.header.bits)
      else .error .panic := by
  have htruncated : params.powTargetSpacing.toUInt32.toNat =
      params.powTargetSpacing.toNat % 2 ^ 32 := UInt64.toNat_toUInt32 _
  have htime := indexPrev.header.time.toNat_lt
  simp only [BuildProfile.getNextWorkRequired, hretarget, hmin, Bool.false_eq_true, if_false,
    if_true, htruncated, BuildProfile.u32_dev]
  generalize params.powTargetSpacing.toNat % 2 ^ 32 = spacing
  by_cases hspacing : 2 ^ 32 ≤ spacing * 2
  · rw [if_pos hspacing, if_neg (by omega)]
    rfl
  · have hproduct : (UInt32.ofNat (spacing * 2)).toNat = spacing * 2 :=
      UInt32.toNat_ofNat_of_lt' (Nat.lt_of_not_le hspacing)
    rw [if_neg hspacing]
    simp only [bind, Except.bind, hproduct]
    by_cases hsum : 2 ^ 32 ≤ indexPrev.header.time.toNat + spacing * 2
    · rw [if_pos hsum, if_neg (by omega)]
    · have hvalue : (UInt32.ofNat (indexPrev.header.time.toNat + spacing * 2)).toNat =
          indexPrev.header.time.toNat + spacing * 2 :=
        UInt32.toNat_ofNat_of_lt' (Nat.lt_of_not_le hsum)
      rw [if_neg hsum, if_pos (by omega), mul_comm 2 spacing]
      simp only [gt_iff_lt, UInt32.lt_iff_toNat_lt, hvalue]
      split_ifs <;> rfl

/-- Without them, the sum wraps. -/
lemma getNextWorkRequired_release :
    BuildProfile.release.getNextWorkRequired indexPrev header params provider =
      .ok (if minDifficultyTime indexPrev params % 2 ^ 32 < header.time.toNat then
        BlockHeader.targetToBits params.powLimit else indexPrev.header.bits) := by
  have htruncated : params.powTargetSpacing.toUInt32.toNat =
      params.powTargetSpacing.toNat % 2 ^ 32 := UInt64.toNat_toUInt32 _
  have hvalue : (UInt32.ofNat (indexPrev.header.time.toNat +
      (UInt32.ofNat (params.powTargetSpacing.toNat % 2 ^ 32 * 2)).toNat)).toNat =
      minDifficultyTime indexPrev params % 2 ^ 32 := by
    rw [UInt32.toNat_ofNat', UInt32.toNat_ofNat', minDifficultyTime]
    omega
  simp only [BuildProfile.getNextWorkRequired, hretarget, hmin, Bool.false_eq_true, if_false,
    if_true, htruncated, BuildProfile.u32_release, bind, Except.bind, gt_iff_lt,
    UInt32.lt_iff_toNat_lt, hvalue]
  split_ifs <;> rfl

end

/-- Where targets are not adjusted, the bits are the parent's. -/
lemma getNextWorkRequired_noRetargeting (hretarget : params.powNoRetargeting = true) :
    profile.getNextWorkRequired indexPrev header params provider = .ok indexPrev.header.bits := by
  rw [BuildProfile.getNextWorkRequired, if_pos hretarget]
  rfl

/-- A choice between two values, and the choice that it should be. -/
lemma ite_eq_ite_iff {α : Type} {p q : Prop} [Decidable p] [Decidable q] {a b : α} :
    (if p then a else b) = (if q then a else b) ↔ (p ↔ q) ∨ a = b := by
  split_ifs with hp hq hq
  · simp [hp, hq]
  · simp [hp, hq]
  · simp [hp, hq, eq_comm]
  · simp [hp, hq]

/-- The rule is followed exactly where the time from which it applies fits 32 bits, or where the
result is the same without it. -/
theorem minDifficultyExact_iff (indexPrev : BlockIndex) (header : BlockHeader)
    (provider : BlockIndexProvider) (hmin : params.fPowAllowMinDifficultyBlocks = true) :
    (MinDifficultyExact .dev indexPrev header params provider ↔
      if params.powNoRetargeting then
        header.time.toNat ≤ minDifficultyTime indexPrev params ∨
          BlockHeader.targetToBits params.powLimit = indexPrev.header.bits
      else
        indexPrev.header.time.toNat + 2 * (params.powTargetSpacing.toNat % 2 ^ 32) < 2 ^ 32 ∧
          (params.powTargetSpacing.toNat < 2 ^ 32 ∨
            header.time.toNat ≤
              indexPrev.header.time.toNat + 2 * (params.powTargetSpacing.toNat % 2 ^ 32) ∨
            BlockHeader.targetToBits params.powLimit = indexPrev.header.bits)) ∧
    (MinDifficultyExact .release indexPrev header params provider ↔
      if params.powNoRetargeting then
        header.time.toNat ≤ minDifficultyTime indexPrev params ∨
          BlockHeader.targetToBits params.powLimit = indexPrev.header.bits
      else
        minDifficultyTime indexPrev params < 2 ^ 32 ∨
          header.time.toNat ≤ minDifficultyTime indexPrev params % 2 ^ 32 ∨
          BlockHeader.targetToBits params.powLimit = indexPrev.header.bits) := by
  have htime := header.time.toNat_lt
  cases hretarget : params.powNoRetargeting with
  | true =>
    have hiff : ∀ profile, MinDifficultyExact profile indexPrev header params provider ↔
        header.time.toNat ≤ minDifficultyTime indexPrev params ∨
          BlockHeader.targetToBits params.powLimit = indexPrev.header.bits := by
      intro profile
      rw [MinDifficultyExact, getNextWorkRequired_noRetargeting hretarget, Except.ok.injEq]
      split_ifs with hlate
      · rw [or_iff_right (not_le.mpr hlate), eq_comm]
      · exact iff_of_true rfl (.inl (not_lt.mp hlate))
    rw [if_pos rfl]
    exact ⟨hiff _, hiff _⟩
  | false =>
    rw [if_neg Bool.false_ne_true, if_neg Bool.false_ne_true]
    constructor
    · rw [MinDifficultyExact, getNextWorkRequired_dev hretarget hmin]
      by_cases hfits :
          indexPrev.header.time.toNat + 2 * (params.powTargetSpacing.toNat % 2 ^ 32) < 2 ^ 32
      · rw [if_pos hfits, Except.ok.injEq, ite_eq_ite_iff, minDifficultyTime, and_iff_right hfits,
          ← or_assoc]
        refine or_congr_left ?_
        omega
      · rw [if_neg hfits]
        exact iff_of_false (fun h => nomatch h) (fun h => hfits h.1)
    · rw [MinDifficultyExact, getNextWorkRequired_release hretarget hmin, Except.ok.injEq,
        ite_eq_ite_iff, ← or_assoc]
      refine or_congr_left ?_
      omega

end MinDifficulty

namespace Sample

/-- A header of testnet3. -/
def testnetHeader (time : UInt32) : BlockHeader :=
  ⟨1, Digest.zero, Digest.zero, time, 0x1c00ffff, 0⟩

/-- Its index. -/
def testnetIndex (time : UInt32) : BlockIndex :=
  ⟨testnetHeader time, 1000, Digest.zero, none, none⟩

theorem minDifficultyExact_testnetHeader :
    MinDifficultyExact .dev (testnetIndex 1296688602) (testnetHeader 1296689803)
      testnet3Params.consensus (fun _ => none) :=
  (minDifficultyExact_iff (testnetIndex 1296688602) (testnetHeader 1296689803) (fun _ => none)
    rfl).1.mpr (by decide +kernel)

/-- A parent with the greatest time: a block earlier than that has the bits of the limit in one
profile, and the other one panics. -/
theorem minDifficulty_wraps :
    minDifficultyTime (testnetIndex 0xffffffff) testnet3Params.consensus = 2 ^ 32 + 1199 ∧
      BuildProfile.release.getNextWorkRequired (testnetIndex 0xffffffff) (testnetHeader 1200)
        testnet3Params.consensus (fun _ => none) = .ok 0x1d00ffff ∧
      BuildProfile.dev.getNextWorkRequired (testnetIndex 0xffffffff) (testnetHeader 1200)
        testnet3Params.consensus (fun _ => none) = .error .panic ∧
      ¬ MinDifficultyExact .release (testnetIndex 0xffffffff) (testnetHeader 1200)
        testnet3Params.consensus (fun _ => none) ∧
      ¬ MinDifficultyExact .dev (testnetIndex 0xffffffff) (testnetHeader 1200)
        testnet3Params.consensus (fun _ => none) := by
  have hrelease : BuildProfile.release.getNextWorkRequired (testnetIndex 0xffffffff)
      (testnetHeader 1200) testnet3Params.consensus (fun _ => none) = .ok 0x1d00ffff := by
    rw [getNextWorkRequired_release rfl rfl]
    decide +kernel
  have hdev : BuildProfile.dev.getNextWorkRequired (testnetIndex 0xffffffff) (testnetHeader 1200)
      testnet3Params.consensus (fun _ => none) = .error .panic := by
    rw [getNextWorkRequired_dev rfl rfl]
    decide +kernel
  refine ⟨by decide +kernel, hrelease, hdev, ?_, ?_⟩
  · rw [MinDifficultyExact, hrelease]
    decide +kernel
  · rw [MinDifficultyExact, hdev]
    exact fun h => nomatch h

end Sample

end Bitcrab
