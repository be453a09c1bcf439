import Bitcrab.Wire.Decode

/-!
# Amounts (`common/types/amount.rs`)

An `Amount` is a `u64` number of satoshis. `Amount::decode` does not check the range, so that an
amount above `MAX_MONEY` is a value of the type; the checked operations never produce one.
-/

namespace Bitcrab

/-- `COIN`. -/
def coin : UInt64 := 100000000

/-- `MAX_MONEY`. -/
def maxMoney : UInt64 := 21000000 * coin

/-- `Amount`. -/
structure Amount where
  sat : UInt64
  deriving Repr, DecidableEq

namespace Amount

/-- `Amount::ZERO`. -/
def zero : Amount := ⟨0⟩

instance : Inhabited Amount := ⟨zero⟩

/-- The amount as a natural number. -/
def toNat (a : Amount) : Nat := a.sat.toNat

/-- `Amount::checked_add`: `None` on overflow of `u64` or above `MAX_MONEY`. -/
def checkedAdd (a b : Amount) : Option Amount :=
  if a.toNat + b.toNat < 2 ^ 64 then
    if a.sat + b.sat ≤ maxMoney then some ⟨a.sat + b.sat⟩ else none
  else none

/-- `Amount::checked_sub`: `None` if the result would be negative. -/
def checkedSub (a b : Amount) : Option Amount :=
  if b.sat ≤ a.sat then some ⟨a.sat - b.sat⟩ else none

/-- `Amount::is_valid`. -/
def isValid (a : Amount) : Bool := a.sat ≤ maxMoney

/-- `a > b` for the derived `Ord`. -/
def gt (a b : Amount) : Bool := b.sat < a.sat

instance : BitcoinEncode Amount := ⟨fun a => encode a.sat⟩

instance : BitcoinDecode Amount where
  decode d := do
    let (val, d) ← decode d
    return (⟨val⟩, d)

@[simp] lemma toNat_zero : zero.toNat = 0 := rfl

lemma toNat_injective : Function.Injective toNat := by
  intro a b h
  cases a
  cases b
  simp only [toNat, UInt64.toNat_inj] at h
  rw [h]

lemma toNat_sat_add {a b : Amount} (h : a.toNat + b.toNat < 2 ^ 64) :
    (a.sat + b.sat).toNat = a.toNat + b.toNat := by
  rw [UInt64.toNat_add]
  exact Nat.mod_eq_of_lt h

/-- What `checked_add` computes, and when. -/
lemma checkedAdd_eq_some_iff (a b c : Amount) :
    a.checkedAdd b = some c ↔
      c.toNat = a.toNat + b.toNat ∧ a.toNat + b.toNat ≤ maxMoney.toNat := by
  have hlt : maxMoney.toNat < 2 ^ 64 := by decide
  unfold checkedAdd
  split_ifs with hov hle
  · rw [UInt64.le_iff_toNat_le, toNat_sat_add hov] at hle
    simp only [Option.some.injEq]
    constructor
    · rintro rfl
      exact ⟨toNat_sat_add hov, hle⟩
    · rintro ⟨hc, -⟩
      exact toNat_injective ((toNat_sat_add hov).trans hc.symm)
  · rw [UInt64.le_iff_toNat_le, toNat_sat_add hov] at hle
    simp only [false_iff, not_and]
    exact fun _ h => hle h
  · simp only [false_iff, not_and, not_le]
    omega

/-- An addition within `MAX_MONEY` succeeds. -/
lemma exists_checkedAdd {a b : Amount} (h : a.toNat + b.toNat ≤ maxMoney.toNat) :
    ∃ c, a.checkedAdd b = some c := by
  have hlt : maxMoney.toNat < 2 ^ 64 := by decide
  refine ⟨⟨a.sat + b.sat⟩, (checkedAdd_eq_some_iff _ _ _).mpr ⟨?_, h⟩⟩
  exact toNat_sat_add (by omega)

/-- What `checked_sub` computes, and when. -/
lemma checkedSub_eq_some_iff (a b c : Amount) :
    a.checkedSub b = some c ↔ a.toNat = c.toNat + b.toNat := by
  unfold checkedSub
  split_ifs with hle
  · have hsub : (a.sat - b.sat).toNat = a.toNat - b.toNat := UInt64.toNat_sub_of_le _ _ hle
    rw [UInt64.le_iff_toNat_le] at hle
    have hle' : b.toNat ≤ a.toNat := hle
    simp only [Option.some.injEq]
    constructor
    · rintro rfl
      have : (Amount.mk (a.sat - b.sat)).toNat = a.toNat - b.toNat := hsub
      omega
    · intro h
      apply toNat_injective
      have : (Amount.mk (a.sat - b.sat)).toNat = a.toNat - b.toNat := hsub
      omega
  · rw [UInt64.le_iff_toNat_le] at hle
    have hlt : ¬ b.toNat ≤ a.toNat := hle
    simp only [false_iff]
    omega

end Amount

lemma roundTrips_amount (a : Amount) : RoundTrips a := by
  intro pos suffix
  have h := roundTrips_uint64 a.sat pos suffix
  simp only [decode, encode] at h ⊢
  simp [h, bind, Except.bind, pure, Except.pure]

end Bitcrab
