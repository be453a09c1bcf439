import Bitcrab.Consensus.RetargetBounds
import Bitcrab.Lib.Outcome

/-!
# The widths of a retarget's arithmetic

`multiplyAndDivide` computes with natural numbers. Here are its two loops over an array of `u32`
limbs, with a carry and a remainder that are `u128` values. An operation that can lose bits fails,
also where the program would only cut them off; so a run that does not fail is the program's.
-/

namespace Bitcrab

open Bytes Outcome

/-! ### The loops -/

/-- The `u128` value of an operation. -/
def u128 (n : ℕ) : Outcome Empty ℕ := if n < 2 ^ 128 then .ok n else .error .panic

/-- `as u32`, of a value that must have no more bits. -/
def asU32 (n : ℕ) : Outcome Empty UInt32 :=
  if n < 2 ^ 32 then .ok (UInt32.ofNat n) else .error .panic

/-- The two numbers that a loop changes: the limbs, and the carry or the remainder. -/
structure Limbs.State where
  expanded : List UInt32
  rest : ℕ

/-- The body of the multiplication loop. -/
def mulLimb (mul : UInt64) (s : Limbs.State) (i : ℕ) : Outcome Empty Limbs.State := do
  let x ← index s.expanded i
  let product ← u128 (x.toNat * mul.toNat)
  let val ← u128 (product + s.rest)
  let limb ← asU32 (val &&& 0xFFFFFFFF)
  return ⟨s.expanded.set i limb, val >>> 32⟩

/-- The body of the division loop. -/
def divLimb (div : UInt64) (s : Limbs.State) (i : ℕ) : Outcome Empty Limbs.State := do
  let x ← index s.expanded i
  let shifted ← u128 (s.rest <<< 32)
  let val ← u128 (x.toNat + shifted)
  if div = 0 then .error .panic
  else
    let limb ← asU32 (val / div.toNat)
    return ⟨s.expanded.set i limb, val % div.toNat⟩

/-- `multiply_and_divide`, by its loops. -/
def multiplyAndDivideLoops (target : Hash256) (mul div : UInt64) : Outcome Empty Hash256 := do
  let expanded := (limbs target.bytes.toList).map UInt32.ofNat ++ List.replicate 8 0
  let s ← (List.range 16).foldlM (mulLimb mul) ⟨expanded, 0⟩
  let s ← (List.range 16).reverse.foldlM (divLimb div) ⟨s.expanded, 0⟩
  if (s.expanded.drop 8).any (· != 0) then return ⟨List.Vector.replicate 32 0xFF⟩
  else return ⟨toBytes32 ((s.expanded.take 8).flatMap fun x => leBytes 4 x.toNat)⟩

/-! ### One round -/

lemma u128_of_lt {n : ℕ} (h : n < 2 ^ 128) : u128 n = .ok n := if_pos h

lemma asU32_of_lt {n : ℕ} (h : n < 2 ^ 32) : asU32 n = .ok (UInt32.ofNat n) := if_pos h

lemma index_append_cons {α ε : Type} (l l' : List α) (a : α) :
    (index (l ++ a :: l') l.length : Outcome ε α) = .ok a := by
  simp [index, unwrap]

lemma set_append_cons {α : Type} (l l' : List α) (a b : α) :
    (l ++ a :: l').set l.length b = l ++ b :: l' := by
  simp

/-- The carry stays below 2^64, so the product and the sum fit. -/
lemma mulLimb_eq (mul : UInt64) (done rest : List UInt32) (x : UInt32) {carry : ℕ}
    (hcarry : carry < 2 ^ 64) :
    mulLimb mul ⟨done ++ x :: rest, carry⟩ done.length =
        .ok ⟨done ++ UInt32.ofNat ((x.toNat * mul.toNat + carry) % 2 ^ 32) :: rest,
          (x.toNat * mul.toNat + carry) / 2 ^ 32⟩ ∧
      (x.toNat * mul.toNat + carry) / 2 ^ 32 < 2 ^ 64 := by
  have hx := x.toNat_lt
  have hmul := mul.toNat_lt
  have hproduct : x.toNat * mul.toNat ≤ (2 ^ 32 - 1) * (2 ^ 64 - 1) :=
    Nat.mul_le_mul (by omega) (by omega)
  have hmask : (x.toNat * mul.toNat + carry) &&& 0xFFFFFFFF =
      (x.toNat * mul.toNat + carry) % 2 ^ 32 := Nat.and_two_pow_sub_one_eq_mod _ 32
  refine ⟨?_, by omega⟩
  rw [mulLimb]
  dsimp only
  rw [index_append_cons, Result.ok_bind, u128_of_lt (by omega), Result.ok_bind,
    u128_of_lt (by omega), Result.ok_bind, hmask, asU32_of_lt (Nat.mod_lt _ (by decide)),
    Result.ok_bind, set_append_cons, Nat.shiftRight_eq_div_pow]
  rfl

/-- The remainder stays below the divisor, so the shifted value fits and the digit has 32 bits. -/
lemma divLimb_eq {div : UInt64} (rest done : List UInt32) (x : UInt32) {remainder : ℕ}
    (hremainder : remainder < div.toNat) :
    divLimb div ⟨rest ++ x :: done, remainder⟩ rest.length =
        .ok ⟨rest ++ UInt32.ofNat ((x.toNat + remainder * 2 ^ 32) / div.toNat % 2 ^ 32) :: done,
          (x.toNat + remainder * 2 ^ 32) % div.toNat⟩ ∧
      (x.toNat + remainder * 2 ^ 32) / div.toNat < 2 ^ 32 := by
  have hx := x.toNat_lt
  have hdiv := div.toNat_lt
  have hdigit : (x.toNat + remainder * 2 ^ 32) / div.toNat < 2 ^ 32 := by
    rw [Nat.div_lt_iff_lt_mul (by omega)]
    omega
  have hne : div ≠ 0 := by
    rintro rfl
    exact Nat.not_lt_zero _ hremainder
  refine ⟨?_, hdigit⟩
  rw [divLimb]
  dsimp only
  rw [index_append_cons, Result.ok_bind, Nat.shiftLeft_eq, u128_of_lt (by omega), Result.ok_bind,
    u128_of_lt (by omega), Result.ok_bind, if_neg hne, asU32_of_lt hdigit, Result.ok_bind,
    set_append_cons, Nat.mod_eq_of_lt hdigit]
  rfl

/-! ### All rounds -/

lemma foldlM_mulLimb (mul : UInt64) (done rest : List UInt32) {carry : ℕ}
    (hcarry : carry < 2 ^ 64) :
    ∃ carry', (List.range' done.length rest.length).foldlM (mulLimb mul) ⟨done ++ rest, carry⟩ =
      .ok ⟨done ++ (mulLimbs mul.toNat (rest.map UInt32.toNat) carry).map UInt32.ofNat,
        carry'⟩ := by
  induction rest generalizing done carry with
  | nil => exact ⟨carry, by simp [mulLimbs, pure, Except.pure]⟩
  | cons x rest ih =>
    obtain ⟨hround, hcarry'⟩ := mulLimb_eq mul done rest x hcarry
    obtain ⟨last, hlast⟩ :=
      ih (done ++ [UInt32.ofNat ((x.toNat * mul.toNat + carry) % 2 ^ 32)]) hcarry'
    refine ⟨last, ?_⟩
    rw [List.length_append, List.length_singleton, List.append_assoc,
      List.singleton_append] at hlast
    rw [List.length_cons, List.range'_succ, List.foldlM_cons, hround, Result.ok_bind, hlast,
      List.map_cons, mulLimbs]
    simp

/-- From the most significant limb on. -/
lemma foldlM_divLimb {div : UInt64} (rest done : List UInt32) {remainder : ℕ}
    (hremainder : remainder < div.toNat) :
    ∃ remainder', (List.range rest.length).reverse.foldlM (divLimb div) ⟨rest ++ done, remainder⟩ =
      .ok ⟨((divLimbs div.toNat (rest.map UInt32.toNat).reverse remainder).reverse).map
        UInt32.ofNat ++
        done, remainder'⟩ := by
  induction rest using List.reverseRecOn generalizing done remainder with
  | nil => exact ⟨remainder, by simp [divLimbs, pure, Except.pure]⟩
  | append_singleton rest x ih =>
    obtain ⟨hround, -⟩ := divLimb_eq rest done x hremainder
    obtain ⟨last, hlast⟩ :=
      ih (UInt32.ofNat ((x.toNat + remainder * 2 ^ 32) / div.toNat % 2 ^ 32) :: done)
        (Nat.mod_lt (x.toNat + remainder * 2 ^ 32) (by omega))
    refine ⟨last, ?_⟩
    rw [List.length_append, List.length_singleton, List.range_succ, List.reverse_concat,
      List.foldlM_cons, List.append_assoc, List.singleton_append, hround, Result.ok_bind, hlast]
    simp [divLimbs]

/-! ### The result -/

lemma map_toNat_map_ofNat {xs : List ℕ} (h : ∀ x ∈ xs, x < 2 ^ 32) :
    (xs.map UInt32.ofNat).map UInt32.toNat = xs := by
  rw [List.map_map]
  conv_rhs => rw [← List.map_id xs]
  exact List.map_congr_left fun x hx => UInt32.toNat_ofNat_of_lt' (h x hx)

/-- No operation of the loops loses a bit, and they compute `multiplyAndDivide`. -/
lemma multiplyAndDivideLoops_eq (target : Hash256) (mul : UInt64) {div : UInt64} (hdiv : div ≠ 0) :
    multiplyAndDivideLoops target mul div = .ok (multiplyAndDivide target mul div) := by
  have hpos : 0 < div.toNat := by
    rw [Nat.pos_iff_ne_zero, ne_eq, ← UInt64.toNat_zero, UInt64.toNat_inj]
    exact hdiv
  obtain ⟨hlen, hlimbs, -⟩ := ofDigits_limbs (show target.bytes.toList.length = 4 * 8 by simp)
  obtain ⟨hlength, hquotient, -⟩ := ofDigits_quotient target mul hpos
  have hexpanded : ((limbs target.bytes.toList).map UInt32.ofNat ++
      List.replicate 8 0).map UInt32.toNat = limbs target.bytes.toList ++ List.replicate 8 0 := by
    rw [List.map_append, map_toNat_map_ofNat hlimbs]
    rfl
  rw [multiplyAndDivideLoops, multiplyAndDivide]
  rw [← hexpanded] at hlength hquotient ⊢
  have hsixteen : ((limbs target.bytes.toList).map UInt32.ofNat ++
      List.replicate 8 0).length = 16 := by simp [hlen]
  generalize (limbs target.bytes.toList).map UInt32.ofNat ++ List.replicate 8 0 = expanded at *
  -- the product
  obtain ⟨carry, hmul⟩ := foldlM_mulLimb mul [] expanded (show 0 < 2 ^ 64 by decide)
  rw [List.length_nil, hsixteen, ← List.range_eq_range', List.nil_append, List.nil_append] at hmul
  have hproduct : ∀ x ∈ mulLimbs mul.toNat (expanded.map UInt32.toNat) 0, x < 2 ^ 32 := by
    intro x hx
    rw [mulLimbs_eq] at hx
    exact Limbs.lt_of_mem_mul (by decide) x hx
  have hwidth : (mulLimbs mul.toNat (expanded.map UInt32.toNat) 0).length = 16 := by
    rw [mulLimbs_eq, Limbs.length_mul, List.length_map, hsixteen]
  rw [hmul, Result.ok_bind]
  generalize mulLimbs mul.toNat (expanded.map UInt32.toNat) 0 = product at *
  -- the quotient
  obtain ⟨remainder, hdivide⟩ := foldlM_divLimb (product.map UInt32.ofNat) [] hpos
  rw [map_toNat_map_ofNat hproduct, List.length_map, hwidth, List.append_nil, List.append_nil]
    at hdivide
  dsimp only
  rw [hdivide, Result.ok_bind]
  generalize (divLimbs div.toNat product.reverse 0).reverse = quotient at *
  dsimp only
  have hoverflow : ((quotient.map UInt32.ofNat).drop 8).any (· != 0) =
      (quotient.drop 8).any (· != 0) := by
    rw [← List.map_drop, Bool.eq_iff_iff]
    simp only [List.any_eq_true, List.mem_map, bne_iff_ne, ne_eq]
    constructor
    · rintro ⟨-, ⟨x, hx, rfl⟩, hne⟩
      refine ⟨x, hx, fun hzero => hne ?_⟩
      rw [hzero]
      rfl
    · rintro ⟨x, hx, hne⟩
      refine ⟨_, ⟨x, hx, rfl⟩, fun hzero => hne ?_⟩
      have hvalue := congrArg UInt32.toNat hzero
      rwa [UInt32.toNat_ofNat_of_lt' (hquotient x (List.mem_of_mem_drop hx))] at hvalue
  have hbytes : ((quotient.map UInt32.ofNat).take 8).flatMap (fun x => leBytes 4 x.toNat) =
      (quotient.take 8).flatMap (leBytes 4) := by
    rw [← List.map_take, List.flatMap_map]
    refine List.flatMap_congr fun x hx => ?_
    rw [UInt32.toNat_ofNat_of_lt' (hquotient x (List.mem_of_mem_take hx))]
  rw [hoverflow, hbytes]
  split_ifs <;> rfl

/-- `multiply_and_divide` scales a target and saturates; nothing overflows on the way. -/
theorem multiplyAndDivide_spec (target : Hash256) (mul : UInt64) {div : UInt64} (hdiv : div ≠ 0) :
    multiplyAndDivideLoops target mul div = .ok (multiplyAndDivide target mul div) ∧
      (multiplyAndDivide target mul div).toNat =
        if target.toNat * mul.toNat / div.toNat < 2 ^ 256 then
          target.toNat * mul.toNat / div.toNat
        else 2 ^ 256 - 1 := by
  have hpos : 0 < div.toNat := by
    rw [Nat.pos_iff_ne_zero, ne_eq, ← UInt64.toNat_zero, UInt64.toNat_inj]
    exact hdiv
  refine ⟨multiplyAndDivideLoops_eq target mul hdiv, ?_⟩
  rw [toNat_multiplyAndDivide target mul hpos]
  split_ifs with h
  · exact min_eq_left (by omega)
  · exact min_eq_right (by omega)

namespace Sample

/-- The largest target, scaled by the largest multiplier and divided by the largest divisor. -/
theorem multiplyAndDivide_max :
    (0xFFFFFFFFFFFFFFFF : UInt64) ≠ 0 ∧
      multiplyAndDivideLoops ⟨List.Vector.replicate 32 0xFF⟩ 0xFFFFFFFFFFFFFFFF 0xFFFFFFFFFFFFFFFF =
        .ok ⟨List.Vector.replicate 32 0xFF⟩ := by
  have hne : (0xFFFFFFFFFFFFFFFF : UInt64) ≠ 0 := by decide
  have hspec := multiplyAndDivide_spec ⟨List.Vector.replicate 32 0xFF⟩ 0xFFFFFFFFFFFFFFFF hne
  refine ⟨hne, hspec.1.trans ?_⟩
  decide +kernel

end Sample

end Bitcrab
