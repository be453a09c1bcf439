import Bitcrab.Consensus.Validation
import Bitcrab.Script.NumEncoding
import Bitcrab.Types.Networks

/-!
# The height in the coinbase

`check_bip34_height` expects the push of the number that the height is encoded as. A script that
pushes the number in the shortest way has an opcode of its own for the numbers up to 16, which is
not what is expected there.
-/

namespace Bitcrab

open Bytes

/-- `CScript() << height`: a small number by its opcode, another one by the push of its bytes. -/
def coreHeightPush (height : BlockHeight) : List UInt8 :=
  if 1 ≤ height ∧ height ≤ 16 then [0x50 + height.toUInt8]
  else
    UInt8.ofNat (scriptNumSize height.toNat) :: leBytes (scriptNumSize height.toNat) height.toNat

/-- The script of the coinbase's input. -/
def coinbaseScript (block : Block) : List UInt8 :=
  (block.coinbase.inputs.headD default).scriptSig.bytes

/-! ### What is expected -/

lemma scriptNumSize_le (height : BlockHeight) : scriptNumSize height.toNat ≤ 5 := by
  refine Nat.clog_le_of_le_pow ?_
  have := height.toNat_lt
  omega

/-- The push that `check_bip34_height` expects. -/
lemma pushData_scriptNumEncode (height : BlockHeight) :
    pushData (scriptNumEncode height.toNat) =
      UInt8.ofNat (scriptNumSize height.toNat) ::
        leBytes (scriptNumSize height.toNat) height.toNat := by
  have hsize := scriptNumSize_le height
  rw [scriptNumEncode_natCast (height.toNat_lt.trans (by decide)),
    pushData_of_length_lt (by rw [length_leBytes]; omega), length_leBytes]

lemma checkBip34Height_eq_ok_iff (block : Block) (height : BlockHeight) :
    checkBip34Height block height = .ok () ↔
      UInt8.ofNat (scriptNumSize height.toNat) ::
        leBytes (scriptNumSize height.toNat) height.toNat <+: coinbaseScript block := by
  rw [checkBip34Height, pushData_scriptNumEncode, coinbaseScript, ← List.isPrefixOf_iff_prefix]
  split_ifs with hprefix
  · exact iff_of_true rfl hprefix
  · exact iff_of_false (fun h => nomatch h) hprefix

/-- A small number has one byte. -/
lemma push_of_small {height : BlockHeight} (hlow : 1 ≤ height) (hhigh : height ≤ 16) :
    UInt8.ofNat (scriptNumSize height.toNat) :: leBytes (scriptNumSize height.toNat) height.toNat =
      [0x01, height.toUInt8] := by
  rw [UInt32.le_iff_toNat_le] at hlow hhigh
  simp only [UInt32.reduceToNat] at hlow hhigh
  have hsize : scriptNumSize height.toNat = 1 :=
    Nat.clog_eq_one (by omega) (by omega)
  rw [hsize]
  rfl

/-- A script does not start with both of the pushes of a small number. -/
lemma not_both_pushes {height : BlockHeight} (hlow : 1 ≤ height) (hhigh : height ≤ 16)
    {script : List UInt8} (hop : [0x50 + height.toUInt8] <+: script)
    (hpush : [0x01, height.toUInt8] <+: script) : False := by
  obtain ⟨more, rfl⟩ := hop
  obtain ⟨more', heq⟩ := hpush
  have hbyte : (0x01 : UInt8) = 0x50 + height.toUInt8 := List.head_eq_of_cons_eq heq
  rw [UInt32.le_iff_toNat_le] at hlow hhigh
  rw [← UInt8.toNat_inj, UInt8.toNat_add, UInt32.toNat_toUInt8] at hbyte
  simp only [UInt32.reduceToNat, UInt8.reduceToNat] at hlow hhigh hbyte
  omega

/-- The height is checked as it is written by others, unless it is one of the small numbers and the
coinbase starts with one of the two pushes of it. -/
theorem checkBip34Height_agrees_iff (block : Block) (height : BlockHeight) :
    (checkBip34Height block height = .ok () ↔ coreHeightPush height <+: coinbaseScript block) ↔
      ¬ (1 ≤ height ∧ height ≤ 16) ∨
        ¬ [0x50 + height.toUInt8] <+: coinbaseScript block ∧
          ¬ [0x01, height.toUInt8] <+: coinbaseScript block := by
  rw [checkBip34Height_eq_ok_iff, coreHeightPush]
  by_cases hsmall : 1 ≤ height ∧ height ≤ 16
  · rw [if_pos hsmall, push_of_small hsmall.1 hsmall.2]
    have hnot := @not_both_pushes height hsmall.1 hsmall.2 (coinbaseScript block)
    constructor
    · intro hagree
      exact .inr ⟨fun hop => hnot hop (hagree.mpr hop), fun hpush => hnot (hagree.mp hpush) hpush⟩
    · rintro (hlarge | ⟨hop, hpush⟩)
      · exact absurd hsmall hlarge
      · exact iff_of_false hpush hop
  · rw [if_neg hsmall]
    exact iff_of_true Iff.rfl (.inl hsmall)

namespace Sample

/-- A block for height 1 of the signet, whose coinbase has the height as `OP_1`. -/
def heightOneBlock : Block :=
  { Genesis.signet.build with
    transactions :=
      [{ Genesis.signet.coinbaseTx with
        inputs := [{
          previousOutput := OutPoint.coinbase
          scriptSig := ⟨[0x51, 0x00]⟩
          sequence := 0xFFFFFFFF
          witness := [] }] }] }

/-- The height of this block is written as it should be, and rejected. -/
theorem heightOneBlock_rejected :
    signetParams.consensus.bip34Height ≤ 1 ∧
      coreHeightPush 1 <+: coinbaseScript heightOneBlock ∧
      checkBip34Height heightOneBlock 1 = .error (.badCoinbaseHeight 1) := by
  refine ⟨by decide, ⟨[0x00], rfl⟩, rfl⟩

end Sample

end Bitcrab
