import Bitcrab.Lib.Sha256
import Bitcrab.Wire.Decode

/-!
# Hash types (`common/types/hash.rs`)

`Hash256`, `BlockHash` and `Txid` are three distinct wrappers of `[u8; 32]`; they are one
structure here, indexed by what is hashed. The SHA-256 implementation of the `sha2` crate is a
parameter of the whole model.
-/

namespace Bitcrab

/-- `[u8; 32]`. -/
abbrev Bytes32 := List.Vector UInt8 32

/-- The array of the first 32 bytes of a list. The code only forms it from lists of at least 32
bytes. -/
def toBytes32 (bs : List UInt8) : Bytes32 :=
  ⟨(bs ++ List.replicate 32 0).take 32, by simp⟩

lemma toList_toBytes32 {bs : List UInt8} (h : bs.length = 32) : (toBytes32 bs).toList = bs :=
  List.take_left' h

@[simp] lemma toBytes32_toList (v : Bytes32) : toBytes32 v.toList = v := by
  have hv : v.toList.length = 32 := v.2
  apply Subtype.ext
  simp only [toBytes32, List.take_left' hv]
  rfl

/-- `Sha256::digest` of the `sha2` crate. -/
class Sha2 where
  sha256 : List UInt8 → Bytes32

export Sha2 (sha256)

/-- `hash256`: SHA-256 applied twice. -/
def hash256 [Sha2] (data : List UInt8) : Bytes32 := sha256 (sha256 data).toList

namespace Sample

/-- The hash function of the node. -/
scoped instance sha2 : Sha2 := ⟨Sha256.sha256⟩

end Sample

/-- What a digest identifies. -/
inductive HashKind where
  | hash256
  | blockHash
  | txid
  deriving Repr, DecidableEq

/-- A 32-byte digest of a given kind. -/
structure Digest (k : HashKind) where
  bytes : Bytes32
  deriving DecidableEq

/-- `Hash256`. -/
abbrev Hash256 := Digest .hash256

/-- `BlockHash`. -/
abbrev BlockHash := Digest .blockHash

/-- `Txid`. -/
abbrev Txid := Digest .txid

namespace Digest

variable {k : HashKind}

@[ext] lemma ext {a b : Digest k} (h : a.bytes = b.bytes) : a = b := by
  cases a
  cases b
  simpa using h

/-- `ZERO`. -/
def zero : Digest k := ⟨List.Vector.replicate 32 0⟩

instance : Inhabited (Digest k) := ⟨zero⟩

/-- `is_zero`. -/
def isZero (h : Digest k) : Bool := h.bytes.toList.all (· == 0)

/-- `hash`. -/
def hash [Sha2] (data : List UInt8) : Digest k := ⟨hash256 data⟩

/-- The loop of `Ord::cmp`, on the bytes from the most significant one. -/
def cmpBytes : List UInt8 → List UInt8 → Ordering
  | a :: as, b :: bs =>
    match compare a b with
    | .eq => cmpBytes as bs
    | nonEqual => nonEqual
  | _, _ => .eq

/-- `Ord::cmp`: comparison as little-endian numbers, from index 31 down to 0. -/
def cmp (a b : Digest k) : Ordering := cmpBytes a.bytes.toList.reverse b.bytes.toList.reverse

/-- `a > b` for the `Ord` instance. -/
def gt (a b : Digest k) : Bool := a.cmp b == .gt

/-- `a <= b` for the `Ord` instance. -/
def le (a b : Digest k) : Bool := a.cmp b != .gt

/-- The loop compares lists of the same length as the lexicographic order does. -/
lemma cmpBytes_eq_compare {as bs : List UInt8} (h : as.length = bs.length) :
    cmpBytes as bs = compare as bs := by
  induction as generalizing bs with
  | nil =>
    cases bs with
    | nil => rfl
    | cons b bs => simp at h
  | cons a as ih =>
    cases bs with
    | nil => simp at h
    | cons b bs =>
      rw [cmpBytes, List.compare_eq_compareLex, List.compareLex_cons_cons,
        ← List.compare_eq_compareLex, ih (by simpa using h)]
      cases compare a b <;> rfl

lemma le_iff {a b : Digest k} :
    a.le b = true ↔ (compare a.bytes.toList.reverse b.bytes.toList.reverse).isLE = true := by
  rw [le, cmp, cmpBytes_eq_compare (by simp)]
  cases compare a.bytes.toList.reverse b.bytes.toList.reverse <;> decide

lemma le_refl (a : Digest k) : a.le a = true := by
  have hcmp : compare a.bytes.toList.reverse a.bytes.toList.reverse = .eq :=
    Std.ReflCmp.compare_self
  rw [le_iff, hcmp]
  rfl

lemma le_trans {a b c : Digest k} (hab : a.le b = true) (hbc : b.le c = true) :
    a.le c = true := by
  rw [le_iff] at *
  exact Std.TransCmp.isLE_trans hab hbc

lemma le_of_gt_eq_false {a b : Digest k} (h : a.gt b = false) : a.le b = true := by
  unfold gt at h
  unfold le
  simpa using h

lemma gt_eq_false_of_le {a b : Digest k} (h : a.le b = true) : a.gt b = false := by
  unfold le at h
  unfold gt
  simpa using h

lemma le_of_gt {a b : Digest k} (h : a.gt b = true) : b.le a = true := by
  have hcmp : a.cmp b = .gt := by simpa [gt] using h
  rw [cmp, cmpBytes_eq_compare (by simp)] at hcmp
  have hswap : compare b.bytes.toList.reverse a.bytes.toList.reverse =
      (compare a.bytes.toList.reverse b.bytes.toList.reverse).swap := Std.OrientedCmp.eq_swap
  rw [le_iff, hswap, hcmp]
  rfl

lemma eq_replicate_of_cmpBytes_ne_gt {as : List UInt8}
    (h : cmpBytes as (List.replicate as.length 0) ≠ .gt) : as = List.replicate as.length 0 := by
  induction as with
  | nil => rfl
  | cons a as ih =>
    rw [List.length_cons, List.replicate_succ, cmpBytes] at h
    by_cases hzero : a = 0
    · subst hzero
      have hcmp : compare (0 : UInt8) 0 = .eq := Std.ReflCmp.compare_self
      rw [hcmp] at h
      rw [List.length_cons, List.replicate_succ, ← ih h]
    · have hcmp : compare a 0 = .gt := by
        change compareOfLessAndEq a 0 = .gt
        rw [compareOfLessAndEq, if_neg UInt8.not_lt_zero, if_neg hzero]
      rw [hcmp] at h
      exact absurd rfl h

/-- Nothing but zero is not above zero. -/
lemma eq_zero_of_gt_zero_eq_false {a : Digest k} (h : a.gt zero = false) : a = zero := by
  have hlength : a.bytes.toList.reverse.length = 32 := by simp
  have hzero : (zero : Digest k).bytes.toList.reverse = List.replicate 32 0 := by rfl
  have hcmp : cmpBytes a.bytes.toList.reverse (List.replicate a.bytes.toList.reverse.length 0) ≠
      .gt := by
    rw [hlength, ← hzero]
    simpa [gt, cmp] using h
  have hbytes := eq_replicate_of_cmpBytes_ne_gt hcmp
  rw [hlength, ← hzero, List.reverse_inj] at hbytes
  exact Digest.ext (List.Vector.toList_injective hbytes)

instance : BitcoinEncode (Digest k) := ⟨fun h => h.bytes.toList⟩

instance : BitcoinDecode (Digest k) where
  decode d := do
    let (bytes, d) ← (decode d : Except DecodeError (Bytes32 × Decoder))
    return (⟨bytes⟩, d)

end Digest

lemma roundTrips_digest {k : HashKind} (h : Digest k) : RoundTrips h := by
  intro pos suffix
  have hb := roundTrips_vector h.bytes pos suffix
  simp only [encode] at hb
  simp only [decode, encode] at hb ⊢
  simp [hb, bind, Except.bind, pure, Except.pure]

end Bitcrab
