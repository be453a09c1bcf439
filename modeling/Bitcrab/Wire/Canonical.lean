import Bitcrab.Lib.Result
import Bitcrab.Wire.Decode

/-!
# What a decoder has consumed

`Reads` says what a decoder does on an encoding. Here is the converse: when a decoder succeeds, the
bytes that it has consumed are the encoding of the value it returns. A `VarInt` has this property
because the decoder rejects the longer encodings of a number.
-/

namespace Bitcrab

open Bytes

/-- Between the decoders `d` and `d'` the bytes `bs` have been consumed. -/
def Decoder.Consumed (d : Decoder) (bs : List UInt8) (d' : Decoder) : Prop :=
  d.rest = bs ++ d'.rest ∧ d'.pos = d.pos + bs.length

namespace Decoder.Consumed

variable {d d' d'' : Decoder} {bs bs' : List UInt8}

lemma trans (h : d.Consumed bs d') (h' : d'.Consumed bs' d'') : d.Consumed (bs ++ bs') d'' := by
  refine ⟨?_, ?_⟩
  · rw [h.1, h'.1, List.append_assoc]
  · rw [h'.2, h.2, List.length_append, Nat.add_assoc]

/-- The consumed bytes are those between the two positions. -/
lemma eq_take (h : d.Consumed bs d') : d.rest.take (d'.pos - d.pos) = bs := by
  rw [h.1, h.2, Nat.add_sub_cancel_left]
  exact List.take_left

end Decoder.Consumed

/-- What a decoder reads is the only thing it reads at the start of a byte string. -/
lemma Reads.unique {α : Type} {f : Decoder → Except DecodeError (α × Decoder)} {x x' : α}
    {bs bs' suffix suffix' : List UInt8} (h : Reads f bs x) (h' : Reads f bs' x')
    (heq : bs ++ suffix = bs' ++ suffix') : x = x' ∧ bs = bs' ∧ suffix = suffix' := by
  have hread := h 0 suffix
  rw [heq, h' 0 suffix', Except.ok.injEq, Prod.mk.injEq, Decoder.mk.injEq] at hread
  obtain ⟨hx, -, hsuffix⟩ := hread
  rw [← hsuffix] at heq
  exact ⟨hx.symm, List.append_cancel_right heq, hsuffix.symm⟩

variable {d d' : Decoder} {field label : String}

/-! ### Primitives -/

lemma consumed_readBytes {n : Nat} {bs : List UInt8} (h : d.readBytes n field = .ok (bs, d')) :
    d.Consumed bs d' ∧ bs.length = n := by
  obtain ⟨⟨⟩, hrequire, hret⟩ := Result.bind_eq_ok.mp h
  obtain ⟨hle, -⟩ := Result.ite_error_eq_ok.mp hrequire
  cases hret
  have hlen : (d.rest.take n).length = n := List.length_take_of_le (not_lt.mp hle)
  exact ⟨⟨(List.take_append_drop n d.rest).symm, by rw [hlen]⟩, hlen⟩

lemma consumed_readArray {n : Nat} {v : List.Vector UInt8 n}
    (h : d.readArray n field = .ok (v, d')) : d.Consumed v.toList d' := by
  simp only [Decoder.readArray] at h
  split_ifs at h with hlt
  cases h
  have hlen : (d.rest.take n).length = n := List.length_take_of_le (not_lt.mp hlt)
  exact ⟨(List.take_append_drop n d.rest).symm, congrArg (d.pos + ·) hlen.symm⟩

/-- A fixed-width integer is read from its own bytes. -/
lemma consumed_ofLeBytes {α : Type} (k : Nat) (field : String) (conv : List UInt8 → α) {x : α}
    (h : (do let (bs, d) ← d.readBytes k field; return (conv bs, d)) = .ok (x, d')) :
    ∃ bs, x = conv bs ∧ bs.length = k ∧ d.Consumed bs d' := by
  obtain ⟨⟨bs, d₁⟩, hread, hret⟩ := Result.bind_eq_ok.mp h
  cases hret
  obtain ⟨hconsumed, hlen⟩ := consumed_readBytes hread
  exact ⟨bs, rfl, hlen, hconsumed⟩

lemma consumed_uint8 {v : UInt8} (h : decode d = .ok (v, d')) : d.Consumed (encode v) d' := by
  obtain ⟨bs, rfl, hlen, hconsumed⟩ := consumed_ofLeBytes 1 "u8" (fun bs => bs.headD 0) h
  obtain ⟨b, rfl⟩ := List.length_eq_one_iff.mp hlen
  exact hconsumed

lemma consumed_uint32 {v : UInt32} (h : decode d = .ok (v, d')) : d.Consumed (encode v) d' := by
  obtain ⟨bs, rfl, hlen, hconsumed⟩ :=
    consumed_ofLeBytes 4 "u32" (fun bs => UInt32.ofNat (ofLeBytes bs)) h
  have hlt : ofLeBytes bs < 2 ^ 32 := by simpa [hlen] using ofLeBytes_lt bs
  have hbytes : encode (UInt32.ofNat (ofLeBytes bs)) = bs := by
    simp only [encode, UInt32.toNat_ofNat_of_lt' hlt]
    rw [← hlen, leBytes_ofLeBytes]
  rwa [hbytes]

lemma consumed_uint64 {v : UInt64} (h : decode d = .ok (v, d')) : d.Consumed (encode v) d' := by
  obtain ⟨bs, rfl, hlen, hconsumed⟩ :=
    consumed_ofLeBytes 8 "u64" (fun bs => UInt64.ofNat (ofLeBytes bs)) h
  have hlt : ofLeBytes bs < 2 ^ 64 := by simpa [hlen] using ofLeBytes_lt bs
  have hbytes : encode (UInt64.ofNat (ofLeBytes bs)) = bs := by
    simp only [encode, UInt64.toNat_ofNat_of_lt' hlt]
    rw [← hlen, leBytes_ofLeBytes]
  rwa [hbytes]

/-! ### Variable-length integers and lists -/

/-- A multi-byte `VarInt` is at least the least value of its width. -/
lemma readVarintWide_eq_ok {marker : UInt8} {buf : List UInt8} {width consumed : Nat}
    {least v : UInt64} (hwidth : width ≤ 8)
    (h : readVarintWide (marker :: buf) field width least = .ok (v, consumed)) :
    consumed = width + 1 ∧ width ≤ buf.length ∧ buf.take width = leBytes width v.toNat ∧
      v.toNat < 256 ^ width ∧ least ≤ v := by
  obtain ⟨hlen, h⟩ := Result.ite_error_eq_ok.mp h
  obtain ⟨hleast, h⟩ := Result.ite_error_eq_ok.mp h
  cases h
  simp only [List.length_cons, Nat.add_lt_add_iff_right, not_lt] at hlen
  have htake : (buf.take width).length = width := List.length_take_of_le hlen
  have hlt : ofLeBytes (buf.take width) < 256 ^ width := by
    simpa only [htake] using ofLeBytes_lt (buf.take width)
  have hfits : ofLeBytes (buf.take width) < 2 ^ 64 := by
    calc ofLeBytes (buf.take width) < 256 ^ width := hlt
      _ ≤ 256 ^ 8 := Nat.pow_le_pow_right (by decide) hwidth
      _ = 2 ^ 64 := by decide
  simp only [List.drop_succ_cons, List.drop_zero, UInt64.toNat_ofNat_of_lt' hfits] at hleast ⊢
  refine ⟨trivial, hlen, ?_, hlt, UInt64.not_lt.mp hleast⟩
  have hbytes := leBytes_ofLeBytes (buf.take width)
  rw [htake] at hbytes
  exact hbytes.symm

/-- `read_varint_raw` accepts the one encoding of each number. -/
lemma readVarintRaw_eq_ok {buf : List UInt8} {v : UInt64} {consumed : Nat}
    (h : readVarintRaw buf field = .ok (v, consumed)) :
    consumed = (encode (VarInt.mk v)).length ∧ buf.take consumed = encode (VarInt.mk v) := by
  cases buf with
  | nil => cases h
  | cons n buf =>
    simp only [readVarintRaw] at h
    split_ifs at h with h1 h2 h3
    · cases h
      have hn : n.toUInt64 ≤ 0xFC := by
        rw [UInt8.le_iff_toNat_le] at h1
        rw [UInt64.le_iff_toNat_le]
        simpa using h1
      simp [encode, hn]
    · obtain ⟨rfl, hlen, htake, hlt, hleast⟩ := readVarintWide_eq_ok (by decide) h
      rw [UInt64.le_iff_toNat_le] at hleast
      have hgt : ¬ v ≤ 0xFC := by
        rw [UInt64.le_iff_toNat_le, not_le]
        exact hleast
      have hle : v ≤ 0xFFFF := by
        rw [UInt64.le_iff_toNat_le]
        exact Nat.le_of_lt_succ hlt
      simp [encode, hgt, hle, htake, h2]
    · obtain ⟨rfl, hlen, htake, hlt, hleast⟩ := readVarintWide_eq_ok (by decide) h
      rw [UInt64.le_iff_toNat_le] at hleast
      have hgt : ¬ v ≤ 0xFC ∧ ¬ v ≤ 0xFFFF := by
        simp only [UInt64.le_iff_toNat_le, not_le]
        exact ⟨lt_of_lt_of_le (by decide) hleast, hleast⟩
      have hle : v ≤ 0xFFFFFFFF := by
        rw [UInt64.le_iff_toNat_le]
        exact Nat.le_of_lt_succ hlt
      simp [encode, hgt, hle, htake, h3]
    · obtain ⟨rfl, hlen, htake, hlt, hleast⟩ := readVarintWide_eq_ok (by decide) h
      rw [UInt64.le_iff_toNat_le] at hleast
      have hgt : ¬ v ≤ 0xFC ∧ ¬ v ≤ 0xFFFF ∧ ¬ v ≤ 0xFFFFFFFF := by
        simp only [UInt64.le_iff_toNat_le, not_le]
        exact ⟨lt_of_lt_of_le (by decide) hleast, lt_of_lt_of_le (by decide) hleast, hleast⟩
      have hmarker : n = 0xFF := by
        rw [UInt8.le_iff_toNat_le] at h1
        have hn := n.toNat_lt
        have h2' : n.toNat ≠ 0xFD := fun h => h2 (UInt8.toNat_inj.mp h)
        have h3' : n.toNat ≠ 0xFE := fun h => h3 (UInt8.toNat_inj.mp h)
        have hc : (0xFC : UInt8).toNat = 0xFC := rfl
        apply UInt8.toNat_inj.mp
        change n.toNat = 0xFF
        omega
      simp [encode, hgt, htake, hmarker]

lemma consumed_readVarint {v : UInt64} (h : d.readVarint field = .ok (v, d')) :
    d.Consumed (encode (VarInt.mk v)) d' := by
  obtain ⟨⟨v', consumed⟩, hraw, hret⟩ := Result.bind_eq_ok.mp h
  cases hret
  obtain ⟨hlen, htake⟩ := readVarintRaw_eq_ok hraw
  rw [← htake]
  refine ⟨(List.take_append_drop consumed d.rest).symm, ?_⟩
  rw [htake, ← hlen]

lemma ensureAllocationLen_eq_ok {len : UInt64} (h : ensureAllocationLen field len = .ok ()) :
    len.toNat ≤ maxWireAllocation := by
  obtain ⟨hle, -⟩ := Result.ite_error_eq_ok.mp h
  simpa only [gt_iff_lt, UInt64.lt_iff_toNat_lt, toNat_ofNat_of_le_maxWireAllocation le_rfl,
    not_lt] using hle

/-- A byte vector is read from its own encoding, and is within the allocation limit. -/
lemma consumed_readVarbytes {bs : List UInt8} (h : d.readVarbytes label = .ok (bs, d')) :
    d.Consumed (encodeVarBytes bs) d' ∧ bs.length ≤ maxWireAllocation := by
  obtain ⟨⟨len, d₁⟩, hlen, h⟩ := Result.bind_eq_ok.mp h
  obtain ⟨⟨⟩, halloc, h⟩ := Result.bind_eq_ok.mp h
  obtain ⟨hbytes, hcount⟩ := consumed_readBytes h
  have hofNat : UInt64.ofNat bs.length = len := by
    rw [hcount]
    exact UInt64.ofNat_toNat
  refine ⟨?_, hcount ▸ ensureAllocationLen_eq_ok halloc⟩
  rw [encodeVarBytes, hofNat]
  exact (consumed_readVarint hlen).trans hbytes

section Lists

variable {α : Type} [BitcoinDecode α] {form : α → List UInt8 → Prop}

/-- Items are read one after the other. `form` are the byte strings that are accepted for an
item. -/
lemma consumed_readItems
    (hform : ∀ {d d' : Decoder} {x : α}, decode d = .ok (x, d') → ∃ bs, form x bs ∧
      d.Consumed bs d')
    {count : Nat} {xs : List α} (h : Decoder.readItems α count d = .ok (xs, d')) :
    xs.length = count ∧ ∃ parts, List.Forall₂ form xs parts ∧ d.Consumed parts.flatten d' := by
  induction count generalizing d xs with
  | zero =>
    cases h
    exact ⟨rfl, [], .nil, rfl, rfl⟩
  | succ count ih =>
    obtain ⟨⟨x, d₁⟩, hx, h⟩ := Result.bind_eq_ok.mp h
    obtain ⟨⟨xs', d₂⟩, hxs, hret⟩ := Result.bind_eq_ok.mp h
    cases hret
    obtain ⟨bs, hbs, hconsumed⟩ := hform hx
    obtain ⟨hlen, parts, hparts, hrest⟩ := ih hxs
    exact ⟨congrArg Nat.succ hlen, bs :: parts, .cons hbs hparts, hconsumed.trans hrest⟩

/-- A list is read from its count and its items, and is within the allocation limit. -/
lemma consumed_readVarList
    (hform : ∀ {d d' : Decoder} {x : α}, decode d = .ok (x, d') → ∃ bs, form x bs ∧
      d.Consumed bs d')
    {xs : List α} (h : d.readVarList α label = .ok (xs, d')) :
    xs.length ≤ maxWireAllocation ∧ ∃ parts, List.Forall₂ form xs parts ∧
      d.Consumed (encode (VarInt.mk (UInt64.ofNat xs.length)) ++ parts.flatten) d' := by
  obtain ⟨⟨count, d₁⟩, hcount, h⟩ := Result.bind_eq_ok.mp h
  obtain ⟨⟨⟩, halloc, h⟩ := Result.bind_eq_ok.mp h
  obtain ⟨-, h⟩ := Result.ite_error_eq_ok.mp h
  obtain ⟨hlen, parts, hparts, hitems⟩ := consumed_readItems hform h
  have hofNat : UInt64.ofNat xs.length = count := by
    rw [hlen]
    exact UInt64.ofNat_toNat
  refine ⟨hlen ▸ ensureAllocationLen_eq_ok halloc, parts, hparts, ?_⟩
  rw [hofNat]
  exact (consumed_readVarint hcount).trans hitems

/-- When every item has one encoding, so has the list. -/
lemma consumed_readVarList_encode [BitcoinEncode α] {p : α → Prop}
    (hform : ∀ {d d' : Decoder} {x : α}, decode d = .ok (x, d') → d.Consumed (encode x) d' ∧ p x)
    {xs : List α} (h : d.readVarList α label = .ok (xs, d')) :
    d.Consumed (encodeVarList xs) d' ∧ xs.length ≤ maxWireAllocation ∧ ∀ x ∈ xs, p x := by
  have hforms : ∀ {d d' : Decoder} {x : α}, decode d = .ok (x, d') →
      ∃ bs, (bs = encode x ∧ p x) ∧ d.Consumed bs d' := fun hx =>
    ⟨_, ⟨rfl, (hform hx).2⟩, (hform hx).1⟩
  obtain ⟨hlen, parts, hparts, hconsumed⟩ := consumed_readVarList hforms h
  have hall : parts = xs.map encode ∧ ∀ x ∈ xs, p x := by
    clear h hlen hconsumed
    induction hparts with
    | nil => simp
    | cons hx _ ih =>
      exact ⟨by rw [hx.1, ih.1, List.map_cons], List.forall_mem_cons.mpr ⟨hx.2, ih.2⟩⟩
  refine ⟨?_, hlen, hall.2⟩
  rw [encodeVarList, List.flatMap_def, ← hall.1]
  exact hconsumed

end Lists

end Bitcrab
