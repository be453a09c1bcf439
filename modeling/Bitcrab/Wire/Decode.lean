import Bitcrab.Wire.Encode

/-!
# The wire format decoder (`common/wire/decode.rs`, `common/wire/error.rs`)

A `Decoder` is a cursor into a byte slice. `Reads d bs x` says that the decoding function `d`
consumes exactly the bytes `bs` and returns `x`, whatever follows; it is the form in which the
round trips of all codecs are stated and composed.
-/

namespace Bitcrab

open Bytes

/-- `DecodeError`. -/
inductive DecodeError where
  | bufferTooShort (field : String) (needed available : Nat)
  | truncatedVarint (field : String)
  | nonCanonicalVarint (field : String) (value : UInt64) (encodedLen : Nat)
  | allocationTooLarge (field : String) (len : UInt64) (limit : Nat)
  | invalidUtf8 (field : String)
  | trailingBytes (context : String) (remaining : Nat)
  | invalidValue (field : String) (value : UInt64)
  | custom (message : String)
  deriving Repr, DecidableEq

/-- `MAX_WIRE_ALLOCATION`, which is `MAX_MESSAGE_SIZE`. -/
def maxWireAllocation : Nat := 4 * 1024 * 1024

/-- `Decoder`: the source keeps the whole slice and a position; here the bytes before the position
are dropped, so that the slice has `pos + rest.length` bytes. -/
structure Decoder where
  pos : Nat
  rest : List UInt8
  deriving Repr, DecidableEq

/-- A type that can be decoded from the wire format. -/
class BitcoinDecode (α : Type) where
  decode : Decoder → Except DecodeError (α × Decoder)

export BitcoinDecode (decode)

namespace Decoder

/-- `Decoder::new`. -/
def new (data : List UInt8) : Decoder := ⟨0, data⟩

/-- `Decoder::remaining`. -/
def remaining (d : Decoder) : Nat := d.rest.length

/-- `Decoder::is_done`. -/
def isDone (d : Decoder) : Bool := d.rest.isEmpty

/-- `Decoder::finish`. -/
def finish (d : Decoder) (context : String) : Except DecodeError Unit :=
  if d.isDone then .ok () else .error (.trailingBytes context d.remaining)

/-- `Decoder::require`. -/
def require (d : Decoder) (n : Nat) (field : String) : Except DecodeError Unit :=
  if d.remaining < n then .error (.bufferTooShort field (d.pos + n) (d.pos + d.rest.length))
  else .ok ()

/-- `Decoder::read_bytes`. The fixed-width reads are this one followed by a conversion. -/
def readBytes (d : Decoder) (n : Nat) (field : String) :
    Except DecodeError (List UInt8 × Decoder) := do
  d.require n field
  return (d.rest.take n, ⟨d.pos + n, d.rest.drop n⟩)

/-- `Decoder::peek_u8`. -/
def peekU8 (d : Decoder) (field : String) : Except DecodeError UInt8 := do
  d.require 1 field
  return d.rest.headD 0

/-- `Decoder::read_u8`. -/
def readU8 (d : Decoder) (field : String) : Except DecodeError (UInt8 × Decoder) := do
  let (bs, d) ← d.readBytes 1 field
  return (bs.headD 0, d)

/-- `Decoder::read_u32_le`. -/
def readU32Le (d : Decoder) (field : String) : Except DecodeError (UInt32 × Decoder) := do
  let (bs, d) ← d.readBytes 4 field
  return (UInt32.ofNat (ofLeBytes bs), d)

/-- `Decoder::read_u64_le`. -/
def readU64Le (d : Decoder) (field : String) : Except DecodeError (UInt64 × Decoder) := do
  let (bs, d) ← d.readBytes 8 field
  return (UInt64.ofNat (ofLeBytes bs), d)

/-- `Decoder::read_i32_le`. -/
def readI32Le (d : Decoder) (field : String) : Except DecodeError (Int32 × Decoder) := do
  let (bs, d) ← d.readBytes 4 field
  return ((UInt32.ofNat (ofLeBytes bs)).toInt32, d)

/-- `Decoder::read_i64_le`. -/
def readI64Le (d : Decoder) (field : String) : Except DecodeError (Int64 × Decoder) := do
  let (bs, d) ← d.readBytes 8 field
  return ((UInt64.ofNat (ofLeBytes bs)).toInt64, d)

/-- `Decoder::read_u16_be`. -/
def readU16Be (d : Decoder) (field : String) : Except DecodeError (UInt16 × Decoder) := do
  let (bs, d) ← d.readBytes 2 field
  return (UInt16.ofNat (ofBeBytes bs), d)

/-- `Decoder::read_bool`. -/
def readBool (d : Decoder) (field : String) : Except DecodeError (Bool × Decoder) := do
  let (b, d) ← d.readU8 field
  return (b != 0, d)

/-- `Decoder::read_array`. -/
def readArray (n : Nat) (d : Decoder) (field : String) :
    Except DecodeError (List.Vector UInt8 n × Decoder) :=
  if h : d.rest.length < n then
    .error (.bufferTooShort field (d.pos + n) (d.pos + d.rest.length))
  else
    .ok (⟨d.rest.take n, by simp; omega⟩, ⟨d.pos + n, d.rest.drop n⟩)

end Decoder

/-! ### Variable-length integers and lists -/

/-- The multi-byte cases of `read_varint_raw`: `width` bytes after the marker, the value being at
least `least` (a smaller one has a shorter encoding). -/
def readVarintWide (buf : List UInt8) (field : String) (width : Nat) (least : UInt64) :
    Except DecodeError (UInt64 × Nat) :=
  if buf.length < width + 1 then .error (.truncatedVarint field)
  else
    let value := UInt64.ofNat (ofLeBytes ((buf.drop 1).take width))
    if value < least then .error (.nonCanonicalVarint field value (width + 1))
    else .ok (value, width + 1)

/-- `read_varint_raw`: the value and the number of bytes consumed. -/
def readVarintRaw (buf : List UInt8) (field : String) : Except DecodeError (UInt64 × Nat) :=
  match buf with
  | [] => .error (.truncatedVarint field)
  | n :: _ =>
    if n ≤ 0xFC then .ok (n.toUInt64, 1)
    else if n = 0xFD then readVarintWide buf field 2 0xFD
    else if n = 0xFE then readVarintWide buf field 4 0x10000
    else readVarintWide buf field 8 0x100000000

/-- `ensure_allocation_len`. -/
def ensureAllocationLen (field : String) (len : UInt64) : Except DecodeError Unit :=
  if len > UInt64.ofNat maxWireAllocation then
    .error (.allocationTooLarge field len maxWireAllocation)
  else .ok ()

namespace Decoder

/-- `Decoder::read_varint`. -/
def readVarint (d : Decoder) (field : String) : Except DecodeError (UInt64 × Decoder) := do
  let (v, consumed) ← readVarintRaw d.rest field
  return (v, ⟨d.pos + consumed, d.rest.drop consumed⟩)

/-- `Decoder::read_varbytes`. -/
def readVarbytes (d : Decoder) (label : String) : Except DecodeError (List UInt8 × Decoder) := do
  let (len, d) ← d.readVarint label
  ensureAllocationLen label len
  d.readBytes len.toNat label

/-- `Decoder::read_var_str`. -/
def readVarStr (d : Decoder) (field : String) : Except DecodeError (String × Decoder) := do
  let (len, d) ← d.readVarint field
  ensureAllocationLen field len
  let (bs, d) ← d.readBytes len.toNat field
  match String.fromUTF8? ⟨bs.toArray⟩ with
  | some s => return (s, d)
  | none => throw (.invalidUtf8 field)

/-- `Decoder::decode_optional_field`: absent only if no bytes remain. -/
def decodeOptionalField (α : Type) [BitcoinDecode α] (d : Decoder) :
    Except DecodeError (Option α × Decoder) :=
  if d.isDone then .ok (none, d)
  else do
    let (v, d) ← decode d
    return (some v, d)

/-- The loop of `Decoder::read_var_list`: decode `count` items. -/
def readItems (α : Type) [BitcoinDecode α] :
    Nat → Decoder → Except DecodeError (List α × Decoder)
  | 0, d => .ok ([], d)
  | count + 1, d => do
    let (item, d) ← decode d
    let (items, d) ← readItems α count d
    return (item :: items, d)

/-- `Decoder::read_var_list`. -/
def readVarList (α : Type) [BitcoinDecode α] (d : Decoder) (label : String) :
    Except DecodeError (List α × Decoder) := do
  let (count, d) ← d.readVarint label
  ensureAllocationLen label count
  if count.toNat > d.remaining then
    throw (.allocationTooLarge label count d.remaining)
  readItems α count.toNat d

end Decoder

/-! ### Primitives -/

instance : BitcoinDecode UInt8 := ⟨fun d => d.readU8 "u8"⟩

instance : BitcoinDecode UInt32 := ⟨fun d => d.readU32Le "u32"⟩

instance : BitcoinDecode UInt64 := ⟨fun d => d.readU64Le "u64"⟩

instance : BitcoinDecode Int32 := ⟨fun d => d.readI32Le "i32"⟩

instance : BitcoinDecode Int64 := ⟨fun d => d.readI64Le "i64"⟩

instance : BitcoinDecode Bool := ⟨fun d => d.readBool "bool"⟩

instance {n : Nat} : BitcoinDecode (List.Vector UInt8 n) := ⟨fun d => d.readArray n "array"⟩

instance : BitcoinDecode (List UInt8) := ⟨fun d => d.readVarbytes "Vec<u8>"⟩

/-- `decode_exact`: decode a value and require that the whole payload was consumed. -/
def decodeExact (α : Type) [BitcoinDecode α] (payload : List UInt8) (context : String) :
    Except DecodeError α := do
  let (value, d) ← decode (Decoder.new payload)
  d.finish context
  return value

/-! ### Round trips -/

/-- The decoding function `f` consumes exactly the bytes `bs` and returns `x`. -/
def Reads {α : Type} (f : Decoder → Except DecodeError (α × Decoder)) (bs : List UInt8) (x : α) :
    Prop :=
  ∀ pos suffix, f ⟨pos, bs ++ suffix⟩ = .ok (x, ⟨pos + bs.length, suffix⟩)

/-- The decoder of `α` reads the encoding of `x` back. -/
def RoundTrips {α : Type} [BitcoinEncode α] [BitcoinDecode α] (x : α) : Prop :=
  Reads (α := α) decode (encode x) x

lemma reads_readBytes (bs : List UInt8) (field : String) :
    Reads (fun d => d.readBytes bs.length field) bs bs := by
  intro pos suffix
  simp [Decoder.readBytes, Decoder.require, Decoder.remaining, bind, Except.bind, pure,
    Except.pure]

lemma reads_readArray {n : Nat} (v : List.Vector UInt8 n) (field : String) :
    Reads (fun d => d.readArray n field) v.toList v := by
  intro pos suffix
  have hlen : v.toList.length = n := v.2
  have htake : (v.toList ++ suffix).take n = v.toList := List.take_left' hlen
  have hdrop : (v.toList ++ suffix).drop n = suffix := List.drop_left' hlen
  have hlt : ¬ (v.toList ++ suffix).length < n := by simp
  simp only [Decoder.readArray, dif_neg hlt, hdrop, htake, hlen]
  rfl

/-- Reading a fixed-width integer back, for any conversion from its little-endian bytes. -/
lemma reads_ofLeBytes {α : Type} (k n : Nat) (field : String) (conv : List UInt8 → α) :
    Reads (fun d => (do let (bs, d) ← d.readBytes k field; return (conv bs, d)))
      (leBytes k n) (conv (leBytes k n)) := by
  intro pos suffix
  have h := reads_readBytes (leBytes k n) field pos suffix
  simp only [length_leBytes] at h
  simp [h, bind, Except.bind, pure, Except.pure]

lemma roundTrips_uint8 (v : UInt8) : RoundTrips v := by
  intro pos suffix
  have h := reads_readBytes [v] "u8" pos suffix
  simp only [List.length_singleton] at h
  simp only [decode, encode, Decoder.readU8, h, bind, Except.bind, pure, Except.pure]
  rfl

lemma roundTrips_uint32 (v : UInt32) : RoundTrips v := by
  have hv : UInt32.ofNat (ofLeBytes (leBytes 4 v.toNat)) = v := by
    rw [ofLeBytes_leBytes 4 _ v.toNat_lt]
    simp
  have h := reads_ofLeBytes 4 v.toNat "u32" (fun bs => UInt32.ofNat (ofLeBytes bs))
  rw [hv] at h
  exact h

lemma roundTrips_uint64 (v : UInt64) : RoundTrips v := by
  have hv : UInt64.ofNat (ofLeBytes (leBytes 8 v.toNat)) = v := by
    rw [ofLeBytes_leBytes 8 _ v.toNat_lt]
    simp
  have h := reads_ofLeBytes 8 v.toNat "u64" (fun bs => UInt64.ofNat (ofLeBytes bs))
  rw [hv] at h
  exact h

lemma roundTrips_int32 (v : Int32) : RoundTrips v := by
  have hv : (UInt32.ofNat (ofLeBytes (leBytes 4 v.toUInt32.toNat))).toInt32 = v := by
    rw [ofLeBytes_leBytes 4 _ v.toUInt32.toNat_lt]
    simp
  have h := reads_ofLeBytes 4 v.toUInt32.toNat "i32" fun bs => (UInt32.ofNat (ofLeBytes bs)).toInt32
  rw [hv] at h
  exact h

lemma roundTrips_int64 (v : Int64) : RoundTrips v := by
  have hv : (UInt64.ofNat (ofLeBytes (leBytes 8 v.toUInt64.toNat))).toInt64 = v := by
    rw [ofLeBytes_leBytes 8 _ v.toUInt64.toNat_lt]
    simp
  have h := reads_ofLeBytes 8 v.toUInt64.toNat "i64" fun bs => (UInt64.ofNat (ofLeBytes bs)).toInt64
  rw [hv] at h
  exact h

lemma reads_readU16Be (v : UInt16) (field : String) :
    Reads (fun d => d.readU16Be field) (encode (U16BE.mk v)) v := by
  intro pos suffix
  have h := reads_readBytes (beBytes 2 v.toNat) field pos suffix
  simp only [length_beBytes] at h
  have hv : UInt16.ofNat (ofBeBytes (beBytes 2 v.toNat)) = v := by
    rw [ofBeBytes, beBytes, List.reverse_reverse, ofLeBytes_leBytes 2 _ v.toNat_lt]
    simp
  simp only [Decoder.readU16Be, encode, h, bind, Except.bind, pure, Except.pure, length_beBytes, hv]

lemma roundTrips_bool (v : Bool) : RoundTrips v := by
  intro pos suffix
  have h := reads_readBytes [if v then 1 else 0] "bool" pos suffix
  simp only [List.length_singleton] at h
  simp only [decode, encode, Decoder.readBool, Decoder.readU8, h, bind, Except.bind, pure,
    Except.pure]
  cases v <;> rfl

lemma roundTrips_vector {n : Nat} (v : List.Vector UInt8 n) : RoundTrips v :=
  reads_readArray v "array"

/-- A multi-byte `VarInt` is read back when its value is in the range of its width. -/
lemma readVarintWide_leBytes (marker : UInt8) (v : UInt64) (field : String) (width : Nat)
    (least : UInt64) (hwidth : v.toNat < 256 ^ width) (hleast : least ≤ v)
    (suffix : List UInt8) :
    readVarintWide (marker :: (leBytes width v.toNat ++ suffix)) field width least =
      .ok (v, width + 1) := by
  have htake : (leBytes width v.toNat ++ suffix).take width = leBytes width v.toNat := by
    rw [List.take_left' (length_leBytes width _)]
  have hlt : ¬ v < least := UInt64.not_lt.mpr hleast
  simp [readVarintWide, htake, ofLeBytes_leBytes width _ hwidth, hlt]

lemma reads_readVarint (v : UInt64) (field : String) :
    Reads (fun d => d.readVarint field) (encode (VarInt.mk v)) v := by
  intro pos suffix
  have hv := v.toNat_lt
  -- one case per width of the encoding
  simp only [Decoder.readVarint, encode]
  split_ifs with h1 h2 h3
  · have hb : v.toUInt8 ≤ 0xFC := by
      rw [UInt8.le_iff_toNat_le]
      rw [UInt64.le_iff_toNat_le] at h1
      simp only [UInt64.toNat_toUInt8]
      exact le_trans (Nat.mod_le _ _) h1
    have hc : v.toUInt8.toUInt64 = v := by
      apply UInt64.toNat_inj.mp
      rw [UInt64.le_iff_toNat_le] at h1
      simp only [UInt8.toNat_toUInt64, UInt64.toNat_toUInt8]
      exact Nat.mod_eq_of_lt (lt_of_le_of_lt h1 (by decide))
    simp [readVarintRaw, hb, hc, bind, Except.bind, pure, Except.pure]
  · rw [UInt64.le_iff_toNat_le] at h2
    have hw : v.toNat < 256 ^ 2 := lt_of_le_of_lt h2 (by decide)
    have hl : (0xFD : UInt64) ≤ v := by
      rw [UInt64.le_iff_toNat_le] at h1 ⊢
      have : (0xFC : UInt64).toNat = 0xFC := rfl
      have : (0xFD : UInt64).toNat = 0xFD := rfl
      omega
    simp [readVarintRaw, readVarintWide_leBytes _ v field 2 _ hw hl, bind, Except.bind, pure,
      Except.pure]
  · rw [UInt64.le_iff_toNat_le] at h3
    have hw : v.toNat < 256 ^ 4 := lt_of_le_of_lt h3 (by decide)
    have hl : (0x10000 : UInt64) ≤ v := by
      rw [UInt64.le_iff_toNat_le] at h2 ⊢
      have : (0xFFFF : UInt64).toNat = 0xFFFF := rfl
      have : (0x10000 : UInt64).toNat = 0x10000 := rfl
      omega
    simp [readVarintRaw, readVarintWide_leBytes _ v field 4 _ hw hl, bind, Except.bind, pure,
      Except.pure]
  · have hl : (0x100000000 : UInt64) ≤ v := by
      rw [UInt64.le_iff_toNat_le] at h3 ⊢
      have : (0xFFFFFFFF : UInt64).toNat = 0xFFFFFFFF := rfl
      have : (0x100000000 : UInt64).toNat = 0x100000000 := rfl
      omega
    simp [readVarintRaw, readVarintWide_leBytes _ v field 8 _ hv hl, bind, Except.bind, pure,
      Except.pure]

lemma toNat_ofNat_of_le_maxWireAllocation {n : Nat} (h : n ≤ maxWireAllocation) :
    (UInt64.ofNat n).toNat = n := by
  simp only [UInt64.toNat_ofNat']
  exact Nat.mod_eq_of_lt (lt_of_le_of_lt h (by decide))

lemma ensureAllocationLen_ofNat {n : Nat} (h : n ≤ maxWireAllocation) (field : String) :
    ensureAllocationLen field (UInt64.ofNat n) = .ok () := by
  have hn : ¬ UInt64.ofNat n > UInt64.ofNat maxWireAllocation := by
    simp only [gt_iff_lt, UInt64.lt_iff_toNat_lt, toNat_ofNat_of_le_maxWireAllocation h,
      toNat_ofNat_of_le_maxWireAllocation le_rfl, not_lt]
    exact h
  simp [ensureAllocationLen, hn]

/-- Byte vectors within the allocation limit are read back. -/
lemma reads_readVarbytes {bs : List UInt8} (h : bs.length ≤ maxWireAllocation) (label : String) :
    Reads (fun d => d.readVarbytes label) (encodeVarBytes bs) bs := by
  intro pos suffix
  have h1 := reads_readVarint (UInt64.ofNat bs.length) label
  have h2 := reads_readBytes bs label
  simp only [Reads] at h1 h2
  simp only [Decoder.readVarbytes, encodeVarBytes, List.append_assoc, h1, h2, bind, Except.bind,
    ensureAllocationLen_ofNat h, toNat_ofNat_of_le_maxWireAllocation h, List.length_append]
  simp [Nat.add_assoc]

/-- Strings within the allocation limit are read back. -/
lemma reads_readVarStr {s : String} (h : s.toByteArray.data.toList.length ≤ maxWireAllocation)
    (field : String) : Reads (fun d => d.readVarStr field) (encodeVarStr s) s := by
  intro pos suffix
  have h1 := reads_readVarint (UInt64.ofNat s.toByteArray.data.toList.length) field
  have h2 := reads_readBytes s.toByteArray.data.toList field
  have hs : String.fromUTF8? ⟨s.toByteArray.data.toList.toArray⟩ = some s := by
    simp only [Array.toArray_toList, String.fromUTF8?, dif_pos s.isValidUTF8]
    rfl
  simp only [Reads] at h1 h2
  simp only [Decoder.readVarStr, encodeVarStr, encodeVarBytes, List.append_assoc, h1, h2, bind,
    Except.bind, ensureAllocationLen_ofNat h, toNat_ofNat_of_le_maxWireAllocation h, hs,
    List.length_append, pure, Except.pure, Nat.add_assoc]

lemma roundTrips_bytes {bs : List UInt8} (h : bs.length ≤ maxWireAllocation) : RoundTrips bs :=
  reads_readVarbytes h "Vec<u8>"

lemma encode_varInt_ne_nil (v : VarInt) : encode v ≠ [] := by
  simp only [encode]
  split_ifs <;> simp

section Lists

variable {α : Type} [BitcoinEncode α] [BitcoinDecode α] {g : α → α}

/-- Items are read one after the other. `g` is what an item becomes when it is decoded: an item
whose encoding leaves a part out is read back without it. -/
lemma reads_readItems (xs : List α) (h : ∀ x ∈ xs, Reads decode (encode x) (g x)) :
    Reads (fun d => Decoder.readItems α xs.length d) (xs.flatMap encode) (xs.map g) := by
  induction xs with
  | nil =>
    intro pos suffix
    simp [Decoder.readItems]
  | cons x xs ih =>
    intro pos suffix
    have hx := h x List.mem_cons_self
    have hxs := ih fun y hy => h y (List.mem_cons_of_mem x hy)
    simp only [Reads] at hx hxs
    simp only [List.length_cons, List.flatMap_cons, List.append_assoc, Decoder.readItems, hx, hxs,
      bind, Except.bind, pure, Except.pure, List.length_append, Nat.add_assoc, List.map_cons]

omit [BitcoinDecode α] in
/-- Every item of a list takes at least one byte. -/
lemma length_le_length_flatMap_encode (xs : List α) (h : ∀ x ∈ xs, encode x ≠ []) :
    xs.length ≤ (xs.flatMap encode).length := by
  induction xs with
  | nil => simp
  | cons x xs ih =>
    have hx := List.length_pos_iff.mpr (h x List.mem_cons_self)
    have hxs := ih fun y hy => h y (List.mem_cons_of_mem x hy)
    simp only [List.length_cons, List.flatMap_cons, List.length_append]
    omega

/-- A list within the allocation limit is read back. No item may have an empty encoding, since the
count is compared with the number of bytes that remain. -/
lemma reads_readVarList {xs : List α} (hlen : xs.length ≤ maxWireAllocation)
    (hne : ∀ x ∈ xs, encode x ≠ []) (h : ∀ x ∈ xs, Reads decode (encode x) (g x))
    (label : String) :
    Reads (fun d => d.readVarList α label) (encodeVarList xs) (xs.map g) := by
  intro pos suffix
  have hcount := reads_readVarint (UInt64.ofNat xs.length) label
  have hitems := reads_readItems xs h
  simp only [Reads] at hcount hitems
  have hroom : ¬ xs.length > (xs.flatMap encode).length + suffix.length := by
    have := length_le_length_flatMap_encode xs hne
    omega
  simp only [Decoder.readVarList, encodeVarList, List.append_assoc, hcount, bind, Except.bind,
    ensureAllocationLen_ofNat hlen, toNat_ofNat_of_le_maxWireAllocation hlen, Decoder.remaining,
    List.length_append, if_neg hroom, hitems, Nat.add_assoc]

end Lists

/-- Decoding the whole encoding of a value gives the value. -/
lemma decodeExact_encode {α : Type} [BitcoinEncode α] [BitcoinDecode α] {x : α}
    (h : RoundTrips x) (context : String) : decodeExact α (encode x) context = .ok x := by
  have h0 := h 0 []
  simp only [List.append_nil] at h0
  simp [decodeExact, Decoder.new, h0, Decoder.finish, Decoder.isDone, bind, Except.bind, pure,
    Except.pure]

end Bitcrab
