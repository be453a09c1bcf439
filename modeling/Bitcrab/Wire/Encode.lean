import Bitcrab.Lib.Bytes
import Mathlib.Data.Vector.Basic

/-!
# The wire format encoder (`common/wire/encode.rs`)

An `Encoder` only ever appends to its buffer, so the encoding of a value is given by the bytes it
appends, and chaining `encode_field` calls is concatenation.
-/

namespace Bitcrab

open Bytes

/-- A type that can be encoded to the wire format. -/
class BitcoinEncode (α : Type) where
  /-- The bytes the value appends to an encoder. -/
  encode : α → List UInt8

export BitcoinEncode (encode)

/-- `serialize`: the encoding of a single value as a byte vector. -/
def serialize {α : Type} [BitcoinEncode α] (x : α) : List UInt8 := encode x

/-! ### Primitives -/

instance : BitcoinEncode UInt8 := ⟨fun v => [v]⟩

instance : BitcoinEncode UInt32 := ⟨fun v => leBytes 4 v.toNat⟩

instance : BitcoinEncode UInt64 := ⟨fun v => leBytes 8 v.toNat⟩

instance : BitcoinEncode Int32 := ⟨fun v => leBytes 4 v.toUInt32.toNat⟩

instance : BitcoinEncode Int64 := ⟨fun v => leBytes 8 v.toUInt64.toNat⟩

instance : BitcoinEncode Bool := ⟨fun v => [if v then 1 else 0]⟩

/-- `[u8; N]`: raw bytes, no length. -/
instance {n : Nat} : BitcoinEncode (List.Vector UInt8 n) := ⟨fun v => v.toList⟩

/-! ### Length-prefixed data -/

/-- `VarInt`: a variable-length integer. -/
structure VarInt where
  val : UInt64

/-- `VarInt::serialized_size`. -/
def VarInt.serializedSize (v : VarInt) : Nat :=
  if v.val ≤ 0xFC then 1
  else if v.val ≤ 0xFFFF then 3
  else if v.val ≤ 0xFFFFFFFF then 5
  else 9

instance : BitcoinEncode VarInt where
  encode v :=
    if v.val ≤ 0xFC then [v.val.toUInt8]
    else if v.val ≤ 0xFFFF then 0xFD :: leBytes 2 v.val.toNat
    else if v.val ≤ 0xFFFFFFFF then 0xFE :: leBytes 4 v.val.toNat
    else 0xFF :: leBytes 8 v.val.toNat

/-- `VarBytes`: the length as a `VarInt`, then the bytes. -/
def encodeVarBytes (bs : List UInt8) : List UInt8 :=
  encode (VarInt.mk (UInt64.ofNat bs.length)) ++ bs

/-- `Vec<u8>` is encoded as `VarBytes`. -/
instance : BitcoinEncode (List UInt8) := ⟨encodeVarBytes⟩

/-- `VarStr`: a string as the length of its UTF-8 encoding and its bytes. -/
def encodeVarStr (s : String) : List UInt8 :=
  encodeVarBytes s.toByteArray.data.toList

/-- `U16BE`: a port number, most significant byte first. -/
structure U16BE where
  val : UInt16

instance : BitcoinEncode U16BE := ⟨fun v => beBytes 2 v.val.toNat⟩

/-- `VarList`: the number of items as a `VarInt`, then the items. -/
def encodeVarList {α : Type} [BitcoinEncode α] (xs : List α) : List UInt8 :=
  encode (VarInt.mk (UInt64.ofNat xs.length)) ++ xs.flatMap encode

end Bitcrab
