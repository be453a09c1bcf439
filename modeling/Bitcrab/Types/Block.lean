import Bitcrab.Lib.PairFold
import Bitcrab.Types.Transaction

/-!
# Blocks (`common/types/block.rs`, `common/types/flat_file_pos.rs`)

Headers, blocks and block index records with their codecs, the compact target representation and
the merkle root.
-/

namespace Bitcrab

open Bytes

/-- `BlockHeight`, a `u32` newtype. -/
abbrev BlockHeight := UInt32

/-! ### Headers -/

/-- `BlockHeader`. -/
structure BlockHeader where
  version : Int32
  prevHash : BlockHash
  merkleRoot : Hash256
  time : UInt32
  bits : UInt32
  nonce : UInt32
  deriving DecidableEq

namespace BlockHeader

/-- `BlockHeader::serialize`: the 80-byte wire format. -/
def serialize (h : BlockHeader) : List.Vector UInt8 80 :=
  ⟨encode h.version ++ h.prevHash.bytes.toList ++ h.merkleRoot.bytes.toList ++
    encode h.time ++ encode h.bits ++ encode h.nonce, by simp [encode]⟩

/-- The 32 bytes of an array from an offset on. -/
def slice32 (buf : List.Vector UInt8 80) (i : Nat) (h : i + 32 ≤ 80) : Bytes32 :=
  ⟨(buf.toList.drop i).take 32, by simp; omega⟩

/-- `u32::from_le_bytes` of four bytes of an array. -/
def sliceU32 (buf : List.Vector UInt8 80) (i : Nat) : UInt32 :=
  UInt32.ofNat (ofLeBytes ((buf.toList.drop i).take 4))

/-- `BlockHeader::deserialize`. -/
def deserialize (buf : List.Vector UInt8 80) : BlockHeader where
  version := (sliceU32 buf 0).toInt32
  prevHash := ⟨slice32 buf 4 (by omega)⟩
  merkleRoot := ⟨slice32 buf 36 (by omega)⟩
  time := sliceU32 buf 68
  bits := sliceU32 buf 72
  nonce := sliceU32 buf 76

/-- `BlockHeader::block_hash`. -/
def blockHash [Sha2] (h : BlockHeader) : BlockHash := Digest.hash h.serialize.toList

/-- `BlockHeader::bits_to_target`. The three mantissa bytes are written where the index is below
32; `List.set` ignores the others. -/
def bitsToTarget (bits : UInt32) : Hash256 :=
  let exponent := (bits >>> 24).toNat
  let mantissa := bits &&& 0x00FFFFFF
  if exponent = 0 then Digest.zero
  else
    let pos := exponent - 3
    let m0 := (mantissa &&& 0xFF).toUInt8
    let m1 := ((mantissa >>> 8) &&& 0xFF).toUInt8
    let m2 := ((mantissa >>> 16) &&& 0xFF).toUInt8
    ⟨⟨(((List.replicate 32 0).set pos m0).set (pos + 1) m1).set (pos + 2) m2, by simp⟩⟩

/-- The loop of `target_to_bits` that drops leading zero bytes. -/
def significantBytes (bytes : List UInt8) : Nat → Nat
  | 0 => 0
  | n + 1 => if bytes.getD n 0 = 0 then significantBytes bytes n else n + 1

/-- `BlockHeader::target_to_bits`. -/
def targetToBits (target : Hash256) : UInt32 :=
  let bytes := target.bytes.toList
  let byte (i : Nat) : UInt32 := (bytes.getD i 0).toUInt32
  let nSize := significantBytes bytes 32
  if nSize = 0 then 0
  else
    let mantissa :=
      if nSize ≥ 3 then byte (nSize - 1) <<< 16 ||| byte (nSize - 2) <<< 8 ||| byte (nSize - 3)
      else if nSize = 2 then byte 1 <<< 16 ||| byte 0 <<< 8
      else byte 0 <<< 16
    if mantissa &&& 0x00800000 ≠ 0 then
      (UInt32.ofNat nSize + 1) <<< 24 ||| mantissa >>> 8
    else UInt32.ofNat nSize <<< 24 ||| mantissa

/-- `BlockHeader::meets_target`. -/
def meetsTarget [Sha2] (h : BlockHeader) : Bool :=
  Digest.le (⟨h.blockHash.bytes⟩ : Hash256) (bitsToTarget h.bits)

lemma slice32_of_append {buf : List.Vector UInt8 80} {i : Nat} (hi : i + 32 ≤ 80)
    (before : List UInt8) {after : List UInt8} {v : Bytes32} (hlen : before.length = i)
    (hbuf : buf.toList = before ++ (v.toList ++ after)) : slice32 buf i hi = v := by
  apply Subtype.ext
  have hv : v.toList.length = 32 := v.2
  simp only [slice32, hbuf, List.drop_left' hlen, List.take_left' hv]
  rfl

lemma sliceU32_of_append {buf : List.Vector UInt8 80} {i : Nat} (before : List UInt8)
    {after : List UInt8} {v : UInt32} (hlen : before.length = i)
    (hbuf : buf.toList = before ++ (leBytes 4 v.toNat ++ after)) : sliceU32 buf i = v := by
  have hv : (leBytes 4 v.toNat).length = 4 := length_leBytes 4 _
  rw [sliceU32, hbuf, List.drop_left' hlen, List.take_left' hv, ofLeBytes_leBytes 4 _ v.toNat_lt]
  simp

/-- The fields of a header are read back from its 80 bytes. -/
lemma deserialize_serialize (h : BlockHeader) : deserialize h.serialize = h := by
  obtain ⟨version, prevHash, merkleRoot, time, bits, nonce⟩ := h
  have hp : prevHash.bytes.toList.length = 32 := prevHash.bytes.2
  have hm : merkleRoot.bytes.toList.length = 32 := merkleRoot.bytes.2
  have hs : (serialize ⟨version, prevHash, merkleRoot, time, bits, nonce⟩).toList =
      leBytes 4 version.toUInt32.toNat ++ (prevHash.bytes.toList ++ (merkleRoot.bytes.toList ++
        (leBytes 4 time.toNat ++ (leBytes 4 bits.toNat ++ (leBytes 4 nonce.toNat ++ []))))) := by
    simp [serialize, encode, List.Vector.toList]
  simp only [deserialize, BlockHeader.mk.injEq]
  -- each field is the next block of the concatenation
  refine ⟨?_, ?_, ?_, ?_, ?_, ?_⟩
  · have hv := sliceU32_of_append (i := 0) (v := version.toUInt32) [] rfl hs
    rw [hv]
    rfl
  · rw [slice32_of_append (v := prevHash.bytes) _ (leBytes 4 version.toUInt32.toNat) (by simp) hs]
  · rw [slice32_of_append (v := merkleRoot.bytes) _
      (leBytes 4 version.toUInt32.toNat ++ prevHash.bytes.toList) (by simp)
      (by rw [hs]; simp only [List.append_assoc]; rfl)]
  · exact sliceU32_of_append
      (leBytes 4 version.toUInt32.toNat ++ prevHash.bytes.toList ++ merkleRoot.bytes.toList)
      (by simp) (by rw [hs]; simp only [List.append_assoc]; rfl)
  · exact sliceU32_of_append
      (leBytes 4 version.toUInt32.toNat ++ prevHash.bytes.toList ++ merkleRoot.bytes.toList ++
        leBytes 4 time.toNat) (by simp) (by rw [hs]; simp only [List.append_assoc]; rfl)
  · exact sliceU32_of_append
      (leBytes 4 version.toUInt32.toNat ++ prevHash.bytes.toList ++ merkleRoot.bytes.toList ++
        leBytes 4 time.toNat ++ leBytes 4 bits.toNat) (by simp)
      (by rw [hs]; simp only [List.append_assoc]; rfl)

end BlockHeader

instance : BitcoinEncode BlockHeader := ⟨fun h => h.serialize.toList⟩

instance : BitcoinDecode BlockHeader where
  decode d := do
    let (bytes, d) ← (decode d : Except DecodeError (List.Vector UInt8 80 × Decoder))
    return (BlockHeader.deserialize bytes, d)

lemma roundTrips_blockHeader (h : BlockHeader) : RoundTrips h := by
  intro pos suffix
  have hb := roundTrips_vector h.serialize pos suffix
  simp only [encode, decode] at hb ⊢
  simp [hb, BlockHeader.deserialize_serialize, bind, Except.bind, pure, Except.pure]

/-! ### Blocks -/

/-- `Block`. -/
structure Block where
  header : BlockHeader
  transactions : List Transaction
  deriving DecidableEq

instance : BitcoinEncode Block :=
  ⟨fun b => encode b.header ++ encodeVarList b.transactions⟩

instance : BitcoinDecode Block where
  decode d := do
    let (header, d) ← decode d
    let (transactions, d) ← d.readVarList Transaction "Block::transactions"
    return (⟨header, transactions⟩, d)

/-- The hash of an inner node of the merkle tree: both children, concatenated. -/
def hashPair [Sha2] (a b : Hash256) : Hash256 :=
  Digest.hash (a.bytes.toList ++ b.bytes.toList)

namespace Block

/-- `Block::weight`. Sizes are naturals: no byte vector has the 2^61 bytes that the `u64`
arithmetic would need to overflow. -/
def weight (b : Block) : Nat :=
  let total := (Bitcrab.serialize b).length
  let witness := (b.transactions.map Transaction.witnessSerializedSize).sum
  let base := total - witness
  base * 3 + total

/-- The leaves of the merkle tree. -/
def leaves [Sha2] (b : Block) : List Hash256 := b.transactions.map fun tx => ⟨tx.txid.bytes⟩

/-- `Block::compute_merkle_root`. -/
def computeMerkleRoot [Sha2] (b : Block) : Hash256 :=
  if b.transactions.isEmpty then Digest.zero
  else PairFold.root hashPair Digest.zero b.leaves

end Block

/-! ### Block index records -/

/-- `FlatFilePos`: where a record is in the flat file sequence. -/
structure FlatFilePos where
  file : UInt32
  offset : UInt32
  deriving Repr, DecidableEq

instance : BitcoinEncode FlatFilePos := ⟨fun p => encode p.file ++ encode p.offset⟩

instance : BitcoinDecode FlatFilePos where
  decode d := do
    let (file, d) ← decode d
    let (offset, d) ← decode d
    return (⟨file, offset⟩, d)

lemma roundTrips_flatFilePos (p : FlatFilePos) : RoundTrips p := by
  intro pos suffix
  have h1 := roundTrips_uint32 p.file
  have h2 := roundTrips_uint32 p.offset
  simp only [RoundTrips, Reads] at h1 h2
  have e : encode p = encode p.file ++ encode p.offset := rfl
  rw [e, List.append_assoc]
  unfold decode instBitcoinDecodeFlatFilePos
  simp [h1, h2, bind, Except.bind, pure, Except.pure, Nat.add_assoc]

/-- `BlockIndex`. -/
structure BlockIndex where
  header : BlockHeader
  height : BlockHeight
  chainWork : Hash256
  filePos : Option FlatFilePos
  undoPos : Option FlatFilePos
  deriving DecidableEq

instance : BitcoinEncode BlockIndex where
  encode i :=
    encode i.header ++ encode i.height ++ encode i.chainWork ++
      encode i.filePos.isSome ++ encode (i.filePos.getD ⟨0, 0⟩) ++
      encode i.undoPos.isSome ++ encode (i.undoPos.getD ⟨0, 0⟩)

instance : BitcoinDecode BlockIndex where
  decode d := do
    let (header, d) ← decode d
    let (height, d) ← decode d
    let (chainWork, d) ← decode d
    let (hasPos, d) ← (decode d : Except DecodeError (Bool × Decoder))
    let (pos, d) ← (decode d : Except DecodeError (FlatFilePos × Decoder))
    let filePos := if hasPos then some pos else none
    let (hasUndo, d) ← (decode d : Except DecodeError (Bool × Decoder))
    let (undo, d) ← (decode d : Except DecodeError (FlatFilePos × Decoder))
    let undoPos := if hasUndo then some undo else none
    return (⟨header, height, chainWork, filePos, undoPos⟩, d)

lemma ite_isSome_getD {α : Type} (o : Option α) (d : α) :
    (if o.isSome then some (o.getD d) else none) = o := by
  cases o <;> simp

lemma roundTrips_blockIndex (i : BlockIndex) : RoundTrips i := by
  intro pos suffix
  have h1 := roundTrips_blockHeader i.header
  have h2 := roundTrips_uint32 i.height
  have h3 := roundTrips_digest i.chainWork
  have h4 := fun b => roundTrips_bool b
  have h5 := fun p => roundTrips_flatFilePos p
  simp only [RoundTrips, Reads] at h1 h2 h3 h4 h5
  have e : encode i = encode i.header ++ encode i.height ++ encode i.chainWork ++
      encode i.filePos.isSome ++ encode (i.filePos.getD ⟨0, 0⟩) ++
      encode i.undoPos.isSome ++ encode (i.undoPos.getD ⟨0, 0⟩) := rfl
  simp only [e, List.append_assoc]
  unfold decode instBitcoinDecodeBlockIndex
  simp only [h1, h2, h3, h4, h5, bind, Except.bind, pure, Except.pure, ite_isSome_getD]
  simp [Nat.add_assoc]

end Bitcrab
