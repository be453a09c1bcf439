import Bitcrab.Types.Params

/-!
# Flat block files (`storage/block_file.rs`)

`blk*.dat` and `rev*.dat` hold records `magic ++ size ++ data`. A file is its length and its
bytes; files are pre-allocated in chunks of megabytes, so the bytes are a function and not a list.
-/

namespace Bitcrab

open Bytes

/-- `StoreError`. The texts of the source's messages are not modelled. -/
inductive StoreError where
  | io
  | blockFileUnavailable (file offset : UInt32)
  | decode (error : DecodeError)
  | offsetTooSmall (offset : UInt32)
  | blockIndexMissing (hash : BlockHash)
  | blockDataPositionMissing (hash : BlockHash)
  deriving DecidableEq

/-- `MAX_BLOCK_FILE_SIZE`. -/
def maxBlockFileSize : Nat := 128 * 1024 * 1024

/-- `BLOCK_FILE_CHUNK`. -/
def blockFileChunk : Nat := 16 * 1024 * 1024

/-- `UNDO_FILE_CHUNK`. -/
def undoFileChunk : Nat := 1024 * 1024

/-! ### Files -/

/-- A file: its length, and its bytes below the length. -/
structure FlatFile where
  len : Nat
  byte : Nat → UInt8

namespace FlatFile

/-- A newly created file. -/
def empty : FlatFile := ⟨0, fun _ => 0⟩

/-- Write bytes at an offset; a gap before the offset is filled with zeros. -/
def writeAt (f : FlatFile) (start : Nat) (data : List UInt8) : FlatFile where
  len := max f.len (start + data.length)
  byte i :=
    if start ≤ i ∧ i < start + data.length then data.getD (i - start) 0
    else if i < f.len then f.byte i
    else 0

/-- `set_len`. -/
def setLen (f : FlatFile) (n : Nat) : FlatFile :=
  ⟨n, fun i => if i < f.len then f.byte i else 0⟩

/-- The bytes of a range. -/
def slice (f : FlatFile) (start n : Nat) : List UInt8 :=
  (List.range n).map fun i => f.byte (start + i)

/-- `seek` and `read_exact`. -/
def readExact (f : FlatFile) (start n : Nat) : Option (List UInt8) :=
  if start + n ≤ f.len then some (f.slice start n) else none

/-- `FlatFileSeq::preallocate`. -/
def preallocate (f : FlatFile) (chunk neededUntil : Nat) : FlatFile :=
  if neededUntil ≥ f.len then f.writeAt ((neededUntil / chunk + 1) * chunk - 1) [0] else f

end FlatFile

/-- A sequence of numbered files; `none` for a file that does not exist. -/
abbrev FlatFileSeq := UInt32 → Option FlatFile

namespace FlatFileSeq

/-- Replace one file. -/
def set (s : FlatFileSeq) (n : UInt32) (f : FlatFile) : FlatFileSeq :=
  fun m => if m = n then some f else s m

/-- `FlatFileSeq::open_for_write`, then `seek` and `write_all`. -/
def openAndWrite (s : FlatFileSeq) (chunk : Nat) (n : UInt32) (start : Nat)
    (data : List UInt8) : FlatFileSeq :=
  let f := ((s n).getD FlatFile.empty).preallocate chunk (start + data.length)
  s.set n (f.writeAt start data)

/-- The loop of `FlatFileSeq::used_size`. -/
def usedFrom (f : FlatFile) (magic : List UInt8) : Nat → Nat → Nat
  | 0, offset => offset
  | fuel + 1, offset =>
    if offset + 8 ≤ f.len then
      if f.slice offset 4 ≠ magic then offset
      else
        let size := ofLeBytes (f.slice (offset + 4) 4)
        if size = 0 ∨ offset + 8 + size > f.len then offset
        else usedFrom f magic fuel (offset + 8 + size)
    else offset

/-- `FlatFileSeq::used_size`: every round advances by at least nine bytes. -/
def usedSize (s : FlatFileSeq) (n : UInt32) (magic : List UInt8) : Nat :=
  match s n with
  | none => 0
  | some f => usedFrom f magic f.len 0

end FlatFileSeq

/-! ### Records -/

/-- The bytes of a record: magic, size as `u32`, data. -/
def recordBytes (magic data : List UInt8) : List UInt8 :=
  magic ++ leBytes 4 data.length ++ data

/-- `read_record`. -/
def readRecord (s : FlatFileSeq) (pos : FlatFilePos) : Except StoreError (List UInt8) :=
  match s pos.file with
  | none => .error (.blockFileUnavailable pos.file 0)
  | some f =>
    if pos.offset < 4 then .error (.offsetTooSmall pos.offset)
    else
      match f.readExact (pos.offset.toNat - 4) 4 with
      | none => .error (.blockFileUnavailable pos.file pos.offset)
      | some sizeBuf =>
        match f.readExact pos.offset.toNat (ofLeBytes sizeBuf) with
        | none => .error (.blockFileUnavailable pos.file pos.offset)
        | some data => .ok data

/-- The files on disk. -/
structure Disk where
  blocks : FlatFileSeq
  undo : FlatFileSeq

/-- `BlockFileManager`: the file being written and the bytes used in it. -/
structure BlockFileManager where
  magic : List.Vector UInt8 4
  currentFile : UInt32
  currentSize : Nat

namespace BlockFileManager

/-- `BlockFileManager::new`. -/
def new (disk : Disk) (magic : List.Vector UInt8 4) (lastFile : UInt32) : BlockFileManager :=
  ⟨magic, lastFile, ((disk.blocks lastFile).map FlatFile.len).getD 0⟩

/-- The rotation of `write_block`: finalize the current file and go to the next one. The file
number overflowing `u32` is a panic of the checked profile and has no continuation here. -/
def rotate (m : BlockFileManager) (disk : Disk) :
    Except StoreError (BlockFileManager × Disk) :=
  match disk.blocks m.currentFile with
  | none => .error .io
  | some f =>
    if m.currentFile = 0xFFFFFFFF then .error .io
    else .ok ({ m with currentFile := m.currentFile + 1, currentSize := 0 },
      { disk with blocks := disk.blocks.set m.currentFile (f.setLen m.currentSize) })

/-- The append of `write_block`, at the end of the current file. -/
def append (m : BlockFileManager) (disk : Disk) (rawBlock : List UInt8) :
    FlatFilePos × BlockFileManager × Disk :=
  let blocks := disk.blocks.openAndWrite blockFileChunk m.currentFile m.currentSize
    (recordBytes m.magic.toList rawBlock)
  (⟨m.currentFile, UInt32.ofNat (m.currentSize + 8)⟩,
    { m with currentSize := m.currentSize + (8 + rawBlock.length) }, { disk with blocks })

/-- `BlockFileManager::write_block`. -/
def writeBlock (m : BlockFileManager) (disk : Disk) (rawBlock : List UInt8) :
    Except StoreError (FlatFilePos × BlockFileManager × Disk) :=
  if m.currentSize + (8 + rawBlock.length) > maxBlockFileSize ∧ m.currentSize > 0 then do
    let (m, disk) ← m.rotate disk
    return m.append disk rawBlock
  else .ok (m.append disk rawBlock)

/-- `BlockFileManager::write_undo`. -/
def writeUndo (m : BlockFileManager) (disk : Disk) (blkFile : UInt32) (undoData : List UInt8)
    (currentUndoSize : Nat) : FlatFilePos × Nat × Disk :=
  let undo := disk.undo.openAndWrite undoFileChunk blkFile currentUndoSize
    (recordBytes m.magic.toList undoData)
  (⟨blkFile, UInt32.ofNat (currentUndoSize + 8)⟩, currentUndoSize + 8 + undoData.length,
    { disk with undo })

/-- `BlockFileManager::undo_used_size`. -/
def undoUsedSize (m : BlockFileManager) (disk : Disk) (file : UInt32) : Nat :=
  disk.undo.usedSize file m.magic.toList

end BlockFileManager

/-- The length of `Magic::REGTEST`. -/
lemma Sample.length_regtestMagic : ([0xfa, 0xbf, 0xb5, 0xda] : List UInt8).length = 4 := rfl

end Bitcrab
