import Bitcrab.Lib.Result
import Bitcrab.Storage.BlockManager

/-!
# Reading stored blocks back

Blocks are appended to the current file and never moved: a position handed out by `write_block`
reads back the block that was written there, after any number of later writes, rotations to a new
file and restarts.
-/

namespace Bitcrab

open Bytes Result

/-! ### Files -/

namespace FlatFile

variable {f : FlatFile} {start n : Nat} {data : List UInt8}

@[simp] lemma length_slice (f : FlatFile) (start n : Nat) : (f.slice start n).length = n := by
  simp [slice]

/-- Slices depend on their bytes only. -/
lemma slice_congr {f' : FlatFile} (h : ∀ i, start ≤ i → i < start + n → f'.byte i = f.byte i) :
    f'.slice start n = f.slice start n := by
  apply List.map_congr_left
  intro i hi
  rw [List.mem_range] at hi
  exact h (start + i) (by omega) (by omega)

lemma byte_writeAt_of_lt {i : Nat} (hi : i < start) (hlen : i < f.len) :
    (f.writeAt start data).byte i = f.byte i := by
  simp only [writeAt]
  rw [if_neg (by omega), if_pos hlen]

lemma byte_preallocate {chunk i : Nat} (hchunk : 0 < chunk) (hi : i < f.len) :
    (f.preallocate chunk n).byte i = f.byte i := by
  unfold preallocate
  split_ifs with h
  · -- the byte that extends the file is past its old end
    have hmul : n < (n / chunk + 1) * chunk := by
      rw [Nat.mul_comm]
      exact Nat.lt_mul_div_succ n hchunk
    exact byte_writeAt_of_lt (by omega) hi
  · rfl

lemma len_le_len_preallocate (f : FlatFile) (chunk n : Nat) :
    f.len ≤ (f.preallocate chunk n).len := by
  unfold preallocate
  split_ifs
  · exact Nat.le_max_left _ _
  · exact Nat.le_refl _

/-- The file is extended beyond what is needed. -/
lemma lt_len_preallocate {chunk : Nat} (hchunk : 0 < chunk) : n < (f.preallocate chunk n).len := by
  unfold preallocate
  split_ifs with h
  · have hmul : n < (n / chunk + 1) * chunk := by
      rw [Nat.mul_comm]
      exact Nat.lt_mul_div_succ n hchunk
    simp only [writeAt, List.length_singleton]
    omega
  · omega

/-- A part of what is written is read back. -/
lemma slice_writeAt (k : Nat) (hk : k + n ≤ data.length) :
    (f.writeAt start data).slice (start + k) n = (data.drop k).take n := by
  apply List.ext_getElem
  · simp
    omega
  · intro i h1 h2
    simp only [length_slice] at h1
    simp only [slice, List.getElem_map, List.getElem_range, writeAt, List.getElem_take,
      List.getElem_drop]
    rw [if_pos (by omega), List.getD_eq_getElem?_getD, List.getElem?_eq_getElem (by omega),
      Option.getD_some]
    congr 1
    omega

end FlatFile

/-! ### Records -/

lemma length_recordBytes (magic : List.Vector UInt8 4) (raw : List UInt8) :
    (recordBytes magic.toList raw).length = 8 + raw.length := by
  have hmagic : magic.toList.length = 4 := magic.2
  simp [recordBytes, hmagic]
  omega

/-- The file holds a record whose data starts at the offset. -/
structure FlatFile.HoldsAt (f : FlatFile) (offset : Nat) (data : List UInt8) : Prop where
  start : 8 ≤ offset
  fits : offset + data.length ≤ f.len
  small : data.length < 2 ^ 32
  size : f.slice (offset - 4) 4 = leBytes 4 data.length
  data : f.slice offset data.length = data

namespace FlatFile.HoldsAt

variable {f f' : FlatFile} {offset : Nat} {data : List UInt8}

/-- A record stays while the bytes up to its end do. -/
lemma congr (h : f.HoldsAt offset data) (hlen : offset + data.length ≤ f'.len)
    (hbytes : ∀ i, i < offset + data.length → f'.byte i = f.byte i) : f'.HoldsAt offset data where
  start := h.start
  fits := hlen
  small := h.small
  size := by
    rw [← h.size]
    have hstart := h.start
    exact slice_congr fun i _ hi => hbytes i (by omega)
  data := by
    rw [← h.data, h.data]
    refine (slice_congr ?_).trans h.data
    exact fun i _ hi => hbytes i hi

/-- A record that was just written. -/
lemma of_writeAt (f : FlatFile) (start : Nat) (magic : List.Vector UInt8 4) {data : List UInt8}
    (hsmall : data.length < 2 ^ 32) :
    (f.writeAt start (recordBytes magic.toList data)).HoldsAt (start + 8) data := by
  have hmagic : magic.toList.length = 4 := magic.2
  have hlen := length_recordBytes magic data
  have hsplit : recordBytes magic.toList data =
      magic.toList ++ (leBytes 4 data.length ++ data) := List.append_assoc ..
  refine ⟨by omega, ?_, hsmall, ?_, ?_⟩
  · simp only [writeAt, hlen]
    omega
  · rw [show start + 8 - 4 = start + 4 by omega, slice_writeAt 4 (by omega), hsplit,
      List.drop_left' hmagic, List.take_left' (length_leBytes 4 _)]
  · rw [slice_writeAt 8 (by omega), recordBytes, List.drop_left' (by simp [hmagic]),
      List.take_length]

end FlatFile.HoldsAt

/-- A record is read back at its position. -/
lemma readRecord_of_holdsAt {s : FlatFileSeq} {pos : FlatFilePos} {f : FlatFile}
    {data : List UInt8} (hf : s pos.file = some f) (h : f.HoldsAt pos.offset.toNat data) :
    readRecord s pos = .ok data := by
  have hstart := h.start
  have hfits := h.fits
  have hoffset : ¬ pos.offset < 4 := by
    rw [UInt32.lt_iff_toNat_lt]
    have h4 : (4 : UInt32).toNat = 4 := rfl
    omega
  have hsize : f.readExact (pos.offset.toNat - 4) 4 = some (leBytes 4 data.length) := by
    rw [FlatFile.readExact, if_pos (by omega), h.size]
  have hdata : f.readExact pos.offset.toNat data.length = some data := by
    rw [FlatFile.readExact, if_pos hfits, h.data]
  have hlen : ofLeBytes (leBytes 4 data.length) = data.length :=
    ofLeBytes_leBytes 4 _ h.small
  simp only [readRecord, hf, if_neg hoffset, hsize, hlen, hdata]

/-! ### Writes to a sequence of files -/

namespace FlatFileSeq

variable {s : FlatFileSeq} {chunk start : Nat} {n n' : UInt32} {data : List UInt8}

/-- The length of a file, 0 for one that does not exist. -/
def length (s : FlatFileSeq) (n : UInt32) : Nat := ((s n).map FlatFile.len).getD 0

lemma openAndWrite_self (s : FlatFileSeq) (chunk : Nat) (n : UInt32) (start : Nat)
    (data : List UInt8) :
    s.openAndWrite chunk n start data n =
      some ((((s n).getD FlatFile.empty).preallocate chunk (start + data.length)).writeAt start
        data) :=
  if_pos rfl

lemma openAndWrite_of_ne (h : n' ≠ n) : s.openAndWrite chunk n start data n' = s n' := if_neg h

/-- A write leaves room behind what it has written. -/
lemma lt_length_openAndWrite (hchunk : 0 < chunk) :
    start + data.length < (s.openAndWrite chunk n start data).length n := by
  rw [length, openAndWrite_self]
  exact Nat.lt_of_lt_of_le (FlatFile.lt_len_preallocate hchunk) (Nat.le_max_left _ _)

/-- A write keeps the records that end before it. -/
lemma holdsAt_openAndWrite {f : FlatFile} {offset : Nat} {raw : List UInt8} (hchunk : 0 < chunk)
    (hf : s n' = some f) (h : f.HoldsAt offset raw)
    (hend : n' = n → offset + raw.length ≤ start) :
    ∃ f', s.openAndWrite chunk n start data n' = some f' ∧ f'.HoldsAt offset raw := by
  by_cases hn : n' = n
  · subst hn
    have hfits := h.fits
    have hend := hend rfl
    have hlen := f.len_le_len_preallocate chunk (start + data.length)
    refine ⟨_, openAndWrite_self s chunk n' start data, ?_⟩
    rw [hf, Option.getD_some]
    refine h.congr (Nat.le_trans (by omega) (Nat.le_max_left _ _)) ?_
    intro i hi
    rw [FlatFile.byte_writeAt_of_lt (by omega) (by omega),
      FlatFile.byte_preallocate hchunk (by omega)]
  · exact ⟨f, (openAndWrite_of_ne hn).trans hf, h⟩

/-- A record is held where it was written. -/
lemma holdsAt_openAndWrite_self (s : FlatFileSeq) (chunk : Nat) (n : UInt32) (start : Nat)
    (magic : List.Vector UInt8 4) {raw : List UInt8} (hraw : raw.length < 2 ^ 32) :
    ∃ f', s.openAndWrite chunk n start (recordBytes magic.toList raw) n = some f' ∧
      f'.HoldsAt (start + 8) raw :=
  ⟨_, openAndWrite_self s chunk n start _, .of_writeAt _ start magic hraw⟩

end FlatFileSeq

/-! ### The block files -/

/-- The largest length of a block file: `MAX_BLOCK_FILE_SIZE` and one more chunk. -/
def maxFileLength : Nat := maxBlockFileSize + blockFileChunk

namespace BlockFileManager

/-- The files on disk as the manager knows them. -/
structure FilesInv (m : BlockFileManager) (blocks : FlatFileSeq) : Prop where
  used : m.currentSize ≤ blocks.length m.currentFile
  bounded : blocks.length m.currentFile ≤ maxFileLength
  absent : ∀ n, m.currentFile < n → blocks n = none

/-- A block is stored at a position, in a part of the files that is not written any more. -/
structure Stored (m : BlockFileManager) (blocks : FlatFileSeq) (pos : FlatFilePos)
    (raw : List UInt8) : Prop where
  holds : ∃ f, blocks pos.file = some f ∧ f.HoldsAt pos.offset.toNat raw
  sealed : pos.file < m.currentFile ∨
    pos.file = m.currentFile ∧ pos.offset.toNat + raw.length ≤ m.currentSize

lemma Stored.readRecord {m : BlockFileManager} {blocks : FlatFileSeq} {pos : FlatFilePos}
    {raw : List UInt8} (h : m.Stored blocks pos raw) : readRecord blocks pos = .ok raw := by
  obtain ⟨f, hf, hholds⟩ := h.holds
  exact readRecord_of_holdsAt hf hholds

/-- A change of the files keeps what is stored. -/
structure Keeps (m : BlockFileManager) (blocks : FlatFileSeq) (m' : BlockFileManager)
    (blocks' : FlatFileSeq) : Prop where
  inv : m'.FilesInv blocks'
  stored : ∀ pos raw, m.Stored blocks pos raw → m'.Stored blocks' pos raw

lemma Keeps.refl {m : BlockFileManager} {blocks : FlatFileSeq} (h : m.FilesInv blocks) :
    m.Keeps blocks m blocks :=
  ⟨h, fun _ _ hs => hs⟩

lemma Keeps.trans {m m' m'' : BlockFileManager} {blocks blocks' blocks'' : FlatFileSeq}
    (h : m.Keeps blocks m' blocks') (h' : m'.Keeps blocks' m'' blocks'') :
    m.Keeps blocks m'' blocks'' :=
  ⟨h'.inv, fun pos raw hs => h'.stored pos raw (h.stored pos raw hs)⟩

section Changes

variable {m m' : BlockFileManager} {disk disk' : Disk}

/-- Reopening keeps what is stored: the records end within the file. -/
lemma Stored.new {pos : FlatFilePos} {raw : List UInt8} (h : m.Stored disk.blocks pos raw)
    (magic : List.Vector UInt8 4) : (new disk magic m.currentFile).Stored disk.blocks pos raw := by
  obtain ⟨⟨f, hf, hholds⟩, hsealed⟩ := h
  refine ⟨⟨f, hf, hholds⟩, ?_⟩
  rcases hsealed with hlt | ⟨heq, -⟩
  · exact .inl hlt
  · refine .inr ⟨heq, ?_⟩
    simp only [BlockFileManager.new, ← heq, hf, Option.map_some, Option.getD_some]
    exact hholds.fits

/-- `BlockFileManager::new` on the files that were there before a restart. -/
lemma keeps_new (magic : List.Vector UInt8 4) (h : m.FilesInv disk.blocks) :
    m.Keeps disk.blocks (new disk magic m.currentFile) disk.blocks where
  inv := ⟨Nat.le_refl _, h.bounded, h.absent⟩
  stored := fun _ _ hs => hs.new magic

lemma lt_add_one_of_ne_max {n : UInt32} (h : n ≠ 0xFFFFFFFF) : n < n + 1 := by
  have hne : n.toNat ≠ 2 ^ 32 - 1 := fun heq => h (UInt32.toNat_inj.mp heq)
  have hbound := n.toNat_lt
  rw [UInt32.lt_iff_toNat_lt, UInt32.toNat_add]
  change _ < (n.toNat + 1) % 2 ^ 32
  omega

/-- What going to the next file does. -/
lemma rotate_eq_ok (hrot : m.rotate disk = .ok (m', disk')) :
    ∃ f, disk.blocks m.currentFile = some f ∧ m.currentFile < m.currentFile + 1 ∧
      m' = { m with currentFile := m.currentFile + 1, currentSize := 0 } ∧
      disk' = { disk with blocks := disk.blocks.set m.currentFile (f.setLen m.currentSize) } := by
  unfold rotate at hrot
  cases hcur : disk.blocks m.currentFile with
  | none => simp [hcur] at hrot
  | some f =>
    simp only [hcur] at hrot
    split_ifs at hrot with hmax
    obtain ⟨rfl, rfl⟩ := Prod.mk.inj (Except.ok.inj hrot)
    exact ⟨f, rfl, lt_add_one_of_ne_max hmax, rfl, rfl⟩

/-- Truncating the current file to the part in use keeps what is stored. -/
lemma Stored.rotate {pos : FlatFilePos} {raw : List UInt8} (h : m.Stored disk.blocks pos raw)
    (hrot : m.rotate disk = .ok (m', disk')) : m'.Stored disk'.blocks pos raw := by
  obtain ⟨f, hcur, hlt, rfl, rfl⟩ := rotate_eq_ok hrot
  obtain ⟨⟨g, hg, hholds⟩, hsealed⟩ := h
  rcases hsealed with hfile | ⟨hfile, hend⟩
  · exact ⟨⟨g, (if_neg (UInt32.ne_of_lt hfile)).trans hg, hholds⟩, .inl (UInt32.lt_trans hfile hlt)⟩
  · -- records of the truncated file end below its new length
    rw [hfile, hcur] at hg
    obtain rfl := Option.some.inj hg
    refine ⟨⟨f.setLen m.currentSize, if_pos hfile, hholds.congr hend ?_⟩, .inl (hfile ▸ hlt)⟩
    intro i hi
    have hfits := hholds.fits
    simp only [FlatFile.setLen]
    rw [if_pos (by omega)]

/-- Going to the next file keeps what is stored. -/
lemma keeps_rotate (h : m.FilesInv disk.blocks) (hrot : m.rotate disk = .ok (m', disk')) :
    m.Keeps disk.blocks m' disk'.blocks ∧ m'.currentSize = 0 ∧ m'.magic = m.magic := by
  have hstored : ∀ pos raw, m.Stored disk.blocks pos raw → m'.Stored disk'.blocks pos raw :=
    fun pos raw hs => hs.rotate hrot
  obtain ⟨f, hcur, hlt, rfl, rfl⟩ := rotate_eq_ok hrot
  have hset : ∀ n, n ≠ m.currentFile →
      disk.blocks.set m.currentFile (f.setLen m.currentSize) n = disk.blocks n :=
    fun n hn => if_neg hn
  refine ⟨⟨⟨Nat.zero_le _, ?_, ?_⟩, hstored⟩, rfl, rfl⟩
  · dsimp only
    rw [FlatFileSeq.length, hset _ (UInt32.ne_of_lt hlt).symm, h.absent _ hlt]
    exact Nat.zero_le _
  · intro n hn
    have hn' : m.currentFile < n := UInt32.lt_trans hlt hn
    dsimp only
    rw [hset n (UInt32.ne_of_lt hn').symm]
    exact h.absent n hn'

/-- A file is extended to the end of the chunk of its last byte. -/
lemma length_append_le {raw : List UInt8} (hlen : disk.blocks.length m.currentFile ≤ maxFileLength)
    (hfit : m.currentSize + (8 + raw.length) ≤ maxBlockFileSize) :
    (m.append disk raw).2.2.blocks.length m.currentFile ≤ maxFileLength := by
  have hfile : ((disk.blocks m.currentFile).getD FlatFile.empty).len ≤ maxFileLength := by
    cases hf : disk.blocks m.currentFile with
    | none => exact Nat.zero_le _
    | some f => simpa [FlatFileSeq.length, hf] using hlen
  have hdiv := Nat.div_le_div_right (c := blockFileChunk) hfit
  simp only [append, FlatFileSeq.length, FlatFileSeq.openAndWrite_self, Option.map_some,
    Option.getD_some, FlatFile.writeAt, FlatFile.preallocate, length_recordBytes]
  simp only [maxFileLength, maxBlockFileSize, blockFileChunk] at *
  split_ifs
  · simp only [List.length_singleton]
    omega
  · omega

/-- An append keeps what is stored. -/
lemma Stored.append {pos : FlatFilePos} {raw' : List UInt8} (h : m.Stored disk.blocks pos raw')
    (raw : List UInt8) :
    (m.append disk raw).2.1.Stored (m.append disk raw).2.2.blocks pos raw' := by
  obtain ⟨⟨f, hf, hholds⟩, hsealed⟩ := h
  refine ⟨FlatFileSeq.holdsAt_openAndWrite (by decide) hf hholds ?_, ?_⟩
  · intro hfile
    rcases hsealed with hlt | ⟨-, hend⟩
    · exact absurd hfile (UInt32.ne_of_lt hlt)
    · exact hend
  · rcases hsealed with hlt | ⟨hfile, hend⟩
    · exact .inl hlt
    · exact .inr ⟨hfile, Nat.le_trans hend (Nat.le_add_right _ _)⟩

/-- An append stores the block at the position it returns, as long as the position fits its type. -/
lemma stored_append (m : BlockFileManager) (disk : Disk) {raw : List UInt8}
    (hoffset : m.currentSize + 8 < 2 ^ 32) (hraw : raw.length < 2 ^ 32) :
    (m.append disk raw).2.1.Stored (m.append disk raw).2.2.blocks (m.append disk raw).1 raw := by
  have hpos : (m.append disk raw).1.offset.toNat = m.currentSize + 8 :=
    UInt32.toNat_ofNat_of_lt' hoffset
  refine ⟨?_, .inr ⟨rfl, ?_⟩⟩
  · rw [hpos]
    exact FlatFileSeq.holdsAt_openAndWrite_self _ _ _ _ _ hraw
  · rw [hpos]
    change _ ≤ m.currentSize + (8 + raw.length)
    omega

lemma keeps_append (raw : List UInt8) (h : m.FilesInv disk.blocks)
    (hfit : m.currentSize + (8 + raw.length) ≤ maxBlockFileSize) :
    m.Keeps disk.blocks (m.append disk raw).2.1 (m.append disk raw).2.2.blocks ∧
      (m.append disk raw).2.1.Stored (m.append disk raw).2.2.blocks (m.append disk raw).1 raw := by
  have hsmall : maxBlockFileSize < 2 ^ 32 := by decide
  refine ⟨⟨⟨?_, length_append_le h.bounded hfit, ?_⟩, fun pos raw' hs => hs.append raw⟩,
    stored_append m disk (by omega) (by omega)⟩
  · have hlt : m.currentSize + (recordBytes m.magic.toList raw).length <
        (m.append disk raw).2.2.blocks.length m.currentFile :=
      FlatFileSeq.lt_length_openAndWrite (by decide)
    rw [length_recordBytes] at hlt
    exact Nat.le_of_lt hlt
  · intro n hn
    exact (FlatFileSeq.openAndWrite_of_ne (UInt32.ne_of_lt hn).symm).trans (h.absent n hn)

/-- What `write_block` does: it appends the block, after going to the next file if the current one
is full. -/
lemma writeBlock_eq_ok {raw : List UInt8} {pos : FlatFilePos}
    (hwrite : m.writeBlock disk raw = .ok (pos, m', disk')) :
    (m.currentSize + (8 + raw.length) > maxBlockFileSize ∧ m.currentSize > 0 ∧
        ∃ m₁ disk₁, m.rotate disk = .ok (m₁, disk₁) ∧ m₁.append disk₁ raw = (pos, m', disk')) ∨
      ¬(m.currentSize + (8 + raw.length) > maxBlockFileSize ∧ m.currentSize > 0) ∧
        m.append disk raw = (pos, m', disk') := by
  unfold writeBlock at hwrite
  split_ifs at hwrite with hover
  · obtain ⟨⟨m₁, disk₁⟩, hrot, hret⟩ := bind_eq_ok.mp hwrite
    exact .inl ⟨hover.1, hover.2, m₁, disk₁, hrot, Except.ok.inj hret⟩
  · exact .inr ⟨hover, Except.ok.inj hwrite⟩

/-- `write_block` stores the block at the position it returns. -/
lemma keeps_writeBlock {raw : List UInt8} {pos : FlatFilePos} (h : m.FilesInv disk.blocks)
    (hraw : 8 + raw.length ≤ maxBlockFileSize)
    (hwrite : m.writeBlock disk raw = .ok (pos, m', disk')) :
    m.Keeps disk.blocks m' disk'.blocks ∧ m'.Stored disk'.blocks pos raw := by
  rcases writeBlock_eq_ok hwrite with ⟨-, -, m₁, disk₁, hrot, happ⟩ | ⟨hroom, happ⟩
  · obtain ⟨hkeeps, hzero, -⟩ := keeps_rotate h hrot
    have hboth := keeps_append raw hkeeps.inv (by omega)
    rw [happ] at hboth
    exact ⟨hkeeps.trans hboth.1, hboth.2⟩
  · have hboth := keeps_append raw h (by omega)
    rwa [happ] at hboth

end Changes

end BlockFileManager

/-! ### A batch of blocks -/

/-- What `handle_store_blocks` makes of a message: an index with the position of the block. -/
structure StoredEntry [Sha2] (m : BlockFileManager) (blocks : FlatFileSeq) (msg : StoreBlockMsg)
    (entry : BlockHash × BlockIndex) : Prop where
  hash : entry.1 = msg.header.blockHash
  height : entry.2.height = msg.height
  stored : ∃ pos, entry.2.filePos = some pos ∧ m.Stored blocks pos msg.rawBlock

/-- A batch stores every block and keeps those that were stored. -/
lemma keeps_writeBlocks [Sha2] {m m' : BlockFileManager} {disk disk' : Disk}
    {msgs : List StoreBlockMsg} {entries : List (BlockHash × BlockIndex)}
    (h : m.FilesInv disk.blocks)
    (hraw : ∀ msg ∈ msgs, 8 + msg.rawBlock.length ≤ maxBlockFileSize)
    (hwrite : BlockManager.writeBlocks msgs m disk = .ok (entries, m', disk')) :
    m.Keeps disk.blocks m' disk'.blocks ∧
      ∀ e ∈ entries, ∃ msg ∈ msgs, StoredEntry m' disk'.blocks msg e := by
  induction msgs generalizing m disk entries with
  | nil =>
    simp only [BlockManager.writeBlocks, Except.ok.injEq, Prod.mk.injEq] at hwrite
    obtain ⟨rfl, rfl, rfl⟩ := hwrite
    exact ⟨.refl h, by simp⟩
  | cons msg msgs ih =>
    simp only [BlockManager.writeBlocks, bind_eq_ok, pure_eq_ok] at hwrite
    obtain ⟨⟨pos, m₁, disk₁⟩, hblock, ⟨entries', m₂, disk₂⟩, hrest, hret⟩ := hwrite
    simp only [Except.ok.injEq, Prod.mk.injEq] at hret
    obtain ⟨rfl, rfl, rfl⟩ := hret
    obtain ⟨hkeeps, hstored⟩ :=
      BlockFileManager.keeps_writeBlock h (hraw msg List.mem_cons_self) hblock
    obtain ⟨hkeeps', hentries⟩ :=
      ih hkeeps.inv (fun msg' hmsg' => hraw msg' (List.mem_cons_of_mem _ hmsg')) hrest
    refine ⟨hkeeps.trans hkeeps', ?_⟩
    intro e he
    rcases List.mem_cons.mp he with rfl | he
    · exact ⟨msg, List.mem_cons_self, rfl, rfl, pos, rfl, hkeeps'.stored pos _ hstored⟩
    · obtain ⟨msg', hmsg', hentry⟩ := hentries e he
      exact ⟨msg', List.mem_cons_of_mem _ hmsg', hentry⟩

end Bitcrab
