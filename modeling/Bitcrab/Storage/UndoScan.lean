import Bitcrab.Storage.BlockIndexes

/-!
# The end of an undo file

`used_size` crosses the records of a file by their sizes and stops at the zeros behind them, so a
node that starts again appends where the last record ends. The size of a record is a `u32`: the scan
goes wrong at a record of 4 GiB or more.
-/

namespace Bitcrab

open Bytes BlockManager Result

/-! ### Files of records -/

/-- The bytes of some records, one after the other. -/
def recordsBytes (magic : List.Vector UInt8 4) (records : List (List UInt8)) : List UInt8 :=
  records.flatMap (recordBytes magic.toList)

/-- Data that a record can hold. -/
def RecordData (data : List UInt8) : Prop := data ≠ [] ∧ data.length < 2 ^ 32

section Records

variable (magic : List.Vector UInt8 4) (data : List UInt8) (records : List (List UInt8))

@[simp] lemma recordsBytes_nil : recordsBytes magic [] = [] := rfl

@[simp] lemma recordsBytes_cons :
    recordsBytes magic (data :: records) = recordBytes magic.toList data ++
      recordsBytes magic records :=
  rfl

lemma recordsBytes_concat :
    recordsBytes magic (records ++ [data]) = recordsBytes magic records ++
      recordBytes magic.toList data := by
  simp [recordsBytes]

lemma length_recordsBytes :
    (recordsBytes magic records).length = (records.map fun data => 8 + data.length).sum := by
  simp [recordsBytes, List.length_flatMap, length_recordBytes]

/-- Every record takes at least nine bytes. -/
lemma length_le_length_recordsBytes : records.length ≤ (recordsBytes magic records).length := by
  induction records with
  | nil => exact Nat.zero_le _
  | cons data records ih =>
    rw [recordsBytes_cons, List.length_append, length_recordBytes, List.length_cons]
    omega

end Records

namespace FlatFile

variable {f : FlatFile} {magic : List.Vector UInt8 4} {records : List (List UInt8)}
  {data : List UInt8}

lemma slice_add (f : FlatFile) (start n m : Nat) :
    f.slice start (n + m) = f.slice start n ++ f.slice (start + n) m := by
  simp [slice, List.range_add, Nat.add_assoc]

lemma slice_eq_zeros {start n : Nat} (h : ∀ i, start ≤ i → i < start + n → f.byte i = 0) :
    f.slice start n = List.replicate n 0 := by
  refine List.eq_replicate_iff.mpr ⟨length_slice f start n, fun b hb => ?_⟩
  obtain ⟨i, hi, rfl⟩ := List.mem_map.mp hb
  rw [List.mem_range] at hi
  exact h (start + i) (by omega) (by omega)

/-- From an offset on the file consists of some records and of zeros behind them. -/
structure RecordsFrom (f : FlatFile) (magic : List.Vector UInt8 4) (offset : Nat)
    (records : List (List UInt8)) : Prop where
  fits : offset + (recordsBytes magic records).length ≤ f.len
  bytes : f.slice offset (recordsBytes magic records).length = recordsBytes magic records
  zeros : ∀ i, offset + (recordsBytes magic records).length ≤ i → i < f.len → f.byte i = 0

/-- The first of some records: its header is where the scan looks, and the others follow it. -/
lemma RecordsFrom.cons {offset : Nat} (h : f.RecordsFrom magic offset (data :: records)) :
    f.slice offset 4 = magic.toList ∧ f.slice (offset + 4) 4 = leBytes 4 data.length ∧
      offset + 8 + data.length ≤ f.len ∧
        f.RecordsFrom magic (offset + 8 + data.length) records := by
  have hmagic : magic.toList.length = 4 := magic.2
  have hlen : (recordsBytes magic (data :: records)).length =
      4 + (4 + (data.length + (recordsBytes magic records).length)) := by
    rw [recordsBytes_cons, List.length_append, length_recordBytes]
    omega
  obtain ⟨hfits, hbytes, hzeros⟩ := h
  rw [hlen] at hfits hbytes hzeros
  rw [slice_add, slice_add, slice_add, recordsBytes_cons, recordBytes, List.append_assoc,
    List.append_assoc] at hbytes
  obtain ⟨hfirst, hbytes⟩ := List.append_inj hbytes (by rw [length_slice, hmagic])
  obtain ⟨hsize, hbytes⟩ := List.append_inj hbytes (by rw [length_slice, length_leBytes])
  obtain ⟨-, hrest⟩ := List.append_inj hbytes (by rw [length_slice])
  refine ⟨hfirst, hsize, by omega, ⟨by omega, ?_, ?_⟩⟩
  · rw [show offset + 8 + data.length = offset + 4 + 4 + data.length by omega]
    exact hrest
  · intro i hi hlt
    exact hzeros i (by omega) hlt

/-- What an extension of the file adds is zero. -/
lemma byte_preallocate_of_le {chunk n i : Nat} (hi : f.len ≤ i)
    (hlt : i < (f.preallocate chunk n).len) : (f.preallocate chunk n).byte i = 0 := by
  unfold preallocate at hlt ⊢
  split_ifs at hlt ⊢ with hneeded
  · simp only [writeAt]
    split_ifs with hlast hold
    · have hzero : i - ((n / chunk + 1) * chunk - 1) = 0 := by
        simp only [List.length_singleton] at hlast
        omega
      rw [hzero]
      rfl
    · omega
    · rfl
  · omega

/-- A record that is written behind the last one. -/
lemma RecordsFrom.write (h : f.RecordsFrom magic 0 records) {chunk : Nat} (hchunk : 0 < chunk)
    (data : List UInt8) :
    ((f.preallocate chunk ((recordsBytes magic records).length +
        (recordBytes magic.toList data).length)).writeAt (recordsBytes magic records).length
      (recordBytes magic.toList data)).RecordsFrom magic 0 (records ++ [data]) := by
  obtain ⟨hfits, hbytes, hzeros⟩ := h
  have hlen : (recordsBytes magic (records ++ [data])).length =
      (recordsBytes magic records).length + (recordBytes magic.toList data).length := by
    rw [recordsBytes_concat, List.length_append]
  have hroom := f.len_le_len_preallocate chunk
    ((recordsBytes magic records).length + (recordBytes magic.toList data).length)
  refine ⟨?_, ?_, ?_⟩
  · rw [hlen, Nat.zero_add]
    exact Nat.le_max_right _ _
  · rw [hlen, slice_add, recordsBytes_concat]
    congr 1
    · refine (slice_congr fun i _ hi => ?_).trans hbytes
      rw [byte_writeAt_of_lt (by omega) (by omega), byte_preallocate hchunk (by omega)]
    · have hnew : ((f.preallocate chunk ((recordsBytes magic records).length +
          (recordBytes magic.toList data).length)).writeAt (recordsBytes magic records).length
            (recordBytes magic.toList data)).slice ((recordsBytes magic records).length + 0)
              (recordBytes magic.toList data).length =
          ((recordBytes magic.toList data).drop 0).take (recordBytes magic.toList data).length :=
        slice_writeAt 0 (by omega)
      rw [Nat.add_zero, List.drop_zero, List.take_length] at hnew
      rw [Nat.zero_add]
      exact hnew
  · intro i hi hlt
    rw [hlen, Nat.zero_add] at hi
    simp only [writeAt] at hlt ⊢
    rw [if_neg (by omega)]
    split_ifs with hold
    · by_cases hin : i < f.len
      · rw [byte_preallocate hchunk hin]
        exact hzeros i (by omega) hin
      · exact byte_preallocate_of_le (by omega) hold
    · rfl

end FlatFile

/-! ### The scan -/

namespace FlatFileSeq

variable {f : FlatFile} {magic : List.Vector UInt8 4}

/-- The scan crosses every record and stops behind the last one: in the zeros there, or at the end
of the file. -/
lemma usedFrom_of_recordsFrom (hmagic : magic.toList ≠ List.replicate 4 0)
    {records : List (List UInt8)} (hdata : ∀ data ∈ records, RecordData data) {fuel offset : Nat}
    (hfuel : records.length ≤ fuel) (h : f.RecordsFrom magic offset records) :
    usedFrom f magic.toList fuel offset = offset + (recordsBytes magic records).length := by
  induction records generalizing fuel offset with
  | nil =>
    cases fuel with
    | zero => rfl
    | succ fuel =>
      unfold usedFrom
      split_ifs with hroom hother
      · rfl
      · have hzeros : f.slice offset 4 = List.replicate 4 0 :=
          FlatFile.slice_eq_zeros fun i hi hlt => h.zeros i hi (by omega)
        exact absurd ((not_not.mp hother).symm.trans hzeros) hmagic
      · rfl
  | cons data records ih =>
    obtain ⟨hfirst, hsize, hroom, hrest⟩ := h.cons
    obtain ⟨hne, hsmall⟩ := hdata data List.mem_cons_self
    obtain ⟨fuel, rfl⟩ : ∃ n, fuel = n + 1 :=
      ⟨fuel - 1, by simp only [List.length_cons] at hfuel; omega⟩
    have hlen : ofLeBytes (leBytes 4 data.length) = data.length := ofLeBytes_leBytes 4 _ hsmall
    have hpos : data.length ≠ 0 := fun hzero => hne (List.length_eq_zero_iff.mp hzero)
    unfold usedFrom
    rw [if_pos (by omega), if_neg (not_not.mpr hfirst), hsize, hlen, if_neg (by omega),
      ih (fun d hd => hdata d (List.mem_cons_of_mem _ hd))
        (by simp only [List.length_cons] at hfuel; omega) hrest,
      recordsBytes_cons, List.length_append, length_recordBytes]
    omega

end FlatFileSeq

namespace BlockFileManager

variable {m : BlockFileManager} {disk : Disk} {file : UInt32} {records : List (List UInt8)}

/-- An undo file, or no file yet, with some records in it. -/
def UndoFile (m : BlockFileManager) (disk : Disk) (file : UInt32) (records : List (List UInt8)) :
    Prop :=
  ((disk.undo file).getD FlatFile.empty).RecordsFrom m.magic 0 records

lemma UndoFile.undoUsedSize (h : m.UndoFile disk file records)
    (hmagic : m.magic.toList ≠ List.replicate 4 0) (hdata : ∀ data ∈ records, RecordData data) :
    m.undoUsedSize disk file = (recordsBytes m.magic records).length := by
  unfold UndoFile at h
  unfold BlockFileManager.undoUsedSize FlatFileSeq.usedSize
  cases hfile : disk.undo file with
  | none =>
    rw [hfile, Option.getD_none] at h
    have hfits := h.fits
    rw [Nat.zero_add] at hfits
    exact (Nat.le_zero.mp hfits).symm
  | some f =>
    rw [hfile, Option.getD_some] at h
    have hfits := h.fits
    have hfuel := length_le_length_recordsBytes m.magic records
    exact (FlatFileSeq.usedFrom_of_recordsFrom hmagic hdata (by omega) h).trans (Nat.zero_add _)

/-- `write_undo` behind the last record. -/
lemma UndoFile.writeUndo (h : m.UndoFile disk file records) (data : List UInt8) :
    (m.writeUndo disk file data (recordsBytes m.magic records).length).2.1 =
        (recordsBytes m.magic (records ++ [data])).length ∧
      m.UndoFile (m.writeUndo disk file data (recordsBytes m.magic records).length).2.2 file
        (records ++ [data]) := by
  refine ⟨?_, ?_⟩
  · rw [recordsBytes_concat, List.length_append, length_recordBytes]
    exact Nat.add_assoc _ _ _
  · unfold UndoFile BlockFileManager.writeUndo
    dsimp only
    rw [FlatFileSeq.openAndWrite_self, Option.getD_some]
    exact FlatFile.RecordsFrom.write h (by decide) data

/-- Calls of `write_undo` on one file, each at the size that the previous one returned; the files
and the size after them. -/
def writeUndos (m : BlockFileManager) (file : UInt32) : List (List UInt8) → Disk → Nat → Disk × Nat
  | [], disk, size => (disk, size)
  | data :: rest, disk, size =>
    let (_, size, disk) := m.writeUndo disk file data size
    writeUndos m file rest disk size

lemma writeUndos_append (datas rest : List (List UInt8)) (disk : Disk) (size : Nat) :
    m.writeUndos file (datas ++ rest) disk size =
      m.writeUndos file rest (m.writeUndos file datas disk size).1
        (m.writeUndos file datas disk size).2 := by
  induction datas generalizing disk size with
  | nil => rfl
  | cons data datas ih => exact ih _ _

/-- What the calls leave in the file. -/
lemma UndoFile.writeUndos (h : m.UndoFile disk file records) (datas : List (List UInt8)) :
    (m.writeUndos file datas disk (recordsBytes m.magic records).length).2 =
        (recordsBytes m.magic (records ++ datas)).length ∧
      m.UndoFile (m.writeUndos file datas disk (recordsBytes m.magic records).length).1 file
        (records ++ datas) := by
  induction datas generalizing disk records with
  | nil =>
    rw [List.append_nil]
    exact ⟨rfl, h⟩
  | cons data datas ih =>
    obtain ⟨hsize, hfile⟩ := h.writeUndo data
    have hrest := ih hfile
    rw [List.append_assoc, List.singleton_append, ← hsize] at hrest
    exact hrest

/-- The scan finds the sum of the record lengths. The records stand one behind the other, and a run
that goes on from what the scan finds goes on as if there had been no restart. -/
theorem undoUsedSize_writeUndos (m : BlockFileManager) (disk : Disk) (file : UInt32)
    (datas : List (List UInt8)) (hmagic : m.magic.toList ≠ List.replicate 4 0)
    (hfile : ∀ f, disk.undo file = some f → ∀ i, i < f.len → f.byte i = 0)
    (hdata : ∀ data ∈ datas, data ≠ [] ∧ data.length < 2 ^ 32) :
    m.undoUsedSize (m.writeUndos file datas disk 0).1 file =
        (datas.map fun data => 8 + data.length).sum ∧
      (((m.writeUndos file datas disk 0).1.undo file).getD FlatFile.empty).slice 0
          (datas.map fun data => 8 + data.length).sum =
        datas.flatMap (recordBytes m.magic.toList) ∧
      ∀ rest, m.writeUndos file rest (m.writeUndos file datas disk 0).1
          (m.undoUsedSize (m.writeUndos file datas disk 0).1 file) =
        m.writeUndos file (datas ++ rest) disk 0 := by
  have hstart : m.UndoFile disk file [] := by
    refine ⟨Nat.zero_le _, rfl, fun i _ hi => ?_⟩
    cases hopen : disk.undo file with
    | none => rfl
    | some f =>
      rw [hopen, Option.getD_some] at hi
      exact hfile f hopen i hi
  obtain ⟨hsize, hrecords⟩ := hstart.writeUndos datas
  rw [List.nil_append] at hsize hrecords
  have hused := hrecords.undoUsedSize hmagic hdata
  rw [recordsBytes_nil, List.length_nil] at hsize hrecords hused
  refine ⟨hused.trans (length_recordsBytes _ _), ?_, fun rest => ?_⟩
  · rw [← length_recordsBytes m.magic]
    exact hrecords.bytes
  · rw [writeUndos_append, hused, hsize]

end BlockFileManager

/-! ### A record of 4 GiB -/

/-- The size field of a record of 4 GiB is zero, and the scan stops at it. -/
lemma BlockFileManager.UndoFile.undoUsedSize_eq_zero {m : BlockFileManager} {disk : Disk}
    {file : UInt32} {data : List UInt8} (h : m.UndoFile disk file [data])
    (hlen : data.length = 2 ^ 32) : m.undoUsedSize disk file = 0 := by
  unfold UndoFile at h
  obtain ⟨hfirst, hsize, hroom, -⟩ := h.cons
  cases hfile : disk.undo file with
  | none =>
    simp only [hfile, Option.getD_none, FlatFile.empty] at hroom
    omega
  | some f =>
    rw [hfile, Option.getD_some] at hfirst hsize hroom
    have hzero : ofLeBytes (leBytes 4 data.length) = 0 := by
      rw [hlen]
      decide
    obtain ⟨fuel, hfuel⟩ : ∃ n, f.len = n + 1 := ⟨f.len - 1, by omega⟩
    simp only [BlockFileManager.undoUsedSize, FlatFileSeq.usedSize, hfile]
    rw [hfuel]
    unfold FlatFileSeq.usedFrom
    rw [if_pos (by omega), if_neg (not_not.mpr hfirst), hsize, hzero, if_pos (.inl rfl)]

namespace Sample

/-- The manager of an empty directory. -/
def emptyManager : BlockFileManager := ⟨⟨[0xfa, 0xbf, 0xb5, 0xda], length_regtestMagic⟩, 0, 0⟩

/-- An empty directory. -/
def emptyDisk : Disk := ⟨fun _ => none, fun _ => none⟩

/-- Three records, and the scan behind them. -/
theorem undoUsedSize_three :
    emptyManager.undoUsedSize
      (emptyManager.writeUndos 0 [[1], [2, 3], [4, 5, 6]] emptyDisk 0).1 0 = 30 := by
  have hscan := (BlockFileManager.undoUsedSize_writeUndos emptyManager emptyDisk 0
    [[1], [2, 3], [4, 5, 6]] (by decide) (by simp [emptyDisk]) (by decide)).1
  exact hscan

/-- The data of the record has 2^32 bytes; the scan finds no record. -/
theorem undoUsedSize_4GiB :
    ∃ data : List UInt8, data ≠ [] ∧ data.length = 2 ^ 32 ∧
      emptyManager.undoUsedSize (emptyManager.writeUndos 0 [data] emptyDisk 0).1 0 = 0 ∧
      0 ≠ ([data].map fun data => 8 + data.length).sum := by
  have hlen : (List.replicate (2 ^ 32) (0 : UInt8)).length = 2 ^ 32 := List.length_replicate
  generalize List.replicate (2 ^ 32) (0 : UInt8) = data at hlen
  refine ⟨data, ?_, hlen, ?_, ?_⟩
  · rintro rfl
    cases hlen
  · have hstart : emptyManager.UndoFile emptyDisk 0 [] :=
      ⟨Nat.le_refl _, rfl, fun i _ hi => absurd hi (Nat.not_lt_zero i)⟩
    exact (hstart.writeUndos [data]).2.undoUsedSize_eq_zero hlen
  · rw [List.map_singleton, List.sum_singleton, hlen]
    decide

end Sample

end Bitcrab
