import Mathlib.Data.List.Induction
import Bitcrab.Lib.Run
import Bitcrab.Storage.BlockRecords

/-!
# Runs of the block file manager (`storage/block_file.rs`)

A run is any sequence of `write_block` and `write_undo` calls, with the manager closed and opened
again in between. Every record is read back at the position that was returned for it. Reopening is
not transparent though: `new` takes the length of the current file for the part in use, and the file
has been extended to the end of a chunk, so the next record starts behind a gap of zeros.
-/

namespace Bitcrab

open Bytes Result BlockFileManager

/-- A call of the manager; `reopen` is `new` with the current file as the last file. -/
inductive FileCall where
  | writeBlock (raw : List UInt8)
  | writeUndo (file : UInt32) (data : List UInt8)
  | reopen

/-- The manager and the files, the size that the last `write_undo` on each file returned, and the
records written so far with their positions. -/
structure FileRun where
  manager : BlockFileManager
  disk : Disk
  undoSize : UInt32 → Nat
  blocks : List (FlatFilePos × List UInt8)
  undo : List (FlatFilePos × List UInt8)

namespace FileRun

/-- Opening the files of a directory. -/
def opened (disk : Disk) (magic : List.Vector UInt8 4) (lastFile : UInt32)
    (undoSize : UInt32 → Nat) : FileRun :=
  ⟨.new disk magic lastFile, disk, undoSize, [], []⟩

/-- One call; `none` for an I/O error. -/
def step (s : FileRun) : FileCall → Option FileRun
  | .writeBlock raw =>
    match s.manager.writeBlock s.disk raw with
    | .ok (pos, manager, disk) => some { s with manager, disk, blocks := (pos, raw) :: s.blocks }
    | .error _ => none
  | .writeUndo file data =>
    let (pos, size, disk) := s.manager.writeUndo s.disk file data (s.undoSize file)
    some { s with
      disk
      undoSize := fun n => if n = file then size else s.undoSize n
      undo := (pos, data) :: s.undo }
  | .reopen => some { s with manager := .new s.disk s.manager.magic s.manager.currentFile }

/-- A call that leaves the part of a file that is in use below 4 GiB. -/
def Below4GiB (_ : FileRun) (call : FileCall) (s' : FileRun) : Prop :=
  match call with
  | .writeBlock _ => s'.manager.currentSize < 2 ^ 32
  | .writeUndo file _ => s'.undoSize file < 2 ^ 32
  | .reopen => True

instance (s : FileRun) (call : FileCall) (s' : FileRun) : Decidable (Below4GiB s call s') :=
  match call with
  | .writeBlock _ => inferInstanceAs (Decidable (_ < _))
  | .writeUndo _ _ => inferInstanceAs (Decidable (_ < _))
  | .reopen => inferInstanceAs (Decidable True)

/-! ### Read after write -/

/-- Every record is held at its position, in a part of the files that is not written any more. -/
structure Recorded (s : FileRun) : Prop where
  blocks : ∀ r ∈ s.blocks, s.manager.Stored s.disk.blocks r.1 r.2
  undo : ∀ r ∈ s.undo, (∃ f, s.disk.undo r.1.file = some f ∧ f.HoldsAt r.1.offset.toNat r.2) ∧
    r.1.offset.toNat + r.2.length ≤ s.undoSize r.1.file

section Step

variable {s s' : FileRun} {call : FileCall} {raw : List UInt8}

lemma step_writeBlock_eq_some :
    s.step (.writeBlock raw) = some s' ↔ ∃ pos manager disk,
      s.manager.writeBlock s.disk raw = .ok (pos, manager, disk) ∧
      s' = { s with manager, disk, blocks := (pos, raw) :: s.blocks } := by
  simp only [step]
  cases s.manager.writeBlock s.disk raw with
  | error e => simp
  | ok r =>
    obtain ⟨pos, manager, disk⟩ := r
    simp only [Option.some.injEq, Except.ok.injEq, Prod.mk.injEq]
    constructor
    · rintro rfl
      exact ⟨pos, manager, disk, ⟨rfl, rfl, rfl⟩, rfl⟩
    · rintro ⟨_, _, _, ⟨rfl, rfl, rfl⟩, rfl⟩
      rfl

/-- `write_block` changes the block files only. -/
lemma undo_writeBlock {m m' : BlockFileManager} {disk disk' : Disk} {pos : FlatFilePos}
    (h : m.writeBlock disk raw = .ok (pos, m', disk')) : disk'.undo = disk.undo := by
  rcases writeBlock_eq_ok h with ⟨-, -, m₁, disk₁, hrot, happ⟩ | ⟨-, happ⟩
  · obtain ⟨f, -, -, -, rfl⟩ := rotate_eq_ok hrot
    obtain ⟨-, -, rfl⟩ := Prod.mk.inj happ |>.imp_right Prod.mk.inj
    rfl
  · obtain ⟨-, -, rfl⟩ := Prod.mk.inj happ |>.imp_right Prod.mk.inj
    rfl

/-- `write_block` keeps the blocks that are stored and stores one more. -/
lemma stored_writeBlock {m m' : BlockFileManager} {disk disk' : Disk} {pos : FlatFilePos}
    (h : m.writeBlock disk raw = .ok (pos, m', disk')) (hsmall : m'.currentSize < 2 ^ 32) :
    (∀ pos' raw', m.Stored disk.blocks pos' raw' → m'.Stored disk'.blocks pos' raw') ∧
      m'.Stored disk'.blocks pos raw := by
  -- the append is on the manager `m₁`, after a rotation or not
  have happend : ∀ (m₁ : BlockFileManager) (disk₁ : Disk), m₁.append disk₁ raw = (pos, m', disk') →
      (∀ pos' raw', m₁.Stored disk₁.blocks pos' raw' → m'.Stored disk'.blocks pos' raw') ∧
        m'.Stored disk'.blocks pos raw := by
    intro m₁ disk₁ happ
    have hsize : m'.currentSize = m₁.currentSize + (8 + raw.length) := by
      rw [← (Prod.mk.inj (Prod.mk.inj happ).2).1]
    have hkept := fun pos' raw' (hs : m₁.Stored disk₁.blocks pos' raw') => hs.append raw
    have hnew : (m₁.append disk₁ raw).2.1.Stored (m₁.append disk₁ raw).2.2.blocks
        (m₁.append disk₁ raw).1 raw := stored_append m₁ disk₁ (by omega) (by omega)
    rw [happ] at hkept hnew
    exact ⟨hkept, hnew⟩
  rcases writeBlock_eq_ok h with ⟨-, -, m₁, disk₁, hrot, happ⟩ | ⟨-, happ⟩
  · obtain ⟨hkept, hnew⟩ := happend m₁ disk₁ happ
    exact ⟨fun pos' raw' hs => hkept pos' raw' (hs.rotate hrot), hnew⟩
  · exact happend m disk happ

/-- A call keeps the records and adds the one it writes. -/
lemma Recorded.step (h : s.Recorded) (hstep : s.step call = some s')
    (hsmall : Below4GiB s call s') : s'.Recorded := by
  cases call with
  | writeBlock raw =>
    obtain ⟨pos, manager, disk, hwrite, rfl⟩ := step_writeBlock_eq_some.mp hstep
    obtain ⟨hkept, hnew⟩ := stored_writeBlock hwrite hsmall
    refine ⟨List.forall_mem_cons.mpr ⟨hnew, fun r hr => hkept r.1 r.2 (h.blocks r hr)⟩, ?_⟩
    intro r hr
    rw [undo_writeBlock hwrite]
    exact h.undo r hr
  | writeUndo file data =>
    obtain rfl := Option.some.inj hstep
    have hsize : s.undoSize file + 8 + data.length < 2 ^ 32 := by
      simpa [Below4GiB, writeUndo] using hsmall
    have hoffset : (UInt32.ofNat (s.undoSize file + 8)).toNat = s.undoSize file + 8 :=
      UInt32.toNat_ofNat_of_lt' (by change _ < 2 ^ 32; omega)
    refine ⟨h.blocks, List.forall_mem_cons.mpr ⟨⟨?_, ?_⟩, ?_⟩⟩
    · simp only [hoffset]
      exact FlatFileSeq.holdsAt_openAndWrite_self _ _ _ _ _ (by omega)
    · simp only [hoffset, if_pos]
      exact Nat.le_refl _
    · rintro r hr
      obtain ⟨⟨f, hf, hholds⟩, hend⟩ := h.undo r hr
      refine ⟨FlatFileSeq.holdsAt_openAndWrite (by decide) hf hholds fun hfile => hfile ▸ hend, ?_⟩
      dsimp only
      split_ifs with hfile
      · rw [hfile] at hend
        omega
      · exact hend
  | reopen =>
    obtain rfl := Option.some.inj hstep
    exact ⟨fun r hr => (h.blocks r hr).new s.manager.magic, h.undo⟩

end Step

/-- Every record reads back at its position, whatever calls come after it. -/
theorem readRecord_of_written {disk : Disk} {magic : List.Vector UInt8 4} {lastFile : UInt32}
    {undoSize : UInt32 → Nat} {s : FileRun}
    (h : Reachable step Below4GiB (opened disk magic lastFile undoSize) s) :
    (∀ r ∈ s.blocks, readRecord s.disk.blocks r.1 = .ok r.2) ∧
      ∀ r ∈ s.undo, readRecord s.disk.undo r.1 = .ok r.2 := by
  have hrecorded : s.Recorded :=
    h.invariant Recorded ⟨by simp [opened], by simp [opened]⟩
      fun s call s' hs hstep hsmall => hs.step hstep hsmall
  refine ⟨fun r hr => (hrecorded.blocks r hr).readRecord, ?_⟩
  intro r hr
  obtain ⟨⟨f, hf, hholds⟩, -⟩ := hrecorded.undo r hr
  exact readRecord_of_holdsAt hf hholds

/-! ### Reopening -/

/-- Some calls in order. -/
def calls : List FileCall → FileRun → Option FileRun
  | [], s => some s
  | call :: rest, s => do
    let s ← s.step call
    calls rest s

/-- The positions returned by `write_block`, the last one first. -/
def positions (s : FileRun) : List FlatFilePos := s.blocks.map Prod.fst

end FileRun

namespace FileCall

/-- The calls without the reopenings. -/
def withoutReopen (calls : List FileCall) : List FileCall :=
  calls.filter fun call => match call with
    | reopen => false
    | _ => true

/-- Whether some call is a `write_block`. -/
def writes (calls : List FileCall) : Bool :=
  calls.any fun call => match call with
    | writeBlock _ => true
    | _ => false

/-- Whether the manager was reopened after the last `write_block`. -/
def reopened (calls : List FileCall) : Bool :=
  calls.foldl (fun flag call => match call with
    | writeBlock _ => false
    | writeUndo _ _ => flag
    | reopen => true) false

variable (calls : List FileCall)

@[simp] lemma withoutReopen_nil : withoutReopen [] = [] := rfl

@[simp] lemma withoutReopen_concat_writeBlock (raw : List UInt8) :
    withoutReopen (calls ++ [writeBlock raw]) = withoutReopen calls ++ [writeBlock raw] := by
  simp [withoutReopen]

@[simp] lemma withoutReopen_concat_writeUndo (file : UInt32) (data : List UInt8) :
    withoutReopen (calls ++ [writeUndo file data]) =
      withoutReopen calls ++ [writeUndo file data] := by
  simp [withoutReopen]

@[simp] lemma withoutReopen_concat_reopen :
    withoutReopen (calls ++ [reopen]) = withoutReopen calls := by
  simp [withoutReopen]

@[simp] lemma writes_concat_writeBlock (raw : List UInt8) :
    writes (calls ++ [writeBlock raw]) = true := by
  simp [writes]

@[simp] lemma writes_concat_writeUndo (file : UInt32) (data : List UInt8) :
    writes (calls ++ [writeUndo file data]) = writes calls := by
  simp [writes]

@[simp] lemma writes_concat_reopen : writes (calls ++ [reopen]) = writes calls := by
  simp [writes]

@[simp] lemma reopened_concat_writeBlock (raw : List UInt8) :
    reopened (calls ++ [writeBlock raw]) = false := by
  simp [reopened]

@[simp] lemma reopened_concat_writeUndo (file : UInt32) (data : List UInt8) :
    reopened (calls ++ [writeUndo file data]) = reopened calls := by
  simp [reopened]

@[simp] lemma reopened_concat_reopen : reopened (calls ++ [reopen]) = true := by
  simp [reopened]

end FileCall

namespace FileRun

open FileCall

lemma calls_append (cs cs' : List FileCall) (s : FileRun) :
    calls (cs ++ cs') s = (calls cs s).bind (calls cs') := by
  induction cs generalizing s with
  | nil => rfl
  | cons c cs ih => simp only [List.cons_append, calls, Option.bind_eq_bind, Option.bind_assoc, ih]

lemma calls_concat_eq_some {cs : List FileCall} {c : FileCall} {s s' : FileRun} :
    calls (cs ++ [c]) s = some s' ↔ ∃ s₁, calls cs s = some s₁ ∧ s₁.step c = some s' := by
  rw [calls_append, Option.bind_eq_some_iff]
  simp [calls]

/-- A block that is written at the same position with and without the reopenings before: the manager
was not reopened since the last block, or no block was written before, or the block does not fit
behind the last one and goes to a new file. -/
def SafeWrite (start : FileRun) (before : List FileCall) (raw : List UInt8) : Prop :=
  reopened before = false ∨ writes before = false ∨
    ∀ s, calls (withoutReopen before) start = some s →
      s.manager.currentSize + (8 + raw.length) > maxBlockFileSize

/-- Every block is. -/
def ReopensHarmless (start : FileRun) (cs : List FileCall) : Prop :=
  ∀ before raw, before ++ [.writeBlock raw] <+: cs → SafeWrite start before raw

/-- The state `s` of a run without the reopenings and the state `t` with them, as long as the
positions are the same. -/
structure Sync (s t : FileRun) (reopened writes : Bool) : Prop where
  magic : t.manager.magic = s.manager.magic
  file : t.manager.currentFile = s.manager.currentFile
  positions : t.positions = s.positions
  /-- Before the first block, the whole file is in use. -/
  fresh : writes = false → s.manager.currentSize = t.disk.blocks.length t.manager.currentFile
  /-- After a block there is room behind it. -/
  room : writes = true → 0 < s.manager.currentSize ∧
    s.manager.currentSize < t.disk.blocks.length t.manager.currentFile
  size : t.manager.currentSize =
    if reopened then t.disk.blocks.length t.manager.currentFile else s.manager.currentSize

section Writes

variable {m m' : BlockFileManager} {disk disk' : Disk} {raw : List UInt8} {pos : FlatFilePos}

/-- `write_block` goes to a new file. -/
def Full (m : BlockFileManager) (raw : List UInt8) : Prop :=
  m.currentSize + (8 + raw.length) > maxBlockFileSize ∧ m.currentSize > 0

/-- What `write_block` leaves in the manager, and the position it returns. -/
lemma writeBlock_spec (h : m.writeBlock disk raw = .ok (pos, m', disk')) :
    m'.magic = m.magic ∧ 0 < m'.currentSize ∧
      m'.currentSize < disk'.blocks.length m'.currentFile ∧
      (Full m raw ∧ m.currentFile < m.currentFile + 1 ∧ m'.currentFile = m.currentFile + 1 ∧
          m'.currentSize = 0 + (8 + raw.length) ∧ pos = ⟨m.currentFile + 1, UInt32.ofNat (0 + 8)⟩ ∨
        ¬Full m raw ∧ m'.currentFile = m.currentFile ∧
          m'.currentSize = m.currentSize + (8 + raw.length) ∧
          pos = ⟨m.currentFile, UInt32.ofNat (m.currentSize + 8)⟩) := by
  have happend : ∀ (m₁ : BlockFileManager) (disk₁ : Disk), m₁.append disk₁ raw = (pos, m', disk') →
      m'.magic = m₁.magic ∧ 0 < m'.currentSize ∧
        m'.currentSize < disk'.blocks.length m'.currentFile ∧ m'.currentFile = m₁.currentFile ∧
        m'.currentSize = m₁.currentSize + (8 + raw.length) ∧
        pos = ⟨m₁.currentFile, UInt32.ofNat (m₁.currentSize + 8)⟩ := by
    intro m₁ disk₁ happ
    obtain ⟨rfl, hrest⟩ := Prod.mk.inj happ
    obtain ⟨rfl, rfl⟩ := Prod.mk.inj hrest
    have hroom : m₁.currentSize + (recordBytes m₁.magic.toList raw).length <
        FlatFileSeq.length (disk₁.blocks.openAndWrite blockFileChunk m₁.currentFile m₁.currentSize
          (recordBytes m₁.magic.toList raw)) m₁.currentFile :=
      FlatFileSeq.lt_length_openAndWrite (by decide)
    rw [length_recordBytes] at hroom
    exact ⟨rfl, by dsimp only; omega, hroom, rfl, rfl, rfl⟩
  rcases writeBlock_eq_ok h with ⟨hover, hpos, m₁, disk₁, hrot, happ⟩ | ⟨hroom, happ⟩
  · obtain ⟨f, -, hlt, rfl, rfl⟩ := rotate_eq_ok hrot
    obtain ⟨hmagic, hsize, hlength, hafter⟩ := happend _ _ happ
    exact ⟨hmagic, hsize, hlength, .inl ⟨⟨hover, hpos⟩, hlt, hafter⟩⟩
  · obtain ⟨hmagic, hsize, hlength, hafter⟩ := happend _ _ happ
    exact ⟨hmagic, hsize, hlength, .inr ⟨hroom, hafter⟩⟩

/-- `write_block` succeeds, unless it has to go to a new file and the current one is missing or the
last. -/
lemma exists_writeBlock (h : Full m raw → disk.blocks m.currentFile ≠ none ∧
    m.currentFile < m.currentFile + 1) :
    ∃ pos m' disk', m.writeBlock disk raw = .ok (pos, m', disk') := by
  unfold BlockFileManager.writeBlock
  split_ifs with hfull
  · obtain ⟨hfile, hlt⟩ := h hfull
    obtain ⟨f, hf⟩ := Option.ne_none_iff_exists'.mp hfile
    have hmax : m.currentFile ≠ 0xFFFFFFFF := by
      intro heq
      rw [heq] at hlt
      exact absurd hlt (by decide)
    rw [rotate, hf]
    simp only [if_neg hmax, ok_bind]
    exact ⟨_, _, _, rfl⟩
  · exact ⟨_, _, _, rfl⟩

end Writes

namespace Sync

variable {s s' t t' : FileRun} {reopened writes : Bool} {raw : List UInt8}

lemma file_exists (h : Sync s t reopened writes) (hpos : 0 < t.manager.currentSize) :
    t.disk.blocks t.manager.currentFile ≠ none := by
  intro hnone
  have hlength : t.disk.blocks.length t.manager.currentFile = 0 := by
    rw [FlatFileSeq.length, hnone]
    rfl
  have hsize := h.size
  have hfresh := h.fresh
  have hroom := h.room
  rw [hlength] at hsize hfresh hroom
  cases writes with
  | false =>
    rw [hfresh rfl, ite_self] at hsize
    omega
  | true => exact absurd (hroom rfl).2 (Nat.not_lt_zero _)

/-- A safe block goes to a new file in both runs or in none. -/
lemma full_iff (h : Sync s t reopened writes) (hsafe : reopened = false ∨ writes = false ∨
    s.manager.currentSize + (8 + raw.length) > maxBlockFileSize) :
    (Full t.manager raw ↔ Full s.manager raw) ∧
      (¬Full s.manager raw → t.manager.currentSize = s.manager.currentSize) := by
  have hsize := h.size
  cases reopened with
  | false =>
    rw [if_neg Bool.false_ne_true] at hsize
    exact ⟨by rw [Full, Full, hsize], fun _ => hsize⟩
  | true =>
    rw [if_pos rfl] at hsize
    cases writes with
    | false =>
      rw [← h.fresh rfl] at hsize
      exact ⟨by rw [Full, Full, hsize], fun _ => hsize⟩
    | true =>
      obtain ⟨hpos, hlt⟩ := h.room rfl
      have hover : s.manager.currentSize +
        (8 + raw.length) > maxBlockFileSize := by simpa using hsafe
      have hfull : Full s.manager raw := ⟨hover, hpos⟩
      refine ⟨⟨fun _ => hfull, fun _ => ⟨?_, ?_⟩⟩, fun hnot => absurd hfull hnot⟩ <;> omega

/-- A safe block is written at the same position. -/
lemma writeBlock (h : Sync s t reopened writes) (hs : s.step (.writeBlock raw) = some s')
    (hsafe : reopened = false ∨ writes = false ∨
      s.manager.currentSize + (8 + raw.length) > maxBlockFileSize) :
    ∃ t', t.step (.writeBlock raw) = some t' ∧ Sync s' t' false true := by
  obtain ⟨hfull, hsize⟩ := h.full_iff hsafe
  obtain ⟨pos, m, disk, hwrite, rfl⟩ := step_writeBlock_eq_some.mp hs
  obtain ⟨hmagic, -, -, hcases⟩ := writeBlock_spec hwrite
  have hexists : ∃ pos' m' disk', t.manager.writeBlock t.disk raw = .ok (pos', m', disk') := by
    refine exists_writeBlock fun hf => ⟨h.file_exists hf.2, ?_⟩
    rcases hcases with ⟨-, hlt, -⟩ | ⟨hnot, -⟩
    · rw [h.file]
      exact hlt
    · exact absurd (hfull.mp hf) hnot
  obtain ⟨pos', m', disk', hwrite'⟩ := hexists
  obtain ⟨hmagic', hpos', hroom', hcases'⟩ := writeBlock_spec hwrite'
  have hsame : m'.currentFile = m.currentFile ∧ m'.currentSize = m.currentSize ∧ pos' = pos := by
    rcases hcases with ⟨hf, -, hfile, hsz, hpos⟩ | ⟨hf, hfile, hsz, hpos⟩ <;>
      rcases hcases' with ⟨hf', -, hfile', hsz', hpos'⟩ | ⟨hf', hfile', hsz', hpos'⟩
    · rw [hfile, hfile', hsz, hsz', hpos, hpos', h.file]
      exact ⟨rfl, rfl, rfl⟩
    · exact absurd (hfull.mpr hf) hf'
    · exact absurd (hfull.mp hf') hf
    · rw [hfile, hfile', hsz, hsz', hpos, hpos', h.file, hsize hf]
      exact ⟨rfl, rfl, rfl⟩
  obtain ⟨hfile, hsz, rfl⟩ := hsame
  refine ⟨_, step_writeBlock_eq_some.mpr ⟨pos', m', disk', hwrite', rfl⟩, ?_, hfile, ?_, ?_, ?_,
    hsz⟩
  · rw [hmagic', hmagic, h.magic]
  · exact congrArg (pos' :: ·) h.positions
  · simp
  · intro
    exact ⟨hsz ▸ hpos', hsz ▸ hroom'⟩

/-- A block that is not safe is written elsewhere. -/
lemma positions_ne (h : Sync s t true true)
    (hfit : s.manager.currentSize + (8 + raw.length) ≤ maxBlockFileSize)
    (hs : s.step (.writeBlock raw) = some s') (ht : t.step (.writeBlock raw) = some t') :
    t'.positions ≠ s'.positions := by
  obtain ⟨pos, m, disk, hwrite, rfl⟩ := step_writeBlock_eq_some.mp hs
  obtain ⟨pos', m', disk', hwrite', rfl⟩ := step_writeBlock_eq_some.mp ht
  obtain ⟨-, hlt⟩ := h.room rfl
  have hsize := h.size
  rw [if_pos rfl] at hsize
  have hsmall : maxBlockFileSize < 2 ^ 32 := by decide
  intro heq
  obtain rfl : pos' = pos := (List.cons.inj heq).1
  rcases (writeBlock_spec hwrite).2.2.2 with ⟨hfull, -⟩ | ⟨-, -, -, hpos⟩
  · exact absurd hfull.1 (by omega)
  · rcases (writeBlock_spec hwrite').2.2.2 with ⟨-, hnext, -, -, hpos'⟩ | ⟨hfull, -, -, hpos'⟩
    · have hfile : t.manager.currentFile + 1 = s.manager.currentFile :=
        congrArg FlatFilePos.file (hpos'.symm.trans hpos)
      rw [h.file] at hnext hfile
      exact absurd hfile.symm (UInt32.ne_of_lt hnext)
    · have hoffset : UInt32.ofNat (t.manager.currentSize + 8) =
          UInt32.ofNat (s.manager.currentSize + 8) :=
        congrArg FlatFilePos.offset (hpos'.symm.trans hpos)
      have hfit' : t.manager.currentSize + (8 + raw.length) ≤ maxBlockFileSize := by
        by_contra hover
        exact hfull ⟨by omega, by omega⟩
      have hnat := congrArg UInt32.toNat hoffset
      rw [UInt32.toNat_ofNat_of_lt' (by change _ < 2 ^ 32; omega),
        UInt32.toNat_ofNat_of_lt' (by change _ < 2 ^ 32; omega)] at hnat
      omega

/-- Undo data does not touch the block files. -/
lemma writeUndo (h : Sync s t reopened writes) {file : UInt32} {data : List UInt8}
    (hs : s.step (.writeUndo file data) = some s') :
    ∃ t', t.step (.writeUndo file data) = some t' ∧ Sync s' t' reopened writes := by
  obtain rfl := Option.some.inj hs
  exact ⟨_, rfl, h.magic, h.file, h.positions, h.fresh, h.room, h.size⟩

lemma reopen (h : Sync s t reopened writes) :
    ∃ t', t.step .reopen = some t' ∧ Sync s t' true writes :=
  ⟨_, rfl, h.magic, h.file, h.positions, h.fresh, h.room, rfl⟩

end Sync

section Reopening

variable {start s t : FileRun} {cs : List FileCall}

lemma sync_opened (disk : Disk) (magic : List.Vector UInt8 4) (lastFile : UInt32)
    (undoSize : UInt32 → Nat) :
    Sync (opened disk magic lastFile undoSize) (opened disk magic lastFile undoSize) false false :=
  ⟨rfl, rfl, rfl, fun _ => rfl, by simp, rfl⟩

lemma reopensHarmless_concat {c : FileCall} :
    ReopensHarmless start (cs ++ [c]) ↔
      ReopensHarmless start cs ∧ ∀ raw, c = .writeBlock raw → SafeWrite start cs raw := by
  constructor
  · intro h
    refine ⟨fun before raw hbefore => h before raw (hbefore.trans (List.prefix_append _ _)), ?_⟩
    rintro raw rfl
    exact h cs raw (List.prefix_refl _)
  · rintro ⟨h, hlast⟩ before raw hbefore
    rcases List.prefix_concat_iff.mp hbefore with heq | hbefore
    · obtain ⟨rfl, hc⟩ := List.append_inj' heq rfl
      exact hlast raw (List.singleton_inj.mp hc.symm)
    · exact h before raw hbefore

lemma reopensHarmless_iff_getElem? :
    ReopensHarmless start cs ↔
      ∀ k raw, cs[k]? = some (.writeBlock raw) → SafeWrite start (cs.take k) raw := by
  constructor
  · intro h k raw hwrite
    refine h (cs.take k) raw ?_
    have htake : cs.take (k + 1) = cs.take k ++ [.writeBlock raw] := by
      rw [List.take_add_one, hwrite, Option.toList_some]
    rw [← htake]
    exact List.take_prefix _ _
  · rintro h before raw ⟨rest, rfl⟩
    simpa using h before.length raw (by simp)

/-- A call in a run without reopenings. -/
def stepWithoutReopen (s : FileRun) : FileCall → Option FileRun
  | .reopen => some s
  | call => s.step call

lemma calls_withoutReopen_concat {c : FileCall} :
    calls (withoutReopen (cs ++ [c])) start = some s ↔
      ∃ s₁, calls (withoutReopen cs) start = some s₁ ∧ s₁.stepWithoutReopen c = some s := by
  cases c with
  | reopen => simp [stepWithoutReopen]
  | writeBlock raw =>
    rw [withoutReopen_concat_writeBlock]
    exact calls_concat_eq_some
  | writeUndo file data =>
    rw [withoutReopen_concat_writeUndo]
    exact calls_concat_eq_some

/-- Positions that agree after a call agreed before it. -/
lemma positions_eq_of_step {s' t' : FileRun} {c : FileCall} (hs : s.stepWithoutReopen c = some s')
    (ht : t.step c = some t') (h : t'.positions = s'.positions) : t.positions = s.positions := by
  cases c with
  | writeBlock raw =>
    obtain ⟨_, _, _, -, rfl⟩ := step_writeBlock_eq_some.mp hs
    obtain ⟨_, _, _, -, rfl⟩ := step_writeBlock_eq_some.mp ht
    exact (List.cons.inj h).2
  | writeUndo file data =>
    obtain rfl := Option.some.inj hs
    obtain rfl := Option.some.inj ht
    exact h
  | reopen =>
    obtain rfl := Option.some.inj hs
    obtain rfl := Option.some.inj ht
    exact h

/-- A call keeps the two runs in step unless it writes a block that is not safe. -/
lemma Sync.step {s' : FileRun} {c : FileCall} (h : Sync s t (reopened cs) (writes cs))
    (hs₁ : calls (withoutReopen cs) start = some s) (hs : s.stepWithoutReopen c = some s')
    (hsafe : ∀ raw, c = .writeBlock raw → SafeWrite start cs raw) :
    ∃ t', t.step c = some t' ∧ Sync s' t' (reopened (cs ++ [c])) (writes (cs ++ [c])) := by
  cases c with
  | writeBlock raw =>
    rw [reopened_concat_writeBlock, writes_concat_writeBlock]
    refine h.writeBlock hs ?_
    simpa [SafeWrite, hs₁] using hsafe raw rfl
  | writeUndo file data =>
    rw [reopened_concat_writeUndo, writes_concat_writeUndo]
    exact h.writeUndo hs
  | reopen =>
    obtain rfl := Option.some.inj hs
    rw [reopened_concat_reopen, writes_concat_reopen]
    exact h.reopen

/-- A block that is written at the same position is safe. -/
lemma Sync.safeWrite {s' t' : FileRun} {raw : List UInt8} (h : Sync s t (reopened cs) (writes cs))
    (hs₁ : calls (withoutReopen cs) start = some s) (hs : s.step (.writeBlock raw) = some s')
    (ht : t.step (.writeBlock raw) = some t') (hpos : t'.positions = s'.positions) :
    SafeWrite start cs raw := by
  by_contra hunsafe
  simp only [SafeWrite, hs₁, Option.some.injEq, forall_eq', not_or, Bool.not_eq_false,
    Nat.not_lt] at hunsafe
  obtain ⟨hreopened, hwrites, hfit⟩ := hunsafe
  rw [hreopened, hwrites] at h
  exact h.positions_ne hfit hs ht hpos

/-- The two runs are in step exactly as long as every block is safe. -/
lemma sync_calls (hstart : Sync start start false false)
    (hs : calls (withoutReopen cs) start = some s) :
    (ReopensHarmless start cs →
        ∃ t, calls cs start = some t ∧ Sync s t (reopened cs) (writes cs)) ∧
      ∀ t, calls cs start = some t → t.positions = s.positions →
        ReopensHarmless start cs ∧ Sync s t (reopened cs) (writes cs) := by
  induction cs using List.reverseRecOn generalizing s with
  | nil =>
    obtain rfl := Option.some.inj hs
    refine ⟨fun _ => ⟨_, rfl, hstart⟩, ?_⟩
    rintro t ht -
    obtain rfl := Option.some.inj ht
    exact ⟨fun before raw hbefore => by simp at hbefore, hstart⟩
  | append_singleton cs c ih =>
    obtain ⟨s₁, hs₁, hs⟩ := calls_withoutReopen_concat.mp hs
    obtain ⟨hforward, hback⟩ := ih hs₁
    rw [reopensHarmless_concat]
    constructor
    · rintro ⟨hharmless, hlast⟩
      obtain ⟨t₁, ht₁, hsync⟩ := hforward hharmless
      obtain ⟨t, ht, hsync'⟩ := hsync.step hs₁ hs hlast
      exact ⟨t, calls_concat_eq_some.mpr ⟨t₁, ht₁, ht⟩, hsync'⟩
    · intro t ht hpos
      obtain ⟨t₁, ht₁, ht⟩ := calls_concat_eq_some.mp ht
      obtain ⟨hharmless, hsync⟩ := hback t₁ ht₁ (positions_eq_of_step hs ht hpos)
      have hlast : ∀ raw, c = .writeBlock raw → SafeWrite start cs raw := by
        rintro raw rfl
        exact hsync.safeWrite hs₁ hs ht hpos
      obtain ⟨t', ht', hsync'⟩ := hsync.step hs₁ hs hlast
      obtain rfl := Option.some.inj (ht.symm.trans ht')
      exact ⟨⟨hharmless, hlast⟩, hsync'⟩

lemma withoutReopen_withoutReopen (cs : List FileCall) :
    withoutReopen (withoutReopen cs) = withoutReopen cs := by
  simp [withoutReopen]

lemma writes_withoutReopen (cs : List FileCall) : writes (withoutReopen cs) = writes cs := by
  rw [writes, withoutReopen, List.any_filter]
  congr 1
  funext c
  cases c <;> rfl

/-- With reopenings the blocks are written where they are without exactly when each block that is
written after a reopening is the first of all or goes to a new file in any case; and `new` finds the
part in use exactly before the first block. -/
theorem reopening_transparent_iff {disk : Disk} {magic : List.Vector UInt8 4} {lastFile : UInt32}
    {undoSize : UInt32 → Nat} (cs : List FileCall)
    (h : calls (withoutReopen cs) (opened disk magic lastFile undoSize) = some s) :
    ((∃ t, calls cs (opened disk magic lastFile undoSize) = some t ∧ t.positions = s.positions) ↔
        ReopensHarmless (opened disk magic lastFile undoSize) cs) ∧
      ((BlockFileManager.new s.disk magic s.manager.currentFile).currentSize =
        s.manager.currentSize ↔ writes cs = false) := by
  have hstart := sync_opened disk magic lastFile undoSize
  refine ⟨⟨?_, ?_⟩, ?_⟩
  · rintro ⟨t, ht, hpos⟩
    exact ((sync_calls hstart h).2 t ht hpos).1
  · intro hharmless
    obtain ⟨t, ht, hsync⟩ := (sync_calls hstart h).1 hharmless
    exact ⟨t, ht, hsync.positions⟩
  · -- the run without reopenings is in step with itself
    have h' : calls (withoutReopen (withoutReopen cs)) (opened disk magic lastFile undoSize) =
        some s := by
      rw [withoutReopen_withoutReopen]
      exact h
    have hself := ((sync_calls hstart h').2 s h rfl).2
    rw [writes_withoutReopen] at hself
    change s.disk.blocks.length s.manager.currentFile = _ ↔ _
    cases hwrites : writes cs with
    | false => simpa using (hself.fresh hwrites).symm
    | true =>
      have hroom := (hself.room hwrites).2
      simp only [Bool.true_eq_false, iff_false]
      omega

end Reopening

end FileRun

/-! ### A small block on both sides of a reopening -/

namespace Sample

open FileRun

/-- Opening an empty directory. -/
def freshFiles : FileRun :=
  opened ⟨fun _ => none, fun _ => none⟩ ⟨[0xfa, 0xbf, 0xb5, 0xda], length_regtestMagic⟩ 0 fun _ => 0

/-- Two blocks and undo data, with a reopening in between. -/
def reopenCalls : List FileCall :=
  [.writeBlock [1], .writeUndo 0 [2, 3], .reopen, .writeBlock [4], .writeUndo 0 [5]]

lemma run_reopenCalls :
    ((Reachable.run FileRun.step (fun s call s' => Below4GiB s call s') freshFiles
      reopenCalls).map fun s => (s.positions, s.undo.map Prod.fst)) =
      some ([⟨0, 16777224⟩, ⟨0, 8⟩], [⟨0, 18⟩, ⟨0, 8⟩]) := by
  decide +kernel

theorem readRecord_reopenCalls :
    ∃ s, Reachable FileRun.step Below4GiB freshFiles s ∧ s.positions = [⟨0, 16777224⟩, ⟨0, 8⟩] ∧
      (∀ r ∈ s.blocks, readRecord s.disk.blocks r.1 = .ok r.2) ∧
      ∀ r ∈ s.undo, readRecord s.disk.undo r.1 = .ok r.2 := by
  obtain ⟨s, hrun, hpos⟩ := Option.map_eq_some_iff.mp run_reopenCalls
  have hs : Reachable FileRun.step Below4GiB freshFiles s :=
    Reachable.init.of_run (fun _ _ _ => of_decide_eq_true) hrun
  exact ⟨s, hs, congrArg Prod.fst hpos, readRecord_of_written hs⟩

/-- Two blocks between a reopening and others with undo data. -/
def lateReopenCalls : List FileCall :=
  [.reopen, .writeBlock [1], .writeBlock [4], .writeUndo 0 [2, 3], .reopen, .writeUndo 0 [5],
    .reopen]

/-- No block is written between a block and a reopening. -/
lemma reopensHarmless_lateReopenCalls : ReopensHarmless freshFiles lateReopenCalls := by
  rw [reopensHarmless_iff_getElem?]
  intro k raw hwrite
  rcases k with _ | _ | _ | _ | _ | _ | _ | k
  -- no block is before the first, and there is no reopening between the two
  case succ.zero => exact .inr (.inl rfl)
  case succ.succ.zero => exact .inl rfl
  all_goals cases hwrite

lemma positions_lateReopenCalls :
    (calls (FileCall.withoutReopen lateReopenCalls) freshFiles).map positions =
      some [⟨0, 17⟩, ⟨0, 8⟩] := by
  decide +kernel

/-- The blocks are where they are without the reopenings. -/
theorem reopening_late :
    ∃ t, calls lateReopenCalls freshFiles = some t ∧ t.positions = [⟨0, 17⟩, ⟨0, 8⟩] := by
  obtain ⟨s, hs, hpositions⟩ := Option.map_eq_some_iff.mp positions_lateReopenCalls
  obtain ⟨t, ht, hsame⟩ :=
    (reopening_transparent_iff lateReopenCalls hs).1.mpr reopensHarmless_lateReopenCalls
  exact ⟨t, ht, hsame.trans hpositions⟩

lemma positions_reopen :
    (calls [.writeBlock [1], .writeBlock [4]] freshFiles).map positions =
        some [⟨0, 17⟩, ⟨0, 8⟩] ∧
      (calls [.writeBlock [1], .reopen, .writeBlock [4]] freshFiles).map positions =
        some [⟨0, 16777224⟩, ⟨0, 8⟩] := by
  decide +kernel

/-- The second block is written behind the room that was left for it. -/
theorem reopening_observed :
    ¬ ∀ cs s, calls (FileCall.withoutReopen cs) freshFiles = some s →
      ∃ t, calls cs freshFiles = some t ∧ t.positions = s.positions := by
  intro h
  obtain ⟨hwithout, hwith⟩ := positions_reopen
  obtain ⟨s, hs, hpos⟩ := Option.map_eq_some_iff.mp hwithout
  obtain ⟨t, ht, hsame⟩ := h [.writeBlock [1], .reopen, .writeBlock [4]] s hs
  rw [ht, Option.map_some, hsame, hpos] at hwith
  exact absurd hwith (by decide)

end Sample

end Bitcrab
