import Mathlib.Data.List.Induction
import Bitcrab.Storage.BlockIndexes

/-!
# The loop of the storage actor (`storage/block_manager.rs`)

The actor takes its messages in order. When it comes to a `StoreBlock` message it goes on to take
those that follow, as long as some are there, up to 64, and stores their blocks with one write
batch; the first other message is held back for the next round. How many messages are there at that
moment is up to the scheduler, and is a parameter of a round.

A batch does what its messages do one by one, but for the block tip: among the highest blocks the
batch takes the first, and the messages one by one the last.
-/

namespace Bitcrab

open Bytes BlockManager Result

/-! ### Messages -/

/-- `WriteMessage`. The orders in which the hash maps of `UpdateUtxoSet` are iterated are part of
the message. -/
inductive WriteMessage where
  | storeHeader (header : BlockHeader) (height : BlockHeight) (chainWork : Hash256) (isBest : Bool)
  | storeBlock (msg : StoreBlockMsg)
  | storeBlockIndex (hash : BlockHash) (index : BlockIndex)
  | storeBlockIndexes (indexes : List (BlockHash × BlockIndex)) (bestTip : Option BlockHash)
  | storeUndo (blockHash : BlockHash) (undoData : BlockUndo)
  | updateUtxoSet (coinOrder : List OutPoint) (undoOrder : List BlockHash)
      (coins : HashMap OutPoint CoinUpdate) (bestBlock : Option BlockHash)
      (connectedBlocks : List (UInt32 × BlockHash))
  | updateActiveTip (hash : BlockHash)
  | updateHeadersTip (hash : BlockHash)
  | deleteBlock (hash : BlockHash)
  | deleteHeightMapping (height : UInt32)
  | updateHeaderIndex (hash : BlockHash) (height : UInt32)
  | flush

/-- What is sent back to the sender of a message. -/
inductive Reply where
  | done (result : Except StoreError Unit)
  | stored (pos : FlatFilePos)

/-- The actor with the store that it writes. -/
structure StorageActor where
  manager : BlockManager
  store : Store

namespace StorageActor

variable [Sha2] (a : StorageActor)

/-- `handle_store_header`. -/
def handleStoreHeader (header : BlockHeader) (height : BlockHeight) (chainWork : Hash256)
    (isBest : Bool) : StorageActor :=
  let hash := header.blockHash
  let store := handleStoreBlockIndex a.store hash ⟨header, height, chainWork, none, none⟩
  { a with store := if isBest then handleUpdateHeadersTip store hash else store }

/-- `handle_delete_block`. -/
def handleDeleteBlock (hash : BlockHash) : StorageActor :=
  { a with store := { a.store with db := a.store.db.commit [.delete (.block hash)] } }

/-- `handle_delete_height_mapping`. -/
def handleDeleteHeightMapping (height : UInt32) : StorageActor :=
  { a with store := { a.store with db := a.store.db.commit [.delete (.height height)] } }

/-- A round that stores blocks. The replies are the positions that `handle_store_blocks` returns,
which are also in the index records; an I/O error has no continuation here. -/
def storeBlocks (msgs : List StoreBlockMsg) : Option (StorageActor × List Reply) :=
  match writeBlocks msgs a.manager.files a.store.disk, a.manager.handleStoreBlocks a.store msgs with
  | .ok (entries, _), .ok (manager, store) =>
    some (⟨manager, store⟩, entries.filterMap fun e => e.2.filePos.map .stored)
  | _, _ => none

/-- A round that takes one message. -/
def handle : WriteMessage → Option (StorageActor × List Reply)
  | .storeHeader header height chainWork isBest =>
    some (a.handleStoreHeader header height chainWork isBest, [.done (.ok ())])
  | .storeBlock msg => a.storeBlocks [msg]
  | .storeBlockIndex hash index =>
    some ({ a with store := handleStoreBlockIndex a.store hash index }, [.done (.ok ())])
  | .storeBlockIndexes indexes bestTip =>
    some ({ a with store := handleStoreBlockIndexes a.store indexes bestTip }, [.done (.ok ())])
  | .storeUndo blockHash undoData =>
    match a.manager.handleStoreUndo a.store blockHash undoData with
    | .ok (manager, store) => some (⟨manager, store⟩, [.done (.ok ())])
    | .error e => some (a, [.done (.error e)])
  | .updateUtxoSet coinOrder undoOrder coins bestBlock connectedBlocks =>
    let (manager, store) := a.manager.handleUpdateUtxoSet a.store coinOrder undoOrder coins
      bestBlock connectedBlocks
    some (⟨manager, store⟩, [.done (.ok ())])
  | .updateActiveTip hash =>
    some ({ a with store := handleUpdateActiveTip a.store hash }, [.done (.ok ())])
  | .updateHeadersTip hash =>
    some ({ a with store := handleUpdateHeadersTip a.store hash }, [.done (.ok ())])
  | .deleteBlock hash => some (a.handleDeleteBlock hash, [.done (.ok ())])
  | .deleteHeightMapping height => some (a.handleDeleteHeightMapping height, [.done (.ok ())])
  | .updateHeaderIndex hash height =>
    some ({ a with store := handleUpdateHeaderIndex a.store hash height }, [.done (.ok ())])
  | .flush => some (a, [.done (.ok ())])

/-- Handling each message alone, in order. -/
def handleEach (a : StorageActor) : List WriteMessage → Option (StorageActor × List Reply)
  | [] => some (a, [])
  | msg :: msgs => do
    let (a, replies) ← a.handle msg
    let (a, replies') ← handleEach a msgs
    return (a, replies ++ replies')

end StorageActor

/-! ### Rounds -/

/-- The draining loop of `run`: `available` messages are there, and there is `room` for so many
blocks. The blocks that are taken, what is held back, and what stays in the channel. -/
def drain : Nat → Nat → List WriteMessage →
    List StoreBlockMsg × List WriteMessage × List WriteMessage
  | available + 1, room + 1, .storeBlock msg :: rx =>
    let (blocks, backlog, rx) := drain available room rx
    (msg :: blocks, backlog, rx)
  | _ + 1, _ + 1, other :: rx => ([], [other], rx)
  | _, _, rx => ([], [], rx)

/-- The state of `run` between two rounds. -/
structure ActorLoop where
  actor : StorageActor
  backlog : List WriteMessage
  rx : List WriteMessage
  replies : List Reply

namespace ActorLoop

variable [Sha2]

/-- Before the first round. -/
def start (actor : StorageActor) (queue : List WriteMessage) : ActorLoop := ⟨actor, [], queue, []⟩

/-- The messages not handled yet. -/
def waiting (l : ActorLoop) : List WriteMessage := l.backlog ++ l.rx

/-- The blocks that a round stores. -/
def batch (l : ActorLoop) (available : Nat) : List StoreBlockMsg :=
  match l.backlog, l.rx with
  | .storeBlock msg :: _, rx => msg :: (drain available 63 rx).1
  | [], .storeBlock msg :: rx => msg :: (drain available 63 rx).1
  | _, _ => []

/-- What a round does with the message it has taken. -/
def process (l : ActorLoop) (available : Nat) (backlog rx : List WriteMessage) :
    WriteMessage → Option ActorLoop
  | .storeBlock msg => do
    let (blocks, held, rx) := drain available 63 rx
    let (actor, replies) ← l.actor.storeBlocks (msg :: blocks)
    return ⟨actor, backlog ++ held, rx, l.replies ++ replies⟩
  | msg => do
    let (actor, replies) ← l.actor.handle msg
    return ⟨actor, backlog, rx, l.replies ++ replies⟩

/-- A round of `run`; without messages the actor waits. -/
def round (l : ActorLoop) (available : Nat) : Option ActorLoop :=
  match l.backlog, l.rx with
  | msg :: backlog, rx => l.process available backlog rx msg
  | [], msg :: rx => l.process available [] rx msg
  | [], [] => some l

/-- Some rounds of `run`. -/
def rounds : List Nat → ActorLoop → Option ActorLoop
  | [], l => some l
  | available :: schedule, l => do
    let l ← l.round available
    rounds schedule l

end ActorLoop

/-! ### Writes that a later one hides -/

namespace Db

variable {db : Db} {op : WriteOp} {batch : List WriteOp}

lemma apply_apply_of_key_eq {op' : WriteOp} (h : op.key = op'.key) :
    (db.apply op).apply op' = db.apply op' := by
  funext t k
  simp only [Db.apply, h]
  split_ifs <;> rfl

lemma apply_apply_comm {op' : WriteOp} (h : op.key ≠ op'.key) :
    (db.apply op).apply op' = (db.apply op').apply op := by
  funext t k
  simp only [Db.apply]
  split_ifs with h₁ h₂ h₂
  · exact absurd (DbKey.eq_of_table_bytes (h₂.1.symm.trans h₁.1) (h₂.2.symm.trans h₁.2)) h
  · rfl
  · rfl
  · rfl

/-- An operation is hidden by a later one on the same key. -/
lemma commit_apply_of_mem (h : ∃ op' ∈ batch, op'.key = op.key) :
    (db.apply op).commit batch = db.commit batch := by
  induction batch generalizing db with
  | nil => simp at h
  | cons op' batch ih =>
    rw [Db.commit_cons, Db.commit_cons]
    by_cases hkey : op.key = op'.key
    · rw [apply_apply_of_key_eq hkey]
    · obtain ⟨op'', hmem, hkey'⟩ := h
      rw [apply_apply_comm hkey]
      rcases List.mem_cons.mp hmem with rfl | hmem
      · exact absurd hkey'.symm hkey
      · exact ih ⟨op'', hmem, hkey'⟩

/-- An operation can be moved over a batch that leaves its key alone. -/
lemma commit_apply_of_forall_ne (h : ∀ op' ∈ batch, op'.key ≠ op.key) :
    (db.apply op).commit batch = (db.commit batch).apply op := by
  induction batch generalizing db with
  | nil => rfl
  | cons op' batch ih =>
    rw [Db.commit_cons, Db.commit_cons, apply_apply_comm (h op' List.mem_cons_self).symm]
    exact ih fun op'' hop'' => h op'' (List.mem_cons_of_mem op' hop'')

/-- Two batches, each with a write of one key at its end and perhaps one of another: of these writes
the last remain. -/
lemma commit_commit_or (db : Db) (ops ops' : List WriteOp) (file file' : WriteOp)
    (tip tip' : Option WriteOp) (hfile : file'.key = file.key)
    (htip : ∀ t ∈ tip, file'.key ≠ t.key ∧ (∀ op ∈ ops', op.key ≠ t.key) ∧
      ∀ t' ∈ tip', t'.key = t.key) :
    (db.commit (ops ++ [file] ++ tip.toList)).commit (ops' ++ [file'] ++ tip'.toList) =
      db.commit (ops ++ ops' ++ [file'] ++ (tip'.or tip).toList) := by
  have hhidden : ∀ tips, ((db.commit ops).apply file).commit (ops' ++ [file'] ++ tips) =
      (db.commit ops).commit (ops' ++ [file'] ++ tips) :=
    fun tips => commit_apply_of_mem ⟨file', by simp, hfile⟩
  rw [Db.commit_append _ _ tip.toList, Db.commit_append _ ops [file]]
  cases tip with
  | none =>
    rw [Option.or_none, List.append_assoc ops, List.append_assoc ops, Db.commit_append _ ops]
    exact hhidden tip'.toList
  | some t =>
    obtain ⟨hne, hops, hkeys⟩ := htip t rfl
    cases tip' with
    | none =>
      have hmoved : (((db.commit ops).apply file).apply t).commit (ops' ++ [file'] ++ []) =
          (((db.commit ops).apply file).commit (ops' ++ [file'] ++ [])).apply t := by
        apply commit_apply_of_forall_ne
        intro op hop
        simp only [List.append_nil, List.mem_append, List.mem_singleton] at hop
        rcases hop with hop | rfl
        · exact hops op hop
        · exact hne
      change (((db.commit ops).apply file).apply t).commit (ops' ++ [file'] ++ []) = _
      rw [hmoved, hhidden, List.append_nil, ← Db.commit_append, List.append_assoc ops,
        Db.commit_append _ _ (Option.toList _)]
      rfl
    | some t' =>
      change (((db.commit ops).apply file).apply t).commit (ops' ++ [file'] ++ [t']) = _
      rw [commit_apply_of_mem ⟨t', by simp, hkeys t' rfl⟩, hhidden, ← Db.commit_append,
        List.append_assoc ops, List.append_assoc ops]
      rfl

end Db

/-! ### One batch -/

/-- The block tip after storing blocks one by one. -/
def lastTip : UInt32 → List (BlockHash × BlockIndex) → Option (UInt32 × BlockHash)
  | _, [] => none
  | lastKnown, (hash, index) :: entries =>
    if index.height ≥ lastKnown then
      (lastTip index.height entries).or (some (index.height, hash))
    else lastTip lastKnown entries

namespace StorageActor

/-- The actor after storing blocks, the tip aside. -/
def stored (a : StorageActor) (entries : List (BlockHash × BlockIndex)) (files : BlockFileManager)
    (disk : Disk) (tip : Option (UInt32 × BlockHash)) : StorageActor :=
  ⟨{ a.manager with
      files
      lastKnownTipHeight := (tip.map Prod.fst).getD a.manager.lastKnownTipHeight },
    ⟨a.store.db.commit ((entries.flatMap fun e => indexOps e.1 e.2) ++
      [WriteOp.put .lastFile (leBytes 4 files.currentFile.toNat)] ++
      tip.toList.map fun t => putHash .blockTip t.2), disk⟩⟩

/-- The replies to stored blocks. -/
def positions (entries : List (BlockHash × BlockIndex)) : List Reply :=
  entries.filterMap fun e => e.2.filePos.map .stored

lemma key_indexOps {entries : List (BlockHash × BlockIndex)} {op : WriteOp}
    (h : op ∈ entries.flatMap fun e => indexOps e.1 e.2) :
    op.key ≠ .lastFile ∧ op.key ≠ .blockTip := by
  obtain ⟨e, -, rfl | rfl⟩ := mem_indexOps h <;> simp [WriteOp.key, putHash]

/-- Storing blocks twice is storing them all: the second write of the last file, and of the tip,
hide the first. -/
lemma stored_stored (a : StorageActor) (entries entries' : List (BlockHash × BlockIndex))
    (files files' : BlockFileManager) (disk disk' : Disk) (tip tip' : Option (UInt32 × BlockHash)) :
    (a.stored entries files disk tip).stored entries' files' disk' tip' =
      a.stored (entries ++ entries') files' disk' (tip'.or tip) := by
  have hheight : (tip'.map Prod.fst).getD ((tip.map Prod.fst).getD a.manager.lastKnownTipHeight) =
      ((tip'.or tip).map Prod.fst).getD a.manager.lastKnownTipHeight := by
    cases tip' <;> rfl
  have hdb := Db.commit_commit_or a.store.db (entries.flatMap fun e => indexOps e.1 e.2)
    (entries'.flatMap fun e => indexOps e.1 e.2)
    (.put .lastFile (leBytes 4 files.currentFile.toNat))
    (.put .lastFile (leBytes 4 files'.currentFile.toNat))
    (tip.map fun t => putHash .blockTip t.2) (tip'.map fun t => putHash .blockTip t.2) rfl ?_
  · simp only [stored, hheight, List.flatMap_append]
    simp only [Option.toList_map, ← Option.map_or] at hdb
    rw [hdb]
  · rintro t ht
    obtain ⟨t, -, rfl⟩ := Option.mem_map.mp ht
    refine ⟨by simp [WriteOp.key, putHash], fun op hop => (key_indexOps hop).2, ?_⟩
    rintro t' ht'
    obtain ⟨t', -, rfl⟩ := Option.mem_map.mp ht'
    rfl

/-- The block tip that is left. -/
lemma getBlockTip_stored (a : StorageActor) (entries : List (BlockHash × BlockIndex))
    (files : BlockFileManager) (disk : Disk) (tip : UInt32 × BlockHash) :
    (a.stored entries files disk (some tip)).store.getBlockTip = some tip.2 := by
  have hget : (a.store.db.commit ((entries.flatMap fun e => indexOps e.1 e.2) ++
      [WriteOp.put .lastFile (leBytes 4 files.currentFile.toNat)] ++
      [putHash .blockTip tip.2])).get (putHash .blockTip tip.2).key =
        (putHash .blockTip tip.2).value :=
    Db.get_commit_append_cons (by simp)
  change Option.map _ (Db.get (Db.commit _ _) (putHash .blockTip tip.2).key) = _
  rw [Option.toList_some, List.map_singleton, hget]
  simp [putHash, WriteOp.value]

section Batch

variable [Sha2] {a : StorageActor} {msg : StoreBlockMsg} {msgs : List StoreBlockMsg}
  {entries entries' : List (BlockHash × BlockIndex)} {files files' : BlockFileManager}
  {disk disk' : Disk}

lemma storeBlocks_of_writeBlocks
    (h : writeBlocks msgs a.manager.files a.store.disk = .ok (entries, files, disk)) :
    a.storeBlocks msgs =
      some (a.stored entries files disk (highestTip a.manager.lastKnownTipHeight entries none),
        positions entries) := by
  simp only [storeBlocks, handleStoreBlocks, h, ok_bind, pure_eq_ok]
  rfl

lemma storeBlocks_eq_some {r : StorageActor × List Reply} (h : a.storeBlocks msgs = some r) :
    ∃ entries files disk,
      writeBlocks msgs a.manager.files a.store.disk = .ok (entries, files, disk) := by
  cases hwrite : writeBlocks msgs a.manager.files a.store.disk with
  | error e => simp [storeBlocks, hwrite] at h
  | ok w => exact ⟨w.1, w.2.1, w.2.2, rfl⟩

/-- Writing a list of blocks is writing the first and then the others. -/
lemma writeBlocks_cons :
    writeBlocks (msg :: msgs) files disk = .ok (entries, files', disk') ↔
      ∃ pos files₁ disk₁ rest, files.writeBlock disk msg.rawBlock = .ok (pos, files₁, disk₁) ∧
        writeBlocks msgs files₁ disk₁ = .ok (rest, files', disk') ∧
        entries = (msg.header.blockHash,
          ⟨msg.header, msg.height, msg.chainWork, some pos, none⟩) :: rest := by
  simp only [writeBlocks, bind_eq_ok, pure_eq_ok, Except.ok.injEq, Prod.mk.injEq, Prod.exists]
  constructor
  · rintro ⟨pos, files₁, disk₁, hblock, rest, files₂, disk₂, hrest, rfl, rfl, rfl⟩
    exact ⟨pos, files₁, disk₁, rest, hblock, hrest, rfl⟩
  · rintro ⟨pos, files₁, disk₁, rest, hblock, hrest, rfl⟩
    exact ⟨pos, files₁, disk₁, hblock, rest, files', disk', hrest, rfl, rfl, rfl⟩

lemma handleEach_cons {m : WriteMessage} {ms : List WriteMessage} {a' : StorageActor}
    {replies : List Reply} :
    a.handleEach (m :: ms) = some (a', replies) ↔ ∃ a₁ r r', a.handle m = some (a₁, r) ∧
      a₁.handleEach ms = some (a', r') ∧ replies = r ++ r' := by
  simp only [handleEach, Option.bind_eq_bind, Option.bind_eq_some_iff, Prod.exists,
    Option.pure_def, Option.some.injEq, Prod.mk.injEq]
  constructor
  · rintro ⟨a₁, r, hm, a₂, r', hms, rfl, rfl⟩
    exact ⟨a₁, r, r', hm, hms, rfl⟩
  · rintro ⟨a₁, r, r', hm, hms, rfl⟩
    exact ⟨a₁, r, hm, a', r', hms, rfl, rfl⟩

/-- Messages one by one, in two parts. -/
lemma handleEach_append {ms ms' : List WriteMessage} {a' : StorageActor} {replies : List Reply} :
    a.handleEach (ms ++ ms') = some (a', replies) ↔ ∃ a₁ r r', a.handleEach ms = some (a₁, r) ∧
      a₁.handleEach ms' = some (a', r') ∧ replies = r ++ r' := by
  induction ms generalizing a replies with
  | nil =>
    simp only [List.nil_append, handleEach, Option.some.injEq, Prod.mk.injEq]
    constructor
    · intro h
      exact ⟨a, [], replies, ⟨rfl, rfl⟩, h, rfl⟩
    · rintro ⟨a₁, r, r', ⟨rfl, rfl⟩, h, rfl⟩
      exact h
  | cons m ms ih =>
    simp only [List.cons_append, handleEach_cons, ih]
    constructor
    · rintro ⟨a₁, r, -, hm, ⟨a₂, r₁, r₂, hms, hms', rfl⟩, rfl⟩
      exact ⟨a₂, r ++ r₁, r₂, ⟨a₁, r, r₁, hm, hms, rfl⟩, hms', by rw [List.append_assoc]⟩
    · rintro ⟨a₂, -, r₂, ⟨a₁, r, r₁, hm, hms, rfl⟩, hms', rfl⟩
      exact ⟨a₁, r, r₁ ++ r₂, hm, ⟨a₂, r₁, r₂, hms, hms', rfl⟩, by rw [List.append_assoc]⟩

/-- Messages that store blocks, one by one: the tip is the last of the highest blocks. -/
lemma handleEach_storeBlock (hne : msgs ≠ [])
    (h : writeBlocks msgs a.manager.files a.store.disk = .ok (entries, files, disk)) :
    a.handleEach (msgs.map .storeBlock) =
      some (a.stored entries files disk (lastTip a.manager.lastKnownTipHeight entries),
        positions entries) := by
  induction msgs generalizing a entries with
  | nil => exact absurd rfl hne
  | cons msg msgs ih =>
    obtain ⟨pos, files₁, disk₁, rest, hblock, hrest, rfl⟩ := writeBlocks_cons.mp h
    let entry : BlockHash × BlockIndex :=
      (msg.header.blockHash, ⟨msg.header, msg.height, msg.chainWork, some pos, none⟩)
    have hfirst : a.handle (.storeBlock msg) =
        some (a.stored [entry] files₁ disk₁ (highestTip a.manager.lastKnownTipHeight [entry] none),
          positions [entry]) :=
      storeBlocks_of_writeBlocks (writeBlocks_cons.mpr ⟨pos, files₁, disk₁, [], hblock, rfl, rfl⟩)
    have htip : lastTip a.manager.lastKnownTipHeight (entry :: rest) =
        (lastTip (a.stored [entry] files₁ disk₁
          (highestTip a.manager.lastKnownTipHeight [entry] none)).manager.lastKnownTipHeight
          rest).or (highestTip a.manager.lastKnownTipHeight [entry] none) := by
      simp only [lastTip, highestTip, stored, Option.all_none, and_true, entry]
      split_ifs <;> simp
    rw [List.map_cons, handleEach_cons]
    refine ⟨_, _, positions rest, hfirst, ?_, rfl⟩
    cases msgs with
    | nil =>
      obtain ⟨rfl, rfl, rfl⟩ : rest = [] ∧ files₁ = files ∧ disk₁ = disk := by
        simpa [writeBlocks] using hrest
      rw [htip]
      rfl
    | cons msg' msgs =>
      have hboth := a.stored_stored [entry] rest files₁ files disk₁ disk
        (highestTip a.manager.lastKnownTipHeight [entry] none)
        (lastTip (a.stored [entry] files₁ disk₁
          (highestTip a.manager.lastKnownTipHeight [entry] none)).manager.lastKnownTipHeight rest)
      rw [htip]
      refine Eq.trans ?_ (congrArg (fun a => some (a, positions rest)) hboth)
      exact ih (List.cons_ne_nil _ _) hrest

end Batch

end StorageActor

/-! ### The two tips -/

/-- The hashes of the highest of some blocks, in order, unless they are below the tip. -/
def highestBlocks (lastKnown : UInt32) (blocks : List (UInt32 × BlockHash)) : List BlockHash :=
  (blocks.filter fun b => lastKnown ≤ b.1 ∧ ∀ b' ∈ blocks, b'.1 ≤ b.1).map Prod.snd

section Tips

variable {lastKnown : UInt32} {entries : List (BlockHash × BlockIndex)}

/-- The height and the hash of an entry. -/
def tipOf (e : BlockHash × BlockIndex) : UInt32 × BlockHash := (e.2.height, e.1)

lemma not_higher {tip : Option (UInt32 × BlockHash)} {height : UInt32}
    (h : ¬(height ≥ lastKnown ∧ tip.all fun t => height > t.1)) :
    height < lastKnown ∨ ∃ t ∈ tip, height ≤ t.1 := by
  by_cases hknown : height ≥ lastKnown
  · right
    cases tip with
    | none => exact absurd ⟨hknown, rfl⟩ h
    | some t =>
      refine ⟨t, rfl, UInt32.not_lt.mp fun hlt => h ⟨hknown, ?_⟩⟩
      simpa using hlt
  · exact .inl (UInt32.not_le.mp hknown)

/-- The batch takes the first of the highest blocks. -/
lemma highestTip_cases (lastKnown : UInt32) (entries : List (BlockHash × BlockIndex))
    (tip : Option (UInt32 × BlockHash)) (htip : ∀ t ∈ tip, lastKnown ≤ t.1) :
    highestTip lastKnown entries tip = tip ∧
        (∀ e ∈ entries, e.2.height < lastKnown ∨ ∃ t ∈ tip, e.2.height ≤ t.1) ∨
      ∃ before e after, entries = before ++ e :: after ∧ lastKnown ≤ e.2.height ∧
        (∀ t ∈ tip, t.1 < e.2.height) ∧ (∀ e' ∈ before, e'.2.height < e.2.height) ∧
        (∀ e' ∈ after, e'.2.height ≤ e.2.height) ∧
        highestTip lastKnown entries tip = some (tipOf e) := by
  induction entries generalizing tip with
  | nil => exact .inl ⟨rfl, by simp⟩
  | cons e entries ih =>
    obtain ⟨hash, index⟩ := e
    simp only [highestTip]
    split_ifs with hhigher
    · -- this block is higher than the tip so far
      obtain ⟨hknown, hall⟩ := hhigher
      have hlt : ∀ t ∈ tip, t.1 < index.height := by
        intro t ht
        rw [Option.mem_def] at ht
        simpa [ht] using hall
      rcases ih (some (index.height, hash)) (by simpa using hknown) with
        ⟨hsame, hle⟩ | ⟨before, e, after, rfl, hknown', htip', hbefore, hafter, heq⟩
      · right
        refine ⟨[], (hash, index), entries, rfl, hknown, hlt, by simp, ?_, hsame⟩
        intro e' he'
        rcases hle e' he' with hbelow | ⟨t, ht, hle⟩
        · exact UInt32.le_of_lt (UInt32.lt_of_lt_of_le hbelow hknown)
        · obtain rfl : (index.height, hash) = t := by simpa using ht
          exact hle
      · right
        have hindex : index.height < e.2.height := htip' _ rfl
        refine ⟨(hash, index) :: before, e, after, rfl, hknown', ?_, ?_, hafter, heq⟩
        · exact fun t ht => UInt32.lt_trans (hlt t ht) hindex
        · exact List.forall_mem_cons.mpr ⟨hindex, hbefore⟩
    · have hlow := not_higher hhigher
      rcases ih tip htip with
        ⟨hsame, hle⟩ | ⟨before, e, after, rfl, hknown', htip', hbefore, hafter, heq⟩
      · exact .inl ⟨hsame, List.forall_mem_cons.mpr ⟨hlow, hle⟩⟩
      · right
        refine ⟨(hash, index) :: before, e, after, rfl, hknown', htip', ?_, hafter, heq⟩
        refine List.forall_mem_cons.mpr ⟨?_, hbefore⟩
        rcases hlow with hbelow | ⟨t, ht, hle⟩
        · exact UInt32.lt_of_lt_of_le hbelow hknown'
        · exact UInt32.lt_of_le_of_lt hle (htip' t ht)

/-- One by one, the last of the highest blocks is taken. -/
lemma lastTip_cases (lastKnown : UInt32) (entries : List (BlockHash × BlockIndex)) :
    lastTip lastKnown entries = none ∧ (∀ e ∈ entries, e.2.height < lastKnown) ∨
      ∃ before e after, entries = before ++ e :: after ∧ lastKnown ≤ e.2.height ∧
        (∀ e' ∈ before, e'.2.height ≤ e.2.height) ∧ (∀ e' ∈ after, e'.2.height < e.2.height) ∧
        lastTip lastKnown entries = some (tipOf e) := by
  induction entries generalizing lastKnown with
  | nil => exact .inl ⟨rfl, by simp⟩
  | cons e entries ih =>
    obtain ⟨hash, index⟩ := e
    simp only [lastTip]
    split_ifs with hknown
    · right
      rcases ih index.height with
        ⟨hnone, hlt⟩ | ⟨before, e, after, rfl, hknown', hbefore, hafter, heq⟩
      · refine ⟨[], (hash, index), entries, rfl, hknown, by simp, hlt, ?_⟩
        rw [hnone]
        rfl
      · refine ⟨(hash, index) :: before, e, after, rfl, UInt32.le_trans hknown hknown', ?_, hafter,
          ?_⟩
        · exact List.forall_mem_cons.mpr ⟨hknown', hbefore⟩
        · rw [heq]
          rfl
    · have hbelow := UInt32.not_le.mp hknown
      rcases ih lastKnown with
        ⟨hnone, hlt⟩ | ⟨before, e, after, rfl, hknown', hbefore, hafter, heq⟩
      · exact .inl ⟨hnone, List.forall_mem_cons.mpr ⟨hbelow, hlt⟩⟩
      · right
        refine ⟨(hash, index) :: before, e, after, rfl, hknown', ?_, hafter, heq⟩
        refine List.forall_mem_cons.mpr ⟨?_, hbefore⟩
        exact UInt32.le_of_lt (UInt32.lt_of_lt_of_le hbelow hknown')

/-- Blocks below the tip are not among the highest. -/
lemma highestBlocks_eq_nil (h : ∀ e ∈ entries, e.2.height < lastKnown) :
    highestBlocks lastKnown (entries.map tipOf) = [] := by
  rw [highestBlocks, List.map_eq_nil_iff, List.filter_eq_nil_iff]
  rintro b hb
  obtain ⟨e, he, rfl⟩ := List.mem_map.mp hb
  have hlt : ¬lastKnown ≤ (tipOf e).1 := UInt32.not_le.mpr (h e he)
  simp [hlt]

/-- A block as high as those before and after it is the highest. -/
lemma height_le_of_mem {before after : List (BlockHash × BlockIndex)}
    {e e' : BlockHash × BlockIndex}
    (hbefore : ∀ e' ∈ before, e'.2.height ≤ e.2.height)
    (hafter : ∀ e' ∈ after, e'.2.height ≤ e.2.height) (he' : e' ∈ before ++ e :: after) :
    e'.2.height ≤ e.2.height := by
  rcases List.mem_append.mp he' with he' | he'
  · exact hbefore e' he'
  · rcases List.mem_cons.mp he' with rfl | he'
    · exact UInt32.le_refl _
    · exact hafter e' he'

/-- What the highest blocks are, seen from one of them. -/
lemma highestBlocks_append {before after : List (BlockHash × BlockIndex)}
    {e : BlockHash × BlockIndex} (hknown : lastKnown ≤ e.2.height)
    (hbefore : ∀ e' ∈ before, e'.2.height ≤ e.2.height)
    (hafter : ∀ e' ∈ after, e'.2.height ≤ e.2.height) :
    highestBlocks lastKnown ((before ++ e :: after).map tipOf) =
      ((before.filter fun e' => e.2.height ≤ e'.2.height) ++
        e :: after.filter fun e' => e.2.height ≤ e'.2.height).map Prod.fst := by
  have hiff : ∀ e' ∈ before ++ e :: after,
      (decide (lastKnown ≤ (tipOf e').1 ∧ ∀ b ∈ (before ++ e :: after).map tipOf,
        b.1 ≤ (tipOf e').1)) = decide (e.2.height ≤ e'.2.height) := by
    intro e' he'
    rw [decide_eq_decide]
    constructor
    · rintro ⟨-, h⟩
      exact h (tipOf e) (List.mem_map_of_mem (by simp))
    · intro hle
      refine ⟨UInt32.le_trans hknown hle, ?_⟩
      rintro b hb
      obtain ⟨e'', he'', rfl⟩ := List.mem_map.mp hb
      exact UInt32.le_trans (height_le_of_mem hbefore hafter he'') hle
  rw [highestBlocks, List.filter_map, List.map_map]
  have hfilter := List.filter_congr hiff
  simp only [Function.comp_def] at hfilter ⊢
  rw [hfilter, List.filter_append, List.filter_cons_of_pos (by simp)]
  rfl

/-- The batch takes the first of the highest blocks. -/
lemma head?_highestBlocks :
    (highestBlocks lastKnown (entries.map tipOf)).head? =
      (highestTip lastKnown entries none).map Prod.snd := by
  rcases highestTip_cases lastKnown entries none (by simp) with
    ⟨hnone, hbelow⟩ | ⟨before, e, after, rfl, hknown, -, hbefore, hafter, heq⟩
  · rw [hnone, highestBlocks_eq_nil]
    · rfl
    · intro e he
      simpa using hbelow e he
  · have hfilter : (before.filter fun e' => e.2.height ≤ e'.2.height) = [] := by
      rw [List.filter_eq_nil_iff]
      intro e' he'
      simpa using hbefore e' he'
    rw [heq, highestBlocks_append hknown (fun e' he' => UInt32.le_of_lt (hbefore e' he')) hafter,
      hfilter]
    rfl

/-- One by one, the last is taken. -/
lemma getLast?_highestBlocks :
    (highestBlocks lastKnown (entries.map tipOf)).getLast? =
      (lastTip lastKnown entries).map Prod.snd := by
  rcases lastTip_cases lastKnown entries with
    ⟨hnone, hbelow⟩ | ⟨before, e, after, rfl, hknown, hbefore, hafter, heq⟩
  · rw [hnone, highestBlocks_eq_nil hbelow]
    rfl
  · have hfilter : (after.filter fun e' => e.2.height ≤ e'.2.height) = [] := by
      rw [List.filter_eq_nil_iff]
      intro e' he'
      simpa using hafter e' he'
    rw [heq, highestBlocks_append hknown hbefore fun e' he' => UInt32.le_of_lt (hafter e' he'),
      hfilter, List.map_append, List.map_singleton, List.getLast?_concat]
    rfl

/-- Both are of the same height. -/
lemma fst_highestTip_eq_lastTip (lastKnown : UInt32) (entries : List (BlockHash × BlockIndex)) :
    (highestTip lastKnown entries none).map Prod.fst =
    (lastTip lastKnown entries).map Prod.fst := by
  rcases highestTip_cases lastKnown entries none (by simp) with
    ⟨hnone, hbelow⟩ | ⟨before, e, after, rfl, hknown, -, hbefore, hafter, heq⟩
  · rcases lastTip_cases lastKnown entries with
      ⟨hnone', -⟩ | ⟨before', e', after', rfl, hknown', -, -, -⟩
    · rw [hnone, hnone']
    · have hlt : e'.2.height < lastKnown := by simpa using hbelow e' (by simp)
      exact absurd hknown' (UInt32.not_le.mpr hlt)
  · rcases lastTip_cases lastKnown (before ++ e :: after) with
      ⟨-, hbelow'⟩ | ⟨before', e', after', hentries, -, hbefore', hafter', heq'⟩
    · exact absurd hknown (UInt32.not_le.mpr (hbelow' e (by simp)))
    · have hmem : e ∈ before' ++ e' :: after' := hentries ▸ by simp
      have hmem' : e' ∈ before ++ e :: after := hentries ▸ by simp
      have hle : e.2.height ≤ e'.2.height :=
        height_le_of_mem hbefore' (fun e he => UInt32.le_of_lt (hafter' e he)) hmem
      have hle' : e'.2.height ≤ e.2.height :=
        height_le_of_mem (fun e he => UInt32.le_of_lt (hbefore e he)) hafter hmem'
      rw [heq, heq', Option.map_some, Option.map_some, tipOf, tipOf, UInt32.le_antisymm hle hle']

end Tips

section Batch

variable [Sha2] {a : StorageActor} {msgs : List StoreBlockMsg}
  {entries : List (BlockHash × BlockIndex)} {files files' : BlockFileManager} {disk disk' : Disk}

/-- The height and the hash of the block of a message. -/
def StoreBlockMsg.tip (msg : StoreBlockMsg) : UInt32 × BlockHash :=
  (msg.height, msg.header.blockHash)

lemma map_tipOf_of_writeBlocks (h : writeBlocks msgs files disk = .ok (entries, files', disk')) :
    entries.map tipOf = msgs.map StoreBlockMsg.tip := by
  induction msgs generalizing files disk entries with
  | nil =>
    obtain ⟨rfl, -, -⟩ : entries = [] ∧ files = files' ∧ disk = disk' := by
      simpa [writeBlocks, eq_comm] using h
    rfl
  | cons msg msgs ih =>
    obtain ⟨pos, files₁, disk₁, rest, -, hrest, rfl⟩ := StorageActor.writeBlocks_cons.mp h
    rw [List.map_cons, List.map_cons, ih hrest]
    rfl

/-- The first and the last of the highest blocks are the same. -/
def TipsAgree (lastKnown : UInt32) (msgs : List StoreBlockMsg) : Prop :=
  (highestBlocks lastKnown (msgs.map StoreBlockMsg.tip)).head? =
    (highestBlocks lastKnown (msgs.map StoreBlockMsg.tip)).getLast?

/-- A batch does what its messages do one by one when the two tips are the same. -/
lemma storeBlocks_eq_handleEach_iff (hne : msgs ≠ [])
    (h : writeBlocks msgs a.manager.files a.store.disk = .ok (entries, files, disk)) :
    a.storeBlocks msgs = a.handleEach (msgs.map .storeBlock) ↔
      TipsAgree a.manager.lastKnownTipHeight msgs := by
  rw [StorageActor.storeBlocks_of_writeBlocks h, StorageActor.handleEach_storeBlock hne h,
    TipsAgree,
    ← map_tipOf_of_writeBlocks h, head?_highestBlocks, getLast?_highestBlocks, Option.some.injEq,
    Prod.mk.injEq, and_iff_left rfl]
  have hheight := fst_highestTip_eq_lastTip a.manager.lastKnownTipHeight entries
  generalize highestTip a.manager.lastKnownTipHeight entries none = first at hheight ⊢
  generalize lastTip a.manager.lastKnownTipHeight entries = last at hheight ⊢
  cases first with
  | none =>
    obtain rfl : last = none := by simpa [eq_comm] using hheight
    simp
  | some first =>
    cases last with
    | none => simp at hheight
    | some last =>
      have hfst : first.1 = last.1 := by simpa using hheight
      constructor
      · intro hactor
        have htip := congrArg (fun a => a.store.getBlockTip) hactor
        simpa only [StorageActor.getBlockTip_stored, Option.map_some] using htip
      · intro hsnd
        rw [show first = last from Prod.ext hfst (by simpa using hsnd)]

/-- Blocks that can be stored one by one can be written in one batch. -/
lemma writeBlocks_of_handleEach {r : StorageActor × List Reply}
    (h : a.handleEach (msgs.map .storeBlock) = some r) :
    ∃ entries files disk,
      writeBlocks msgs a.manager.files a.store.disk = .ok (entries, files, disk) := by
  induction msgs generalizing a r with
  | nil => exact ⟨[], _, _, rfl⟩
  | cons msg msgs ih =>
    obtain ⟨a₁, r₁, r₂, hfirst, hrest, -⟩ := StorageActor.handleEach_cons.mp h
    obtain ⟨entries₁, files₁, disk₁, hwrite⟩ := StorageActor.storeBlocks_eq_some hfirst
    obtain rfl := congrArg Prod.fst (Option.some.inj
      (hfirst.symm.trans (StorageActor.storeBlocks_of_writeBlocks hwrite)))
    obtain ⟨entries, files, disk, hwrite'⟩ := ih hrest
    obtain ⟨pos, files₂, disk₂, rest, hblock, hnil, -⟩ := StorageActor.writeBlocks_cons.mp hwrite
    obtain ⟨-, rfl, rfl⟩ : rest = [] ∧ files₂ = files₁ ∧ disk₂ = disk₁ := by
      simpa [writeBlocks, eq_comm] using hnil
    exact ⟨_, files, disk, StorageActor.writeBlocks_cons.mpr
      ⟨pos, _, _, entries, hblock, hwrite', rfl⟩⟩

end Batch

/-! ### The whole loop -/

/-- What is held back between two rounds: at most one message, and not one that stores a block. -/
def Held (backlog : List WriteMessage) : Prop :=
  backlog = [] ∨ ∃ msg, backlog = [msg] ∧ ∀ block, msg ≠ .storeBlock block

/-- Draining takes messages from the front and keeps their order. -/
lemma drain_spec (available room : Nat) (rx : List WriteMessage) :
    rx = (drain available room rx).1.map .storeBlock ++
        ((drain available room rx).2.1 ++ (drain available room rx).2.2) ∧
      Held (drain available room rx).2.1 := by
  fun_induction drain available room rx with
  | case1 available room msg rx blocks backlog rx' hdrain ih =>
    rw [hdrain] at ih
    refine ⟨?_, ih.2⟩
    rw [List.map_cons, List.cons_append, ← ih.1]
  | case2 available room other rx hother =>
    exact ⟨rfl, .inr ⟨other, rfl, hother⟩⟩
  | case3 available room rx => exact ⟨rfl, .inl rfl⟩

section Loop

variable [Sha2] {actor final : StorageActor} {queue : List WriteMessage} {replies : List Reply}
  {l l' : ActorLoop} {available : Nat}

namespace ActorLoop

lemma process_storeBlock (l : ActorLoop) (available : Nat) (backlog rx : List WriteMessage)
    (block : StoreBlockMsg) :
    l.process available backlog rx (.storeBlock block) =
      (l.actor.storeBlocks (block :: (drain available 63 rx).1)).map fun r =>
        ⟨r.1, backlog ++ (drain available 63 rx).2.1, (drain available 63 rx).2.2,
          l.replies ++ r.2⟩ := by
  simp only [process, Option.map_eq_bind]
  rfl

lemma process_of_ne (l : ActorLoop) (available : Nat) (backlog rx : List WriteMessage)
    {msg : WriteMessage} (h : ∀ block, msg ≠ .storeBlock block) :
    l.process available backlog rx msg =
      (l.actor.handle msg).map fun r => ⟨r.1, backlog, rx, l.replies ++ r.2⟩ := by
  rw [Option.map_eq_bind]
  cases msg with
  | storeBlock block => exact absurd rfl (h block)
  | _ => rfl

/-- What a round does: it takes one message, or a batch of blocks. -/
lemma round_cases (hheld : Held l.backlog) (available : Nat) :
    (l.waiting = [] ∧ l.batch available = [] ∧ l.round available = some l) ∨
      ∃ msgs backlog rx handled, l.waiting = msgs ++ (backlog ++ rx) ∧ msgs ≠ [] ∧ Held backlog ∧
        l.round available =
          handled.map (fun r => (⟨r.1, backlog, rx, l.replies ++ r.2⟩ : ActorLoop)) ∧
        ((∃ msg, msgs = [msg] ∧ l.batch available = [] ∧ handled = l.actor.handle msg) ∨
          msgs = (l.batch available).map .storeBlock ∧
            handled = l.actor.storeBlocks (l.batch available)) := by
  obtain ⟨actor, backlog, rx, replies⟩ := l
  rcases hheld with rfl | ⟨msg, rfl, hother⟩
  · cases rx with
    | nil => exact .inl ⟨rfl, rfl, rfl⟩
    | cons msg rx =>
      right
      by_cases hblock : ∃ block, msg = .storeBlock block
      · obtain ⟨block, rfl⟩ := hblock
        obtain ⟨hrx, hheld⟩ := drain_spec available 63 rx
        refine ⟨_, _, (drain available 63 rx).2.2, _, ?_, ?_, hheld, ?_, .inr ⟨rfl, rfl⟩⟩
        · simp only [waiting, batch, List.nil_append, List.map_cons, List.cons_append, ← hrx]
        · simp [batch]
        · exact process_storeBlock _ available [] rx block
      · push Not at hblock
        refine ⟨[msg], [], rx, _, rfl, by simp, .inl rfl, process_of_ne _ available [] rx hblock,
          .inl ⟨msg, rfl, ?_, rfl⟩⟩
        simp only [batch]
        split
        · contradiction
        · rename_i heq
          exact absurd (List.cons.inj heq).1 (hblock _)
        · rfl
  · right
    refine ⟨[msg], [], rx, _, rfl, by simp, .inl rfl, process_of_ne _ available [] rx hother,
      .inl ⟨msg, rfl, ?_, rfl⟩⟩
    simp only [batch]
    split
    · rename_i heq
      exact absurd (List.cons.inj heq).1 (hother _)
    · contradiction
    · rfl

/-- After some rounds the loop is where the messages it has handled, one by one, lead. -/
def Matches (l : ActorLoop) (actor : StorageActor) (queue : List WriteMessage) : Prop :=
  ∃ handled, queue = handled ++ l.waiting ∧ actor.handleEach handled = some (l.actor, l.replies)

lemma matches_iff {handled msgs : List WriteMessage} {r : List Reply}
    (hqueue : queue = handled ++ l.waiting)
    (hhandled : actor.handleEach handled = some (l.actor, l.replies))
    (hwaiting : l.waiting = msgs ++ l'.waiting) (hreplies : l'.replies = l.replies ++ r) :
    l'.Matches actor queue ↔ l.actor.handleEach msgs = some (l'.actor, r) := by
  have hall : queue = (handled ++ msgs) ++ l'.waiting := by
    rw [hqueue, hwaiting, List.append_assoc]
  constructor
  · rintro ⟨handled', hqueue', hhandled'⟩
    obtain rfl : handled' = handled ++ msgs :=
      List.append_cancel_right (hqueue'.symm.trans hall)
    obtain ⟨a₁, r₁, r₂, hfirst, hsecond, hr⟩ := StorageActor.handleEach_append.mp hhandled'
    obtain ⟨rfl, rfl⟩ : l.actor = a₁ ∧ l.replies = r₁ := by simpa using hhandled.symm.trans hfirst
    rw [hsecond, List.append_cancel_left (hreplies.symm.trans hr)]
  · intro hmsgs
    refine ⟨handled ++ msgs, hall, ?_⟩
    exact StorageActor.handleEach_append.mpr ⟨_, _, r, hhandled, hmsgs, hreplies⟩

/-- A round succeeds where its messages one by one do, and does the same unless the tips of its
batch differ. -/
lemma round_matches (hheld : Held l.backlog) (hl : l.Matches actor queue)
    (h : actor.handleEach queue = some (final, replies)) (available : Nat) :
    ∃ l', l.round available = some l' ∧ Held l'.backlog ∧
      (l'.waiting.length < l.waiting.length ∨ l'.waiting = []) ∧
      (l'.Matches actor queue ↔
        TipsAgree l.actor.manager.lastKnownTipHeight (l.batch available)) := by
  obtain ⟨handled, hqueue, hhandled⟩ := hl
  rcases round_cases hheld available with
    ⟨hnone, hbatch, hround⟩ |
      ⟨msgs, backlog, rx, outcome, hwaiting, hne, hheld', hround, htaken⟩
  · refine ⟨l, hround, hheld, .inr hnone, ?_⟩
    rw [hbatch]
    exact ⟨fun _ => rfl, fun _ => ⟨handled, hqueue, hhandled⟩⟩
  · -- the messages of this round succeed one by one
    have hmsgs : ∃ a₁ r₁, l.actor.handleEach msgs = some (a₁, r₁) := by
      rw [hqueue] at h
      obtain ⟨a₁, r₁, r₂, hfirst, hrest, -⟩ := StorageActor.handleEach_append.mp h
      obtain ⟨rfl, rfl⟩ : l.actor = a₁ ∧ l.replies = r₁ := by
        simpa using hhandled.symm.trans hfirst
      rw [hwaiting] at hrest
      obtain ⟨a₂, r₃, -, hmsgs, -, -⟩ := StorageActor.handleEach_append.mp hrest
      exact ⟨a₂, r₃, hmsgs⟩
    obtain ⟨a₁, r₁, hmsgs⟩ := hmsgs
    have hlength : (backlog ++ rx).length < l.waiting.length := by
      have hpos := List.length_pos_iff.mpr hne
      rw [hwaiting]
      simp only [List.length_append]
      omega
    rcases htaken with ⟨msg, rfl, hbatch, rfl⟩ | ⟨rfl, rfl⟩
    · obtain ⟨a₂, r, r', hmsg, hnil, rfl⟩ := StorageActor.handleEach_cons.mp hmsgs
      obtain ⟨rfl, rfl⟩ : a₂ = a₁ ∧ [] = r' := by simpa [StorageActor.handleEach] using hnil
      rw [hmsg] at hround
      refine ⟨_, hround, hheld', .inl hlength, ?_⟩
      rw [hbatch, matches_iff hqueue hhandled hwaiting rfl, hmsgs, List.append_nil]
      exact ⟨fun _ => rfl, fun _ => rfl⟩
    · have hne' : l.batch available ≠ [] := by
        rintro hnil
        simp [hnil] at hne
      obtain ⟨entries, files, disk, hwrite⟩ := writeBlocks_of_handleEach hmsgs
      have hiff := storeBlocks_eq_handleEach_iff hne' hwrite
      rw [StorageActor.storeBlocks_of_writeBlocks hwrite] at hround hiff
      refine ⟨_, hround, hheld', .inl hlength, ?_⟩
      rw [← hiff, matches_iff hqueue hhandled hwaiting rfl, eq_comm]

lemma rounds_append (schedule schedule' : List Nat) (l : ActorLoop) :
    rounds (schedule ++ schedule') l = (rounds schedule l).bind (rounds schedule') := by
  induction schedule generalizing l with
  | nil => rfl
  | cons available schedule ih =>
    simp only [List.cons_append, rounds, Option.bind_eq_bind, Option.bind_assoc, ih]

lemma held_rounds {schedule : List Nat} (hheld : Held l.backlog)
    (h : rounds schedule l = some l') : Held l'.backlog := by
  induction schedule generalizing l with
  | nil =>
    obtain rfl : l = l' := by simpa [rounds] using h
    exact hheld
  | cons available schedule ih =>
    obtain ⟨l₁, hround, h⟩ := Option.bind_eq_some_iff.mp h
    refine ih ?_ h
    rcases round_cases hheld available with
      ⟨-, -, hround'⟩ | ⟨msgs, backlog, rx, handled, -, -, hheld', hround', -⟩
    · obtain rfl : l₁ = l := Option.some.inj (hround.symm.trans hround')
      exact hheld
    · obtain ⟨r, -, rfl⟩ := Option.map_eq_some_iff.mp (hround'.symm.trans hround)
      exact hheld'

/-- In every round the first and the last of the highest blocks of the batch are the same. -/
def TipsAgreeThroughout (actor : StorageActor) (queue : List WriteMessage) (schedule : List Nat) :
    Prop :=
  ∀ before available, before ++ [available] <+: schedule →
    ∀ l, rounds before (start actor queue) = some l →
      TipsAgree l.actor.manager.lastKnownTipHeight (l.batch available)

/-- As long as the tips agree, the loop follows the messages one by one, and each round handles
one at least. -/
lemma rounds_matches (h : actor.handleEach queue = some (final, replies)) {schedule : List Nat}
    (htips : TipsAgreeThroughout actor queue schedule) :
    ∃ l, rounds schedule (start actor queue) = some l ∧ Held l.backlog ∧ l.Matches actor queue ∧
      l.waiting.length ≤ queue.length - schedule.length := by
  induction schedule using List.reverseRecOn with
  | nil => exact ⟨_, rfl, .inl rfl, ⟨[], rfl, rfl⟩, by simp [waiting, start]⟩
  | append_singleton schedule available ih =>
    have htips' : TipsAgreeThroughout actor queue schedule := by
      intro before available' hbefore
      exact htips before available' (hbefore.trans (List.prefix_append _ _))
    obtain ⟨l, hrounds, hheld, hl, hlength⟩ := ih htips'
    obtain ⟨l', hround, hheld', hless, hiff⟩ := round_matches hheld hl h available
    refine ⟨l', ?_, hheld', hiff.mpr (htips schedule available (List.prefix_refl _) l hrounds), ?_⟩
    · rw [rounds_append, hrounds]
      simp [rounds, hround]
    · rw [List.length_append, List.length_singleton]
      rcases hless with hless | hnil
      · omega
      · simp [hnil]

/-- The coalescing of `StoreBlock` messages is unobservable as long as the tips of each batch
agree, and only then: after every number of rounds the database, the files, the actor and the
replies are those that the messages taken so far leave one by one. -/
theorem coalescing_matches_iff (h : actor.handleEach queue = some (final, replies))
    (schedule : List Nat) :
    ((∀ before, before <+: schedule →
        ∃ l, rounds before (start actor queue) = some l ∧ l.Matches actor queue) ↔
      TipsAgreeThroughout actor queue schedule) ∧
    (TipsAgreeThroughout actor queue schedule → queue.length ≤ schedule.length →
      rounds schedule (start actor queue) = some ⟨final, [], [], replies⟩) := by
  refine ⟨⟨?_, ?_⟩, ?_⟩
  · intro hmatches before available hbefore l hrounds
    obtain ⟨l₀, hrounds₀, hl⟩ := hmatches before ((List.prefix_append _ _).trans hbefore)
    obtain rfl : l₀ = l := Option.some.inj (hrounds₀.symm.trans hrounds)
    obtain ⟨l₁, hround, -, -, hiff⟩ := round_matches (held_rounds (.inl rfl) hrounds) hl h available
    obtain ⟨l₂, hrounds₂, hl₂⟩ := hmatches (before ++ [available]) hbefore
    rw [rounds_append, hrounds, Option.bind_some, rounds, hround] at hrounds₂
    obtain rfl : l₁ = l₂ := Option.some.inj hrounds₂
    exact hiff.mp hl₂
  · intro htips before hbefore
    have htips' : TipsAgreeThroughout actor queue before :=
      fun before' available hbefore' => htips before' available (hbefore'.trans hbefore)
    obtain ⟨l, hrounds, -, hl, -⟩ := rounds_matches h htips'
    exact ⟨l, hrounds, hl⟩
  · intro htips hlength
    obtain ⟨l, hrounds, -, ⟨handled, hqueue, hhandled⟩, hwaiting⟩ := rounds_matches h htips
    have hnone : l.waiting = [] := List.length_eq_zero_iff.mp (by omega)
    obtain ⟨hbacklog, hrx⟩ := List.append_eq_nil_iff.mp hnone
    rw [hnone, List.append_nil] at hqueue
    rw [hqueue, hhandled] at h
    obtain ⟨hfinal, hreplies⟩ : l.actor = final ∧ l.replies = replies := by simpa using h
    rw [hrounds, ← hfinal, ← hreplies]
    obtain ⟨_, _, _, _⟩ := l
    simp_all

end ActorLoop

end Loop

/-! ### Two blocks in one batch -/

namespace Sample

/-- The actor on an empty store. -/
def freshActor : StorageActor :=
  let store : Store := ⟨fun _ _ => none, ⟨fun _ => none, fun _ => none⟩⟩
  ⟨BlockManager.new store ⟨[0xfa, 0xbf, 0xb5, 0xda], length_regtestMagic⟩, store⟩

/-- A message that stores a block at a height; the nonce tells the blocks apart. -/
def storeAt (height nonce : UInt32) : StoreBlockMsg :=
  let block := { Genesis.regtest.build with
    header := { Genesis.regtest.build.header with nonce } }
  ⟨block.header, height, ⟨toBytes32 []⟩, encode block⟩

set_option maxRecDepth 100000 in
lemma coalesce_storeAt :
    (freshActor.handleEach [.storeBlock (storeAt 1 0), .storeBlock (storeAt 2 1)]).isSome ∧
      TipsAgree 0 [storeAt 1 0, storeAt 2 1] ∧
      ((ActorLoop.rounds [1] (.start freshActor
        [.storeBlock (storeAt 1 0), .storeBlock (storeAt 2 1)])).all fun l =>
          (l.batch 0).isEmpty) := by
  unfold TipsAgree
  decide +kernel

theorem coalescing_matches_storeAt :
    ∃ final replies,
      freshActor.handleEach [.storeBlock (storeAt 1 0), .storeBlock (storeAt 2 1)] =
        some (final, replies) ∧
      ActorLoop.rounds [1, 0] (.start freshActor
        [.storeBlock (storeAt 1 0), .storeBlock (storeAt 2 1)]) =
          some ⟨final, [], [], replies⟩ := by
  obtain ⟨heach, htips, hbatch⟩ := coalesce_storeAt
  obtain ⟨⟨final, replies⟩, heach⟩ := Option.isSome_iff_exists.mp heach
  refine ⟨final, replies, heach, (ActorLoop.coalescing_matches_iff heach [1, 0]).2 ?_ (by simp)⟩
  intro before available hbefore l hrounds
  rcases before with _ | ⟨available', _ | ⟨_, _⟩⟩
  · obtain rfl : available = 1 := by simpa using hbefore
    have hl : l = .start freshActor _ := (Option.some.inj hrounds).symm
    rw [hl]
    exact htips
  · obtain ⟨rfl, rfl⟩ : available' = 1 ∧ available = 0 := by simpa using hbefore
    rw [hrounds] at hbatch
    rw [show l.batch 0 = [] by simpa using hbatch]
    rfl
  · simp at hbefore

set_option maxRecDepth 100000 in
lemma coalesce_storeAt_tie :
    ((freshActor.handleEach [.storeBlock (storeAt 1 0), .storeBlock (storeAt 1 1)]).bind fun r =>
        r.1.store.getBlockTip) = some (storeAt 1 1).header.blockHash ∧
      ((ActorLoop.rounds [1, 0] (.start freshActor
        [.storeBlock (storeAt 1 0), .storeBlock (storeAt 1 1)])).bind fun l =>
          l.actor.store.getBlockTip) = some (storeAt 1 0).header.blockHash ∧
      (storeAt 1 0).header.blockHash ≠ (storeAt 1 1).header.blockHash := by
  decide +kernel

/-- Two blocks of one height: in a batch the first is the block tip, one by one the second. -/
theorem coalescing_observed :
    ¬ ∀ (actor final : StorageActor) queue replies schedule,
      actor.handleEach queue = some (final, replies) → queue.length ≤ schedule.length →
      ∃ l, ActorLoop.rounds schedule (.start actor queue) = some l ∧
        l.actor.store.getBlockTip = final.store.getBlockTip := by
  intro h
  obtain ⟨heach, hrounds, hne⟩ := coalesce_storeAt_tie
  obtain ⟨⟨final, replies⟩, hfinal, htip⟩ := Option.bind_eq_some_iff.mp heach
  obtain ⟨l, hl, htip'⟩ := h freshActor final _ replies [1, 0] hfinal (by simp)
  rw [hl, Option.bind_some, htip', htip] at hrounds
  exact hne (Option.some.inj hrounds).symm

end Sample

end Bitcrab
