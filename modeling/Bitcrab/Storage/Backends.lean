import Bitcrab.Storage.Db

/-!
# The storage backends (`storage/api`, `storage/backend`)

`StorageWriteBatch` has two implementations. The batches of RocksDB collect their operations and
write them on `commit`; those of the in-memory backend apply each operation at once, and `commit`
does nothing. The read views differ as well: a view of the in-memory backend is a snapshot, one of
RocksDB reads the live database.
-/

namespace Bitcrab

/-! ### Operations -/

/-- The operations of `StorageWriteBatch`. -/
inductive BatchOp where
  | put (table : Table) (key value : List UInt8)
  | putBatch (table : Table) (batch : List (List UInt8 × List UInt8))
  | delete (table : Table) (key : List UInt8)

namespace Db

/-- Set what a table holds at a key. -/
def set (db : Db) (table : Table) (key : List UInt8) (value : Option (List UInt8)) : Db :=
  fun t k => if t = table ∧ k = key then value else db t k

/-- Insert pairs into a table, in order. -/
def insertAll (db : Db) (table : Table) (batch : List (List UInt8 × List UInt8)) : Db :=
  batch.foldl (fun db e => db.set table e.1 (some e.2)) db

end Db

/-- What an operation does to a database. -/
def BatchOp.apply (db : Db) : BatchOp → Db
  | put table key value => db.insertAll table [(key, value)]
  | putBatch table batch => db.insertAll table batch
  | delete table key => db.set table key none

/-- Operations in order. -/
def BatchOp.applyAll (ops : List BatchOp) (db : Db) : Db := ops.foldl BatchOp.apply db

/-! ### Backends -/

/-- A backend with its batches and its read views. The `Bool` of `commit` is whether the database
accepts the batch, and `read` is what a view returns for each key, given the database as it is by
then. -/
structure StorageBackend (Batch View : Type) where
  beginRead : Db → View
  beginWrite : Batch
  write : BatchOp → Db × Batch → Db × Batch
  commit : Bool → Db × Batch → Db × Batch
  read : Db → View → Db

/-- The operations of a batch before its `commit`. -/
def StorageBackend.run {Batch View : Type} (b : StorageBackend Batch View) (ops : List BatchOp)
    (s : Db × Batch) : Db × Batch :=
  ops.foldl (fun s op => b.write op s) s

/-- `InMemoryBackend`: `put` is the `put_batch` of one pair, and `commit` returns `Ok`. -/
def inMemoryBackend : StorageBackend Unit Db where
  beginRead db := db
  beginWrite := ()
  write op s := (op.apply s.1, ())
  commit _ s := s
  read _ snapshot := snapshot

/-- A record of the `WriteBatch` of RocksDB: a table, a key and the value or none to delete it. -/
abbrev BatchRecord := Table × List UInt8 × Option (List UInt8)

/-- The records that an operation adds to the `WriteBatch`. -/
def BatchOp.records : BatchOp → List BatchRecord
  | put table key value => [(table, key, some value)]
  | putBatch table batch => batch.map fun e => (table, e.1, some e.2)
  | delete table key => [(table, key, none)]

/-- `DB::write`, which takes the records in order. -/
def Db.writeRecords (db : Db) (records : List BatchRecord) : Db :=
  records.foldl (fun db r => db.set r.1 r.2.1 r.2.2) db

/-- `RocksDBBackend`: `commit` takes the collected records, and writes all of them or none. -/
def rocksDBBackend : StorageBackend (List BatchRecord) Unit where
  beginRead _ := ()
  beginWrite := []
  write op s := (s.1, s.2 ++ op.records)
  commit accepted s := (if accepted then s.1.writeRecords s.2 else s.1, [])
  read db _ := db

/-! ### What a view sees -/

section Visibility

variable (db : Db) (ops : List BatchOp)

lemma writeRecords_records (op : BatchOp) : db.writeRecords op.records = op.apply db := by
  cases op with
  | put table key value => rfl
  | putBatch table batch => exact List.foldl_map
  | delete table key => rfl

/-- The records of RocksDB do what the operations do. -/
lemma writeRecords_flatMap_records :
    db.writeRecords (ops.flatMap BatchOp.records) = BatchOp.applyAll ops db := by
  induction ops generalizing db with
  | nil => rfl
  | cons op ops ih =>
    have happend : db.writeRecords ((op :: ops).flatMap BatchOp.records) =
        (db.writeRecords op.records).writeRecords (ops.flatMap BatchOp.records) := by
      rw [List.flatMap_cons]
      exact List.foldl_append
    rw [happend, writeRecords_records, ih]
    rfl

lemma rocksDB_run (s : Db × List BatchRecord) :
    rocksDBBackend.run ops s = (s.1, s.2 ++ ops.flatMap BatchOp.records) := by
  induction ops generalizing s with
  | nil => simp [StorageBackend.run]
  | cons op ops ih =>
    change rocksDBBackend.run ops (s.1, s.2 ++ op.records) = _
    rw [ih, List.append_assoc, List.flatMap_cons]

lemma inMemory_run (s : Db × Unit) :
    inMemoryBackend.run ops s = (BatchOp.applyAll ops s.1, ()) := by
  induction ops generalizing s with
  | nil => rfl
  | cons op ops ih => exact ih (op.apply s.1, ())

end Visibility

/-- The database after a batch that was accepted. -/
def StorageBackend.committed {Batch View : Type} (b : StorageBackend Batch View) (db : Db)
    (ops : List BatchOp) : Db :=
  (b.commit true (b.run ops (db, b.beginWrite))).1

/-- All or nothing: before its `commit` a batch is not seen by any view and leaves the database
alone, and a view opened after it sees all of the operations in order. -/
structure StorageBackend.AllOrNothing {Batch View : Type} (b : StorageBackend Batch View) :
    Prop where
  before : ∀ db ops ops',
    b.read (b.run (ops ++ ops') (db, b.beginWrite)).1
      (b.beginRead (b.run ops (db, b.beginWrite)).1) = db
  after : ∀ db ops,
    b.read (b.committed db ops) (b.beginRead (b.committed db ops)) = BatchOp.applyAll ops db
  dropped : ∀ db ops, (b.run ops (db, b.beginWrite)).1 = db

lemma committed_rocksDB (db : Db) (ops : List BatchOp) :
    rocksDBBackend.committed db ops = BatchOp.applyAll ops db := by
  rw [StorageBackend.committed, rocksDB_run]
  exact writeRecords_flatMap_records db ops

lemma committed_inMemory (db : Db) (ops : List BatchOp) :
    inMemoryBackend.committed db ops = BatchOp.applyAll ops db := by
  rw [StorageBackend.committed, inMemory_run]
  rfl

/-- The batches of RocksDB are all or nothing, also when `commit` fails; after a `commit` the views
that were open before see them too. A view of the in-memory backend sees the operations made before
it was opened, committed or not, and no others. -/
theorem writeBatch_visibility :
    rocksDBBackend.AllOrNothing ∧
      (∀ db ops view,
        rocksDBBackend.read (rocksDBBackend.committed db ops) view = BatchOp.applyAll ops db) ∧
      (∀ db ops, (rocksDBBackend.commit false
        (rocksDBBackend.run ops (db, rocksDBBackend.beginWrite))).1 = db) ∧
      ∀ db ops ops', ∃ s, inMemoryBackend.run (ops ++ ops') (db, inMemoryBackend.beginWrite) = s ∧
        s.1 = BatchOp.applyAll (ops ++ ops') db ∧
          (∀ accepted, inMemoryBackend.commit accepted s = s) ∧
        inMemoryBackend.read s.1 (inMemoryBackend.beginRead
          (inMemoryBackend.run ops (db, inMemoryBackend.beginWrite)).1) = BatchOp.applyAll ops db ∧
        inMemoryBackend.read s.1 (inMemoryBackend.beginRead s.1) =
          BatchOp.applyAll (ops ++ ops') db := by
  refine ⟨⟨?_, ?_, ?_⟩, ?_, ?_, ?_⟩
  · intro db ops ops'
    rw [rocksDB_run]
    rfl
  · exact fun db ops => committed_rocksDB db ops
  · intro db ops
    rw [rocksDB_run]
  · exact fun db ops _ => committed_rocksDB db ops
  · intro db ops
    rw [rocksDB_run]
    rfl
  · intro db ops ops'
    rw [inMemory_run, inMemory_run]
    exact ⟨_, rfl, rfl, fun _ => rfl, rfl, rfl⟩

/-- A view of the in-memory backend sees an operation that was not committed. -/
theorem not_allOrNothing_inMemory : ¬ inMemoryBackend.AllOrNothing := by
  intro h
  have hview := h.before (fun _ _ => none) [.put .chainMeta [0x6c] [1, 0, 0, 0]] []
  have hseen := congrFun (congrFun hview .chainMeta) [0x6c]
  exact absurd hseen (by decide)

/-! ### The batches of the actor -/

/-- The operation on the bytes of its key. -/
def WriteOp.toBatchOp : WriteOp → BatchOp
  | put key value => .put key.table key.bytes value
  | delete key => .delete key.table key.bytes

/-- The handlers of the actor see the database after an accepted batch, on either backend. -/
lemma committed_eq_commit (db : Db) (batch : List WriteOp) :
    rocksDBBackend.committed db (batch.map WriteOp.toBatchOp) = db.commit batch ∧
      inMemoryBackend.committed db (batch.map WriteOp.toBatchOp) = db.commit batch := by
  have hall : BatchOp.applyAll (batch.map WriteOp.toBatchOp) db = db.commit batch := by
    rw [BatchOp.applyAll, List.foldl_map, Db.commit]
    congr 1
    funext db op
    cases op <;> rfl
  rw [committed_rocksDB, committed_inMemory]
  exact ⟨hall, hall⟩

end Bitcrab
