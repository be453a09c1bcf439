import Bitcrab.Types.Params

/-!
# The key-value database (`storage/api`, `storage/backend`)

A database maps the byte keys of each table to byte values. Writes are collected in a batch that
is committed as a whole; a batch is the list of its operations, applied in order.
-/

namespace Bitcrab

open Bytes

/-- The tables of `storage/api/tables.rs` that are in use. -/
inductive Table where
  | blockIndex
  | utxos
  | chainMeta
  deriving Repr, DecidableEq

/-- The contents of a database. -/
abbrev Db := Table → List UInt8 → Option (List UInt8)

/-- The keys the code forms, with the prefixes of `storage/api/tables.rs`. -/
inductive DbKey where
  /-- `PREFIX_BLOCK` and a block hash. -/
  | block (hash : BlockHash)
  /-- `PREFIX_COIN`, a txid and an output index. -/
  | coin (outpoint : OutPoint)
  /-- `KEY_HEADERS_TIP`. -/
  | headersTip
  /-- `KEY_BEST_BLOCK`. -/
  | bestBlock
  /-- `KEY_BLOCK_TIP`. -/
  | blockTip
  /-- `KEY_LAST_FILE`. -/
  | lastFile
  /-- `PREFIX_HEIGHT` and a height. -/
  | height (height : UInt32)
  /-- `PREFIX_HEADER_HEIGHT` and a height. -/
  | headerHeight (height : UInt32)
  deriving DecidableEq

namespace DbKey

/-- The table of a key. -/
def table : DbKey → Table
  | block _ => .blockIndex
  | coin _ => .utxos
  | headersTip => .utxos
  | bestBlock => .utxos
  | blockTip => .utxos
  | lastFile => .chainMeta
  | height _ => .chainMeta
  | headerHeight _ => .chainMeta

/-- The bytes of a key. -/
def bytes : DbKey → List UInt8
  | block hash => 0x62 :: hash.bytes.toList
  | coin o => 0x43 :: (o.txid.bytes.toList ++ leBytes 4 o.vout.toNat)
  | headersTip => [0x68]
  | bestBlock => [0x42]
  | blockTip => [0x44]
  | lastFile => [0x6c]
  | height h => 0x48 :: beBytes 4 h.toNat
  | headerHeight h => 0x7a :: beBytes 4 h.toNat

lemma toList_injective {n : Nat} {v w : List.Vector UInt8 n} (h : v.toList = w.toList) : v = w :=
  Subtype.ext h

lemma uint32_eq_of_leBytes {a b : UInt32} (h : leBytes 4 a.toNat = leBytes 4 b.toNat) : a = b :=
  UInt32.toNat_inj.mp (leBytes_injective a.toNat_lt b.toNat_lt h)

lemma uint32_eq_of_beBytes {a b : UInt32} (h : beBytes 4 a.toNat = beBytes 4 b.toNat) : a = b :=
  UInt32.toNat_inj.mp (beBytes_injective a.toNat_lt b.toNat_lt h)

/-- Different keys are different records: the table and the first byte tell the kinds apart. -/
lemma eq_of_table_bytes {j k : DbKey} (ht : j.table = k.table) (hb : j.bytes = k.bytes) :
    j = k := by
  cases j <;> cases k <;> simp only [table, bytes, reduceCtorEq, List.cons.injEq] at ht hb <;>
    first
    | rfl
    | exact absurd hb.1 (by decide)
    | skip
  case block.block a b => rw [Digest.ext (toList_injective hb.2)]
  case coin.coin a b =>
    have hlen : a.txid.bytes.toList.length = b.txid.bytes.toList.length := by simp
    obtain ⟨h1, h2⟩ := List.append_inj hb.2 hlen
    have htxid : a.txid = b.txid := Digest.ext (toList_injective h1)
    have hvout : a.vout = b.vout := uint32_eq_of_leBytes h2
    cases a
    cases b
    simp_all
  case height.height a b => rw [uint32_eq_of_beBytes hb.2]
  case headerHeight.headerHeight a b => rw [uint32_eq_of_beBytes hb.2]

end DbKey

/-- `StorageReadView::get`. -/
def Db.get (db : Db) (key : DbKey) : Option (List UInt8) := db key.table key.bytes

/-- `StorageWriteBatch` operations. -/
inductive WriteOp where
  | put (key : DbKey) (value : List UInt8)
  | delete (key : DbKey)

namespace WriteOp

/-- The key an operation writes. -/
def key : WriteOp → DbKey
  | put k _ => k
  | delete k => k

/-- What an operation leaves at its key. -/
def value : WriteOp → Option (List UInt8)
  | put _ v => some v
  | delete _ => none

end WriteOp

/-- Apply one operation. -/
def Db.apply (db : Db) (op : WriteOp) : Db :=
  fun t k => if t = op.key.table ∧ k = op.key.bytes then op.value else db t k

/-- `StorageWriteBatch::commit`. -/
def Db.commit (db : Db) (batch : List WriteOp) : Db := batch.foldl Db.apply db

lemma Db.get_apply (db : Db) (op : WriteOp) (k : DbKey) :
    (db.apply op).get k = if op.key = k then op.value else db.get k := by
  unfold Db.get Db.apply
  by_cases h : op.key = k
  · simp [h]
  · have hne : ¬ (k.table = op.key.table ∧ k.bytes = op.key.bytes) := by
      rintro ⟨ht, hb⟩
      exact h (DbKey.eq_of_table_bytes ht hb).symm
    simp [h, hne]

lemma Db.commit_nil (db : Db) : db.commit [] = db := rfl

lemma Db.commit_cons (db : Db) (op : WriteOp) (batch : List WriteOp) :
    db.commit (op :: batch) = (db.apply op).commit batch := rfl

lemma Db.commit_append (db : Db) (batch batch' : List WriteOp) :
    db.commit (batch ++ batch') = (db.commit batch).commit batch' := by
  simp [Db.commit, List.foldl_append]

/-- A batch does not change the keys it does not write. -/
lemma Db.get_commit_of_forall_ne {db : Db} {batch : List WriteOp} {k : DbKey}
    (h : ∀ op ∈ batch, op.key ≠ k) : (db.commit batch).get k = db.get k := by
  induction batch generalizing db with
  | nil => rfl
  | cons op batch ih =>
    rw [Db.commit_cons, ih fun op' h' => h op' (by simp [h']), Db.get_apply,
      if_neg (h op (by simp))]

/-- A key written by several operations holds what the last of them left. -/
lemma Db.get_commit_append_cons {db : Db} {batch batch' : List WriteOp} {op : WriteOp}
    (h : ∀ op' ∈ batch', op'.key ≠ op.key) :
    (db.commit (batch ++ op :: batch')).get op.key = op.value := by
  rw [Db.commit_append, Db.commit_cons, Db.get_commit_of_forall_ne h, Db.get_apply, if_pos rfl]

/-- A key holds what it held before the batch, or what one of its operations left. -/
lemma Db.get_commit_cases (db : Db) (batch : List WriteOp) (k : DbKey) :
    (∀ op ∈ batch, op.key ≠ k) ∧ (db.commit batch).get k = db.get k ∨
      ∃ op ∈ batch, op.key = k ∧ (db.commit batch).get k = op.value := by
  induction batch generalizing db with
  | nil => exact .inl ⟨by simp, rfl⟩
  | cons op batch ih =>
    rw [Db.commit_cons]
    rcases ih (db.apply op) with ⟨hne, hget⟩ | ⟨op', hmem, hkey, hget⟩
    · rw [Db.get_apply] at hget
      by_cases hop : op.key = k
      · rw [if_pos hop] at hget
        exact .inr ⟨op, by simp, hop, hget⟩
      · rw [if_neg hop] at hget
        refine .inl ⟨?_, hget⟩
        intro op' hop'
        rcases List.mem_cons.mp hop' with rfl | hop'
        · exact hop
        · exact hne op' hop'
    · exact .inr ⟨op', by simp [hmem], hkey, hget⟩

end Bitcrab
