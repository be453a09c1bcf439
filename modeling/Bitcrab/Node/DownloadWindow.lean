import Bitcrab.Lib.DistinctList
import Bitcrab.Node.HeaderChain

/-!
# The window of block downloads (`node/blockchain.rs`)

`get_next_block_hashes_for_sync` goes through the cached chain first, and then through the `z` table
from a height that depends on how many hashes the cache has given. A hash that both propose is
queued once.
-/

namespace Bitcrab

namespace Blockchain

/-- `Blockchain::needs_block_data`. -/
def needsBlockData (b : Blockchain) (hash : BlockHash) : Bool :=
  match b.node.store.getBlock hash with
  | .ok none | .error _ => true
  | .ok (some _) => false

/-- What both loops do with a hash; `queued` is the set of the list. -/
def queue (b : Blockchain) (hashes : DistinctList BlockHash) (hash : BlockHash) :
    DistinctList BlockHash :=
  if b.needsBlockData hash then hashes.push hash else hashes

/-- The first phase, over the cache. -/
def queueFromCache (b : Blockchain) (firstNeededHeight : UInt32) (limit : Nat)
    (hashes : DistinctList BlockHash) : DistinctList BlockHash :=
  if firstNeededHeight.toNat < b.bestHeaderChain.length then
    let endHeight := min (firstNeededHeight.toNat + limit) b.bestHeaderChain.length
    ((b.bestHeaderChain.take endHeight).drop firstNeededHeight.toNat).foldl b.queue hashes
  else hashes

/-- The loop of the second phase, for as many heights. -/
def queueFromTable (b : Blockchain) : Nat → UInt32 → DistinctList BlockHash →
    DistinctList BlockHash
  | 0, _, hashes => hashes
  | n + 1, h, hashes =>
    match b.node.store.getBlockHashByHeaderHeight h with
    | none => hashes
    | some hash => b.queueFromTable n (h + 1) (b.queue hashes hash)

/-- `Blockchain::get_next_block_hashes_for_sync`. -/
def getNextBlockHashesForSync (b : Blockchain) (startHeight : UInt32) (limit : Nat) :
    List BlockHash :=
  let firstNeededHeight := startHeight + 1
  let hashes := b.queueFromCache firstNeededHeight limit .empty
  if hashes.entries.length < limit then
    let dbStart := firstNeededHeight + UInt32.ofNat hashes.entries.length
    let dbEnd := firstNeededHeight + UInt32.ofNat limit
    (b.queueFromTable (dbEnd.toNat - dbStart.toNat) dbStart hashes).entries
  else hashes.entries

/-! ### Both phases by height -/

/-- The cached hash of a height. -/
def cached (b : Blockchain) (height : Nat) : Option BlockHash := b.bestHeaderChain[height]?

/-- The hash of a height in the `z` table. -/
def tabled (b : Blockchain) (height : Nat) : Option BlockHash :=
  b.node.store.getBlockHashByHeaderHeight (UInt32.ofNat height)

/-- What is worth requesting at a height, from either source. -/
def missing (b : Blockchain) (source : Nat → Option BlockHash) (height : Nat) : Option BlockHash :=
  (source height).filter b.needsBlockData

section Phases

variable {b : Blockchain} {source : Nat → Option BlockHash}

lemma missing_eq_some {height : Nat} {hash : BlockHash} :
    b.missing source height = some hash ↔
      source height = some hash ∧ b.needsBlockData hash = true := by
  rw [missing, Option.filter_eq_some_iff]

/-- One round of either loop. -/
lemma collect_missing_cons {height : Nat} {hash : BlockHash} (h : source height = some hash)
    (hashes : DistinctList BlockHash) (heights : List Nat) :
    hashes.collect (b.missing source) (height :: heights) =
      (b.queue hashes hash).collect (b.missing source) heights := by
  unfold queue
  split_ifs with hneeds
  · exact DistinctList.collect_cons_some (missing_eq_some.mpr ⟨h, hneeds⟩)
  · refine DistinctList.collect_cons_none ?_
    rw [missing, h, Option.filter_some, if_neg hneeds]

/-- A loop over hashes is one over their heights. -/
lemma foldl_queue {found : List BlockHash} {heights : List Nat}
    (h : found.map some = heights.map source) (hashes : DistinctList BlockHash) :
    found.foldl b.queue hashes = hashes.collect (b.missing source) heights := by
  induction found generalizing heights hashes with
  | nil =>
    obtain rfl := List.map_eq_nil_iff.mp h.symm
    rfl
  | cons hash found ih =>
    cases heights with
    | nil => cases h
    | cons height heights =>
      obtain ⟨hhash, hfound⟩ := List.cons.inj h
      rw [List.foldl_cons, collect_missing_cons hhash.symm, ih hfound]

/-- The first phase goes through the heights of the window that the cache has. -/
lemma queueFromCache_eq (b : Blockchain) (first : UInt32) (limit : Nat)
    (hashes : DistinctList BlockHash) :
    b.queueFromCache first limit hashes = hashes.collect (b.missing b.cached)
      (List.range' first.toNat (min limit (b.bestHeaderChain.length - first.toNat))) := by
  unfold queueFromCache
  split_ifs with hlt
  · refine foldl_queue ?_ hashes
    apply List.ext_getElem?
    intro i
    rw [List.getElem?_map, List.getElem?_map, List.getElem?_drop]
    by_cases hi : i < min limit (b.bestHeaderChain.length - first.toNat)
    · rw [List.getElem?_take_of_lt (by omega), List.getElem?_range' hi, Nat.one_mul,
        Option.map_some,
        cached, List.getElem?_eq_getElem (by omega)]
      rfl
    · rw [List.getElem?_take_eq_none (by omega),
        List.getElem?_eq_none (by rw [List.length_range']; omega)]
      rfl
  · rw [Nat.sub_eq_zero_of_le (by omega), Nat.min_zero, List.range'_zero]
    rfl

/-- The second phase goes through the heights up to the first one that the table does not have. -/
lemma exists_queueFromTable_eq (b : Blockchain) (n : Nat) (h : UInt32)
    (hashes : DistinctList BlockHash) (hroom : h.toNat + n < 2 ^ 32) :
    ∃ m ≤ n, b.queueFromTable n h hashes =
        hashes.collect (b.missing b.tabled) (List.range' h.toNat m) ∧
      (∀ i < m, (b.tabled (h.toNat + i)).isSome) ∧ (m < n → b.tabled (h.toNat + m) = none) := by
  induction n generalizing h hashes with
  | zero => exact ⟨0, Nat.le_refl 0, rfl, by simp, by simp⟩
  | succ n ih =>
    have hself : b.tabled h.toNat = b.node.store.getBlockHashByHeaderHeight h := by
      rw [tabled, UInt32.ofNat_toNat]
    cases hget : b.node.store.getBlockHashByHeaderHeight h with
    | none =>
      refine ⟨0, Nat.zero_le _, ?_, by simp, fun _ => hself.trans hget⟩
      rw [queueFromTable, hget]
      rfl
    | some hash =>
      have hnext : (h + 1).toNat = h.toNat + 1 := by
        rw [UInt32.toNat_add]
        exact Nat.mod_eq_of_lt (by simp only [UInt32.toNat_one]; omega)
      obtain ⟨m, hm, heq, hsome, hend⟩ := ih (h + 1) (b.queue hashes hash) (by omega)
      rw [hnext] at heq hsome hend
      refine ⟨m + 1, Nat.succ_le_succ hm, ?_, ?_, ?_⟩
      · rw [queueFromTable, hget, List.range'_succ, collect_missing_cons (hself.trans hget)]
        exact heq
      · intro i hi
        cases i with
        | zero =>
          rw [Nat.add_zero, hself, hget]
          rfl
        | succ i =>
          rw [Nat.add_comm i 1, ← Nat.add_assoc]
          exact hsome i (by omega)
      · intro hlt
        rw [Nat.add_comm m 1, ← Nat.add_assoc]
        exact hend (by omega)

/-- What the first phase queues. -/
def fromCache (b : Blockchain) (first limit : Nat) : DistinctList BlockHash :=
  DistinctList.empty.collect (b.missing b.cached)
    (List.range' first (min limit (b.bestHeaderChain.length - first)))

lemma length_fromCache_le (b : Blockchain) (first limit : Nat) :
    (b.fromCache first limit).entries.length ≤ min limit (b.bestHeaderChain.length - first) := by
  refine (DistinctList.length_collect_le _ _ _).trans ?_
  rw [DistinctList.entries_empty, List.length_nil, Nat.zero_add, List.length_range']

/-- The window by heights: those of the cache, and then those of the table from the height that the
number of queued hashes gives. -/
lemma exists_getNextBlockHashes_eq (b : Blockchain) (start : UInt32) (limit : Nat)
    (hroom : start.toNat + 1 + limit < 2 ^ 32) {first : Nat} (hfirst : first = start.toNat + 1)
    {count : Nat} (hcount : count = (b.fromCache first limit).entries.length) :
    ∃ m ≤ limit - count, b.getNextBlockHashesForSync start limit =
        ((b.fromCache first limit).collect (b.missing b.tabled)
          (List.range' (first + count) m)).entries ∧
      (∀ i < m, (b.tabled (first + count + i)).isSome) ∧
      (m < limit - count → b.tabled (first + count + m) = none) := by
  have hle := b.length_fromCache_le first limit
  have htoNat : (start + 1).toNat = first := by
    rw [UInt32.toNat_add, hfirst]
    exact Nat.mod_eq_of_lt (by simp only [UInt32.toNat_one]; omega)
  have hadd : ∀ n ≤ limit, (start + 1 + UInt32.ofNat n).toNat = first + n := by
    intro n hn
    rw [UInt32.toNat_add, htoNat, UInt32.toNat_ofNat_of_lt' (show n < 2 ^ 32 by omega)]
    exact Nat.mod_eq_of_lt (by omega)
  have hcache : b.queueFromCache (start + 1) limit .empty = b.fromCache first limit := by
    rw [queueFromCache_eq, htoNat, fromCache]
  unfold getNextBlockHashesForSync
  simp only [hcache, ← hcount]
  rw [← hcount] at hle
  split_ifs with hlt
  · obtain ⟨m, hm, heq, hsome, hend⟩ := b.exists_queueFromTable_eq
      ((start + 1 + UInt32.ofNat limit).toNat - (start + 1 + UInt32.ofNat count).toNat)
      (start + 1 + UInt32.ofNat count) (b.fromCache first limit)
      (by rw [hadd limit (Nat.le_refl _), hadd count (by omega)]; omega)
    rw [hadd limit (Nat.le_refl _), hadd count (by omega), Nat.add_sub_add_left] at hm hend heq
    rw [hadd count (by omega)] at hsome
    rw [hadd limit (Nat.le_refl _), hadd count (by omega), Nat.add_sub_add_left]
    exact ⟨m, hm, congrArg DistinctList.entries heq, hsome, hend⟩
  · exact ⟨0, Nat.zero_le _, rfl, by simp, fun h => by omega⟩

end Phases

/-! ### The exact window -/

/-- The hashes of the heights after `start`, at most `limit` of them and up to `top`, whose block
data is missing: in ascending order of their heights, and without repetition. -/
structure ExactWindow (b : Blockchain) (start : UInt32) (limit top : Nat)
    (hashes : List BlockHash) : Prop where
  ascending : ∃ heights : List UInt32, heights.Pairwise (· < ·) ∧
    hashes.map some = heights.map b.node.store.getBlockHashByHeaderHeight ∧
    ∀ height ∈ heights, start < height ∧ height.toNat ≤ min (start.toNat + limit) top
  nodup : hashes.Nodup
  mem_iff : ∀ hash, hash ∈ hashes ↔ ∃ height : UInt32, start < height ∧
    height.toNat ≤ min (start.toNat + limit) top ∧
    b.node.store.getBlockHashByHeaderHeight height = some hash ∧
    b.node.store.getBlock hash = .ok none

section Exact

variable {b : Blockchain} {start : UInt32} {limit top : Nat}

/-- Where the sources agree, the second phase goes on where the first has ended. -/
lemma getNextBlockHashes_eq_collect
    (htable : ∀ height : UInt32,
      (b.node.store.getBlockHashByHeaderHeight height).isSome ↔ height.toNat ≤ top)
    (hcache : ∀ (height : UInt32) hash, b.bestHeaderChain[height.toNat]? = some hash →
      b.node.store.getBlockHashByHeaderHeight height = some hash)
    (hroom : start.toNat + 1 + limit < 2 ^ 32) :
    b.getNextBlockHashesForSync start limit =
      (DistinctList.empty.collect (b.missing b.tabled)
        (List.range' (start.toNat + 1) (min limit (top - start.toNat)))).entries := by
  generalize hfirst : start.toNat + 1 = first at hroom ⊢
  have htoNat : ∀ height < first + limit, (UInt32.ofNat height).toNat = height :=
    fun height h => UInt32.toNat_ofNat_of_lt' (show height < 2 ^ 32 by omega)
  have hsome : ∀ height < first + limit, (b.tabled height).isSome ↔ height ≤ top := by
    intro height hheight
    rw [tabled, htable, htoNat height hheight]
  -- the heights that the cache covers
  generalize hcovered : min limit (b.bestHeaderChain.length - first) = covered
  have hsame : ∀ height ∈ List.range' first covered, b.cached height = b.tabled height := by
    intro height hheight
    obtain ⟨hge, hlt⟩ := List.mem_range'_1.mp hheight
    have hget : b.bestHeaderChain[height]? = some b.bestHeaderChain[height] :=
      List.getElem?_eq_getElem (by omega)
    rw [cached, tabled, hget, hcache]
    rw [htoNat height (by omega), hget]
  have hle : covered ≤ min limit (top + 1 - first) := by
    rcases Nat.eq_zero_or_pos covered with hzero | hpos
    · omega
    · have hlast := hsame (first + covered - 1) (List.mem_range'_1.mpr ⟨by omega, by omega⟩)
      have htop : (b.tabled (first + covered - 1)).isSome := by
        rw [← hlast, cached, List.getElem?_eq_getElem (by omega)]
        rfl
      have := (hsome _ (by omega)).mp htop
      omega
  have hfromCache : b.fromCache first limit =
      DistinctList.empty.collect (b.missing b.tabled) (List.range' first covered) := by
    rw [fromCache, hcovered]
    refine DistinctList.collect_congr fun height hheight => ?_
    rw [missing, missing, hsame height hheight]
  obtain ⟨m, hm, heq, hdefined, hend⟩ :=
    b.exists_getNextBlockHashes_eq start limit (by omega) hfirst.symm rfl
  have hcount := b.length_fromCache_le first limit
  generalize (b.fromCache first limit).entries.length = count at hm heq hdefined hend hcount
  rw [hcovered] at hcount
  have hmEq : m = min limit (top + 1 - first) - count := by
    have hlow : m ≠ 0 → first + count + (m - 1) ≤ top := fun hne =>
      (hsome _ (by omega)).mp (hdefined (m - 1) (by omega))
    have hhigh : m < limit - count → top < first + count + m := by
      intro hlt
      have hnone := hend hlt
      by_contra hle
      have := (hsome (first + count + m) (by omega)).mpr (by omega)
      rw [hnone] at this
      cases this
    omega
  -- the heights from `first + count` to `first + covered` are queued already
  have hsplit : List.range' (first + count) m =
      List.range' (first + count) (covered - count) ++
        List.range' (first + covered) (min limit (top + 1 - first) - covered) := by
    rw [show first + covered = first + count + (covered - count) by omega, List.range'_append_1]
    congr 1
    omega
  have hqueued : (b.fromCache first limit).collect (b.missing b.tabled)
      (List.range' (first + count) (covered - count)) = b.fromCache first limit := by
    refine DistinctList.collect_of_forall_mem fun height hheight hash hhash => ?_
    obtain ⟨hge, hlt⟩ := List.mem_range'_1.mp hheight
    rw [hfromCache, DistinctList.mem_collect]
    exact .inr ⟨height, List.mem_range'_1.mpr ⟨by omega, by omega⟩, hhash⟩
  rw [heq, hsplit, DistinctList.collect_append, hqueued, hfromCache, ← DistinctList.collect_append,
    List.range'_append_1]
  congr 3
  omega

end Exact

end Blockchain

/-- The window has the hashes of the missing blocks of its heights, in ascending order. -/
theorem getNextBlockHashesForSync_exact (b : Blockchain) (start : UInt32) (limit top : Nat)
    (hreads : ∀ hash, ∃ found, b.node.store.getBlock hash = .ok found)
    (htable : ∀ height : UInt32,
      (b.node.store.getBlockHashByHeaderHeight height).isSome ↔ height.toNat ≤ top)
    (hcache : ∀ (height : UInt32) hash, b.bestHeaderChain[height.toNat]? = some hash →
      b.node.store.getBlockHashByHeaderHeight height = some hash)
    (hroom : start.toNat + 1 + limit < 2 ^ 32) :
    b.ExactWindow start limit top (b.getNextBlockHashesForSync start limit) := by
  have hwindow := Blockchain.getNextBlockHashes_eq_collect htable hcache hroom
  have hneeds : ∀ hash, b.needsBlockData hash = true ↔ b.node.store.getBlock hash = .ok none := by
    intro hash
    obtain ⟨found, hfound⟩ := hreads hash
    cases found <;> simp [Blockchain.needsBlockData, hfound]
  have htoNat : ∀ height ∈ List.range' (start.toNat + 1) (min limit (top - start.toNat)),
      (UInt32.ofNat height).toNat = height ∧ start.toNat < height ∧
        height ≤ min (start.toNat + limit) top := by
    intro height hheight
    obtain ⟨hge, hlt⟩ := List.mem_range'_1.mp hheight
    exact ⟨UInt32.toNat_ofNat_of_lt' (show height < 2 ^ 32 by omega), by omega, by omega⟩
  rw [hwindow]
  refine ⟨?_, DistinctList.nodup _, fun hash => ?_⟩
  · obtain ⟨added, found, hentries, hsub, hmap⟩ := DistinctList.exists_sublist_collect
      DistinctList.empty (b.missing b.tabled)
      (List.range' (start.toNat + 1) (min limit (top - start.toNat)))
    rw [DistinctList.entries_empty, List.nil_append] at hentries
    refine ⟨found.map UInt32.ofNat, ?_, ?_, ?_⟩
    · rw [List.pairwise_map]
      refine List.Pairwise.imp_of_mem (fun hx hy hlt => ?_) ((List.pairwise_lt_range').sublist hsub)
      rw [UInt32.lt_iff_toNat_lt, (htoNat _ (hsub.subset hx)).1, (htoNat _ (hsub.subset hy)).1]
      exact hlt
    · rw [hentries, hmap, List.map_map]
      refine List.map_congr_left fun height hheight => ?_
      obtain ⟨hash, -, hhash⟩ := List.mem_map.mp (hmap ▸ List.mem_map_of_mem hheight)
      rw [← hhash]
      exact (Blockchain.missing_eq_some.mp hhash.symm).1.symm
    · intro height hheight
      obtain ⟨n, hn, rfl⟩ := List.mem_map.mp hheight
      obtain ⟨hsame, hlow, hhigh⟩ := htoNat n (hsub.subset hn)
      rw [UInt32.lt_iff_toNat_lt, hsame]
      exact ⟨hlow, hhigh⟩
  · rw [DistinctList.mem_collect, DistinctList.entries_empty]
    constructor
    · rintro (hmem | ⟨height, hheight, hhash⟩)
      · cases hmem
      · obtain ⟨hsame, hlow, hhigh⟩ := htoNat height hheight
        obtain ⟨htabled, hmissing⟩ := Blockchain.missing_eq_some.mp hhash
        exact ⟨UInt32.ofNat height, by rwa [UInt32.lt_iff_toNat_lt, hsame], by rwa [hsame], htabled,
          (hneeds hash).mp hmissing⟩
    · rintro ⟨height, hlow, hhigh, htabled, hmissing⟩
      rw [UInt32.lt_iff_toNat_lt] at hlow
      refine .inr ⟨height.toNat, List.mem_range'_1.mpr ⟨hlow, by omega⟩,
        Blockchain.missing_eq_some.mpr ⟨?_, (hneeds hash).mpr hmissing⟩⟩
      rwa [Blockchain.tabled, UInt32.ofNat_toNat]

namespace Sample

/-- A hash of equal bytes. -/
def hashOf (byte : UInt8) : BlockHash := ⟨List.Vector.replicate 32 byte⟩

/-- Three heights in the table, of which the cache has two. -/
def windowChain : Blockchain where
  node :=
    { Node.init cfg with
      store := ⟨Db.commit (fun _ _ => none) ([0, 1, 2].map fun height : UInt32 =>
        BlockManager.putHash (.headerHeight height) (hashOf height.toUInt8)), Store.empty.disk⟩ }
  bestHeaderChain := [hashOf 0, hashOf 1]

lemma getBlock_windowChain (hash : BlockHash) :
    windowChain.node.store.getBlock hash = .ok none := by
  have hget : windowChain.node.store.db.get (.block hash) = none := by
    refine Db.get_commit_of_forall_ne ?_
    simp [BlockManager.putHash, WriteOp.key]
  simp [Store.getBlock, Store.getBlockIndex, hget]

lemma getBlockHashByHeaderHeight_windowChain (height : UInt32) :
    windowChain.node.store.getBlockHashByHeaderHeight height =
      if height = 2 then some (hashOf 2) else if height = 1 then some (hashOf 1)
      else if height = 0 then some (hashOf 0) else none := by
  have hget : windowChain.node.store.db.get (.headerHeight height) =
      if height = 2 then some (hashOf 2).bytes.toList
      else if height = 1 then some (hashOf 1).bytes.toList
      else if height = 0 then some (hashOf 0).bytes.toList else none := by
    simp only [windowChain, List.map_cons, List.map_nil, Db.commit_cons, Db.commit_nil,
      Db.get_apply, BlockManager.putHash, WriteOp.key, DbKey.headerHeight.injEq, WriteOp.value,
      eq_comm (b := height)]
    rfl
  rw [Store.getBlockHashByHeaderHeight, Store.readHash, hget]
  split_ifs <;> rfl

/-- The window after the genesis block has the other two heights. -/
theorem getNextBlockHashesForSync_windowChain :
    windowChain.ExactWindow 0 5 2 (windowChain.getNextBlockHashesForSync 0 5) := by
  refine getNextBlockHashesForSync_exact windowChain 0 5 2
    (fun hash => ⟨none, getBlock_windowChain hash⟩) (fun height => ?_)
    (fun height hash hget => ?_) (by decide)
  · rw [getBlockHashByHeaderHeight_windowChain]
    have heq : ∀ n : UInt32, height = n ↔ height.toNat = n.toNat :=
      fun n => UInt32.toNat_inj.symm
    simp only [heq, UInt32.reduceToNat]
    split_ifs <;> simp <;> omega
  · rw [getBlockHashByHeaderHeight_windowChain]
    have hlt : height.toNat < 2 := (List.getElem?_eq_some_iff.mp hget).1
    obtain hzero | hone : height.toNat = 0 ∨ height.toNat = 1 := by omega
    · obtain rfl : height = 0 := UInt32.toNat_inj.mp hzero
      exact hget
    · obtain rfl : height = 1 := UInt32.toNat_inj.mp hone
      exact hget

end Sample

end Bitcrab
