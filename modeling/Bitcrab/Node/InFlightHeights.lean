import Bitcrab.Net.BlockDownloader
import Bitcrab.Node.DownloadWindow
import Bitcrab.Node.LocatorAncestry

/-!
# The heights of the blocks in flight (`net/p2p/sync/block_downloader.rs`, `node/blockchain.rs`)

`coordinate_downloads` takes the height of a block from its position in the window. The window
leaves out the blocks that are on disk, so this is the height of its header only if no block is on
disk below a missing one.
-/

namespace Bitcrab

/-- `BLOCK_DOWNLOAD_WINDOW`. -/
def blockDownloadWindow : Nat := 8192

/-! ### Windows without holes -/

/-- If a function is defined on an initial part of a range, what it finds there is in the order of
the range. -/
lemma getElem?_filterMap_range' {α : Type} {f : Nat → Option α} {start count : Nat}
    (h : ∀ i j, i ≤ j → j < count → (f (start + j)).isSome → (f (start + i)).isSome) {i : Nat}
    {a : α} (hget : ((List.range' start count).filterMap f)[i]? = some a) :
    f (start + i) = some a := by
  induction count generalizing start i with
  | zero => simp at hget
  | succ count ih =>
    rw [List.range'_succ] at hget
    cases hfirst : f start with
    | none =>
      -- nothing is found after the first key
      have hnil : (List.range' (start + 1) count).filterMap f = [] := by
        refine List.filterMap_eq_nil_iff.mpr fun key hkey => ?_
        obtain ⟨hge, hlt⟩ := List.mem_range'_1.mp hkey
        by_contra hne
        have hkeySome : (f (start + (key - start))).isSome := by
          rw [Nat.add_sub_cancel' (by omega)]
          exact Option.isSome_iff_ne_none.mpr hne
        have := h 0 (key - start) (Nat.zero_le _) (by omega) hkeySome
        rw [Nat.add_zero, hfirst] at this
        cases this
      rw [List.filterMap_cons_none hfirst, hnil] at hget
      simp at hget
    | some b =>
      rw [List.filterMap_cons_some hfirst] at hget
      cases i with
      | zero =>
        obtain rfl := Option.some.inj hget
        exact hfirst
      | succ i =>
        rw [Nat.add_comm i 1, ← Nat.add_assoc]
        refine ih (fun i j hle hlt hj => ?_) hget
        rw [Nat.add_assoc, Nat.add_comm 1] at hj ⊢
        exact h (i + 1) (j + 1) (Nat.succ_le_succ hle) (Nat.succ_lt_succ hlt) hj

/-- The converse, for a function that finds nothing twice. -/
lemma isSome_of_getElem?_filterMap_range' {α : Type} {f : Nat → Option α} {start count : Nat}
    (hinj : ∀ i < count, ∀ j < count, ∀ a, f (start + i) = some a → f (start + j) = some a → i = j)
    (h : ∀ i a, ((List.range' start count).filterMap f)[i]? = some a → f (start + i) = some a)
    {i j : Nat} (hle : i ≤ j) (hlt : j < count) (hj : (f (start + j)).isSome) :
    (f (start + i)).isSome := by
  obtain ⟨a, ha⟩ := Option.isSome_iff_exists.mp hj
  have hmem : a ∈ (List.range' start count).filterMap f :=
    List.mem_filterMap.mpr ⟨start + j, List.mem_range'_1.mpr ⟨by omega, by omega⟩, ha⟩
  obtain ⟨k, hk⟩ := List.getElem?_of_mem hmem
  have hklt := (List.getElem?_eq_some_iff.mp hk).1
  have hlength := List.length_filterMap_le f (List.range' start count)
  rw [List.length_range'] at hlength
  -- the candidate of the key is at its position
  obtain rfl := hinj j hlt k (by omega) a ha (h k a hk)
  rw [h i _ (List.getElem?_eq_getElem (Nat.lt_of_le_of_lt hle hklt))]
  rfl

/-- Every entry of the chain is the hash of an indexed header of its height. -/
def CacheHeights (chain : List BlockHash) (s : Store) : Prop :=
  ∀ i hash, chain[i]? = some hash →
    ∃ index, s.getBlockIndex hash = .ok (some index) ∧ index.height.toNat = i

namespace Blockchain

variable {b : Blockchain} {start : UInt32} {limit : Nat}

/-- The number of heights of a window at which the cache has a block that is missing. -/
def missingCached (b : Blockchain) (start : UInt32) (limit : Nat) : Nat :=
  (List.range' (start.toNat + 1) limit).countP fun height => (b.missing b.cached height).isSome

/-- In neither phase is a block on disk below a missing one, and the heights are within `u32`. -/
structure NoHoles (b : Blockchain) (start : UInt32) (limit : Nat) : Prop where
  room : start.toNat + 1 + limit < 2 ^ 32
  cached : ∀ i j, i ≤ j → j < limit → (b.missing b.cached (start.toNat + 1 + j)).isSome →
    (b.missing b.cached (start.toNat + 1 + i)).isSome
  tabled : ∀ i j, b.missingCached start limit ≤ i → i ≤ j → j < limit →
    (b.missing b.tabled (start.toNat + 1 + j)).isSome →
      (b.missing b.tabled (start.toNat + 1 + i)).isSome

/-- A hash is proposed at its own height only. -/
lemma eq_of_missing_cached (hcache : CacheHeights b.bestHeaderChain b.node.store)
    {height height' : Nat} {hash : BlockHash} (h : b.missing b.cached height = some hash)
    (h' : b.missing b.cached height' = some hash) : height = height' := by
  obtain ⟨index, hindex, hheight⟩ := hcache height hash (missing_eq_some.mp h).1
  obtain ⟨index', hindex', hheight'⟩ := hcache height' hash (missing_eq_some.mp h').1
  obtain rfl := Option.some.inj (Except.ok.inj (hindex.symm.trans hindex'))
  omega

lemma hasHeight_of_missing_tabled (htable : b.node.store.Tabled) {height : Nat} {hash : BlockHash}
    (h : b.missing b.tabled height = some hash) :
    b.node.store.HasHeight hash (UInt32.ofNat height) :=
  htable.hasHeight _ _ (missing_eq_some.mp h).1

lemma eq_of_missing_tabled (htable : b.node.store.Tabled) {height height' : Nat} {hash : BlockHash}
    (hlt : height < 2 ^ 32) (hlt' : height' < 2 ^ 32) (h : b.missing b.tabled height = some hash)
    (h' : b.missing b.tabled height' = some hash) : height = height' := by
  have hsame :=
    (hasHeight_of_missing_tabled htable h).unique (hasHeight_of_missing_tabled htable h')
  have htoNat := congrArg UInt32.toNat hsame
  rwa [UInt32.toNat_ofNat_of_lt' hlt, UInt32.toNat_ofNat_of_lt' hlt'] at htoNat

/-- What the first phase queues: the missing blocks of the cache, in the order of their heights. -/
lemma entries_fromCache (hcache : CacheHeights b.bestHeaderChain b.node.store) (first limit : Nat) :
    (b.fromCache first limit).entries =
      (List.range' first limit).filterMap (b.missing b.cached) := by
  have hcovered : (List.range' first limit).filterMap (b.missing b.cached) =
      (List.range' first (min limit (b.bestHeaderChain.length - first))).filterMap
        (b.missing b.cached) := by
    have hsplit := List.range'_append_1 (s := first)
      (m := min limit (b.bestHeaderChain.length - first))
      (n := limit - min limit (b.bestHeaderChain.length - first))
    rw [Nat.add_sub_cancel' (Nat.min_le_left _ _)] at hsplit
    rw [← hsplit, List.filterMap_append, List.append_right_eq_self, List.filterMap_eq_nil_iff]
    intro height hheight
    obtain ⟨hge, hlt⟩ := List.mem_range'_1.mp hheight
    have hnone : b.cached height = none := List.getElem?_eq_none (by omega)
    rw [missing, hnone]
    rfl
  rw [hcovered, fromCache, DistinctList.entries_collect]
  · rfl
  · exact fun height _ height' _ hash h h' => eq_of_missing_cached hcache h h'
  · exact List.nodup_range'
  · intro _ _ _ _ hmem
    cases hmem

lemma length_fromCache (hcache : CacheHeights b.bestHeaderChain b.node.store) (start : UInt32)
    (limit : Nat) :
    (b.fromCache (start.toNat + 1) limit).entries.length = b.missingCached start limit := by
  rw [entries_fromCache hcache, List.length_filterMap_eq_countP]
  rfl

/-- The entries of the first phase are at the heights of their positions. -/
lemma exists_index_of_fromCache (hcache : CacheHeights b.bestHeaderChain b.node.store)
    (hclosed : ∀ i j, i ≤ j → j < limit → (b.missing b.cached (start.toNat + 1 + j)).isSome →
      (b.missing b.cached (start.toNat + 1 + i)).isSome) {i : Nat} {hash : BlockHash}
    (hget : (b.fromCache (start.toNat + 1) limit).entries[i]? = some hash) :
    ∃ index, b.node.store.getBlockIndex hash = .ok (some index) ∧
      index.height.toNat = start.toNat + 1 + i := by
  rw [entries_fromCache hcache] at hget
  exact hcache _ hash (missing_eq_some.mp (getElem?_filterMap_range' hclosed hget)).1

/-- Above a first phase without holes everything that the table has is queued. -/
lemma exists_window_eq (hroom : start.toNat + 1 + limit < 2 ^ 32)
    (hcache : CacheHeights b.bestHeaderChain b.node.store) (htable : b.node.store.Tabled)
    (hclosed : ∀ i j, i ≤ j → j < limit → (b.missing b.cached (start.toNat + 1 + j)).isSome →
      (b.missing b.cached (start.toNat + 1 + i)).isSome) :
    ∃ m ≤ limit - b.missingCached start limit, b.getNextBlockHashesForSync start limit =
        (b.fromCache (start.toNat + 1) limit).entries ++
          (List.range' (start.toNat + 1 + b.missingCached start limit) m).filterMap
            (b.missing b.tabled) ∧
      (m < limit - b.missingCached start limit →
        b.tabled (start.toNat + 1 + b.missingCached start limit + m) = none) := by
  have hcount := length_fromCache hcache start limit
  have hle := b.length_fromCache_le (start.toNat + 1) limit
  obtain ⟨m, hm, heq, -, hend⟩ :=
    b.exists_getNextBlockHashes_eq start limit hroom rfl hcount.symm
  refine ⟨m, hm, ?_, hend⟩
  rw [heq, DistinctList.entries_collect]
  · intro key hkey key' hkey' hash hfound hfound'
    obtain ⟨-, hlt⟩ := List.mem_range'_1.mp hkey
    obtain ⟨-, hlt'⟩ := List.mem_range'_1.mp hkey'
    exact eq_of_missing_tabled htable (by omega) (by omega) hfound hfound'
  · exact List.nodup_range'
  · -- the entries of the first phase are at lower heights
    intro key hkey hash hfound hmem
    obtain ⟨hge, hlt⟩ := List.mem_range'_1.mp hkey
    obtain ⟨j, hj⟩ := List.getElem?_of_mem hmem
    have hjlt := (List.getElem?_eq_some_iff.mp hj).1
    obtain ⟨index, hindex, hheight⟩ := exists_index_of_fromCache hcache hclosed hj
    obtain ⟨index', hindex', hheight'⟩ := hasHeight_of_missing_tabled htable hfound
    obtain rfl := Option.some.inj (Except.ok.inj (hindex.symm.trans hindex'))
    have htoNat := congrArg UInt32.toNat hheight'
    rw [UInt32.toNat_ofNat_of_lt' (show key < 2 ^ 32 by omega)] at htoNat
    omega

lemma add_one_add_ofNat (start : UInt32) (i : Nat) :
    start + 1 + UInt32.ofNat i = UInt32.ofNat (start.toNat + 1 + i) := by
  rw [UInt32.ofNat_add, UInt32.ofNat_add, UInt32.ofNat_toNat]
  rfl

/-- The positions in a window without holes are those of the heights. -/
lemma NoHoles.hasHeight (h : b.NoHoles start limit)
    (hcache : CacheHeights b.bestHeaderChain b.node.store) (htable : b.node.store.Tabled) {i : Nat}
    {hash : BlockHash} (hget : (b.getNextBlockHashesForSync start limit)[i]? = some hash) :
    b.node.store.HasHeight hash (start + 1 + UInt32.ofNat i) := by
  obtain ⟨m, hm, heq, -⟩ := exists_window_eq h.room hcache htable h.cached
  rw [heq, List.getElem?_append, length_fromCache hcache start limit] at hget
  rw [add_one_add_ofNat]
  split_ifs at hget with hi
  · obtain ⟨index, hindex, hheight⟩ := exists_index_of_fromCache hcache h.cached hget
    exact ⟨index, hindex, by rw [← hheight, UInt32.ofNat_toNat]⟩
  · have hclosed := h.tabled
    generalize b.missingCached start limit = count at *
    have hfound : b.missing b.tabled (start.toNat + 1 + count + (i - count)) = some hash := by
      refine getElem?_filterMap_range' (fun j k hjk hk hsome => ?_) hget
      rw [Nat.add_assoc] at hsome ⊢
      exact hclosed (count + j) (count + k) (by omega) (by omega) (by omega) hsome
    have hheight := hasHeight_of_missing_tabled htable hfound
    rwa [show start.toNat + 1 + count + (i - count) = start.toNat + 1 + i by omega] at hheight

/-- The converse: where the positions are those of the heights, the window has no holes. -/
lemma noHoles_of_hasHeight (hroom : start.toNat + 1 + limit < 2 ^ 32)
    (hcache : CacheHeights b.bestHeaderChain b.node.store) (htable : b.node.store.Tabled)
    (hbelow : ∀ height height', height ≤ height' → height' < 2 ^ 32 →
      (b.tabled height').isSome → (b.tabled height).isSome)
    (h : ∀ i hash, (b.getNextBlockHashesForSync start limit)[i]? = some hash →
      b.node.store.HasHeight hash (start + 1 + UInt32.ofNat i)) : b.NoHoles start limit := by
  have hsame : ∀ {height height' : Nat} {hash}, height < 2 ^ 32 → height' < 2 ^ 32 →
      b.node.store.HasHeight hash (UInt32.ofNat height) →
        b.node.store.HasHeight hash (UInt32.ofNat height') → height = height' := by
    intro height height' hash hlt hlt' hheight hheight'
    have htoNat := congrArg UInt32.toNat (hheight.unique hheight')
    rwa [UInt32.toNat_ofNat_of_lt' hlt, UInt32.toNat_ofNat_of_lt' hlt'] at htoNat
  have hclosed : ∀ i j, i ≤ j → j < limit →
      (b.missing b.cached (start.toNat + 1 + j)).isSome →
        (b.missing b.cached (start.toNat + 1 + i)).isSome := by
    intro i j hle hlt hj
    refine isSome_of_getElem?_filterMap_range' ?_ (fun i hash hi => ?_) hle hlt hj
    · intro i _ j _ hash hi hj
      have := eq_of_missing_cached hcache hi hj
      omega
    · obtain ⟨key, hkey, hfound⟩ := List.mem_filterMap.mp (List.mem_of_getElem? hi)
      obtain ⟨hge, hkeylt⟩ := List.mem_range'_1.mp hkey
      have hilt := (List.getElem?_eq_some_iff.mp hi).1
      have hlength := List.length_filterMap_le (b.missing b.cached)
        (List.range' (start.toNat + 1) limit)
      rw [List.length_range'] at hlength
      rw [← entries_fromCache hcache] at hi hilt
      obtain ⟨m, -, heq, -⟩ := b.exists_getNextBlockHashes_eq start limit hroom rfl rfl
      obtain ⟨added, found, hentries, -⟩ := DistinctList.exists_sublist_collect
        (b.fromCache (start.toNat + 1) limit) (b.missing b.tabled) (List.range' (start.toNat + 1 +
          (b.fromCache (start.toNat + 1) limit).entries.length) m)
      have hheight := h i hash (by rw [heq, hentries, List.getElem?_append_left hilt, hi])
      rw [add_one_add_ofNat] at hheight
      rw [entries_fromCache hcache] at hilt
      obtain ⟨index, hindex, hindexHeight⟩ := hcache key hash (missing_eq_some.mp hfound).1
      have hkeyHeight : b.node.store.HasHeight hash (UInt32.ofNat key) :=
        ⟨index, hindex, by rw [← hindexHeight, UInt32.ofNat_toNat]⟩
      rwa [hsame (by omega) (by omega) hheight hkeyHeight]
  refine ⟨hroom, hclosed, fun i j hcount hle hlt hj => ?_⟩
  obtain ⟨m, hm, heq, hend⟩ := exists_window_eq hroom hcache htable hclosed
  rw [heq] at h
  have hlength := length_fromCache hcache start limit
  generalize b.missingCached start limit = count at *
  -- nothing is left above the first height that the table does not have
  have hjlt : j < count + m := by
    by_contra hge
    have hnone := hend (by omega)
    obtain ⟨hash, hhash⟩ := Option.isSome_iff_exists.mp hj
    have hsome := hbelow (start.toNat + 1 + count + m) (start.toNat + 1 + j) (by omega) (by omega)
      (by rw [(missing_eq_some.mp hhash).1]; rfl)
    rw [hnone] at hsome
    cases hsome
  have hsplit : ∀ k, count ≤ k → start.toNat + 1 + k = start.toNat + 1 + count + (k - count) :=
    fun k hk => by omega
  rw [hsplit j (by omega)] at hj
  rw [hsplit i hcount]
  refine isSome_of_getElem?_filterMap_range' ?_ (fun k hash hk => ?_)
    (show i - count ≤ j - count by omega) (show j - count < m by omega) hj
  · intro k _ k' _ hash hk hk'
    have := eq_of_missing_tabled htable (by omega) (by omega) hk hk'
    omega
  · obtain ⟨key, hkey, hfound⟩ := List.mem_filterMap.mp (List.mem_of_getElem? hk)
    obtain ⟨hge, hkeylt⟩ := List.mem_range'_1.mp hkey
    have hklt := (List.getElem?_eq_some_iff.mp hk).1
    have hle := List.length_filterMap_le (b.missing b.tabled)
      (List.range' (start.toNat + 1 + count) m)
    rw [List.length_range'] at hle
    have hheight := h (count + k) hash (by
      rw [List.getElem?_append_right (by omega), hlength, Nat.add_sub_cancel_left, hk])
    rw [add_one_add_ofNat, ← Nat.add_assoc] at hheight
    rwa [hsame (by omega) (by omega) hheight (hasHeight_of_missing_tabled htable hfound)]

end Blockchain

/-! ### The heights of the cache in every run -/

section Cache

variable {chain : List BlockHash} {s s' : Store}

lemma CacheHeights.of_keeps (h : CacheHeights chain s) (hkeeps : s.KeepsHeaders s') :
    CacheHeights chain s' := by
  intro i hash hget
  obtain ⟨index, hindex, hheight⟩ := h i hash hget
  obtain ⟨index', hindex', hsame⟩ := hkeeps hash index hindex
  exact ⟨index', hindex', by rw [hsame.height, hheight]⟩

lemma updateHeaderChain_eq_or (chain : List BlockHash) (hash : BlockHash) (height : UInt32) :
    updateHeaderChain chain hash height = chain ∨
      height.toNat ≤ chain.length ∧
        updateHeaderChain chain hash height = chain.take height.toNat ++ [hash] := by
  unfold updateHeaderChain
  split_ifs with hfirst hend hbelow hother
  · obtain ⟨hnil, -, rfl⟩ := hfirst
    rw [List.isEmpty_iff.mp hnil]
    exact .inr ⟨Nat.le_refl 0, rfl⟩
  · exact .inr ⟨Nat.le_of_eq hend, by rw [hend, List.take_length]⟩
  · exact .inr ⟨Nat.le_of_lt hbelow, rfl⟩
  · exact .inl rfl
  · exact .inl rfl

variable [Sha2]

lemma CacheHeights.update (h : CacheHeights chain s) {x : BlockHeader × UInt32}
    (hindexed : s.Indexed x) : CacheHeights (updateHeaderChain chain x.1.blockHash x.2) s := by
  rcases updateHeaderChain_eq_or chain x.1.blockHash x.2 with hsame | ⟨hle, hchange⟩
  · rwa [hsame]
  · rw [hchange]
    intro i hash hget
    have hlength : (chain.take x.2.toNat).length = x.2.toNat := List.length_take_of_le hle
    rcases Nat.lt_trichotomy i x.2.toNat with hlt | rfl | hgt
    · rw [List.getElem?_append_left (by omega), List.getElem?_take_of_lt hlt] at hget
      exact h i hash hget
    · rw [List.getElem?_append_right (by omega), hlength, Nat.sub_self] at hget
      obtain rfl := Option.some.inj hget
      obtain ⟨index, hindex, -, hheight⟩ := hindexed
      exact ⟨index, hindex, by rw [hheight]⟩
    · rw [List.getElem?_eq_none (by simp; omega)] at hget
      cases hget

lemma CacheHeights.updateAll (h : CacheHeights chain s) {xs : List (BlockHeader × UInt32)}
    (hindexed : ∀ x ∈ xs, s.Indexed x) : CacheHeights (updateAll chain xs) s := by
  induction xs generalizing chain with
  | nil => exact h
  | cons x xs ih =>
    obtain ⟨hx, hxs⟩ := List.forall_mem_cons.mp hindexed
    exact ih (h.update hx) hxs

variable {cfg : Config} {seen : Set BlockHeader} {b b' : Blockchain}

lemma RootedIndex.cacheHeights_new (h : RootedIndex cfg seen s)
    (hzero : ∀ header ∈ seen, header.blockHash.isZero = false) :
    CacheHeights (Blockchain.new cfg s).bestHeaderChain (Blockchain.new cfg s).node.store :=
  fun _ _ hget => (h.locatorInv_new hzero).hasHeight_entry hget

/-- Every step keeps the heights of the cache, whatever the headers link to. -/
lemma CacheHeights.step [ScriptVerifier] (h : CacheHeights b.bestHeaderChain b.node.store)
    (hindex : RootedIndex cfg seen b.node.store) (hinj : seen.InjOn BlockHeader.blockHash)
    (hgenesis : cfg.params.genesisHeader ∈ seen)
    (hzero : ∀ header ∈ seen, header.blockHash.isZero = false) {e : BlockchainCall}
    (hstep : b.step cfg e = some b') (hallowed : b.Allowed cfg seen e) :
    CacheHeights b'.bestHeaderChain b'.node.store := by
  obtain ⟨-, hkeeps⟩ := hindex.step hinj hgenesis hstep hallowed
  cases e with
  | headers call =>
    obtain rfl := Option.some.inj hstep
    obtain ⟨-, hindexed⟩ := call.keeps_and_indexes cfg
      (RootedCall.collisionFree hallowed hinj) (hindex.knows hinj hallowed)
    exact (h.of_keeps hkeeps).updateAll hindexed
  | restart =>
    obtain rfl := Option.some.inj hstep
    exact hindex.cacheHeights_new hzero
  | processBlock block =>
    obtain rfl := Option.some.inj hstep
    exact h.of_keeps hkeeps
  | loadGenesis =>
    obtain rfl := Option.some.inj hstep
    exact h.of_keeps hkeeps
  | blocks node =>
    obtain rfl := Option.some.inj hstep
    exact h.of_keeps hkeeps

end Cache

/-! ### What a round marks -/

namespace SyncDownloadState

variable {Peer : Type} [DecidableEq Peer] (d : SyncDownloadState Peer)

lemma entries_markBlockReceived (hash : BlockHash) (peer : Peer) :
    (d.markBlockReceived hash peer).inFlightBlocks.entries ⊆ d.inFlightBlocks.entries := by
  unfold markBlockReceived
  split
  · exact List.Subset.refl _
  · exact List.kerase_sublist _ _ |>.subset

lemma entries_pruneTimeouts (order : List BlockHash) (peers : List Peer) (timeout now : Nat) :
    (d.pruneTimeouts order peers timeout now).2.inFlightBlocks.entries ⊆
      d.inFlightBlocks.entries :=
  List.filter_sublist.subset

lemma entries_onPeerDisconnect (peer : Peer) :
    (d.onPeerDisconnect peer).inFlightBlocks.entries ⊆ d.inFlightBlocks.entries :=
  List.filter_sublist.subset

omit [DecidableEq Peer] in
lemma entries_clearInFlight : d.clearInFlight.inFlightBlocks.entries ⊆ d.inFlightBlocks.entries :=
  List.nil_subset _

omit [DecidableEq Peer] in
/-- The loop of `get_bottleneck_info` finds an entry of the lowest height. -/
lemma lowestBlock_spec {entries : List (BlockHash × InFlight Peer)} {e : BlockHash × InFlight Peer}
    (h : lowestBlock entries = some e) :
    e ∈ entries ∧ ∀ e' ∈ entries, e.2.height ≤ e'.2.height := by
  have hspec : (lowestBlock entries = none → entries = []) ∧
      ∀ e, lowestBlock entries = some e →
        e ∈ entries ∧ ∀ e' ∈ entries, e.2.height ≤ e'.2.height := by
    clear h
    induction entries using List.reverseRecOn with
    | nil => exact ⟨fun _ => rfl, fun e he => by cases he⟩
    | append_singleton entries last ih =>
      rw [lowestBlock, List.foldl_append, List.foldl_cons, List.foldl_nil, ← lowestBlock]
      cases hbest : lowestBlock entries with
      | none =>
        rw [ih.1 hbest]
        simp
      | some best =>
        obtain ⟨hmem, hle⟩ := ih.2 best hbest
        refine ⟨fun hnone => ?_, fun e he => ?_⟩
        · dsimp only at hnone
          split_ifs at hnone
        dsimp only at he
        split_ifs at he with hlt <;> cases he
        · refine ⟨List.mem_append_right _ List.mem_cons_self, fun e' he' => ?_⟩
          rcases List.mem_append.mp he' with he' | he'
          · exact UInt32.le_trans (UInt32.le_of_lt hlt) (hle e' he')
          · rw [List.mem_singleton.mp he']
            exact UInt32.le_refl _
        · refine ⟨List.mem_append_left _ hmem, fun e' he' => ?_⟩
          rcases List.mem_append.mp he' with he' | he'
          · exact hle e' he'
          · rw [List.mem_singleton.mp he']
            exact UInt32.not_lt.mp hlt
  exact hspec.2 e h

end SyncDownloadState

namespace Round

variable {Peer : Type}

/-- The window of the loop over the peers. -/
def currentWindow : Round Peer → Option (Window Peer)
  | nextPeer w | collect w _ _ _ _ | allowed w _ _ _ _ _ | mark w _ _ _ | send w _ _ | unmark w _ _
  | disconnect w _ => some w
  | _ => none

/-- The blocks that the round may still mark for the peer that is being served. -/
def candidates : Round Peer → List BlockHash
  | collect _ _ _ rest toRequest => rest ++ toRequest
  | allowed _ _ _ hash rest toRequest => hash :: (rest ++ toRequest)
  | mark _ _ _ rest => rest
  | _ => []

/-- A property of the window of the round, from which its candidates are. -/
def FromWindow (P : UInt32 → List BlockHash → Prop) (r : Round Peer) : Prop :=
  ∀ w, r.currentWindow = some w → P w.bHeight w.missing ∧ r.candidates ⊆ w.missing

end Round

namespace BlockDownloader

variable {Peer : Type} [DecidableEq Peer] {b : BlockDownloader Peer}
  {P : UInt32 → List BlockHash → Prop}

/-- A step of the round keeps its window, or reads a new one. -/
lemma fromWindow_advance (h : b.round.FromWindow P) (a : Answers Peer)
    (hread : ∀ bHeight, b.round = .window bHeight → P bHeight a.missing) :
    (b.advance a).round.FromWindow P := by
  have hnone : ∀ r : Round Peer, r.currentWindow = none → r.FromWindow P := by
    intro r hr w hw
    rw [hr] at hw
    cases hw
  have hsome : ∀ (r : Round Peer) w, r.currentWindow = some w → P w.bHeight w.missing →
      r.candidates ⊆ w.missing → r.FromWindow P := by
    intro r w hr hP hsub w' hw'
    obtain rfl := Option.some.inj (hr.symm.trans hw')
    exact ⟨hP, hsub⟩
  cases hround : b.round with
  | idle => exact hnone _ (by simp only [advance, hround]; rfl)
  | prune => exact hnone _ (by simp only [advance, hround]; rfl)
  | bottleneck =>
    refine hnone _ ?_
    simp only [advance, hround]
    split
    · split_ifs <;> rfl
    · rfl
  | stumble hash peer => exact hnone _ (by simp only [advance, hround]; rfl)
  | rotate hash peer => exact hnone _ (by simp only [advance, hround]; rfl)
  | tips =>
    refine hnone _ ?_
    simp only [advance, hround]
    split_ifs <;> rfl
  | stall hHeight bHeight =>
    refine hnone _ ?_
    simp only [advance, hround]
    split_ifs <;> rfl
  | unblacklist bHeight now => exact hnone _ (by simp only [advance, hround]; rfl)
  | window bHeight =>
    simp only [advance, hround]
    generalize (if a.fullPeers.isEmpty = true then a.networkPeers else a.fullPeers) = peers
    split_ifs
    · exact hnone _ rfl
    · exact hsome _ _ rfl (hread bHeight hround) (List.nil_subset _)
  | nextPeer w =>
    obtain ⟨hP, -⟩ := h w (by rw [hround]; rfl)
    simp only [advance, hround]
    cases w.peers with
    | nil => exact hnone _ rfl
    | cons peer peers =>
      dsimp only
      split_ifs
      · exact hsome _ _ rfl hP (List.nil_subset _)
      · exact hsome _ _ rfl hP (by simp [Round.candidates])
  | collect w peer capacity rest toRequest =>
    obtain ⟨hP, hsub⟩ := h w (by rw [hround]; rfl)
    rw [hround] at hsub
    obtain ⟨hrest, hrequest⟩ := List.append_subset.mp hsub
    have hend : (request w peer toRequest).FromWindow P := by
      unfold request
      split_ifs
      · exact hsome _ _ rfl hP (List.nil_subset _)
      · exact hsome _ _ rfl hP hrequest
    simp only [advance, hround]
    cases rest with
    | nil => exact hend
    | cons hash rest =>
      obtain ⟨hhash, hrest⟩ := List.cons_subset.mp hrest
      dsimp only
      split_ifs
      · exact hend
      · exact hsome _ _ rfl hP
          (List.cons_subset.mpr ⟨hhash, List.append_subset.mpr ⟨hrest, hrequest⟩⟩)
      · exact hsome _ _ rfl hP (List.append_subset.mpr ⟨hrest, hrequest⟩)
  | allowed w peer capacity hash rest toRequest =>
    obtain ⟨hP, hsub⟩ := h w (by rw [hround]; rfl)
    rw [hround] at hsub
    obtain ⟨hhash, hsub⟩ := List.cons_subset.mp hsub
    obtain ⟨hrest, hrequest⟩ := List.append_subset.mp hsub
    simp only [advance, hround]
    split_ifs
    · refine hsome _ _ rfl hP
        (List.append_subset.mpr ⟨hrest, List.append_subset.mpr ⟨hrequest, ?_⟩⟩)
      exact List.cons_subset.mpr ⟨hhash, List.nil_subset _⟩
    · exact hsome _ _ rfl hP (List.append_subset.mpr ⟨hrest, hrequest⟩)
  | mark w peer toRequest rest =>
    obtain ⟨hP, hsub⟩ := h w (by rw [hround]; rfl)
    rw [hround] at hsub
    simp only [advance, hround]
    cases rest with
    | nil => exact hsome _ _ rfl hP (List.nil_subset _)
    | cons hash rest => exact hsome _ _ rfl hP (List.cons_subset.mp hsub).2
  | send w peer toRequest =>
    obtain ⟨hP, -⟩ := h w (by rw [hround]; rfl)
    simp only [advance, hround]
    split_ifs <;> exact hsome _ _ rfl hP (List.nil_subset _)
  | unmark w peer rest =>
    obtain ⟨hP, -⟩ := h w (by rw [hround]; rfl)
    simp only [advance, hround]
    cases rest <;> exact hsome _ _ rfl hP (List.nil_subset _)
  | disconnect w peer =>
    obtain ⟨hP, -⟩ := h w (by rw [hround]; rfl)
    simp only [advance, hround]
    exact hsome _ _ rfl hP (List.nil_subset _)

/-- The height that the round records for a block of its window. -/
def recordedHeight (w : Window Peer) (hash : BlockHash) : UInt32 :=
  w.bHeight + 1 + ((w.missing.findIdx? (· = hash)).getD 0).toUInt32

/-- A step that marks no block. -/
lemma entries_advance_subset (b : BlockDownloader Peer) (a : Answers Peer)
    (hne : ∀ w peer toRequest hash rest, b.round ≠ .mark w peer toRequest (hash :: rest)) :
    (b.advance a).downloads.inFlightBlocks.entries ⊆ b.downloads.inFlightBlocks.entries := by
  have hself := List.Subset.refl b.downloads.inFlightBlocks.entries
  cases hround : b.round with
  | prune =>
    simp only [advance, hround]
    exact b.downloads.entries_pruneTimeouts a.order a.peerOrder blockRequestTimeout a.now
  | rotate hash peer =>
    simp only [advance, hround]
    exact b.downloads.entries_markBlockReceived hash peer
  | stall hHeight bHeight =>
    simp only [advance, hround]
    split_ifs
    · exact hself
    · exact b.downloads.entries_clearInFlight
    · exact hself
  | unmark w peer rest =>
    simp only [advance, hround]
    cases rest with
    | nil => exact hself
    | cons hash rest => exact b.downloads.entries_markBlockReceived hash peer
  | disconnect w peer =>
    simp only [advance, hround]
    exact b.downloads.entries_onPeerDisconnect peer
  | mark w peer toRequest rest =>
    simp only [advance, hround]
    cases rest with
    | nil => exact hself
    | cons hash rest => exact absurd hround (hne w peer toRequest hash rest)
  | bottleneck =>
    simp only [advance, hround]
    split <;> exact hself
  | tips =>
    simp only [advance, hround]
    split_ifs <;> exact hself
  | nextPeer w =>
    simp only [advance, hround]
    cases w.peers <;> exact hself
  | collect w peer capacity rest toRequest =>
    simp only [advance, hround]
    cases rest <;> exact hself
  | _ =>
    simp only [advance, hround]
    exact hself

/-- What is in flight after a step was so before, or is the block that the step marks. -/
lemma entries_advance (b : BlockDownloader Peer) (a : Answers Peer) {hash : BlockHash}
    {block : InFlight Peer}
    (h : ⟨hash, block⟩ ∈ (b.advance a).downloads.inFlightBlocks.entries) :
    ⟨hash, block⟩ ∈ b.downloads.inFlightBlocks.entries ∨
      ∃ w, b.round.currentWindow = some w ∧ hash ∈ b.round.candidates ∧
        block.height = recordedHeight w hash := by
  by_cases hmark : ∃ w peer toRequest hash' rest, b.round = .mark w peer toRequest (hash' :: rest)
  · obtain ⟨w, peer, toRequest, hash', rest, hround⟩ := hmark
    simp only [advance, hround] at h
    rcases List.mem_cons.mp h with hnew | hold
    · obtain ⟨rfl, heq⟩ := Sigma.mk.inj_iff.mp hnew
      obtain rfl := eq_of_heq heq
      exact .inr ⟨w, by rw [hround]; rfl, by rw [hround]; exact List.mem_cons_self, rfl⟩
    · exact .inl ((List.kerase_sublist _ _).subset hold)
  · refine .inl (b.entries_advance_subset a ?_ h)
    rintro w peer toRequest hash' rest hround
    exact hmark ⟨w, peer, toRequest, hash', rest, hround⟩

end BlockDownloader

/-! ### The node that downloads -/

/-- A node and its block downloader. -/
structure SyncSystem (Peer : Type) where
  chain : Blockchain
  downloader : BlockDownloader Peer

/-- What happens to the chain, a call of `SyncManager` or a step of a round, and a restart. -/
inductive SyncEvent (Peer : Type) where
  | chain (call : BlockchainCall)
  | task (e : BlockDownloader.Event Peer)
  | restart (unixTime : Nat)

namespace SyncSystem

variable [Sha2] {Peer : Type} [DecidableEq Peer]

/-- The first start of a node. -/
def init (cfg : Config) (unixTime : Nat) : SyncSystem Peer :=
  ⟨Blockchain.init cfg, BlockDownloader.new unixTime⟩

omit [Sha2] [DecidableEq Peer] in
/-- What a round reads of the chain comes from `get_next_block_hashes`. -/
def answer (s : SyncSystem Peer) : BlockDownloader.Event Peer → BlockDownloader.Event Peer
  | .advance a =>
    match s.downloader.round with
    | .window bHeight =>
      .advance { a with
        missing := s.chain.getNextBlockHashesForSync bHeight blockDownloadWindow }
    | _ => .advance a
  | e => e

/-- One step. A restart of the chain is one of the process, so it ends the downloads as well. -/
def step [ScriptVerifier] (cfg : Config) (s : SyncSystem Peer) :
    SyncEvent Peer → Option (SyncSystem Peer)
  | .chain .restart => none
  | .chain call => (s.chain.step cfg call).map fun chain => { s with chain }
  | .task e => (s.downloader.step (s.answer e)).map fun downloader => { s with downloader }
  | .restart unixTime =>
    some ⟨Blockchain.new cfg s.chain.node.store, BlockDownloader.new unixTime⟩

/-- A step with headers of `seen`, in which only `coordinate_downloads` marks blocks. -/
def Allowed (cfg : Config) (seen : Set BlockHeader) (s : SyncSystem Peer) : SyncEvent Peer → Prop
  | .chain call => s.chain.Allowed cfg seen call
  | .task e => e.isMark = false
  | .restart _ => True

omit [Sha2] [DecidableEq Peer] in
/-- A window that is read has no holes. -/
def NoHoles (s : SyncSystem Peer) : SyncEvent Peer → Prop
  | .task (.advance _) =>
    ∀ bHeight, s.downloader.round = .window bHeight → s.chain.NoHoles bHeight blockDownloadWindow
  | _ => True

/-- The heights in flight are those of the headers, so that the bottleneck is a block of the lowest
height. -/
structure RealHeights (s : SyncSystem Peer) : Prop where
  recorded : ∀ hash block, ⟨hash, block⟩ ∈ s.downloader.downloads.inFlightBlocks.entries →
    s.chain.node.store.HasHeight hash block.height
  bottleneck : ∀ order now hash peer duration,
    s.downloader.downloads.getBottleneckInfo order now = some (hash, peer, duration) →
      hash ∈ s.downloader.downloads.inFlightBlocks ∧
        ∀ hash' ∈ s.downloader.downloads.inFlightBlocks, ∀ height height',
          s.chain.node.store.HasHeight hash height →
            s.chain.node.store.HasHeight hash' height' → height ≤ height'

/-- The heights of a window are those of its positions. -/
def WindowHeights (store : Store) (bHeight : UInt32) (missing : List BlockHash) : Prop :=
  ∀ i hash, missing[i]? = some hash → store.HasHeight hash (bHeight + 1 + UInt32.ofNat i)

/-- What holds in a run without holes. -/
structure HeightsInv (cfg : Config) (seen : Set BlockHeader) (s : SyncSystem Peer) : Prop where
  index : RootedIndex cfg seen s.chain.node.store
  cache : CacheHeights s.chain.bestHeaderChain s.chain.node.store
  inFlight : ∀ hash block, ⟨hash, block⟩ ∈ s.downloader.downloads.inFlightBlocks.entries →
    s.chain.node.store.HasHeight hash block.height
  window : s.downloader.round.FromWindow (WindowHeights s.chain.node.store)

section Runs

variable {cfg : Config} {seen : Set BlockHeader} {s s' : SyncSystem Peer}

omit [Sha2] [DecidableEq Peer] in
/-- The position of a block of the window gives its height. -/
lemma hasHeight_recordedHeight {store : Store} {w : Window Peer} {hash : BlockHash}
    (h : WindowHeights store w.bHeight w.missing) (hmem : hash ∈ w.missing) :
    store.HasHeight hash (BlockDownloader.recordedHeight w hash) := by
  obtain ⟨i, hi⟩ : ∃ i, w.missing.findIdx? (· = hash) = some i :=
    Option.isSome_iff_exists.mp
      (List.findIdx?_isSome.trans (List.any_eq_true.mpr ⟨hash, hmem, by simp⟩))
  obtain ⟨hlt, hsame, -⟩ := List.findIdx?_eq_some_iff_getElem.mp hi
  rw [BlockDownloader.recordedHeight, hi]
  exact h i hash (by rw [List.getElem?_eq_getElem hlt, of_decide_eq_true hsame])

omit [DecidableEq Peer] in
lemma HeightsInv.of_chain {chain : Blockchain} (h : HeightsInv cfg seen s)
    (hindex : RootedIndex cfg seen chain.node.store)
    (hcache : CacheHeights chain.bestHeaderChain chain.node.store)
    (hkeeps : s.chain.node.store.KeepsHeaders chain.node.store) :
    HeightsInv cfg seen { s with chain } where
  index := hindex
  cache := hcache
  inFlight := fun hash block hmem => hkeeps.hasHeight (h.inFlight hash block hmem)
  window := by
    intro w hw
    obtain ⟨hheights, hsub⟩ := h.window w hw
    exact ⟨fun i hash hi => hkeeps.hasHeight (hheights i hash hi), hsub⟩

omit [DecidableEq Peer] in
lemma HeightsInv.of_releases {d : SyncDownloadState Peer} (h : HeightsInv cfg seen s)
    (hsub : d.inFlightBlocks.entries ⊆ s.downloader.downloads.inFlightBlocks.entries) :
    HeightsInv cfg seen { s with downloader := { s.downloader with downloads := d } } :=
  ⟨h.index, h.cache, fun hash block hmem => h.inFlight hash block (hsub hmem), h.window⟩

/-- A step of a round, with what it reads of the chain. -/
lemma HeightsInv.advance (h : HeightsInv cfg seen s) (a : Answers Peer)
    (hread : ∀ bHeight, s.downloader.round = .window bHeight →
      WindowHeights s.chain.node.store bHeight a.missing) :
    HeightsInv cfg seen { s with downloader := s.downloader.advance a } where
  index := h.index
  cache := h.cache
  inFlight := by
    intro hash block hmem
    rcases s.downloader.entries_advance a hmem with hold | ⟨w, hw, hcandidate, hheight⟩
    · exact h.inFlight hash block hold
    · obtain ⟨hheights, hsub⟩ := h.window w hw
      rw [hheight]
      exact hasHeight_recordedHeight hheights (hsub hcandidate)
  window := BlockDownloader.fromWindow_advance h.window a hread

lemma HeightsInv.step [ScriptVerifier] (h : HeightsInv cfg seen s)
    (hinj : seen.InjOn BlockHeader.blockHash) (hgenesis : cfg.params.genesisHeader ∈ seen)
    (hzero : ∀ header ∈ seen, header.blockHash.isZero = false) {e : SyncEvent Peer}
    (hstep : s.step cfg e = some s') (hallowed : s.Allowed cfg seen e) (hholes : s.NoHoles e) :
    HeightsInv cfg seen s' := by
  have hchain : ∀ call, (s.chain.step cfg call).map (fun chain => { s with chain }) = some s' →
      s.chain.Allowed cfg seen call → HeightsInv cfg seen s' := by
    intro call hmap hallowed
    obtain ⟨chain, hcall, rfl⟩ := Option.map_eq_some_iff.mp hmap
    obtain ⟨hindex, hkeeps⟩ := h.index.step hinj hgenesis hcall hallowed
    exact h.of_chain hindex (h.cache.step h.index hinj hgenesis hzero hcall hallowed) hkeeps
  cases e with
  | chain call =>
    cases call with
    | restart => cases hstep
    | headers call => exact hchain (.headers call) hstep hallowed
    | processBlock block => exact hchain (.processBlock block) hstep hallowed
    | loadGenesis => exact hchain .loadGenesis hstep hallowed
    | blocks node => exact hchain (.blocks node) hstep hallowed
  | restart unixTime =>
    obtain rfl := Option.some.inj hstep
    have hrestart : s.chain.step cfg .restart = some (Blockchain.new cfg s.chain.node.store) := rfl
    obtain ⟨hindex, -⟩ := h.index.step hinj hgenesis hrestart trivial
    exact ⟨hindex, h.index.cacheHeights_new hzero, nofun, nofun⟩
  | task e =>
    obtain ⟨downloader, htask, rfl⟩ := Option.map_eq_some_iff.mp hstep
    cases e with
    | advance a =>
      have hanswer : ∃ a', s.answer (.advance a) = .advance a' ∧
          ∀ bHeight, s.downloader.round = .window bHeight →
            WindowHeights s.chain.node.store bHeight a'.missing := by
        unfold answer
        dsimp only
        split
        · rename_i bHeight hround
          refine ⟨_, rfl, fun bHeight' hround' => ?_⟩
          obtain rfl := Round.window.inj (hround.symm.trans hround')
          exact fun i hash hi => (hholes bHeight hround).hasHeight h.cache h.index.tabled hi
        · rename_i hne
          exact ⟨a, rfl, fun bHeight hround => absurd hround (hne bHeight)⟩
      obtain ⟨a', heq, hread⟩ := hanswer
      rw [heq] at htask
      obtain rfl := Option.some.inj htask
      exact h.advance a' hread
    | markBlockInFlight => cases hallowed
    | markBlockReceived hash peer =>
      obtain rfl := Option.some.inj htask
      exact h.of_releases (s.downloader.downloads.entries_markBlockReceived hash peer)
    | pruneTimeouts order peers timeout now =>
      obtain rfl := Option.some.inj htask
      exact h.of_releases (s.downloader.downloads.entries_pruneTimeouts order peers timeout now)
    | onPeerDisconnect peer =>
      obtain rfl := Option.some.inj htask
      exact h.of_releases (s.downloader.downloads.entries_onPeerDisconnect peer)
    | clearInFlight =>
      obtain rfl := Option.some.inj htask
      exact h.of_releases s.downloader.downloads.entries_clearInFlight
    | recalculateWorkloads order =>
      obtain rfl := Option.some.inj htask
      exact h.of_releases (List.Subset.refl _)
    | recordBlockStumble hash peer =>
      obtain rfl := Option.some.inj htask
      exact h.of_releases (List.Subset.refl _)
    | clearBlacklist =>
      obtain rfl := Option.some.inj htask
      exact h.of_releases (List.Subset.refl _)

omit [DecidableEq Peer] in
lemma heightsInv_init [ScriptVerifier] (hgenesis : cfg.params.genesisHeader ∈ seen)
    (unixTime : Nat) : HeightsInv cfg seen (init cfg unixTime : SyncSystem Peer) :=
  ⟨rootedIndex_init hgenesis, nofun, nofun, nofun⟩

omit [DecidableEq Peer] in
lemma HeightsInv.realHeights (h : HeightsInv cfg seen s) : s.RealHeights where
  recorded := h.inFlight
  bottleneck := by
    intro order now hash peer duration hinfo
    obtain ⟨⟨hash₀, block⟩, hlowest, heq⟩ := Option.map_eq_some_iff.mp hinfo
    obtain ⟨rfl, -⟩ := Prod.mk.inj heq
    obtain ⟨hmem, hle⟩ := SyncDownloadState.lowestBlock_spec hlowest
    have hlookup := HashMap.mem_iter.mp hmem
    refine ⟨AList.lookup_isSome.mp (by rw [hlookup]; rfl), ?_⟩
    intro hash' hin height height' hheight hheight'
    obtain ⟨block', hlookup'⟩ := Option.isSome_iff_exists.mp (AList.lookup_isSome.mpr hin)
    obtain rfl := hheight.unique (h.inFlight _ _ (AList.mem_lookup_iff.mp hlookup))
    obtain rfl := hheight'.unique (h.inFlight _ _ (AList.mem_lookup_iff.mp hlookup'))
    exact hle _ (HashMap.mem_iter.mpr hlookup')

omit [DecidableEq Peer] in
/-- The heights of a window are those of its positions exactly if it has no holes. -/
lemma HeightsInv.noHoles_iff (h : HeightsInv cfg seen s)
    (hzero : ∀ header ∈ seen, header.blockHash.isZero = false) {bHeight : UInt32} {limit : Nat}
    (hroom : bHeight.toNat + 1 + limit < 2 ^ 32) :
    s.chain.NoHoles bHeight limit ↔ WindowHeights s.chain.node.store bHeight
      (s.chain.getNextBlockHashesForSync bHeight limit) := by
  refine ⟨fun hholes i hash hi => hholes.hasHeight h.cache h.index.tabled hi, fun hheights =>
    Blockchain.noHoles_of_hasHeight hroom h.cache h.index.tabled ?_ hheights⟩
  -- below a header there is one at every height
  intro height height' hle hlt hsome
  obtain ⟨hash, hhash⟩ := Option.isSome_iff_exists.mp hsome
  obtain ⟨index, hindex, hheight⟩ := h.index.tabled.hasHeight _ hash hhash
  have hbelow : UInt32.ofNat height ≤ index.height := by
    rw [hheight, UInt32.le_iff_toNat_le, UInt32.toNat_ofNat_of_lt' hlt,
      UInt32.toNat_ofNat_of_lt' (show height < 2 ^ 32 by omega)]
    exact hle
  obtain ⟨ancestor, -, hancestor⟩ :=
    (h.index.headers.descends h.index.genesis hzero).exists_ancestor hindex hbelow
  exact h.index.tabled.filed ancestor _ hancestor

lemma heightsInv_of_reachable [ScriptVerifier] (hinj : seen.InjOn BlockHeader.blockHash)
    (hzero : ∀ header ∈ seen, header.blockHash.isZero = false)
    (hgenesis : cfg.params.genesisHeader ∈ seen) {unixTime : Nat}
    (h : Reachable (step cfg) (fun s e _ => s.Allowed cfg seen e ∧ s.NoHoles e)
      (init cfg unixTime) s) : HeightsInv cfg seen s := by
  refine h.invariant _ (heightsInv_init hgenesis unixTime) ?_
  rintro s e s' hs hstep ⟨hallowed, hholes⟩
  exact hs.step hinj hgenesis hzero hstep hallowed hholes

lemma reachable_headers [ScriptVerifier] {s₀ : SyncSystem Peer}
    (h : Reachable (step cfg) (fun s e _ => s.Allowed cfg seen e ∧ s.NoHoles e) s₀ s)
    {call : HeadersCall} (hrooted : RootedCall cfg seen s.chain.node call.toCall) :
    Reachable (step cfg) (fun s e _ => s.Allowed cfg seen e ∧ s.NoHoles e) s₀
      { s with chain := ⟨call.node cfg s.chain.node,
        updateAll s.chain.bestHeaderChain (call.answered cfg s.chain.node)⟩ } :=
  .step (e := .chain (.headers call)) h rfl ⟨hrooted, trivial⟩

/-- A step of a round. -/
def advance (s : SyncSystem Peer) (a : Answers Peer) : SyncSystem Peer :=
  match s.answer (.advance a) with
  | .advance a' => { s with downloader := s.downloader.advance a' }
  | _ => s

omit [Sha2] in
lemma advance_eq (s : SyncSystem Peer) (a : Answers Peer) :
    ∃ a', s.answer (.advance a) = .advance a' ∧
      s.advance a = { s with downloader := s.downloader.advance a' } := by
  unfold advance answer
  dsimp only
  split <;> exact ⟨_, rfl, rfl⟩

omit [Sha2] in
@[simp] lemma chain_advance (s : SyncSystem Peer) (a : Answers Peer) :
    (s.advance a).chain = s.chain := by
  obtain ⟨a', -, heq⟩ := s.advance_eq a
  rw [heq]

/-- Steps of rounds, all of which read the same window, if it has no holes. -/
lemma reachable_advance [ScriptVerifier] {s₀ : SyncSystem Peer}
    (h : Reachable (step cfg) (fun s e _ => s.Allowed cfg seen e ∧ s.NoHoles e) s₀ s)
    {a : Answers Peer} {bHeight : UInt32} (hholes : s.chain.NoHoles bHeight blockDownloadWindow)
    (n : Nat) (hsame : ∀ k < n, ∀ bHeight',
      ((advance · a)^[k] s).downloader.round = .window bHeight' → bHeight' = bHeight) :
    ((advance · a)^[n] s).chain = s.chain ∧
      Reachable (step cfg) (fun s e _ => s.Allowed cfg seen e ∧ s.NoHoles e) s₀
        ((advance · a)^[n] s) := by
  induction n with
  | zero => exact ⟨rfl, h⟩
  | succ n ih =>
    obtain ⟨hchain, hrun⟩ := ih fun k hk => hsame k (Nat.lt_succ_of_lt hk)
    rw [Function.iterate_succ_apply', chain_advance]
    refine ⟨hchain, ?_⟩
    obtain ⟨a', hanswer, heq⟩ := ((advance · a)^[n] s).advance_eq a
    refine .step (e := .task (.advance a)) hrun ?_ ⟨rfl, fun bHeight' hround => ?_⟩
    · rw [heq, step, hanswer]
      rfl
    · rwa [hchain, hsame n (Nat.lt_succ_self n) bHeight' hround]

end Runs

end SyncSystem

/-- In every run in which no window that is read has holes, the heights in flight are real. In its
states the positions of a window are those of the heights exactly if it has no holes. -/
theorem inFlightHeights_real [Sha2] [ScriptVerifier] {Peer : Type} [DecidableEq Peer] {cfg : Config}
    {seen : Set BlockHeader} (hinj : seen.InjOn BlockHeader.blockHash)
    (hzero : ∀ header ∈ seen, header.blockHash.isZero = false)
    (hgenesis : cfg.params.genesisHeader ∈ seen) {unixTime : Nat} {s : SyncSystem Peer}
    (h : Reachable (SyncSystem.step cfg) (fun s e _ => s.Allowed cfg seen e ∧ s.NoHoles e)
      (SyncSystem.init cfg unixTime) s) :
    s.RealHeights ∧ ∀ bHeight : UInt32, bHeight.toNat + 1 + blockDownloadWindow < 2 ^ 32 →
      (s.chain.NoHoles bHeight blockDownloadWindow ↔
        SyncSystem.WindowHeights s.chain.node.store bHeight
          (s.chain.getNextBlockHashesForSync bHeight blockDownloadWindow)) := by
  have hinv := SyncSystem.heightsInv_of_reachable hinj hzero hgenesis h
  exact ⟨hinv.realHeights, fun _ hroom => hinv.noHoles_iff hzero hroom⟩

/-! ### A block that arrives early -/

namespace Sample

/-- A node after its first start. -/
def syncStart : SyncSystem Nat := SyncSystem.init cfg 0

/-- A headers tip that is ahead of the blocks tip, and one peer. -/
def roundAnswers : Answers Nat where
  headersTip := (hashOf 2, 2)
  blocksTip := (genesisHash, 0)
  missing := []
  fullPeers := [7]

/-- The first block of the longer fork. -/
def firstForkBlock : Block := { nextBlock with header := forkHeader }

/-- A call of headers, from the first start. -/
def afterHeaders (headers : List BlockHeader) : SyncSystem Nat :=
  { syncStart with chain := afterCall syncStart.chain (.processHeaders headers) }

lemma height_of_init {hash : BlockHash} {index : BlockIndex}
    (h : syncStart.chain.node.store.getBlockIndex hash = .ok (some index)) : index.height = 0 := by
  change (Store.empty.addGenesis cfg.params).getBlockIndex hash = _ at h
  rw [Store.getBlockIndex_addGenesis] at h
  split_ifs at h
  · obtain rfl := Option.some.inj (Except.ok.inj h)
    rfl
  · simp at h

lemma reachable_afterHeaders (headers : List BlockHeader) (hsub : headers ⊆ forkSeen)
    (hlength : headers.length < 10) :
    Reachable (SyncSystem.step cfg)
      (fun s e _ => s.Allowed cfg { h | h ∈ forkSeen } e ∧ s.NoHoles e) syncStart
      (afterHeaders headers) := by
  have hrooted : RootedCall cfg { h | h ∈ forkSeen } syncStart.chain.node
      (HeadersCall.processHeaders headers).toCall := by
    refine ⟨fun header hheader => hsub hheader, by simp [HeadersCall.toCall],
      fun hash index hindex => ?_⟩
    rw [height_of_init hindex]
    exact Nat.lt_trans (by simpa [HeadersCall.toCall, Call.newHeaders] using hlength) (by decide)
  exact SyncSystem.reachable_headers .init hrooted

/-- The first block arrives, and a round marks what is missing. -/
def earlyBlockEvents : List (SyncEvent Nat) :=
  .chain (.processBlock firstForkBlock) :: List.replicate 11 (.task (.advance roundAnswers))

/-- The events of these runs. -/
def earlyBlockCheck : SyncEvent Nat → Bool
  | .chain (.processBlock block) => block.header = forkHeader
  | .task e => !e.isMark
  | _ => false

set_option maxRecDepth 100000 in
lemma run_earlyBlock :
    (Reachable.run (SyncSystem.step cfg) (fun _ e _ => earlyBlockCheck e)
      (afterHeaders [forkHeader, forkBlock.header]) earlyBlockEvents).map (fun s =>
        (s.downloader.downloads.inFlightBlocks.entries.map fun e => (e.1, e.2.height),
          heightAndParent s.chain.node.store forkBlock.header.blockHash)) =
      some ([(forkBlock.header.blockHash, 1)], some (2, forkHeader.blockHash)) := by
  have hrun : ∀ s, syncStart = s →
      (Reachable.run (SyncSystem.step cfg) (fun _ e _ => earlyBlockCheck e)
        { s with chain := afterCall s.chain (.processHeaders [forkHeader, forkBlock.header]) }
          earlyBlockEvents).map (fun s =>
          (s.downloader.downloads.inFlightBlocks.entries.map fun e => (e.1, e.2.height),
            heightAndParent s.chain.node.store forkBlock.header.blockHash)) =
        some ([(forkBlock.header.blockHash, 1)], some (2, forkHeader.blockHash)) := by
    intro s hs
    unfold syncStart SyncSystem.init Blockchain.init cfg at hs
    unfold afterCall cfg earlyBlockEvents heightAndParent
    unfold HeadersCall.answered HeadersCall.node Node.answeredHeaders
    rw [sha2_eq_forkDigests] at hs ⊢
    unfold Node.init Node.loadGenesisBlock ChainParams.genesisIndex at hs
    unfold Node.processHeaders HeaderBatch.acceptHeaders HeaderBatch.acceptHeaders
      HeaderBatch.acceptHeader HeaderBatch.push
    rw [calculateBlockWork_eq_division] at hs ⊢
    subst hs
    decide +kernel
  exact hrun _ rfl

/-- The block at height 2 is recorded at height 1, as the one at height 1 is on disk. -/
theorem not_realHeights_forkBlock :
    ¬ ∀ s, Reachable (SyncSystem.step cfg) (fun s e _ => s.Allowed cfg { h | h ∈ forkSeen } e)
      syncStart s → s.RealHeights := by
  intro h
  obtain ⟨s, hrun, hs⟩ := Option.map_eq_some_iff.mp run_earlyBlock
  obtain ⟨hentries, hindex⟩ := Prod.mk.inj hs
  have hstart := (reachable_afterHeaders [forkHeader, forkBlock.header]
    (by simp [forkSeen]) (by decide)).mono fun _ _ _ hok => hok.1
  have hreach : Reachable (SyncSystem.step cfg)
      (fun s e _ => s.Allowed cfg { h | h ∈ forkSeen } e) syncStart s := by
    refine hstart.of_run (fun s e s' hcheck => ?_) hrun
    cases e with
    | chain call =>
      cases call with
      | processBlock block =>
        have hheader : block.header = forkHeader := of_decide_eq_true hcheck
        simp [SyncSystem.Allowed, Blockchain.Allowed, hheader, forkSeen]
      | _ => cases hcheck
    | task e => simpa [earlyBlockCheck, SyncSystem.Allowed] using hcheck
    | restart unixTime => cases hcheck
  obtain ⟨⟨hash, block⟩, hmem, heq⟩ := List.mem_map.mp (hentries ▸ List.mem_cons_self)
  obtain ⟨rfl, hheight⟩ := Prod.mk.inj heq
  obtain ⟨index, hget, hreal, -⟩ := exists_index_of_heightAndParent hindex
  obtain ⟨index', hget', hrecorded⟩ := (h s hreach).recorded _ block hmem
  obtain rfl := Option.some.inj (Except.ok.inj (hget.symm.trans hget'))
  rw [hreal, hheight] at hrecorded
  cases hrecorded

/-- The round does not read a window, or reads the one after this height. -/
def readsFrom (bHeight : UInt32) : Round Nat → Bool
  | .window bHeight' => bHeight' = bHeight
  | _ => true

/-- What a run after one header finds. -/
def NextHeader (s : SyncSystem Nat) : Prop :=
  s.chain.bestHeaderChain = [] ∧
    (forkSeen.map fun header =>
      (heightAndParent s.chain.node.store header.blockHash).map (·.1)) =
      [some 0, some 1, none, none] ∧
    (∀ k < 11, readsFrom 0 ((SyncSystem.advance · roundAnswers)^[k] s).downloader.round = true) ∧
    (((SyncSystem.advance · roundAnswers)^[11] s).downloader.downloads.inFlightBlocks.entries.map
      fun e => (e.1, e.2.height)) = [(nextBlock.header.blockHash, 1)]

set_option maxRecDepth 100000 in
lemma run_nextHeader : NextHeader (afterHeaders [nextBlock.header]) := by
  have hrun : ∀ s, syncStart = s →
      NextHeader { s with chain := afterCall s.chain (.processHeaders [nextBlock.header]) } := by
    intro s hs
    unfold syncStart SyncSystem.init Blockchain.init cfg at hs
    unfold NextHeader afterCall cfg heightAndParent forkSeen
    unfold HeadersCall.answered HeadersCall.node Node.answeredHeaders
    rw [sha2_eq_forkDigests] at hs ⊢
    unfold Node.init Node.loadGenesisBlock ChainParams.genesisIndex at hs
    unfold Node.processHeaders HeaderBatch.acceptHeaders HeaderBatch.acceptHeader HeaderBatch.push
    rw [calculateBlockWork_eq_division] at hs ⊢
    subst hs
    decide +kernel
  exact hrun _ rfl

lemma noHoles_nextHeader :
    (afterHeaders [nextBlock.header]).chain.NoHoles 0 blockDownloadWindow := by
  obtain ⟨hchain, hheights, -⟩ := run_nextHeader
  have hinv := SyncSystem.heightsInv_of_reachable injOn_forkSeen collisionFree_forkSeen.2
    genesisHeader_mem_forkSeen (reachable_afterHeaders [nextBlock.header]
      (by simp [forkSeen]) (by decide))
  have hle : ∀ hash index, (afterHeaders [nextBlock.header]).chain.node.store.getBlockIndex hash =
      .ok (some index) → index.height.toNat ≤ 1 := by
    intro hash index hindex
    have hmem := List.mem_map_of_mem (f := fun header : BlockHeader => (heightAndParent
      (afterHeaders [nextBlock.header]).chain.node.store header.blockHash).map (·.1))
      (hinv.index.headers.seen hash index hindex)
    rw [hheights, hinv.index.headers.hash hash index hindex, heightAndParent,
      Store.findBlockIndex_of_getBlockIndex hindex, Option.map_some, Option.map_some] at hmem
    have hle : ∀ height : UInt32, some height ∈ [some (0 : UInt32), some 1, none, none] →
        height.toNat ≤ 1 := by
      simp
    exact hle index.height hmem
  refine ⟨by decide, fun i j _ _ hj => ?_, fun i j _ hij hlt hj => ?_⟩
  · have hnone : (afterHeaders [nextBlock.header]).chain.missing
        (afterHeaders [nextBlock.header]).chain.cached (UInt32.toNat 0 + 1 + j) = none := by
      rw [Blockchain.missing, Blockchain.cached, hchain]
      rfl
    rw [hnone] at hj
    cases hj
  · obtain ⟨hash, hhash⟩ := Option.isSome_iff_exists.mp hj
    obtain ⟨index, hindex, hheight⟩ :=
      Blockchain.hasHeight_of_missing_tabled hinv.index.tabled hhash
    have htoNat := congrArg UInt32.toNat hheight
    rw [UInt32.toNat_ofNat_of_lt' (show UInt32.toNat 0 + 1 + j < 2 ^ 32 by
      rw [blockDownloadWindow] at hlt
      simp only [UInt32.toNat_zero]
      omega), UInt32.toNat_zero] at htoNat
    have := hle hash index hindex
    obtain rfl : i = j := by omega
    exact hj

/-- With nothing on disk the block at height 1 is recorded at its height. -/
theorem realHeights_nextBlock :
    ∃ s, Reachable (SyncSystem.step cfg)
        (fun s e _ => s.Allowed cfg { h | h ∈ forkSeen } e ∧ s.NoHoles e) syncStart s ∧
      (s.downloader.downloads.inFlightBlocks.entries.map fun e => (e.1, e.2.height)) =
        [(nextBlock.header.blockHash, 1)] ∧ s.RealHeights := by
  obtain ⟨-, -, hreads, hentries⟩ := run_nextHeader
  have hstart := reachable_afterHeaders [nextBlock.header] (by simp [forkSeen])
    (by decide)
  obtain ⟨-, hreach⟩ := SyncSystem.reachable_advance hstart noHoles_nextHeader 11
    (fun k hk bHeight hround => by
      have hread := hreads k hk
      rw [hround] at hread
      exact of_decide_eq_true hread)
  exact ⟨_, hreach, hentries, (inFlightHeights_real injOn_forkSeen collisionFree_forkSeen.2
    genesisHeader_mem_forkSeen hreach).1⟩

end Sample

end Bitcrab
