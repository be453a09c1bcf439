import Bitcrab.Node.HeaderChain
import Bitcrab.Node.Retarget
import Bitcrab.Types.BlockLocator
import Mathlib.Logic.Relation

/-!
# Block locators and the branch of their tip (`node/blockchain.rs`)

`block_locator` puts its tip first, and then the hashes that the cache and the height tables have at
lower heights. These are of the chain that the node has followed last, and not of the branch of the
tip.
-/

namespace Bitcrab

open BlockManager Result

section

variable [Sha2]

/-! ### The locator -/

/-- `Blockchain::header_hash_at_height`. -/
def Blockchain.headerHashAtHeight (cfg : Config) (b : Blockchain) (height : UInt32) :
    Option BlockHash :=
  (b.bestHeaderChain[height.toNat]?.filter fun hash => !hash.isZero).or
    ((headerProvider cfg.params b.node.store height).map (·.header.blockHash))

/-- The resolver of `block_locator`. -/
def Blockchain.hashAtHeight (cfg : Config) (b : Blockchain) (tip : BlockHash) (tipHeight : UInt32)
    (height : UInt32) : Option BlockHash :=
  if height = tipHeight then some tip else b.headerHashAtHeight cfg height

/-- `Blockchain::block_locator` returns `locator`. -/
def Blockchain.BlockLocator (cfg : Config) (b : Blockchain) (tip : BlockHash)
    (locator : List BlockHash) : Prop :=
  match b.node.store.findBlockIndex tip with
  | none => locator = [cfg.params.genesisHash]
  | some index =>
    ∃ found, BuildsBlockLocator index.height (b.hashAtHeight cfg tip index.height) found ∧
      locator = if found.getLast? ≠ some cfg.params.genesisHash
        then found ++ [cfg.params.genesisHash] else found

/-! ### Ancestors -/

/-- `prev` is the parent of an indexed header above the genesis block. -/
def Store.Parent (s : Store) (hash prev : BlockHash) : Prop :=
  ∃ index, s.getBlockIndex hash = .ok (some index) ∧ 0 < index.height.toNat ∧
    index.header.prevHash = prev

/-- `hash` is `tip` or one of its ancestors in the index. -/
def Store.Ancestor (s : Store) (tip hash : BlockHash) : Prop :=
  Relation.ReflTransGen s.Parent tip hash

/-- Every hash of the locator is its tip or an ancestor of it, and the last is that of the genesis
block. -/
def Blockchain.LocatesAncestors (cfg : Config) (b : Blockchain) (tip : BlockHash) : Prop :=
  ∃ locator, b.BlockLocator cfg tip locator ∧
    (∀ hash ∈ locator, b.node.store.Ancestor tip hash) ∧
    locator.getLast? = some cfg.params.genesisHash

section Ancestors

variable {s : Store} {tip hash prev : BlockHash} {index : BlockIndex}

omit [Sha2] in
lemma Store.parent_of_getBlockIndex (h : s.getBlockIndex hash = .ok (some index))
    (hpos : 0 < index.height.toNat) : s.Parent hash index.header.prevHash :=
  ⟨index, h, hpos, rfl⟩

/-- An ancestor is the tip itself or an indexed header below it. -/
lemma Store.Descends.ancestor_cases (h : s.Descends)
    (htip : s.getBlockIndex tip = .ok (some index)) (hancestor : s.Ancestor tip hash) :
    hash = tip ∨ ∃ index', s.getBlockIndex hash = .ok (some index') ∧
      index'.height.toNat < index.height.toNat ∧
      (index'.height.toNat + 1 = index.height.toNat → hash = index.header.prevHash) := by
  induction hancestor with
  | refl => exact .inl rfl
  | tail hrun hparent ih =>
    obtain ⟨mid, hmid, hpos, rfl⟩ := hparent
    obtain ⟨prev, hprev, hstep⟩ := h.parent _ mid hmid hpos
    right
    refine ⟨prev, hprev, ?_⟩
    rcases ih with rfl | ⟨index', hindex', hlt, -⟩
    · obtain rfl := Option.some.inj (Except.ok.inj (hmid.symm.trans htip))
      exact ⟨by omega, fun _ => rfl⟩
    · obtain rfl := Option.some.inj (Except.ok.inj (hmid.symm.trans hindex'))
      exact ⟨by omega, fun hsame => absurd hsame (by omega)⟩

/-- Every header has an ancestor at each height up to its own. -/
lemma Store.Descends.exists_ancestor (h : s.Descends)
    (htip : s.getBlockIndex tip = .ok (some index)) {height : UInt32}
    (hle : height ≤ index.height) : ∃ hash, s.Ancestor tip hash ∧ s.HasHeight hash height := by
  induction hn : index.height.toNat generalizing tip index with
  | zero =>
    have hsame : index.height = height := by
      rw [UInt32.le_iff_toNat_le] at hle
      exact UInt32.toNat_inj.mp (by omega)
    exact ⟨tip, .refl, index, htip, hsame⟩
  | succ n ih =>
    by_cases hsame : index.height = height
    · exact ⟨tip, .refl, index, htip, hsame⟩
    · obtain ⟨prev, hprev, hstep⟩ := h.parent tip index htip (by omega)
      have hne : index.height.toNat ≠ height.toNat := fun h => hsame (UInt32.toNat_inj.mp h)
      rw [UInt32.le_iff_toNat_le] at hle
      obtain ⟨hash, hancestor, hheight⟩ :=
        ih hprev (UInt32.le_iff_toNat_le.mpr (by omega)) (by omega)
      exact ⟨hash, .head (s.parent_of_getBlockIndex htip (by omega)) hancestor, hheight⟩

/-- What is below an entry of a path is an ancestor of it. -/
lemma LinkedPath.ancestor {chain : List BlockHash} (h : LinkedPath chain s) {i j : Nat}
    (hle : i ≤ j) {tip hash : BlockHash} (htip : chain[j]? = some tip)
    (hhash : chain[i]? = some hash) : s.Ancestor tip hash := by
  induction hle generalizing tip with
  | refl =>
    obtain rfl := Option.some.inj (htip.symm.trans hhash)
    exact .refl
  | @step j hle ih =>
    obtain ⟨index, hindex, -, hheight, hprev⟩ := h (j + 1) tip (Nat.succ_pos j) htip
    exact .head (s.parent_of_getBlockIndex hindex (by omega)) (ih hprev)

end Ancestors

/-! ### The calls of a node, with the cache -/

/-- What the actors write for blocks and activations: no headers, and only indexed ones into the `z`
table. -/
structure Store.BlocksWritten (s s' : Store) : Prop where
  records : s.SameRecords s'
  headerHeight : ∀ height,
    s'.getBlockHashByHeaderHeight height = s.getBlockHashByHeaderHeight height ∨
      ∃ hash, s.HasHeight hash height ∧ s'.getBlockHashByHeaderHeight height = some hash

/-- What can happen to a `Blockchain` between two calls of `block_locator`. `blocks` is any other
work of the actors, and the node after it. -/
inductive BlockchainCall where
  | headers (call : HeadersCall)
  | processBlock (block : Block)
  | loadGenesis
  | blocks (node : Node)
  | restart

namespace Blockchain

/-- `Blockchain::new` on an empty store, and `load_genesis`. -/
def init (cfg : Config) : Blockchain := ⟨Node.init cfg, []⟩

/-- One step; only `process_header` and `process_headers` update the cache. -/
def step [ScriptVerifier] (cfg : Config) (b : Blockchain) : BlockchainCall → Option Blockchain
  | .headers call => b.call cfg call
  | .processBlock block => some { b with node := (b.node.processBlock cfg block).2 }
  | .loadGenesis => some { b with node := b.node.loadGenesisBlock cfg }
  | .blocks node => some { b with node }
  | .restart => some (Blockchain.new cfg b.node.store)

/-- A step with headers of `seen`. -/
def Allowed (cfg : Config) (seen : Set BlockHeader) (b : Blockchain) : BlockchainCall → Prop
  | .headers call => RootedCall cfg seen b.node call.toCall
  | .processBlock block => block.header ∈ seen
  | .blocks node => b.node.store.BlocksWritten node.store
  | .loadGenesis | .restart => True

/-- Every header that is answered links to the cache when its turn comes. -/
def Links (cfg : Config) (b : Blockchain) : BlockchainCall → Prop
  | .headers call => LinksInTurn b.bestHeaderChain (call.answered cfg b.node)
  | .processBlock _ | .blocks _ | .loadGenesis | .restart => True

end Blockchain

/-! ### The tables -/

section Tables

variable {s s' : Store} {entries : List (BlockHash × BlockIndex)}

/-- The `z` table has an entry at every height at which a header is indexed, and each entry is an
indexed header of its height. -/
structure Store.Tabled (s : Store) : Prop where
  filed : s.HeightsFiled
  hasHeight : ∀ height hash, s.getBlockHashByHeaderHeight height = some hash →
    s.HasHeight hash height

/-- The records of a write file their heights, and those of one header agree on its height. -/
structure Store.FilesHeights (s : Store) (entries : List (BlockHash × BlockIndex)) : Prop where
  filed : ∀ e ∈ entries, (s.getBlockHashByHeaderHeight e.2.height).isSome
  agree : ∀ e ∈ entries, ∀ e' ∈ entries, e.1 = e'.1 → e.2.height = e'.2.height

omit [Sha2] in
lemma Store.KeepsHeaders.hasHeight (h : s.KeepsHeaders s') {hash : BlockHash} {height : UInt32}
    (hheight : s.HasHeight hash height) : s'.HasHeight hash height := by
  obtain ⟨index, hindex, rfl⟩ := hheight
  obtain ⟨index', hindex', hsame⟩ := h hash index hindex
  exact ⟨index', hindex', hsame.height⟩

omit [Sha2] in
lemma Store.Tabled.of_indexesWritten (h : s.Tabled) (hwritten : IndexesWritten s s' entries)
    (hkeeps : s.KeepsHeaders s') (hentries : s'.FilesHeights entries) : s'.Tabled where
  filed := h.filed.of_indexesWritten hwritten hentries.filed
  hasHeight := by
    intro height hash hz
    rcases hwritten.headerHeight height with hkept | ⟨e, he, rfl, hput⟩
    · exact hkeeps.hasHeight (h.hasHeight height hash (hkept.symm.trans hz))
    · obtain rfl := Option.some.inj (hput.symm.trans hz)
      rcases hwritten.index e.1 with ⟨hold, -⟩ | ⟨e', he', hhash, hnew⟩
      · exact absurd rfl (hold e he)
      · exact ⟨e'.2, hnew, hentries.agree e' he' e he hhash⟩

omit [Sha2] in
lemma Store.Tabled.of_blocksWritten (h : s.Tabled) (hwritten : s.BlocksWritten s') :
    s'.Tabled where
  filed := by
    rintro hash height ⟨index', hindex', rfl⟩
    obtain ⟨index, hindex, hsame⟩ := hwritten.records.old hash index' hindex'
    rcases hwritten.headerHeight index'.height with hkept | ⟨other, -, hput⟩
    · rw [hkept]
      exact h.filed hash _ ⟨index, hindex, hsame.height.symm⟩
    · rw [hput]
      rfl
  hasHeight := by
    intro height hash hz
    rcases hwritten.headerHeight height with hkept | ⟨other, hheight, hput⟩
    · exact hwritten.records.keeps.hasHeight (h.hasHeight height hash (hkept.symm.trans hz))
    · obtain rfl := Option.some.inj (hput.symm.trans hz)
      exact hwritten.records.keeps.hasHeight hheight

omit [Sha2] in
/-- The tables resolve every height at which a header is indexed. -/
lemma Store.Tabled.isSome_headerProvider (h : s.Tabled) (params : ChainParams) {hash : BlockHash}
    {height : UInt32} (hheight : s.HasHeight hash height) :
    (headerProvider params s height).isSome := by
  unfold headerProvider
  split_ifs
  · rfl
  · obtain ⟨other, hz⟩ := Option.isSome_iff_exists.mp (h.filed hash height hheight)
    obtain ⟨index, hindex, -⟩ := h.hasHeight height other hz
    rw [Store.getBlockIndexByHeight, hz, Option.bind_some,
      Store.findBlockIndex_of_getBlockIndex hindex, Option.isSome_or]
    simp

lemma exists_addHeader_eq (s : Store) (index : BlockIndex) :
    ∃ tip, s.addHeader index =
      handleStoreBlockIndexes s [(index.header.blockHash, index)] tip := by
  have hone : handleStoreBlockIndex s index.header.blockHash index =
      handleStoreBlockIndexes s [(index.header.blockHash, index)] none := by
    simp [handleStoreBlockIndex, handleStoreBlockIndexes]
  unfold Store.addHeader
  dsimp only
  split
  · exact ⟨none, hone⟩
  · split_ifs
    · exact ⟨some index.header.blockHash, by rw [handleStoreBlockIndexes_some, hone]⟩
    · exact ⟨none, hone⟩

/-- `process_block` writes the position of a block that is indexed. -/
lemma Node.indexesWritten_processBlock [ScriptVerifier] (cfg : Config) (n : Node) (block : Block) :
    ∃ entries, IndexesWritten n.store (n.processBlock cfg block).2.store entries ∧
      ∀ e ∈ entries, n.store.HasHeight e.1 e.2.height := by
  have hnone : ∃ entries, IndexesWritten n.store n.store entries ∧
      ∀ e ∈ entries, n.store.HasHeight e.1 e.2.height :=
    ⟨[], indexesWritten_of_db_eq rfl, by simp⟩
  unfold Node.processBlock
  dsimp only
  split
  · exact hnone
  · split
    · exact hnone
    · exact hnone
    · rename_i index hindex
      split
      · exact hnone
      · split
        · exact hnone
        · rename_i hstore
          obtain ⟨entries, hwrite, -, hwritten, -⟩ := handleStoreBlocks_eq_ok hstore
          simp only [writeBlocks, Result.bind_eq_ok, Result.pure_eq_ok, Except.ok.injEq] at hwrite
          obtain ⟨⟨pos, files, disk⟩, -, ⟨_, _, _⟩, ⟨⟩, ⟨⟩⟩ := hwrite
          refine ⟨_, hwritten, fun e he => ?_⟩
          obtain rfl := List.mem_singleton.mp he
          exact ⟨index, hindex, rfl⟩

omit [Sha2] in
/-- A write that adds no headers. -/
lemma Store.SameRecords.blocksWritten (h : s.SameRecords s')
    (hwritten : IndexesWritten s s' entries)
    (hentries : ∀ e ∈ entries, s.HasHeight e.1 e.2.height) : s.BlocksWritten s' where
  records := h
  headerHeight := by
    intro height
    rcases hwritten.headerHeight height with hkept | ⟨e, he, rfl, hput⟩
    · exact .inl hkept
    · exact .inr ⟨e.1, hentries e he, hput⟩

omit [Sha2] in
lemma Store.BlocksWritten.refl (s : Store) : s.BlocksWritten s := ⟨.refl s, fun _ => .inl rfl⟩

omit [Sha2] in
/-- A restart writes the headers tip only. -/
lemma Node.blocksWritten_restart (cfg : Config) (s : Store) :
    s.BlocksWritten (Node.restart cfg s).store := by
  have hget := Node.getBlockIndex_restart cfg s
  refine ⟨⟨fun hash index hindex => ⟨index, (hget hash).trans hindex, .refl index⟩,
    fun hash index hindex => ⟨index, (hget hash).symm.trans hindex, .refl index⟩⟩, fun height => ?_⟩
  left
  unfold Node.restart
  dsimp only
  generalize (repairTips s).toOption.getD [] = tips
  clear hget
  induction tips generalizing s with
  | nil => rfl
  | cons tip tips ih =>
    rw [List.foldl_cons, ih, getBlockHashByHeaderHeight_handleUpdateHeadersTip]

omit [Sha2] in
/-- A flush, whose buffer has records of indexed headers. -/
lemma ChainstateWritten.blocksWritten {undoIndexes : HashMap BlockHash BlockIndex}
    {bestBlock : Option BlockHash} {connectedBlocks : List (UInt32 × BlockHash)}
    (h : ChainstateWritten s s' undoIndexes bestBlock connectedBlocks)
    (hundo : ∀ hash index', undoIndexes.lookup hash = some index' →
      ∃ index, s.getBlockIndex hash = .ok (some index) ∧ index.SameHeader index') :
    s.BlocksWritten s' where
  records := by
    refine ⟨fun hash index hindex => ?_, fun hash index' hindex' => ?_⟩
    · rw [h.index]
      cases hl : undoIndexes.lookup hash with
      | none => exact ⟨index, hindex, .refl index⟩
      | some index' =>
        obtain ⟨old, hold, hsame⟩ := hundo hash index' hl
        obtain rfl := Option.some.inj (Except.ok.inj (hindex.symm.trans hold))
        exact ⟨index', rfl, hsame⟩
    · rw [h.index] at hindex'
      cases hl : undoIndexes.lookup hash with
      | none =>
        simp only [hl] at hindex'
        exact ⟨index', hindex', .refl index'⟩
      | some index =>
        simp only [hl] at hindex'
        obtain rfl := Option.some.inj (Except.ok.inj hindex')
        exact hundo hash index hl
  headerHeight := fun height => .inl (h.headerHeight height)

end Tables

/-! ### What a call of headers leaves -/

namespace HeadersCall

variable {cfg : Config} {n : Node}

/-- `process_header` answers with the height at which the header is indexed. -/
lemma indexed_of_processHeader {header : BlockHeader} {height : UInt32}
    (hknown : ∀ index, n.store.getBlockIndex header.blockHash = .ok (some index) →
      index.header = header)
    (h : (n.processHeader cfg header).1 = .ok height) :
    (n.processHeader cfg header).2.store.Indexed (header, height) := by
  have hcommit : ∀ height', n.store.getBlockIndex header.blockHash = .ok none →
      n.processHeader cfg header = n.commitHeader header height' →
      (n.processHeader cfg header).2.store.Indexed (header, height) := by
    intro height' hnone hcommit
    rw [hcommit] at h ⊢
    rw [Node.store_commitHeader]
    cases hwork : n.store.parentWork header with
    | error e => simp [Node.commitHeader, Store.processHeader, hnone, hwork] at h
    | ok work =>
      rw [Store.snd_processHeader height' hnone hwork]
      refine ⟨_, by rw [Store.getBlockIndex_addHeader, if_pos rfl], rfl, ?_⟩
      unfold Node.commitHeader at h
      split at h
      · cases h
      · exact Except.ok.inj h
  cases hget : n.store.getBlockIndex header.blockHash with
  | error e => simp [Node.processHeader, hget] at h
  | ok found =>
    cases found with
    | some index =>
      have hanswer : n.processHeader cfg header = (.ok index.height, n) := by
        simp only [Node.processHeader, hget]
      rw [hanswer] at h ⊢
      exact ⟨index, hget, hknown index hget, Except.ok.inj h⟩
    | none =>
      by_cases hzero : header.prevHash.isZero = true
      · exact hcommit 0 hget (by simp only [Node.processHeader, hget, hzero, if_true])
      · cases hprev : n.store.getBlockIndex header.prevHash with
        | error e => simp [Node.processHeader, hget, hzero, hprev] at h
        | ok parent =>
          cases parent with
          | none => simp [Node.processHeader, hget, hzero, hprev] at h
          | some prev =>
            cases hcheck : checkBlockHeader header prev cfg.params
                (headerProvider cfg.params n.store) with
            | error e => simp [Node.processHeader, hget, hzero, hprev, hcheck] at h
            | ok u =>
              exact hcommit prev.height.next hget
                (by simp only [Node.processHeader, hget, if_neg hzero, hprev, hcheck])

/-- A call writes headers, and files their heights. -/
lemma indexesWritten (cfg : Config) (n : Node) (c : HeadersCall)
    (hfree : HeaderBatch.CollisionFree c.toCall.headers) :
    ∃ entries, IndexesWritten n.store (c.node cfg n).store entries ∧
      (c.node cfg n).store.FilesHeights entries := by
  have hsame : ∀ s : Store, s = n.store →
      ∃ entries, IndexesWritten n.store s entries ∧ s.FilesHeights entries := by
    rintro s rfl
    exact ⟨[], indexesWritten_of_db_eq rfl, by simp, by simp⟩
  have hadd : ∀ entries tip, ∀ s : Store, s = handleStoreBlockIndexes n.store entries tip →
      (∀ e ∈ entries, ∀ e' ∈ entries, e.1 = e'.1 → e.2.height = e'.2.height) →
      ∃ entries, IndexesWritten n.store s entries ∧ s.FilesHeights entries := by
    rintro entries tip s rfl hagree
    exact ⟨entries, indexesWritten_handleStoreBlockIndexes ..,
      fun e he => isSome_headerHeight_handleStoreBlockIndexes tip he, hagree⟩
  cases c with
  | processHeader header =>
    have hrecord : ∀ record, (n.processHeader cfg header).2.store = n.store.addHeader record →
        ∃ entries, IndexesWritten n.store (n.processHeader cfg header).2.store entries ∧
          (n.processHeader cfg header).2.store.FilesHeights entries := by
      intro record hstore
      obtain ⟨tip, htip⟩ := exists_addHeader_eq n.store record
      exact hadd _ tip _ (hstore.trans htip) (by simp)
    rcases n.processHeader_cases cfg header with hstore |
      ⟨-, ⟨-, hstore⟩ | ⟨prev, -, -, hstore⟩⟩
    · exact hsame _ hstore
    · exact hrecord _ hstore
    · exact hrecord _ hstore
  | processHeaders headers =>
    simp only [node, Node.processHeaders]
    split
    · exact hsame _ rfl
    · rename_i batch haccept
      have hinv : batch.Inv n.store :=
        HeaderBatch.acceptHeaders_invariant (fun batch => batch.Inv n.store)
          (fun _ _ hb hstep => HeaderBatch.inv_acceptHeader hb hstep)
          (HeaderBatch.inv_new n.store hfree) haccept
      dsimp only [HeaderBatch.commit]
      split_ifs
      · exact hsame _ rfl
      · exact hadd _ batch.bestTip _ rfl hinv.heights

/-- A call keeps what is indexed, and indexes what it answers. -/
lemma keeps_and_indexes (cfg : Config) (c : HeadersCall)
    (hfree : HeaderBatch.CollisionFree c.toCall.headers)
    (hknown : ∀ header ∈ c.toCall.headers, ∀ index,
      n.store.getBlockIndex header.blockHash = .ok (some index) → index.header = header) :
    n.store.KeepsHeaders (c.node cfg n).store ∧
      ∀ x ∈ c.answered cfg n, (c.node cfg n).store.Indexed x := by
  cases c with
  | processHeaders headers =>
    obtain ⟨-, hkeeps, hindexed, -⟩ := @Node.processHeaders_spec _ cfg n headers hfree hknown
    exact ⟨fun hash index h => ⟨index, hkeeps hash index h, .refl index⟩, hindexed⟩
  | processHeader header =>
    have hknown' := hknown header (List.mem_singleton.mpr rfl)
    refine ⟨fun hash index hindex => ⟨index, ?_, .refl index⟩, fun x hx => ?_⟩
    · have hadd : ∀ record : BlockIndex, record.header = header →
          n.store.getBlockIndex header.blockHash = .ok none →
          (n.store.addHeader record).getBlockIndex hash = .ok (some index) := by
        intro record hrecord hnone
        rw [Store.getBlockIndex_addHeader, if_neg, hindex]
        rintro rfl
        rw [hrecord] at hindex
        simp [hnone] at hindex
      rcases n.processHeader_cases cfg header with hsame |
        ⟨hnone, ⟨-, hstore⟩ | ⟨prev, -, -, hstore⟩⟩
      · simpa only [node, hsame] using hindex
      · simpa only [node, hstore] using hadd header.rootIndex rfl hnone
      · simpa only [node, hstore] using hadd (prev.extend header) rfl hnone
    · cases hanswer : (n.processHeader cfg header).1 with
      | error e => simp [answered, hanswer] at hx
      | ok height =>
        simp only [answered, hanswer, List.mem_singleton] at hx
        subst hx
        exact indexed_of_processHeader hknown' hanswer

end HeadersCall

/-! ### Every run -/

section Runs

variable {cfg : Config} {seen : Set BlockHeader} {b b' : Blockchain} {s s' : Store}

/-- The index is a tree of accepted headers over the genesis block. -/
structure RootedIndex (cfg : Config) (seen : Set BlockHeader) (s : Store) : Prop where
  headers : HeaderInv cfg.params seen s
  genesis : ∃ index, s.getBlockIndex cfg.params.genesisHash = .ok (some index) ∧ index.height = 0
  tabled : s.Tabled

lemma RootedIndex.of_keeps (h : RootedIndex cfg seen s) (hheaders : HeaderInv cfg.params seen s')
    (hkeeps : s.KeepsHeaders s') (htabled : s'.Tabled) : RootedIndex cfg seen s' := by
  obtain ⟨index, hindex, hheight⟩ := h.genesis
  obtain ⟨index', hindex', hsame⟩ := hkeeps _ index hindex
  exact ⟨hheaders, ⟨index', hindex', hsame.height.trans hheight⟩, htabled⟩

/-- Only the genesis block is at height 0. -/
lemma RootedIndex.eq_genesisHash (h : RootedIndex cfg seen s) {hash : BlockHash}
    {index : BlockIndex} (hindex : s.getBlockIndex hash = .ok (some index))
    (hheight : index.height.toNat = 0) : hash = cfg.params.genesisHash := by
  by_contra hne
  obtain ⟨parent, -, hstep, -⟩ := h.headers.accepted hash index hindex hne
  omega

lemma RootedIndex.knows (h : RootedIndex cfg seen b.node.store)
    (hinj : seen.InjOn BlockHeader.blockHash) {call : HeadersCall}
    (hrooted : RootedCall cfg seen b.node call.toCall) :
    ∀ header ∈ call.toCall.headers, ∀ index,
      b.node.store.getBlockIndex header.blockHash = .ok (some index) → index.header = header :=
  fun header hheader index hindex => hinj (h.headers.seen _ index hindex)
    (hrooted.seen header hheader) (h.headers.hash _ index hindex)

lemma RootedCall.collisionFree {n : Node} {call : Call} (hrooted : RootedCall cfg seen n call)
    (hinj : seen.InjOn BlockHeader.blockHash) : HeaderBatch.CollisionFree call.headers :=
  fun x hx y hy hhash => hinj (hrooted.seen x hx) (hrooted.seen y hy) hhash

/-- Every step keeps the headers of the index. -/
lemma RootedIndex.step [ScriptVerifier] (h : RootedIndex cfg seen b.node.store)
    (hinj : seen.InjOn BlockHeader.blockHash) (hgenesis : cfg.params.genesisHeader ∈ seen)
    {e : BlockchainCall} (hstep : b.step cfg e = some b') (hallowed : b.Allowed cfg seen e) :
    RootedIndex cfg seen b'.node.store ∧ b.node.store.KeepsHeaders b'.node.store := by
  have hsame : b.node.store.BlocksWritten b'.node.store →
      RootedIndex cfg seen b'.node.store ∧ b.node.store.KeepsHeaders b'.node.store :=
    fun hwritten => ⟨h.of_keeps (h.headers.of_sameRecords hwritten.records) hwritten.records.keeps
      (h.tabled.of_blocksWritten hwritten), hwritten.records.keeps⟩
  cases e with
  | headers call =>
    obtain rfl := Option.some.inj hstep
    obtain ⟨hkeeps, -⟩ := call.keeps_and_indexes cfg (RootedCall.collisionFree hallowed hinj)
      (h.knows hinj hallowed)
    obtain ⟨entries, hwritten, hfiles⟩ :=
      call.indexesWritten cfg b.node (RootedCall.collisionFree hallowed hinj)
    exact ⟨h.of_keeps (h.headers.call hgenesis hinj (call.call_toCall b.node) hallowed) hkeeps
      (h.tabled.of_indexesWritten hwritten hkeeps hfiles), hkeeps⟩
  | processBlock block =>
    obtain rfl := Option.some.inj hstep
    obtain ⟨entries, hwritten, hheights⟩ := b.node.indexesWritten_processBlock cfg block
    exact hsame ((h.headers.sameRecords_processBlock hallowed hinj).blocksWritten hwritten hheights)
  | loadGenesis =>
    obtain rfl := Option.some.inj hstep
    rcases b.node.loadGenesisBlock_cases cfg with hnode | ⟨hnone, -⟩
    · refine hsame ?_
      dsimp only
      rw [hnode]
      exact .refl b.node.store
    · obtain ⟨index, hindex, -⟩ := h.genesis
      simp [hindex] at hnone
  | blocks node =>
    obtain rfl := Option.some.inj hstep
    exact hsame hallowed
  | restart =>
    obtain rfl := Option.some.inj hstep
    exact hsame (Node.blocksWritten_restart cfg b.node.store)

/-- The cache is a path of the index over the genesis block. -/
structure RootedPath (cfg : Config) (chain : List BlockHash) (s : Store) : Prop where
  linked : LinkedPath chain s
  root : ∀ hash, chain[0]? = some hash → hash = cfg.params.genesisHash

lemma RootedPath.of_keeps {chain : List BlockHash} (h : RootedPath cfg chain s)
    (hkeeps : s.KeepsHeaders s') : RootedPath cfg chain s' where
  linked := by
    intro i hash hi hget
    obtain ⟨index, hindex, hhash, hheight, hprev⟩ := h.linked i hash hi hget
    obtain ⟨index', hindex', hsame⟩ := hkeeps hash index hindex
    exact ⟨index', hindex', by rw [hsame.header, hhash], by rw [hsame.height, hheight],
      by rw [hsame.header, hprev]⟩
  root := h.root

/-- An update with an indexed header that links to the cache. -/
lemma RootedPath.update {chain : List BlockHash} (h : RootedPath cfg chain s)
    (hindex : RootedIndex cfg seen s) {x : BlockHeader × UInt32} (hindexed : s.Indexed x)
    (hlinks : LinksTo chain x) :
    RootedPath cfg (updateHeaderChain chain x.1.blockHash x.2) s := by
  have hroot : x.2.toNat = 0 → x.1.blockHash = cfg.params.genesisHash := by
    obtain ⟨index, hget, -, hheight⟩ := hindexed
    exact fun hzero => hindex.eq_genesisHash hget (by rw [hheight, hzero])
  by_cases hne : chain = []
  · -- a cache that was created before the genesis block was stored
    subst hne
    rw [updateHeaderChain]
    split_ifs with hfirst hend hbelow hother
    · refine ⟨fun i hash hi hget => ?_, fun hash hget => ?_⟩
      · rw [List.nil_append, List.getElem?_eq_none (by exact hi)] at hget
        cases hget
      · rw [← hroot (by rw [hfirst.2.2]; rfl)]
        exact (Option.some.inj hget).symm
    · refine ⟨fun i hash hi hget => ?_, fun hash hget => ?_⟩
      · rw [List.nil_append, List.getElem?_eq_none (by exact hi)] at hget
        cases hget
      · rw [← hroot hend]
        exact (Option.some.inj hget).symm
    · cases hbelow
    · cases hbelow
    · exact h
  · refine ⟨h.linked.update hne hindexed hlinks, fun hash hget => ?_⟩
    rcases updateHeaderChain_cases hne x.1.blockHash x.2 with ⟨hsame, -⟩ | ⟨hchange, hle, -⟩
    · rw [hsame] at hget
      exact h.root hash hget
    · rw [hchange] at hget
      rcases Nat.eq_zero_or_pos x.2.toNat with hzero | hpos
      · rw [hzero, List.take_zero, List.nil_append] at hget
        rw [← hroot hzero]
        exact (Option.some.inj hget).symm
      · rw [List.getElem?_append_left (by rw [List.length_take_of_le hle]; exact hpos),
          List.getElem?_take_of_lt hpos] at hget
        exact h.root hash hget

lemma RootedPath.updateAll {chain : List BlockHash} (h : RootedPath cfg chain s)
    (hindex : RootedIndex cfg seen s) {xs : List (BlockHeader × UInt32)}
    (hindexed : ∀ x ∈ xs, s.Indexed x) (hlinks : LinksInTurn chain xs) :
    RootedPath cfg (updateAll chain xs) s := by
  induction xs generalizing chain with
  | nil => exact h
  | cons x xs ih =>
    obtain ⟨hx, hxs⟩ := List.forall_mem_cons.mp hindexed
    exact ih (h.update hindex hx hlinks.1) hxs hlinks.2

/-- The cache that `Blockchain::new` reads from the store. -/
lemma RootedIndex.rootedPath_reconstruct (h : RootedIndex cfg seen s)
    (hzero : ∀ header ∈ seen, header.blockHash.isZero = false) :
    RootedPath cfg (reconstructHeaderChain s) s := by
  have hnil : RootedPath cfg [] s := ⟨by simp [LinkedPath], by simp⟩
  have hdescends := h.headers.descends h.genesis hzero
  unfold reconstructHeaderChain
  cases s.getHeadersTip.or s.getBestBlock with
  | none => exact hnil
  | some tip =>
    cases hfind : s.findBlockIndex tip with
    | none => simpa only [hfind] using hnil
    | some index =>
      have hindex := Store.getBlockIndex_of_findBlockIndex hfind
      obtain ⟨path, hpath, hlength, -, hat, hbelow⟩ :=
        hdescends.walkBack index.height.toNat hindex rfl
          (List.replicate (index.height.toNat + 1) Digest.zero) (by simp)
      rw [List.length_replicate] at hlength
      simp only [hfind]
      rw [hpath]
      have hlinked : LinkedPath path s := by
        intro i hash hi hget
        have hlt : i < path.length := (List.getElem?_eq_some_iff.mp hget).1
        exact hbelow i hash hi (by omega) hget
      refine ⟨hlinked, fun hash hget => ?_⟩
      rcases Nat.eq_zero_or_pos index.height.toNat with hheight | hpos
      · rw [hheight] at hat
        obtain rfl := Option.some.inj (hat.symm.trans hget)
        exact h.eq_genesisHash hindex hheight
      · -- the entry above is that of a header at height 1
        obtain ⟨above, habove⟩ : ∃ above, path[1]? = some above :=
          ⟨_, List.getElem?_eq_getElem (by omega)⟩
        obtain ⟨aboveIndex, hindex', -, hheight, hprev⟩ := hlinked 1 above Nat.one_pos habove
        obtain ⟨parent, hparent, hstep⟩ := hdescends.parent above aboveIndex hindex' (by omega)
        obtain rfl := Option.some.inj (hprev.symm.trans hget)
        exact h.eq_genesisHash hparent (by omega)

/-- What holds of a `Blockchain` in a session whose steps link to the cache. -/
structure LocatorInv (cfg : Config) (seen : Set BlockHeader) (b : Blockchain) : Prop where
  index : RootedIndex cfg seen b.node.store
  path : RootedPath cfg b.bestHeaderChain b.node.store

lemma RootedIndex.locatorInv_new (h : RootedIndex cfg seen s)
    (hzero : ∀ header ∈ seen, header.blockHash.isZero = false) :
    LocatorInv cfg seen (Blockchain.new cfg s) := by
  have hwritten := Node.blocksWritten_restart cfg s
  have hindex : RootedIndex cfg seen (Node.restart cfg s).store :=
    h.of_keeps (h.headers.of_sameRecords hwritten.records) hwritten.records.keeps
      (h.tabled.of_blocksWritten hwritten)
  exact ⟨hindex, hindex.rootedPath_reconstruct hzero⟩

lemma LocatorInv.step [ScriptVerifier] (h : LocatorInv cfg seen b)
    (hinj : seen.InjOn BlockHeader.blockHash) (hgenesis : cfg.params.genesisHeader ∈ seen)
    (hzero : ∀ header ∈ seen, header.blockHash.isZero = false) {e : BlockchainCall}
    (hstep : b.step cfg e = some b') (hallowed : b.Allowed cfg seen e) (hlinks : b.Links cfg e) :
    LocatorInv cfg seen b' := by
  obtain ⟨hindex, hkeeps⟩ := h.index.step hinj hgenesis hstep hallowed
  refine ⟨hindex, ?_⟩
  cases e with
  | headers call =>
    obtain rfl := Option.some.inj hstep
    obtain ⟨-, hindexed⟩ := call.keeps_and_indexes cfg
      (RootedCall.collisionFree hallowed hinj) (h.index.knows hinj hallowed)
    exact (h.path.of_keeps hkeeps).updateAll hindex hindexed hlinks
  | restart =>
    obtain rfl := Option.some.inj hstep
    exact (h.index.locatorInv_new hzero).path
  | processBlock block =>
    obtain rfl := Option.some.inj hstep
    exact h.path.of_keeps hkeeps
  | loadGenesis =>
    obtain rfl := Option.some.inj hstep
    exact h.path.of_keeps hkeeps
  | blocks node =>
    obtain rfl := Option.some.inj hstep
    exact h.path.of_keeps hkeeps

/-! ### The locator of a stored tip -/

section Locators

variable {tip : BlockHash} {index : BlockIndex}

/-- What the walk from a stored tip looks up is there. -/
lemma LocatorInv.isSome_hashAtHeight (h : LocatorInv cfg seen b)
    (hzero : ∀ header ∈ seen, header.blockHash.isZero = false)
    (htip : b.node.store.getBlockIndex tip = .ok (some index)) :
    ∀ height ≤ index.height, (b.hashAtHeight cfg tip index.height height).isSome := by
  intro height hle
  obtain ⟨hash, -, hheight⟩ :=
    (h.index.headers.descends h.index.genesis hzero).exists_ancestor htip hle
  have hprovider := h.index.tabled.isSome_headerProvider cfg.params hheight
  unfold Blockchain.hashAtHeight Blockchain.headerHashAtHeight
  split_ifs
  · rfl
  · rw [Option.isSome_or, Option.isSome_map, hprovider, Bool.or_true]

/-- The locator of a stored tip has ancestors only, if the walk finds ancestors only. -/
lemma LocatorInv.locatesAncestors_iff (h : LocatorInv cfg seen b)
    (hzero : ∀ header ∈ seen, header.blockHash.isZero = false)
    (htip : b.node.store.getBlockIndex tip = .ok (some index)) :
    b.LocatesAncestors cfg tip ↔
      ∀ i hash, b.hashAtHeight cfg tip index.height
          (UInt32.ofNat (index.height.toNat - locatorOffset i)) = some hash →
        b.node.store.Ancestor tip hash := by
  have hall := h.isSome_hashAtHeight hzero htip
  have hfind := Store.findBlockIndex_of_getBlockIndex htip
  unfold Blockchain.LocatesAncestors Blockchain.BlockLocator
  simp only [hfind]
  constructor
  · rintro ⟨locator, ⟨found, hfound, rfl⟩, hancestors, -⟩ i hash hi
    have hmem : hash ∈ found := (hfound.mem_iff hall).mpr ⟨i, hi⟩
    apply hancestors
    split_ifs
    · exact List.mem_append_left _ hmem
    · exact hmem
  · intro hancestors
    obtain ⟨found, hfound⟩ :=
      exists_buildsBlockLocator index.height (b.hashAtHeight cfg tip index.height)
    have hmem : ∀ hash ∈ found, b.node.store.Ancestor tip hash := by
      intro hash hhash
      obtain ⟨i, hi⟩ := (hfound.mem_iff hall).mp hhash
      exact hancestors i hash hi
    have hgenesis : b.node.store.Ancestor tip cfg.params.genesisHash := by
      obtain ⟨root, hancestor, rootIndex, hroot, hheight⟩ :=
        (h.index.headers.descends h.index.genesis hzero).exists_ancestor htip
          (UInt32.zero_le (a := index.height))
      rwa [← h.index.eq_genesisHash hroot (by rw [hheight]; rfl)]
    refine ⟨_, ⟨found, hfound, rfl⟩, ?_, ?_⟩
    · split_ifs with hlast
      · intro hash hhash
        rcases List.mem_append.mp hhash with hhash | hhash
        · exact hmem hash hhash
        · obtain rfl := List.mem_singleton.mp hhash
          exact hgenesis
      · exact hmem
    · split_ifs with hlast
      · exact List.getLast?_concat
      · exact not_not.mp hlast

/-- An entry of the cache is the hash of an indexed header of its height. -/
lemma LocatorInv.hasHeight_entry (h : LocatorInv cfg seen b) {i : Nat} {hash : BlockHash}
    (hget : b.bestHeaderChain[i]? = some hash) :
    ∃ index, b.node.store.getBlockIndex hash = .ok (some index) ∧ index.height.toNat = i := by
  rcases Nat.eq_zero_or_pos i with rfl | hpos
  · obtain ⟨index, hindex, hheight⟩ := h.index.genesis
    obtain rfl := h.path.root hash hget
    exact ⟨index, hindex, by rw [hheight]; rfl⟩
  · obtain ⟨index, hindex, -, hheight, -⟩ := h.path.linked i hash hpos hget
    exact ⟨index, hindex, hheight⟩

/-- The cache answers for the heights that it has. -/
lemma LocatorInv.headerHashAtHeight_eq (h : LocatorInv cfg seen b)
    (hzero : ∀ header ∈ seen, header.blockHash.isZero = false) {height : UInt32}
    (hlt : height.toNat < b.bestHeaderChain.length) :
    b.headerHashAtHeight cfg height = b.bestHeaderChain[height.toNat]? := by
  obtain ⟨hash, hget⟩ : ∃ hash, b.bestHeaderChain[height.toNat]? = some hash :=
    ⟨_, List.getElem?_eq_getElem hlt⟩
  obtain ⟨index, hindex, -⟩ := h.hasHeight_entry hget
  have hne := (h.index.headers.descends h.index.genesis hzero).ne_zero hash index hindex
  rw [Blockchain.headerHashAtHeight, hget]
  simp [hne]

/-- The walk from a tip that the cache reaches is on the branch of the tip, if the cache has its
parent. -/
lemma LocatorInv.locatesAncestors_iff_parent (h : LocatorInv cfg seen b)
    (hzero : ∀ header ∈ seen, header.blockHash.isZero = false)
    (htip : b.node.store.getBlockIndex tip = .ok (some index))
    (hle : index.height.toNat ≤ b.bestHeaderChain.length) (hpos : 0 < index.height.toNat) :
    b.LocatesAncestors cfg tip ↔
      b.bestHeaderChain[index.height.toNat - 1]? = some index.header.prevHash := by
  have hlookup : ∀ i, 0 < locatorOffset i →
      b.hashAtHeight cfg tip index.height
          (UInt32.ofNat (index.height.toNat - locatorOffset i)) =
        b.bestHeaderChain[index.height.toNat - locatorOffset i]? := by
    intro i hi
    have htoNat := toNat_ofNat_sub index.height (locatorOffset i)
    rw [Blockchain.hashAtHeight, if_neg, h.headerHashAtHeight_eq hzero, htoNat]
    · rw [htoNat]
      omega
    · intro hsame
      rw [hsame] at htoNat
      omega
  rw [h.locatesAncestors_iff hzero htip]
  constructor
  · intro hancestors
    obtain ⟨hash, hget⟩ : ∃ hash, b.bestHeaderChain[index.height.toNat - 1]? = some hash :=
      ⟨_, List.getElem?_eq_getElem (by omega)⟩
    obtain ⟨entry, hentry, hheight⟩ := h.hasHeight_entry hget
    have hancestor := hancestors 1 hash ((hlookup 1 Nat.one_pos).trans hget)
    rw [hget]
    rcases (h.index.headers.descends h.index.genesis hzero).ancestor_cases htip hancestor with
      rfl | ⟨index', hindex', -, hparent⟩
    · obtain rfl := Option.some.inj (Except.ok.inj (htip.symm.trans hentry))
      omega
    · obtain rfl := Option.some.inj (Except.ok.inj (hentry.symm.trans hindex'))
      rw [hparent (by omega)]
  · intro hparent i hash hi
    rcases Nat.eq_zero_or_pos (locatorOffset i) with hoffset | hoffset
    · rw [hoffset, Nat.sub_zero, UInt32.ofNat_toNat, Blockchain.hashAtHeight, if_pos rfl] at hi
      obtain rfl := Option.some.inj hi
      exact .refl
    · rw [hlookup i hoffset] at hi
      exact .head (Store.parent_of_getBlockIndex htip hpos)
        (h.path.linked.ancestor (by omega) hparent hi)

/-- What the state has below a tip is on the branch of the tip: the cache has its parent, or, if the
cache does not reach its height, the cache and the tables have ancestors of it wherever the walk
looks. -/
def Blockchain.OnBranch (cfg : Config) (b : Blockchain) (tip : BlockHash) (index : BlockIndex) :
    Prop :=
  if index.height.toNat ≤ b.bestHeaderChain.length then
    index.height = 0 ∨ b.bestHeaderChain[index.height.toNat - 1]? = some index.header.prevHash
  else
    ∀ i hash, 0 < i →
      b.headerHashAtHeight cfg (UInt32.ofNat (index.height.toNat - locatorOffset i)) = some hash →
      b.node.store.Ancestor tip hash

lemma LocatorInv.locatesAncestors_iff_onBranch (h : LocatorInv cfg seen b)
    (hzero : ∀ header ∈ seen, header.blockHash.isZero = false)
    (htip : b.node.store.getBlockIndex tip = .ok (some index)) :
    b.LocatesAncestors cfg tip ↔ b.OnBranch cfg tip index := by
  have hself : ∀ hash, b.hashAtHeight cfg tip index.height index.height = some hash →
      b.node.store.Ancestor tip hash := by
    intro hash hhash
    rw [Blockchain.hashAtHeight, if_pos rfl] at hhash
    obtain rfl := Option.some.inj hhash
    exact .refl
  unfold Blockchain.OnBranch
  split_ifs with hle
  · rcases Nat.eq_zero_or_pos index.height.toNat with hheight | hpos
    · have hzero' : index.height = 0 := UInt32.toNat_inj.mp hheight
      refine ⟨fun _ => .inl hzero', fun _ => ?_⟩
      rw [h.locatesAncestors_iff hzero htip]
      intro i hash hi
      rw [hheight, Nat.zero_sub] at hi
      exact hself hash (by rw [hzero'] at hi ⊢; exact hi)
    · rw [h.locatesAncestors_iff_parent hzero htip hle hpos]
      refine ⟨.inr, fun hor => hor.resolve_left ?_⟩
      rintro hheight
      rw [hheight] at hpos
      exact absurd hpos (by decide)
  · rw [h.locatesAncestors_iff hzero htip]
    have hne : ∀ i, 0 < i →
        UInt32.ofNat (index.height.toNat - locatorOffset i) ≠ index.height := by
      intro i hi hsame
      have htoNat := toNat_ofNat_sub index.height (locatorOffset i)
      have hoffset := locatorOffset_pos hi
      rw [hsame] at htoNat
      omega
    constructor
    · intro hancestors i hash hi hhash
      refine hancestors i hash ?_
      rwa [Blockchain.hashAtHeight, if_neg (hne i hi)]
    · intro hbranch i hash hhash
      rcases Nat.eq_zero_or_pos i with rfl | hi
      · rw [locatorOffset, Nat.sub_zero, UInt32.ofNat_toNat] at hhash
        exact hself hash hhash
      · rw [Blockchain.hashAtHeight, if_neg (hne i hi)] at hhash
        exact hbranch i hash hi hhash

end Locators

/-! ### Sessions -/

lemma rootedIndex_init [ScriptVerifier] (hgenesis : cfg.params.genesisHeader ∈ seen) :
    RootedIndex cfg seen (Node.init cfg).store where
  headers := HeaderInv.loadGenesis (headerInv_empty cfg.params seen) hgenesis
  genesis := (atGenesis_addGenesis cfg.params).index
  tabled := ⟨heightsFiled_init, (indexInv_init cfg).headerHeight⟩

/-- The states in which a session starts: the first one, and those after a restart. -/
inductive StartsSession [ScriptVerifier] (cfg : Config) (seen : Set BlockHeader) : Blockchain → Prop
  | first : StartsSession cfg seen (Blockchain.init cfg)
  | restart {b : Blockchain}
      (h : Reachable (Blockchain.step cfg) (fun b e _ =>
        b.Allowed cfg seen e) (Blockchain.init cfg) b) :
      StartsSession cfg seen (Blockchain.new cfg b.node.store)

/-- The first restart. -/
lemma StartsSession.of_init [ScriptVerifier] :
    StartsSession cfg seen (Blockchain.new cfg (Node.init cfg).store) :=
  .restart .init

lemma Blockchain.reachable_headers [ScriptVerifier] {b₀ : Blockchain}
    (h : Reachable (Blockchain.step cfg) (fun b e _ => b.Allowed cfg seen e ∧ b.Links cfg e) b₀ b)
    (call : HeadersCall) (hrooted : RootedCall cfg seen b.node call.toCall)
    (hlinks : decide (LinksInTurn b.bestHeaderChain (call.answered cfg b.node)) = true) :
    Reachable (Blockchain.step cfg) (fun b e _ => b.Allowed cfg seen e ∧ b.Links cfg e) b₀
      ⟨call.node cfg b.node, updateAll b.bestHeaderChain (call.answered cfg b.node)⟩ := by
  have hturn : LinksInTurn b.bestHeaderChain (call.answered cfg b.node) := of_decide_eq_true hlinks
  exact .step (e := .headers call) h rfl ⟨hrooted, hturn⟩

lemma StartsSession.locatorInv [ScriptVerifier] (hinj : seen.InjOn BlockHeader.blockHash)
    (hzero : ∀ header ∈ seen, header.blockHash.isZero = false)
    (hgenesis : cfg.params.genesisHeader ∈ seen) (h : StartsSession cfg seen b) :
    LocatorInv cfg seen b := by
  have hinit : RootedIndex cfg seen (Node.init cfg).store := rootedIndex_init hgenesis
  cases h with
  | first => exact ⟨hinit, by simp [Blockchain.init, LinkedPath], by simp [Blockchain.init]⟩
  | restart h =>
    refine RootedIndex.locatorInv_new ?_ hzero
    refine h.invariant (fun b => RootedIndex cfg seen b.node.store) hinit ?_
    exact fun _ _ _ hindex hstep hallowed => (hindex.step hinj hgenesis hstep hallowed).1

/-- In every session whose headers link to the cache, the locator of a stored tip lists ancestors of
the tip, and ends with the genesis block, if and only if what the state has below the tip is on its
branch. -/
theorem blockLocator_ancestors_iff [ScriptVerifier] (hinj : seen.InjOn BlockHeader.blockHash)
    (hzero : ∀ header ∈ seen, header.blockHash.isZero = false)
    (hgenesis : cfg.params.genesisHeader ∈ seen) {b₀ : Blockchain}
    (hstart : StartsSession cfg seen b₀)
    (h : Reachable (Blockchain.step cfg) (fun b e _ => b.Allowed cfg seen e ∧ b.Links cfg e) b₀ b)
    (tip : BlockHash) (index : BlockIndex)
    (htip : b.node.store.getBlockIndex tip = .ok (some index)) :
    b.LocatesAncestors cfg tip ↔ b.OnBranch cfg tip index := by
  have hinv : LocatorInv cfg seen b := by
    refine h.invariant (LocatorInv cfg seen) (hstart.locatorInv hinj hzero hgenesis) ?_
    rintro b e b' hb hstep ⟨hallowed, hlinks⟩
    exact hb.step hinj hgenesis hzero hstep hallowed hlinks
  exact hinv.locatesAncestors_iff_onBranch hzero htip

end Runs

end

/-! ### Two forks -/

namespace Sample

/-- The genesis header, and the headers of two forks. -/
def forkSeen : List BlockHeader :=
  [regtestParams.genesisHeader, nextBlock.header, forkHeader, forkBlock.header]

set_option maxRecDepth 100000 in
lemma collisionFree_forkSeen :
    (∀ a ∈ forkSeen, ∀ b ∈ forkSeen, a.blockHash = b.blockHash → a = b) ∧
      ∀ header ∈ forkSeen, header.blockHash.isZero = false := by
  unfold forkSeen
  rw [sha2_eq_forkDigests]
  decide +kernel

/-- The session starts after the first start of the node, learns of the longer fork, and then of the
other one. -/
def forkStart : Blockchain := Blockchain.new cfg (Node.init cfg).store

@[inherit_doc forkStart]
def longFork : HeadersCall := .processHeaders [forkHeader, forkBlock.header]

@[inherit_doc forkStart]
def shortFork : HeadersCall := .processHeaders [nextBlock.header]

/-- The state after a call. -/
def afterCall (b : Blockchain) (c : HeadersCall) : Blockchain :=
  ⟨c.node cfg b.node, updateAll b.bestHeaderChain (c.answered cfg b.node)⟩

/-- The height of an indexed header and its parent. -/
def heightAndParent (s : Store) (hash : BlockHash) : Option (UInt32 × BlockHash) :=
  (s.findBlockIndex hash).map fun index => (index.height, index.header.prevHash)

/-- What the two calls find and leave, from the state `b`. -/
def Forks (b : Blockchain) : Prop :=
  decide (LinksInTurn b.bestHeaderChain (longFork.answered cfg b.node)) = true ∧
    decide (LinksInTurn (afterCall b longFork).bestHeaderChain
      (shortFork.answered cfg (afterCall b longFork).node)) = true ∧
    (forkSeen.map fun header =>
      (heightAndParent (afterCall b longFork).node.store header.blockHash).map (·.1)) =
      [some 0, none, some 1, some 2] ∧
    (afterCall (afterCall b longFork) shortFork).bestHeaderChain =
      [genesisHash, nextBlock.header.blockHash] ∧
    heightAndParent (afterCall (afterCall b longFork) shortFork).node.store
      nextBlock.header.blockHash = some (1, genesisHash) ∧
    heightAndParent (afterCall (afterCall b longFork) shortFork).node.store
      forkBlock.header.blockHash = some (2, forkHeader.blockHash)

set_option maxRecDepth 100000 in
lemma run_forks : Forks forkStart := by
  have hrun : ∀ b, forkStart = b → Forks b := by
    intro b hb
    unfold forkStart cfg at hb
    unfold Forks afterCall longFork shortFork cfg genesisHash heightAndParent forkSeen
    unfold HeadersCall.answered HeadersCall.node Node.answeredHeaders
    rw [sha2_eq_forkDigests] at hb ⊢
    unfold Node.init Node.loadGenesisBlock ChainParams.genesisIndex at hb
    unfold Node.processHeaders HeaderBatch.acceptHeaders HeaderBatch.acceptHeaders
      HeaderBatch.acceptHeader HeaderBatch.push
    rw [calculateBlockWork_eq_division] at hb ⊢
    subst hb
    decide +kernel
  exact hrun _ rfl

lemma injOn_forkSeen : Set.InjOn BlockHeader.blockHash { h | h ∈ forkSeen } :=
  fun a ha b hb hhash => collisionFree_forkSeen.1 a ha b hb hhash

lemma genesisHeader_mem_forkSeen : cfg.params.genesisHeader ∈ { h | h ∈ forkSeen } :=
  List.mem_cons_self (a := cfg.params.genesisHeader)
    (l := [nextBlock.header, forkHeader, forkBlock.header])

lemma startsSession_forkStart : StartsSession cfg { h | h ∈ forkSeen } forkStart := by
  unfold forkStart
  exact .of_init

lemma rootedCall_longFork :
    RootedCall cfg { h | h ∈ forkSeen } forkStart.node longFork.toCall := by
  refine ⟨by simp [longFork, HeadersCall.toCall, Call.headers, forkSeen],
    by simp [longFork, HeadersCall.toCall], fun hash index hindex => ?_⟩
  rw [height_of_restart hindex]
  decide

/-- The first call of the session. -/
lemma reachable_longFork :
    Reachable (Blockchain.step cfg)
      (fun b e _ => b.Allowed cfg { h | h ∈ forkSeen } e ∧ b.Links cfg e) forkStart
      (afterCall forkStart longFork) := by
  obtain ⟨hlinks, -⟩ := run_forks
  exact Blockchain.reachable_headers .init longFork rootedCall_longFork hlinks

lemma locatorInv_of_reachable {b : Blockchain}
    (h : Reachable (Blockchain.step cfg)
      (fun b e _ => b.Allowed cfg { h | h ∈ forkSeen } e ∧ b.Links cfg e) forkStart b) :
    LocatorInv cfg { h | h ∈ forkSeen } b := by
  refine h.invariant _ (startsSession_forkStart.locatorInv injOn_forkSeen collisionFree_forkSeen.2
    genesisHeader_mem_forkSeen) ?_
  rintro b e b' hb hstep ⟨hallowed, hlinks⟩
  exact hb.step injOn_forkSeen genesisHeader_mem_forkSeen collisionFree_forkSeen.2 hstep hallowed
    hlinks

lemma rootedCall_shortFork :
    RootedCall cfg { h | h ∈ forkSeen } (afterCall forkStart longFork).node shortFork.toCall := by
  refine ⟨by simp [shortFork, HeadersCall.toCall, Call.headers, forkSeen],
    by simp [shortFork, HeadersCall.toCall], fun hash index hindex => ?_⟩
  have hheaders := (locatorInv_of_reachable reachable_longFork).index.headers
  obtain ⟨-, -, hheights, -⟩ := run_forks
  have hmem := List.mem_map_of_mem (f := fun header : BlockHeader =>
    (heightAndParent (afterCall forkStart longFork).node.store header.blockHash).map (·.1))
    (hheaders.seen hash index hindex)
  rw [hheights, hheaders.hash hash index hindex, heightAndParent,
    Store.findBlockIndex_of_getBlockIndex hindex, Option.map_some, Option.map_some] at hmem
  have hle : ∀ height : UInt32, some height ∈ [some (0 : UInt32), none, some 1, some 2] →
      height.toNat + 1 < 2 ^ 32 := by
    simp
  exact hle index.height hmem

/-- The cache follows the shorter fork after the second call. -/
lemma reachable_shortFork :
    Reachable (Blockchain.step cfg)
      (fun b e _ => b.Allowed cfg { h | h ∈ forkSeen } e ∧ b.Links cfg e) forkStart
      (afterCall (afterCall forkStart longFork) shortFork) := by
  obtain ⟨-, hlinks, -⟩ := run_forks
  exact Blockchain.reachable_headers reachable_longFork shortFork rootedCall_shortFork hlinks

lemma exists_index_of_heightAndParent {s : Store} {hash prev : BlockHash} {height : UInt32}
    (h : heightAndParent s hash = some (height, prev)) :
    ∃ index, s.getBlockIndex hash = .ok (some index) ∧ index.height = height ∧
      index.header.prevHash = prev := by
  obtain ⟨index, hfind, heq⟩ := Option.map_eq_some_iff.mp h
  obtain ⟨rfl, rfl⟩ := Prod.mk.inj heq
  exact ⟨index, Store.getBlockIndex_of_findBlockIndex hfind, rfl, rfl⟩

/-- The locator of the tip of the fork that the node had followed before has a hash of the other
one. -/
theorem not_locatesAncestors_forkBlock :
    ¬ ∀ b₀ b, StartsSession cfg { h | h ∈ forkSeen } b₀ →
      Reachable (Blockchain.step cfg) (fun b e _ => b.Allowed cfg { h | h ∈ forkSeen } e) b₀ b →
      ∀ tip index, b.node.store.getBlockIndex tip = .ok (some index) →
        b.LocatesAncestors cfg tip := by
  intro h
  obtain ⟨-, -, -, hchain, -, htip⟩ := run_forks
  obtain ⟨index, hindex, hheight, hprev⟩ := exists_index_of_heightAndParent htip
  have hlocates := h _ _ startsSession_forkStart
    (reachable_shortFork.mono fun _ _ _ hok => hok.1) _ index hindex
  have hparent := ((locatorInv_of_reachable reachable_shortFork).locatesAncestors_iff_parent
    collisionFree_forkSeen.2 hindex (by rw [hchain, hheight]; decide)
    (by rw [hheight]; decide)).mp hlocates
  rw [hchain, hheight, hprev] at hparent
  exact blockHash_forkHeader_ne (Option.some.inj hparent).symm

/-- The tip of the shorter fork is on the chain of the cache. -/
theorem locatesAncestors_nextBlock :
    ∃ b, Reachable (Blockchain.step cfg)
        (fun b e _ => b.Allowed cfg { h | h ∈ forkSeen } e ∧ b.Links cfg e) forkStart b ∧
      b.LocatesAncestors cfg nextBlock.header.blockHash := by
  obtain ⟨-, -, -, hchain, htip, -⟩ := run_forks
  obtain ⟨index, hindex, hheight, hprev⟩ := exists_index_of_heightAndParent htip
  refine ⟨_, reachable_shortFork, (blockLocator_ancestors_iff injOn_forkSeen
    collisionFree_forkSeen.2 genesisHeader_mem_forkSeen startsSession_forkStart
    reachable_shortFork _ index hindex).mpr ?_⟩
  rw [Blockchain.OnBranch, if_pos (by rw [hchain, hheight]; decide), hchain, hheight, hprev]
  exact .inr rfl

end Sample

end Bitcrab
