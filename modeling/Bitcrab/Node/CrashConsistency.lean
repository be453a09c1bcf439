import Bitcrab.Consensus.BlockWork
import Bitcrab.Node.ChainInvariant

/-!
# Crash consistency

The cache shows the UTXO set of the blocks connected so far, the store holds the UTXO set of those
flushed: a crash at any moment leaves the chain state of a prefix of the blocks that had been
connected. This needs that no call of `connect_block` fails after it has changed the cache, and that
connected transactions have distinct txids.
-/

namespace Bitcrab

open Writes CoinsViewCache

section

variable [Sha2]

/-! ### The UTXO set of a chain -/

/-- The writes of a chain, whose first block is at height 1. -/
def chainWrites (chain : List Block) : List (OutPoint × Option Coin) :=
  (chain.zipIdx 1).flatMap fun p => blockWrites p.1 (UInt32.ofNat p.2)

/-- The UTXO set after connecting the blocks of a chain in order. -/
def utxoSet (chain : List Block) : CoinMap := apply (fun _ => none) (chainWrites chain)

/-- The txids of a chain. -/
def chainTxids (chain : List Block) : List Txid :=
  chain.flatMap fun block => block.transactions.map Transaction.txid

lemma utxoSet_append (chain : List Block) (block : Block) :
    utxoSet (chain ++ [block]) =
      apply (utxoSet chain) (blockWrites block (UInt32.ofNat (chain.length + 1))) := by
  simp [utxoSet, chainWrites, List.zipIdx_append, apply_append, Nat.add_comm 1]

lemma chainTxids_append (chain : List Block) (block : Block) :
    chainTxids (chain ++ [block]) =
      chainTxids chain ++ block.transactions.map Transaction.txid := by
  simp [chainTxids]

/-- Unspent coins are outputs of the chain. -/
lemma txid_mem_of_utxoSet {chain : List Block} {o : OutPoint} {coin : Coin}
    (hne : ∀ block ∈ chain, block.transactions ≠ []) (h : utxoSet chain o = some coin) :
    o.txid ∈ chainTxids chain := by
  rcases apply_eq_some h with h | h
  · cases h
  · obtain ⟨⟨block, height⟩, hblock, hw⟩ := List.mem_flatMap.mp h
    have hmem : block ∈ chain := List.fst_mem_of_mem_zipIdx hblock
    obtain ⟨tx, htx, ho⟩ := exists_mem_outpoints (hne block hmem) hw rfl
    refine List.mem_flatMap.mpr ⟨block, hmem, ?_⟩
    rw [txid_of_mem_outpoints ho]
    exact List.mem_map_of_mem htx

/-- A block with new txids creates no coin that is there. -/
lemma createsNew_of_nodup {V : Type} [CoinsView V] {view : CoinsViewCache V} {chain : List Block}
    {block : Block} (hview : ∀ o, view.getCoin o = utxoSet chain o)
    (hne : ∀ block ∈ chain, block.transactions ≠ [])
    (hnodup : (chainTxids (chain ++ [block])).Nodup) : CreatesNew view block := by
  intro tx htx o ho
  rw [chainTxids_append] at hnodup
  by_contra hsome
  obtain ⟨coin, hcoin⟩ := Option.ne_none_iff_exists'.mp hsome
  rw [hview] at hcoin
  have hold := txid_mem_of_utxoSet hne hcoin
  rw [txid_of_mem_outpoints ho] at hold
  exact List.disjoint_of_nodup_append hnodup hold (List.mem_map_of_mem htx)

/-! ### Scripts of cached coins -/

/-- The scripts of the outputs of a validated block are within the limit. -/
lemma length_script_le_of_mem_blockWrites {block : Block} {height : BlockHeight} {o : OutPoint}
    {coin : Coin} (hform : WellFormedBlock block)
    (h : (o, some coin) ∈ blockWrites block height) :
    coin.output.scriptPubkey.bytes.length ≤ maxWireAllocation := by
  have hcreated : ∀ tx ∈ block.transactions, ∀ isCoinbase,
      (o, some coin) ∈ additions (tx.created height isCoinbase) →
        coin.output.scriptPubkey.bytes.length ≤ maxWireAllocation := by
    intro tx htx isCoinbase hmem
    obtain ⟨⟨o', coin'⟩, hc, heq⟩ := List.mem_map.mp hmem
    obtain ⟨⟨output, vout⟩, hout, hpair⟩ := List.mem_map.mp hc
    simp only [Prod.mk.injEq, Option.some.injEq] at heq hpair
    obtain ⟨-, rfl⟩ := heq
    obtain ⟨-, rfl⟩ := hpair
    exact hform.length_script_le htx (List.fst_mem_of_mem_zipIdx hout)
  rw [blockWrites, List.mem_append] at h
  rcases h with h | h
  · obtain ⟨tx, htx, hw⟩ := List.mem_flatMap.mp h
    rcases List.mem_append.mp hw with hw | hw
    · simp [removals] at hw
    · exact hcreated tx (List.mem_of_mem_drop htx) false hw
  · refine hcreated block.coinbase ?_ true h
    rw [transactions_eq hform.ne_nil]
    exact List.mem_cons_self

omit [Sha2] in
lemma scriptsWithinLimit_writeAll {V : Type} [CoinsView V] {view : CoinsViewCache V}
    {ws : List (OutPoint × Option Coin)} (hlimit : ScriptsWithinLimit view)
    (hws : ∀ o coin, (o, some coin) ∈ ws →
      coin.output.scriptPubkey.bytes.length ≤ maxWireAllocation) :
    ScriptsWithinLimit (view.writeAll ws) := by
  intro o entry coin hl hcoin
  rw [lookup_writeAll] at hl
  cases hlast : (valuesAt ws o).getLast? with
  | none =>
    rw [List.getLast?_eq_none_iff.mp hlast] at hl
    exact hlimit o entry coin hl hcoin
  | some v =>
    have hv : entry.coin = v := (coin_foldl_entryAfter hlast).1 entry hl
    rw [hcoin] at hv
    subst hv
    have hmem : some coin ∈ valuesAt ws o := List.mem_of_getLast? hlast
    obtain ⟨w, hw, heq⟩ := List.mem_filterMap.mp hmem
    split_ifs at heq with ho
    obtain ⟨o', v⟩ := w
    simp only [Option.some.injEq] at heq ho
    subst heq ho
    exact hws o' coin hw

/-! ### The invariant -/

/-- The cache shows the UTXO set of the blocks connected, the store that of the blocks flushed. -/
structure CoinsInv (s : System) : Prop where
  view : ∀ o, s.node.cacheView.getCoin o = utxoSet s.history.connected o
  stored : ∀ o, s.node.store.getCoin o =
    .ok (utxoSet (s.history.connected.take s.history.flushed) o)
  fresh : s.node.cacheView.FreshInv
  clean : s.node.cacheView.CleanInv
  limit : ScriptsWithinLimit s.node.cacheView
  ne_nil : ∀ block ∈ s.history.connected, block.transactions ≠ []

section Steps

variable {cfg : Config} {s s' : System}

/-- A step that leaves the coins alone. -/
lemma CoinsInv.of_same (hinv : CoinsInv s)
    (hcache : s'.node.chainstate.cache.cache = s.node.chainstate.cache.cache)
    (hcoins : ∀ o, s'.node.store.getCoin o = s.node.store.getCoin o)
    (hconnected : s'.history.connected = s.history.connected)
    (hflushed : s'.history.flushed = s.history.flushed) : CoinsInv s' := by
  have hlookup : ∀ o, s'.node.cacheView.cache.lookup o = s.node.cacheView.cache.lookup o := by
    intro o
    exact congrArg (fun cache => cache.lookup o) hcache
  have hbase : ∀ o, CoinsView.getCoin s'.node.cacheView.base o =
      CoinsView.getCoin s.node.cacheView.base o := by
    intro o
    simp only [CoinsView.getCoin, Node.cacheView, hcoins]
  refine ⟨?_, ?_, ?_, ?_, ?_, ?_⟩
  · intro o
    rw [getCoin_congr (hbase o) (hlookup o), hconnected]
    exact hinv.view o
  · intro o
    rw [hcoins, hconnected, hflushed]
    exact hinv.stored o
  · intro o entry hl hfresh
    rw [hlookup] at hl
    rw [hbase]
    exact hinv.fresh o entry hl hfresh
  · intro o entry hl hclean
    rw [hlookup] at hl
    rw [hbase]
    exact hinv.clean o entry hl hclean
  · intro o entry coin hl hcoin
    rw [hlookup] at hl
    exact hinv.limit o entry coin hl hcoin
  · rw [hconnected]
    exact hinv.ne_nil

omit [Sha2] in
lemma cacheView_eq {n : Node} {view : CoinsViewCache Store}
    (hcache : n.chainstate.cache = view.toCacheState) (hbase : n.store = view.base) :
    n.cacheView = view := by
  rw [Node.cacheView, hcache, hbase]

/-- A connected block makes its writes, in the view and in the UTXO set. -/
lemma CoinsInv.connect_ok [ScriptVerifier] (hinv : CoinsInv s) (hchain : ChainInv cfg s)
    {a : Activation} {hash : BlockHash} {block : Block} {completion : List Nat}
    (hphase : s.node.phase = .connecting a hash block) {fees : Amount} {undo : BlockUndo}
    {view : CoinsViewCache Store}
    (hcall : s.node.connectCall cfg a block completion = (.ok (fees, undo), view))
    (hnodup : (chainTxids (s.history.connected ++ [block])).Nodup) :
    CoinsInv ⟨s.node.connect cfg a hash block completion,
      { s.history with connected := s.history.connected ++ [block] }⟩ := by
  have hnext := hchain.phase
  rw [PhaseInv, hphase] at hnext
  have hheight : a.currentTip.height + 1 = UInt32.ofNat (s.history.connected.length + 1) := by
    rw [hnext.1, succ_ofNat]
  have hnew := createsNew_of_nodup hinv.view hinv.ne_nil hnodup
  have hview := getCoin_connectBlock hinv.fresh hnew hcall
  obtain ⟨st, -, hvalid, -, -, -, hwrites⟩ := connectBlock_eq_ok hcall
  have hform := wellFormedBlock_of_checkBlock hvalid.check
  have hun := hnew.createsUncached hform.ne_nil (a.currentTip.height + 1)
  have hstore : (s.node.connect cfg a hash block completion).store = s.node.store := by
    simp only [Node.connect, hcall]
  have hcache : (s.node.connect cfg a hash block completion).cacheView = view := by
    apply cacheView_eq
    · simp only [Node.connect, hcall]
    · rw [hstore, hwrites]
      exact (base_writeAll s.node.cacheView _).symm
  have htake : (s.history.connected ++ [block]).take s.history.flushed =
      s.history.connected.take s.history.flushed := List.take_append_of_le_length hchain.flushed
  refine ⟨?_, ?_, ?_, ?_, ?_, ?_⟩ <;> dsimp only
  · intro o
    rw [hcache, hview, utxoSet_append, ← hheight, funext hinv.view]
  · intro o
    rw [hstore, htake]
    exact hinv.stored o
  · rw [hcache, hwrites]
    exact freshInv_writeAll hinv.fresh hun
  · rw [hcache, hwrites]
    exact cleanInv_writeAll hinv.fresh hinv.clean hun
  · rw [hcache, hwrites]
    exact scriptsWithinLimit_writeAll hinv.limit fun o coin hw =>
      length_script_le_of_mem_blockWrites hform hw
  · intro block' hmem
    rcases List.mem_append.mp hmem with hmem | hmem
    · exact hinv.ne_nil block' hmem
    · obtain rfl := List.mem_singleton.mp hmem
      exact hform.ne_nil

/-- A call that fails before the commit leaves the coins alone. -/
lemma CoinsInv.connect_error [ScriptVerifier] (hinv : CoinsInv s) {a : Activation}
    {hash : BlockHash} {block : Block} {completion : List Nat} {e : ValidationError}
    (hcall : s.node.connectCall cfg a block completion = (.error e, s.node.cacheView)) :
    CoinsInv ⟨s.node.connect cfg a hash block completion, s.history⟩ := by
  refine hinv.of_same ?_ ?_ rfl rfl
  · simp only [Node.connect, hcall]
    rfl
  · simp only [Node.connect, hcall, implies_true]

/-- A flush moves the coins of the cache to the store. -/
lemma CoinsInv.flush (hinv : CoinsInv s) (a : Activation) (coinOrder : List OutPoint)
    (undoOrder : List BlockHash) (trimOrder : List OutPoint) :
    CoinsInv ⟨s.node.flushChainstate a coinOrder undoOrder trimOrder,
      { s.history with flushed := s.history.connected.length }⟩ := by
  have habs := absorbs_handleUpdateUtxoSet s.node.blockManager coinOrder undoOrder hinv.limit
    s.node.cacheView.getBestBlock s.node.cacheView.connectedBlocks
  refine ⟨?_, ?_, ?_, ?_, ?_, hinv.ne_nil⟩
  · intro o
    exact (habs.getCoin_clearHistory trimOrder hinv.fresh hinv.clean o).trans (hinv.view o)
  · intro o
    have hread := getCoin_handleUpdateUtxoSet_eq_ok s.node.blockManager coinOrder undoOrder
      hinv.limit s.node.cacheView.getBestBlock s.node.cacheView.connectedBlocks (hinv.stored o)
    rw [habs.getCoin_eq hinv.fresh hinv.clean, hinv.view] at hread
    dsimp only
    rw [List.take_length]
    exact hread
  · exact habs.freshInv_clearHistory trimOrder hinv.fresh hinv.clean
  · exact habs.cleanInv_clearHistory trimOrder hinv.fresh hinv.clean
  · intro o entry coin hl hcoin
    obtain ⟨old, hold, hentry⟩ := lookup_clearHistory_eq_some hl
    rw [(cleanEntry_eq_some hentry).2.1] at hcoin
    exact hinv.limit o old coin hold hcoin

/-- A restart shows the coins of the store. -/
lemma CoinsInv.crash (hinv : CoinsInv s) (cfg : Config) :
    CoinsInv ⟨Node.start cfg s.node.store,
      { s.history with connected := s.history.connected.take s.history.flushed }⟩ := by
  have htake : (s.history.connected.take s.history.flushed).take s.history.flushed =
      s.history.connected.take s.history.flushed := by
    rw [List.take_take, Nat.min_self]
  refine ⟨?_, ?_, freshInv_new _ _, cleanInv_new _ _, ?_, ?_⟩
  · intro o
    change CoinsView.getCoin s.node.store o = _
    simp only [CoinsView.getCoin, hinv.stored]
  · intro o
    dsimp only
    rw [htake]
    exact hinv.stored o
  · intro o entry coin hl
    cases hl
  · intro block hmem
    exact hinv.ne_nil block (List.mem_of_mem_take hmem)

lemma coinsInv_init [ScriptVerifier] (cfg : Config) : CoinsInv (System.init cfg) := by
  have hcoin : ∀ o, (System.init cfg).node.store.getCoin o = .ok none := by
    intro o
    change (genesisStore cfg).getCoin o = .ok none
    simp [Store.getCoin, get_genesisStore]
  refine ⟨?_, hcoin, ?_, ?_, ?_, ?_⟩
  · intro o
    change CoinsView.getCoin (System.init cfg).node.store o = none
    simp only [CoinsView.getCoin, hcoin]
  · intro o entry hl
    cases hl
  · intro o entry hl
    cases hl
  · intro o entry coin hl
    cases hl
  · intro block hmem
    cases hmem

end Steps

/-! ### Every run -/

section Run

variable [ScriptVerifier] {cfg : Config} {s s' : System} {e : Event}

/-- The call of `connect_block` up to the end of its script checks. -/
def Node.validateCall (cfg : Config) (n : Node) (a : Activation) (block : Block)
    (completion : List Nat) : Except ValidationError ConnectState :=
  let nextHeight := a.currentTip.height + 1
  validateBlock block nextHeight a.currentTip n.cacheView cfg.params n.store.getBlockIndexByHeight
    (cfg.scriptChecks && a.assumeValidHeight.all fun height => nextHeight > height) cfg.engine
    completion

/-- A step in which no call of `connect_block` fails after its script checks, and after which no two
connected transactions share a txid. -/
structure SoundStep (cfg : Config) (s : System) (e : Event) (s' : System) : Prop where
  collisionFree : e.CollisionFree
  connects : ∀ a hash block completion st, s.node.phase = .connecting a hash block →
    e = .connect completion → s.node.validateCall cfg a block completion = .ok st →
    ∃ r, (s.node.connectCall cfg a block completion).1 = .ok r
  distinct : (chainTxids s'.history.connected).Nodup

/-- A sound call of `connect_block` keeps the coins of the cache. -/
lemma CoinsInv.connect (hinv : CoinsInv s) (hchain : ChainInv cfg s) {a : Activation}
    {hash : BlockHash} {block : Block} {completion : List Nat}
    (hphase : s.node.phase = .connecting a hash block)
    (hsound : SoundStep cfg s (.connect completion)
      ⟨s.node.connect cfg a hash block completion,
        s.history.next cfg s.node (.connect completion)⟩) :
    CoinsInv ⟨s.node.connect cfg a hash block completion,
      s.history.next cfg s.node (.connect completion)⟩ := by
  have hdistinct := hsound.distinct
  rcases hresult : s.node.connectCall cfg a block completion with ⟨result, view⟩
  cases result with
  | ok r =>
    have hnext : s.history.next cfg s.node (.connect completion) =
        { s.history with connected := s.history.connected ++ [block] } := by
      simp only [History.next, hphase, hresult]
    rw [hnext] at hdistinct ⊢
    exact hinv.connect_ok hchain hphase hresult hdistinct
  | error err =>
    have hnext : s.history.next cfg s.node (.connect completion) = s.history := by
      simp only [History.next, hphase, hresult]
    rw [hnext]
    rcases connectBlock_eq_error hresult with ⟨-, rfl⟩ | ⟨st, hval, -⟩
    · exact hinv.connect_error hresult
    · -- the script checks have passed, so that the call cannot fail
      obtain ⟨r, hr⟩ := hsound.connects a hash block completion st hphase rfl hval
      rw [hresult] at hr
      cases hr

/-- Every sound step keeps the coins. -/
lemma CoinsInv.step (hinv : CoinsInv s) (hnode : NodeInv cfg s) (hstep : s.step cfg e = some s')
    (hsound : SoundStep cfg s e s') : CoinsInv s' := by
  obtain ⟨-, hcases⟩ := hnode.step hsound.collisionFree hstep
  cases hcases with
  | quiet h =>
    exact hinv.of_same (congrArg _ h.kept.cache) h.kept.coins h.connected h.flushed
  | connect hphase => exact hinv.connect hnode.chain hphase hsound
  | storeUndo hphase =>
    rename_i a hash block undo
    have hundone := hnode.chain.phase
    rw [PhaseInv, hphase] at hundone
    obtain ⟨bm, store, hundo⟩ :=
      handleStoreUndo_of_hasBody undo hundone.2.1 fun index hl =>
        (hnode.index.undo hash index hl).2.1
    obtain ⟨-, -, -, -, -, -, hdb, -⟩ := handleStoreUndo_eq_ok hundo
    have hkept : (s.node.storeUndo a hash block undo).chainstate.cache.cache =
        s.node.chainstate.cache.cache := by
      simp only [Node.storeUndo, hundo]
      rfl
    refine hinv.of_same hkept ?_ rfl rfl
    simp only [Node.storeUndo, hundo, Store.getCoin, hdb, implies_true]
  | flush hphase => exact hinv.flush _ _ _ _
  | crash => exact hinv.crash cfg

/-- Every state of a sound run. -/
lemma inv_of_reachable (h : Reachable (System.step cfg) (SoundStep cfg) (System.init cfg) s) :
    NodeInv cfg s ∧ CoinsInv s := by
  refine h.invariant (fun s => NodeInv cfg s ∧ CoinsInv s)
    ⟨nodeInv_init cfg, coinsInv_init cfg⟩ ?_
  intro s e s' hinv hstep hsound
  exact ⟨(hinv.1.step hsound.collisionFree hstep).1, hinv.2.step hinv.1 hstep hsound⟩

/-- After every crash the store is the chain state of a prefix of the blocks that had been
connected: it has a best block, its coins are the UTXO set of the blocks up to that one, and the `H`
table has them at their heights. -/
theorem store_of_crash
    (hrun : Reachable (System.step cfg) (SoundStep cfg) (System.init cfg) s)
    (hcrash : s.step cfg .crash = some s') :
    ∃ best index, s'.node.store.getBestBlock = some best ∧
      s'.node.store.getBlockIndex best = .ok (some index) ∧
      index.height.toNat ≤ s.history.connected.length ∧
      (chainHashes cfg s.history.connected)[index.height.toNat]? = some best ∧
      (∀ o, s'.node.store.getCoin o =
        .ok (utxoSet (s.history.connected.take index.height.toNat) o)) ∧
      ∀ height, 1 ≤ height → height ≤ index.height.toNat →
        ∃ block, s.history.connected[height - 1]? = some block ∧
          s'.node.store.getBlockHash (UInt32.ofNat height) = some block.header.blockHash := by
  obtain ⟨hnode, hcoins⟩ := inv_of_reachable hrun
  have hstore : s'.node.store = s.node.store := by
    obtain rfl := Option.some.inj hcrash
    rfl
  have hflushed := hnode.chain.flushed
  obtain ⟨best, hbest⟩ : ∃ best,
      (chainHashes cfg s.history.connected)[s.history.flushed]? = some best :=
    ⟨_, List.getElem?_eq_getElem (by simp; omega)⟩
  obtain ⟨index, hindex, hheight⟩ := hnode.chain.heights _ best hbest
  have htoNat : index.height.toNat = s.history.flushed := by
    rw [hheight]
    exact UInt32.toNat_ofNat_of_lt' (Nat.lt_of_le_of_lt hflushed hnode.chain.small)
  refine ⟨best, index, ?_⟩
  rw [hstore, htoNat]
  refine ⟨hnode.chain.storeBest.trans hbest, hindex, hflushed, hbest, hcoins.stored, ?_⟩
  intro height hpos hle
  obtain ⟨i, rfl⟩ : ∃ i, height = i + 1 := ⟨height - 1, by omega⟩
  obtain ⟨block, hblock⟩ : ∃ block, s.history.connected[i]? = some block :=
    ⟨_, List.getElem?_eq_getElem (by omega)⟩
  refine ⟨block, hblock, ?_⟩
  rw [hnode.chain.tableFlushed (i + 1) hpos hle, chainHashes, List.getElem?_cons_succ,
    List.getElem?_map, hblock, Option.map_some]

instance : DecidablePred Event.CollisionFree
  | .recvHeaders headers => inferInstanceAs <|
      Decidable (∀ a ∈ headers, ∀ b ∈ headers, a.blockHash = b.blockHash → a = b)
  | .acceptHeader | .storeHeaders | .recvBlock _ | .storeBlocks _ | .blockDownloaded _ | .activate
  | .selectBlock _ | .connect _ | .storeUndo | .flush _ _ _ | .repairTip | .loadGenesis
  | .crash => .isTrue True.intro

/-- A check for sound steps, whose calls of `connect_block` all succeed. -/
def soundCheck (cfg : Config) (s : System) (e : Event) (s' : System) : Bool :=
  decide e.CollisionFree &&
    (match s.node.phase, e with
      | .connecting a _ block, .connect completion =>
        (s.node.connectCall cfg a block completion).1.isOk
      | _, _ => true) &&
    decide (chainTxids s'.history.connected).Nodup

lemma soundStep_of_soundCheck (h : soundCheck cfg s e s') : SoundStep cfg s e s' := by
  simp only [soundCheck, Bool.and_eq_true, decide_eq_true_eq] at h
  obtain ⟨⟨hfree, hconnects⟩, hnodup⟩ := h
  refine ⟨hfree, ?_, hnodup⟩
  rintro a hash block completion st hphase rfl -
  simp only [hphase] at hconnects
  cases hresult : (s.node.connectCall cfg a block completion).1 with
  | ok r => exact ⟨r, rfl⟩
  | error err => simp [hresult, Except.isOk, Except.toBool] at hconnects

end Run

end

/-! ### A block connected and lost -/

namespace Sample

/-- A regtest node. -/
def cfg : Config :=
  ⟨regtestParams, ⟨[0xfa, 0xbf, 0xb5, 0xda], length_regtestMagic⟩, 1000, .new .native, true⟩

/-- A block after the genesis block. -/
def nextBlock : Block where
  header := header [0xeb, 0x17, 0x7a, 0x93, 0x57, 0xa1, 0xc7, 0xe6, 0xac, 0x7a, 0x25, 0x73, 0xb9,
    0x2f, 0x5b, 0xbe, 0x8a, 0xcc, 0xc9, 0x4c, 0x51, 0xa8, 0xbb, 0xb5, 0x5d, 0xab, 0xad, 0xdf, 0x7e,
    0x91, 0x31, 0xc6] 0
  transactions := [coinbaseTx 5000000000]

/-- The hash function, which looks a message up before it computes. -/
@[reducible] def remember (digests : List (List UInt8 × Bytes32)) : Sha2 where
  sha256 message :=
    match digests.find? (·.1 == message) with
    | some e => e.2
    | none => Sha256.sha256 message

lemma sha2_eq_remember {digests : List (List UInt8 × Bytes32)}
    (h : ∀ e ∈ digests, Sha256.sha256 e.1 = e.2) : sha2 = remember digests := by
  have hsame : Sha256.sha256 = (remember digests).sha256 := by
    funext message
    change _ = match digests.find? (·.1 == message) with
      | some e => e.2
      | none => Sha256.sha256 message
    cases hfind : digests.find? (·.1 == message) with
    | none => rfl
    | some e =>
      have hmessage := List.find?_some hfind
      rw [beq_iff_eq] at hmessage
      rw [← hmessage]
      exact h e (List.mem_of_find?_eq_some hfind)
  exact congrArg Sha2.mk hsame

/-- A message, its digest, and the digest of that. -/
def twice (message : List UInt8) (first second : Bytes32) : List (List UInt8 × Bytes32) :=
  [(message, first), (first.toList, second)]

/-- The header of the genesis block. -/
def genesisHeader : BlockHeader :=
  { Genesis.regtest.build.header with
    merkleRoot := ⟨⟨[0x3b, 0xa3, 0xed, 0xfd, 0x7a, 0x7b, 0x12, 0xb2, 0x7a, 0xc7, 0x2c, 0x3e, 0x67,
        0x76, 0x8f, 0x61, 0x7f, 0xc8, 0x1b, 0xc3, 0x88, 0x8a, 0x51, 0x32, 0x3a, 0x9f, 0xb8, 0xaa,
        0x4b, 0x1e, 0x5e, 0x4a], rfl⟩⟩ }

/-- The digests of the genesis block and of the block after it. -/
def digests : List (List UInt8 × Bytes32) :=
  twice Genesis.regtest.coinbaseTx.encodeBase
    ⟨[0x27, 0x36, 0x2e, 0x66, 0xe0, 0x32, 0xc7, 0x31, 0xc1, 0xc8, 0x51, 0x9f, 0x43, 0x06, 0x3f,
      0xe0, 0xe5, 0xd0, 0x70, 0xdb, 0x1c, 0x0c, 0x35, 0x52, 0xbb, 0x04, 0xaf, 0xa1, 0x8a, 0x31,
      0xc6, 0xbf], rfl⟩
    ⟨[0x3b, 0xa3, 0xed, 0xfd, 0x7a, 0x7b, 0x12, 0xb2, 0x7a, 0xc7, 0x2c, 0x3e, 0x67, 0x76, 0x8f,
      0x61, 0x7f, 0xc8, 0x1b, 0xc3, 0x88, 0x8a, 0x51, 0x32, 0x3a, 0x9f, 0xb8, 0xaa, 0x4b, 0x1e,
      0x5e, 0x4a], rfl⟩ ++
  twice genesisHeader.serialize.toList
    ⟨[0x6d, 0x70, 0xf6, 0x95, 0x6f, 0xb7, 0x03, 0x59, 0xed, 0x83, 0x46, 0xc6, 0x5e, 0xf4, 0x50,
      0xbe, 0x45, 0x9c, 0xad, 0xa7, 0x54, 0x45, 0xe4, 0x36, 0x35, 0x75, 0xa5, 0x4e, 0x47, 0xca,
      0x41, 0x7d], rfl⟩
    ⟨[0x06, 0x22, 0x6e, 0x46, 0x11, 0x1a, 0x0b, 0x59, 0xca, 0xaf, 0x12, 0x60, 0x43, 0xeb, 0x5b,
      0xbf, 0x28, 0xc3, 0x4f, 0x3a, 0x5e, 0x33, 0x2a, 0x1f, 0xc7, 0xb2, 0xb7, 0x3c, 0xf1, 0x88,
      0x91, 0x0f], rfl⟩ ++
  twice (coinbaseTx 5000000000).encodeBase
    ⟨[0x39, 0xc5, 0xb9, 0xeb, 0xdc, 0x30, 0xa4, 0x5b, 0x5d, 0x26, 0x29, 0x6e, 0x1c, 0xc5, 0x74,
      0x7f, 0x9d, 0x3c, 0x8f, 0x92, 0x1c, 0xcc, 0x4a, 0x20, 0x87, 0xfd, 0x95, 0x2b, 0x50, 0x89,
      0xc3, 0x77], rfl⟩
    ⟨[0xeb, 0x17, 0x7a, 0x93, 0x57, 0xa1, 0xc7, 0xe6, 0xac, 0x7a, 0x25, 0x73, 0xb9, 0x2f, 0x5b,
      0xbe, 0x8a, 0xcc, 0xc9, 0x4c, 0x51, 0xa8, 0xbb, 0xb5, 0x5d, 0xab, 0xad, 0xdf, 0x7e, 0x91,
      0x31, 0xc6], rfl⟩ ++
  twice nextBlock.header.serialize.toList
    ⟨[0x00, 0x24, 0xf5, 0x43, 0xac, 0x1c, 0x1e, 0xee, 0xe0, 0x84, 0x8e, 0x84, 0xa6, 0xd2, 0x39,
      0x8b, 0xce, 0x35, 0x90, 0x84, 0xb0, 0xe5, 0x15, 0x0e, 0xcb, 0x8a, 0xe8, 0x94, 0xc9, 0xa3,
      0xaf, 0x25], rfl⟩
    ⟨[0xe3, 0xc0, 0x83, 0xe3, 0xaa, 0x44, 0x52, 0x6c, 0xbd, 0x0c, 0x5a, 0x77, 0x65, 0x75, 0xd0,
      0xae, 0x87, 0x4a, 0x78, 0x1a, 0x9d, 0x1f, 0xd2, 0x5c, 0x8c, 0xdf, 0x52, 0x87, 0x94, 0xa2,
      0x10, 0x27], rfl⟩

set_option maxRecDepth 100000 in
lemma sha256_digests : ∀ e ∈ digests, Sha256.sha256 e.1 = e.2 := by
  decide +kernel

lemma sha2_eq_digests : sha2 = remember digests := sha2_eq_remember sha256_digests

/-- The node learns of a block, downloads it and connects it. -/
def connectEvents : List Event :=
  [.recvHeaders [nextBlock.header], .acceptHeader, .storeHeaders, .recvBlock nextBlock,
    .storeBlocks 1, .blockDownloaded 0, .activate, .selectBlock false, .connect [], .storeUndo]

set_option maxRecDepth 100000 in
lemma run_connectEvents :
    (Reachable.run (System.step cfg) (soundCheck cfg) (System.init cfg) connectEvents).map
      (·.history.connected) = some [nextBlock] := by
  unfold cfg System.step System.init Node.step Node.init Node.loadGenesisBlock Node.acceptHeader
    HeaderBatch.acceptHeader HeaderBatch.push ChainParams.genesisIndex Node.selectBlock Node.connect
  rw [sha2_eq_digests, calculateBlockWork_eq_division]
  decide +kernel

/-- The state after these events. -/
lemma exists_reachable_connected :
    ∃ s, Reachable (System.step cfg) (SoundStep cfg) (System.init cfg) s ∧
      s.history.connected = [nextBlock] := by
  obtain ⟨s, hrun, hconnected⟩ := Option.map_eq_some_iff.mp run_connectEvents
  exact ⟨s, Reachable.init.of_run (fun _ _ _ => soundStep_of_soundCheck) hrun, hconnected⟩

theorem store_of_crash_nextBlock :
    ∃ s s', Reachable (System.step cfg) (SoundStep cfg) (System.init cfg) s ∧
      s.step cfg .crash = some s' ∧ s.history.connected = [nextBlock] ∧
      ∃ best index, s'.node.store.getBestBlock = some best ∧
        s'.node.store.getBlockIndex best = .ok (some index) ∧ index.height.toNat ≤ 1 ∧
        (chainHashes cfg [nextBlock])[index.height.toNat]? = some best ∧
        (∀ o, s'.node.store.getCoin o = .ok (utxoSet ([nextBlock].take index.height.toNat) o)) ∧
        ∀ height, 1 ≤ height → height ≤ index.height.toNat →
          ∃ block, [nextBlock][height - 1]? = some block ∧
            s'.node.store.getBlockHash (UInt32.ofNat height) = some block.header.blockHash := by
  obtain ⟨s, hrun, hconnected⟩ := exists_reachable_connected
  have hcrash : s.step cfg .crash = some ⟨Node.start cfg s.node.store,
      s.history.next cfg s.node .crash⟩ := rfl
  have hstore := store_of_crash hrun hcrash
  rw [hconnected] at hstore
  exact ⟨s, _, hrun, hcrash, hconnected, hstore⟩

end Sample

end Bitcrab
