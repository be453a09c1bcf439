import Bitcrab.Lib.Run
import Bitcrab.Node.Chainstate

/-!
# Calls that write the block index

`process_header`, `process_headers`, `process_block` and `load_genesis` as whole calls on a node
that does nothing else, and restarts. The peer manager makes the calls one at a time, so that a run
is a sequence of them. The texts of the errors are left out, and so is the cache of the best header
chain, which no call reads.
-/

namespace Bitcrab

open BlockManager

variable [Sha2]

/-! ### One header -/

/-- The work of the headers tip. -/
def Store.headersTipWork (s : Store) : Except StoreError Hash256 :=
  (tipIndex s s.getHeadersTip).map fun index => (index.map (·.chainWork)).getD Digest.zero

/-- The work of the parent, as `ChainstateManager::process_header` reads it. -/
def Store.parentWork (s : Store) (header : BlockHeader) : Except StoreError Hash256 :=
  if header.prevHash.isZero then .ok Digest.zero
  else (s.getBlockIndex header.prevHash).map fun index =>
    (index.map (·.chainWork)).getD Digest.zero

/-- `ChainstateManager::process_header`. -/
def Store.processHeader (s : Store) (header : BlockHeader) (height : BlockHeight) :
    Except StoreError Unit × Store :=
  let hash := header.blockHash
  match s.getBlockIndex hash with
  | .error e => (.error e, s)
  | .ok (some _) => (.ok (), s)
  | .ok none =>
    match s.parentWork header with
    | .error e => (.error e, s)
    | .ok prevWork =>
      let chainWork := addChainWork prevWork (calculateBlockWork header.bits)
      let s := handleStoreBlockIndex s hash ⟨header, height, chainWork, none, none⟩
      match s.headersTipWork with
      | .error e => (.error e, s)
      | .ok currentWork =>
        (.ok (), if chainWork.gt currentWork then handleUpdateHeadersTip s hash else s)

/-- The errors of `process_header`, by their origin. -/
inductive ProcessHeaderError where
  | store (error : StoreError)
  | orphan (parent : BlockHash)
  | consensus (error : ValidationError)

namespace Node

variable (cfg : Config) (n : Node)

/-- The end of `process_header`: the chainstate actor stores the header. -/
def commitHeader (header : BlockHeader) (height : BlockHeight) :
    Except ProcessHeaderError UInt32 × Node :=
  match n.store.processHeader header height with
  | (.error e, store) => (.error (.store e), { n with store })
  | (.ok (), store) => (.ok height, { n with store })

/-- `Blockchain::process_header`. -/
def processHeader (header : BlockHeader) : Except ProcessHeaderError UInt32 × Node :=
  match n.store.getBlockIndex header.blockHash with
  | .error e => (.error (.store e), n)
  | .ok (some index) => (.ok index.height, n)
  | .ok none =>
    if header.prevHash.isZero then n.commitHeader header 0
    else
      match n.store.getBlockIndex header.prevHash with
      | .error e => (.error (.store e), n)
      | .ok none => (.error (.orphan header.prevHash), n)
      | .ok (some prev) =>
        match checkBlockHeader header prev cfg.params (headerProvider cfg.params n.store) with
        | .error e => (.error (.consensus e), n)
        | .ok () => n.commitHeader header prev.height.next

end Node

/-! ### A message of headers -/

/-- The loop of `process_headers`, for a number of rounds. -/
def HeaderBatch.acceptHeaders (params : ChainParams) (s : Store) :
    Nat → HeaderBatch → Except HeaderError HeaderBatch
  | 0, batch => .ok batch
  | rounds + 1, batch => do
    let batch ← batch.acceptHeader params s
    batch.acceptHeaders params s rounds

/-- The store after the new headers of a batch, if any, have been sent to the chainstate actor. -/
def HeaderBatch.commit (batch : HeaderBatch) (s : Store) : Store :=
  if batch.pending.isEmpty then s else handleStoreBlockIndexes s batch.pending batch.bestTip

/-- The errors of `process_block`, by their origin. -/
inductive ProcessBlockError where
  | stateless (error : ValidationError)
  | headerNotFound (hash : BlockHash)
  | store (error : StoreError)

namespace Node

variable (cfg : Config) (n : Node)

/-- `Blockchain::process_headers`. -/
def processHeaders (headers : List BlockHeader) : Except HeaderError (List UInt32) × Node :=
  match (HeaderBatch.new n.store headers).acceptHeaders cfg.params n.store headers.length with
  | .error e => (.error e, n)
  | .ok batch => (.ok batch.heights, { n with store := batch.commit n.store })

/-! ### Blocks, and restarts -/

/-- `ChainstateManager::process_block_downloaded`. -/
def processBlockDownloaded (hash : BlockHash) (height : BlockHeight) : Node :=
  { n with chainstate := { n.chainstate with
      waitingBlocks := n.chainstate.waitingBlocks.insert height hash } }

/-- `Blockchain::process_block`. -/
def processBlock [ScriptVerifier] (block : Block) : Except ProcessBlockError UInt32 × Node :=
  let hash := block.header.blockHash
  match checkBlock block cfg.params with
  | .error e => (.error (.stateless e), n)
  | .ok () =>
    match n.store.getBlockIndex hash with
    | .error e => (.error (.store e), n)
    | .ok none => (.error (.headerNotFound hash), n)
    | .ok (some index) =>
      match index.filePos with
      | some _ => (.ok index.height, n.processBlockDownloaded hash index.height)
      | none =>
        match n.blockManager.handleStoreBlocks n.store
            [⟨block.header, index.height, index.chainWork, serialize block⟩] with
        | .error e => (.error (.store e), n)
        | .ok (blockManager, store) => (.ok index.height,
            { n with blockManager, store }.processBlockDownloaded hash index.height)

omit [Sha2] in
/-- A restart on a store, with all updates that `verify_and_repair_tips` sends. -/
def restart (store : Store) : Node :=
  { Node.start cfg store with
    store := ((repairTips store).toOption.getD []).foldl handleUpdateHeadersTip store
    phase := .idle }

end Node

/-- The calls of a run. -/
inductive Call where
  | loadGenesis
  | processHeader (header : BlockHeader)
  | processHeaders (headers : List BlockHeader)
  | processBlock (block : Block)
  | restart

/-- The headers that a call is made with. -/
def Call.headers : Call → List BlockHeader
  | .processHeader header => [header]
  | .processHeaders headers => headers
  | .processBlock block => [block.header]
  | .loadGenesis | .restart => []

/-- The node after a call, whatever it answers. -/
def Node.call [ScriptVerifier] (cfg : Config) (n : Node) : Call → Option Node
  | .loadGenesis => some (n.loadGenesisBlock cfg)
  | .processHeader header => some (n.processHeader cfg header).2
  | .processHeaders headers => some (n.processHeaders cfg headers).2
  | .processBlock block => some (n.processBlock cfg block).2
  | .restart => some (Node.restart cfg n.store)

section

variable [ScriptVerifier] (cfg : Config) (n : Node)

lemma Node.call_loadGenesis : n.call cfg .loadGenesis = some (n.loadGenesisBlock cfg) := rfl

lemma Node.call_processHeader (header : BlockHeader) :
    n.call cfg (.processHeader header) = some (n.processHeader cfg header).2 :=
  rfl

lemma Node.call_processHeaders (headers : List BlockHeader) :
    n.call cfg (.processHeaders headers) = some (n.processHeaders cfg headers).2 :=
  rfl

lemma Node.call_restart : n.call cfg .restart = some (Node.restart cfg n.store) := rfl

end

/-! ### What the genesis block and a single header write -/

/-- The store with the genesis block. -/
def Store.addGenesis (params : ChainParams) (s : Store) : Store :=
  let hash := params.genesisHash
  let s := handleStoreBlockIndex s hash params.genesisIndex
  let s := handleUpdateHeadersTip s hash
  let s := handleUpdateHeaderIndex s hash 0
  handleUpdateActiveTip s hash

/-- `load_genesis` leaves the store alone, or adds the genesis block. -/
lemma Node.loadGenesisBlock_cases (cfg : Config) (n : Node) :
    n.loadGenesisBlock cfg = n ∨ n.store.getBlockIndex cfg.params.genesisHash = .ok none ∧
      (n.loadGenesisBlock cfg).store = n.store.addGenesis cfg.params := by
  unfold Node.loadGenesisBlock
  dsimp only
  split
  · exact .inl rfl
  · exact .inl rfl
  · exact .inr ⟨by assumption, rfl⟩

lemma Store.getBlockIndex_addGenesis (params : ChainParams) (s : Store) (hash : BlockHash) :
    (s.addGenesis params).getBlockIndex hash =
      if hash = params.genesisHash then .ok (some params.genesisIndex)
      else s.getBlockIndex hash := by
  simp [Store.addGenesis, getBlockIndex_handleStoreBlockIndex]

/-- The index record of a header on top of another one. -/
def BlockIndex.extend (prev : BlockIndex) (header : BlockHeader) : BlockIndex where
  header
  height := prev.height.next
  chainWork := addChainWork prev.chainWork (calculateBlockWork header.bits)
  filePos := none
  undoPos := none

/-- The index record of a header without a parent. -/
def BlockHeader.rootIndex (header : BlockHeader) : BlockIndex where
  header
  height := 0
  chainWork := addChainWork Digest.zero (calculateBlockWork header.bits)
  filePos := none
  undoPos := none

/-- The store with a new record, and with it as the headers tip if it has more work. -/
def Store.addHeader (s : Store) (index : BlockIndex) : Store :=
  let hash := index.header.blockHash
  let s := handleStoreBlockIndex s hash index
  match s.headersTipWork with
  | .error _ => s
  | .ok currentWork => if index.chainWork.gt currentWork then handleUpdateHeadersTip s hash else s

lemma Store.getBlockIndex_addHeader (s : Store) (index : BlockIndex) (hash : BlockHash) :
    (s.addHeader index).getBlockIndex hash =
      if hash = index.header.blockHash then .ok (some index) else s.getBlockIndex hash := by
  rw [← getBlockIndex_handleStoreBlockIndex]
  unfold Store.addHeader
  dsimp only
  split
  · rfl
  · split_ifs
    · simp
    · rfl

lemma Store.getBestBlock_addHeader (s : Store) (index : BlockIndex) :
    (s.addHeader index).getBestBlock = s.getBestBlock := by
  unfold Store.addHeader
  dsimp only
  split
  · simp
  · split_ifs <;> simp

section

variable {s : Store} {header : BlockHeader} {prev : BlockIndex} {w : Hash256}

/-- `ChainstateManager::process_header` adds a record for a new header. -/
lemma Store.snd_processHeader (height : BlockHeight)
    (hnone : s.getBlockIndex header.blockHash = .ok none) (hwork : s.parentWork header = .ok w) :
    (s.processHeader header height).2 =
      s.addHeader
        ⟨header, height, addChainWork w (calculateBlockWork header.bits), none, none⟩ := by
  simp only [Store.processHeader, hnone, hwork, Store.addHeader]
  split <;> rfl

variable {cfg : Config} {n : Node}

lemma Node.store_commitHeader (height : BlockHeight) :
    (n.commitHeader header height).2.store = (n.store.processHeader header height).2 := by
  unfold Node.commitHeader
  split
  · rename_i h
    rw [h]
  · rename_i h
    rw [h]

/-- `process_header` leaves the store alone, or it adds the record of a header without a parent, or
that of a header that extends a known one and passes the checks. -/
lemma Node.processHeader_cases (cfg : Config) (n : Node) (header : BlockHeader) :
    (n.processHeader cfg header).2.store = n.store ∨
      n.store.getBlockIndex header.blockHash = .ok none ∧
        (header.prevHash.isZero = true ∧
            (n.processHeader cfg header).2.store = n.store.addHeader header.rootIndex ∨
          ∃ prev, n.store.getBlockIndex header.prevHash = .ok (some prev) ∧
            checkBlockHeader header prev cfg.params (headerProvider cfg.params n.store) = .ok () ∧
            (n.processHeader cfg header).2.store = n.store.addHeader (prev.extend header)) := by
  unfold Node.processHeader
  cases hget : n.store.getBlockIndex header.blockHash with
  | error e => exact .inl rfl
  | ok found =>
    cases found with
    | some index => exact .inl rfl
    | none =>
      dsimp only
      split_ifs with hzero
      · refine .inr ⟨rfl, .inl ⟨hzero, ?_⟩⟩
        rw [Node.store_commitHeader]
        exact Store.snd_processHeader 0 hget (by simp [Store.parentWork, hzero])
      · cases hprev : n.store.getBlockIndex header.prevHash with
        | error e => exact .inl rfl
        | ok parent =>
          cases parent with
          | none => exact .inl rfl
          | some prev =>
            dsimp only
            split
            · exact .inl rfl
            · rename_i hcheck
              refine .inr ⟨rfl, .inr ⟨prev, rfl, hcheck, ?_⟩⟩
              rw [Node.store_commitHeader]
              apply Store.snd_processHeader _ hget
              simp [Store.parentWork, hzero, hprev, Except.map]

/-- `process_block` leaves the index alone, or writes the position of the block into its record. -/
lemma Node.processBlock_cases [ScriptVerifier] (cfg : Config) (n : Node) (block : Block) :
    (n.processBlock cfg block).2.store = n.store ∨
      ∃ index pos, n.store.getBlockIndex block.header.blockHash = .ok (some index) ∧
        (∀ hash, (n.processBlock cfg block).2.store.getBlockIndex hash =
          if hash = block.header.blockHash then
            .ok (some ⟨block.header, index.height, index.chainWork, some pos, none⟩)
          else n.store.getBlockIndex hash) ∧
        (n.processBlock cfg block).2.store.getHeadersTip = n.store.getHeadersTip ∧
        (n.processBlock cfg block).2.store.getBestBlock = n.store.getBestBlock := by
  unfold Node.processBlock
  dsimp only
  split
  · exact .inl rfl
  · split
    · exact .inl rfl
    · exact .inl rfl
    · rename_i index hindex
      split
      · exact .inl rfl
      · split
        · exact .inl rfl
        · rename_i bm store hstore
          obtain ⟨entries, hwrite, -, hwritten, -⟩ := handleStoreBlocks_eq_ok hstore
          simp only [writeBlocks, Result.bind_eq_ok, Result.pure_eq_ok, Except.ok.injEq] at hwrite
          obtain ⟨⟨pos, files, disk⟩, -, ⟨_, _, _⟩, ⟨⟩, ⟨⟩⟩ := hwrite
          refine .inr ⟨index, pos, hindex, fun hash => ?_,
            getHeadersTip_handleStoreBlocks hstore, hwritten.bestBlock⟩
          rcases hwritten.index hash with ⟨hne, hsame⟩ | ⟨e, he, rfl, hget⟩
          · rw [if_neg (hne _ (List.mem_singleton.mpr rfl)).symm]
            exact hsame
          · obtain rfl := List.mem_singleton.mp he
            rw [if_pos rfl]
            exact hget

omit [Sha2] in
/-- A restart leaves the index alone. -/
lemma Node.getBlockIndex_restart (cfg : Config) (store : Store) (hash : BlockHash) :
    (Node.restart cfg store).store.getBlockIndex hash = store.getBlockIndex hash := by
  unfold Node.restart
  dsimp only
  generalize (repairTips store).toOption.getD [] = tips
  induction tips generalizing store with
  | nil => rfl
  | cons tip tips ih =>
    rw [List.foldl_cons, ih, getBlockIndex_handleUpdateHeadersTip]

end

end Bitcrab
