import Bitcrab.Consensus.ReadBack
import Bitcrab.Node.ActiveTip
import Bitcrab.Node.Ledger
import Bitcrab.Node.StoreSteps

/-!
# Blocks served to clients (`net/rpc/blockchain/mod.rs`)

The handlers read the store while the actors write it. What they answer is still right in every
state of a run: a block has the hash it was asked for and passed `check_block` when it arrived, and
the hash at a height is that of the chain that the last flush made durable.
-/

namespace Bitcrab

open BlockManager Result

/-- The errors of the handlers. An error of the store or of the decoder stands for its text. -/
inductive RpcErr where
  | badParams (context : String)
  | missingParam (parameterName : String)
  | storeFailed (error : StoreError)
  | decodeFailed (error : DecodeError)
  deriving DecidableEq

/-- `GetBlockHashRequest`. -/
structure GetBlockHashRequest where
  height : UInt32

/-- `GetBlockRequest`. -/
structure GetBlockRequest where
  hash : BlockHash
  verbosity : UInt8

/-- What `getblock` answers: the bytes in hex, or an object with the block, its transactions in full
or by their ids. -/
inductive BlockReply where
  | hex (raw : List UInt8)
  | object (hash : BlockHash) (block : Block) (full : Bool)

/-- `GetBlockchainInfoResponse`, without the fields that do not depend on the chain. -/
structure BlockchainInfo where
  blocks : UInt32
  headers : UInt32
  bestheaderhash : BlockHash
  bestblockhash : BlockHash
  diskBlocks : UInt32
  initialblockdownload : Bool

/-- `GetBlockHashRequest::parse`, on the first parameter if it is a number. The height is cut to 32
bits. -/
def GetBlockHashRequest.parse (height : Option UInt64) : Except RpcErr GetBlockHashRequest :=
  match height with
  | none => .error (.missingParam "height")
  | some height => .ok ⟨height.toUInt32⟩

/-- `GetBlockRequest::parse`, on the first parameter if it is a string, parsed if it is a hash, and
on the second if it is a number. -/
def GetBlockRequest.parse (hash : Option (Option BlockHash)) (verbosity : Option UInt64) :
    Except RpcErr GetBlockRequest :=
  match hash with
  | none => .error (.missingParam "hash")
  | some none => .error (.badParams "invalid hash format")
  | some (some hash) =>
    let verbosity := verbosity.getD 1
    if verbosity > 2 then .error (.badParams "verbosity must be 0, 1, or 2")
    else .ok ⟨hash, verbosity.toUInt8⟩

namespace Node

variable (n : Node)

/-- `get_block_index_height`. -/
def getBlockIndexHeight (hash : BlockHash) : Except StoreError (Option UInt32) := do
  return (← n.store.getBlockIndex hash).map (·.height)

/-- `get_block_raw`. -/
def getBlockRaw (hash : BlockHash) : Except StoreError (Option (List UInt8)) :=
  n.store.getBlock hash

/-- `get_best_block`: the published tip, or the stored one. -/
def getBestBlock : Option BlockHash := n.activeTipHash.or n.store.getBestBlock

/-- The height that the handlers report for a tip. -/
def reportedHeight (hash : BlockHash) : Except RpcErr UInt32 := do
  return (← (n.getBlockIndexHeight hash).mapError .storeFailed).getD 0

/-- The handler of `getblockchaininfo`. -/
def getBlockchainInfo : Except RpcErr BlockchainInfo := do
  let headerHash := n.store.getHeadersTip.getD Digest.zero
  let headerHeight ← n.reportedHeight headerHash
  let bestHash := n.getBestBlock.getD Digest.zero
  let bestHeight ← n.reportedHeight bestHash
  let diskHash := n.store.getBlockTip.getD Digest.zero
  let diskHeight ← n.reportedHeight diskHash
  return {
    blocks := bestHeight
    headers := headerHeight
    bestheaderhash := headerHash
    bestblockhash := bestHash
    diskBlocks := diskHeight
    initialblockdownload := bestHeight < headerHeight }

/-- The handler of `getblockcount`. -/
def getBlockCount : Except RpcErr UInt32 :=
  n.reportedHeight (n.store.getBlockTip.getD Digest.zero)

/-- The handler of `getblockhash`. -/
def getBlockHash (request : GetBlockHashRequest) : Except RpcErr BlockHash :=
  match n.store.getBlockHash request.height with
  | none => .error (.badParams s!"Height {request.height} out of range")
  | some hash => .ok hash

/-- The handler of `getblock`. -/
def getBlock (request : GetBlockRequest) : Except RpcErr BlockReply := do
  match ← (n.getBlockRaw request.hash).mapError .storeFailed with
  | none => throw (.badParams "block not found")
  | some raw =>
    if request.verbosity = 0 then
      return .hex raw
    else
      let block ← (decodeExact Block raw "Block").mapError .decodeFailed
      return .object request.hash block (request.verbosity = 2)

/-- A call of `getblockhash`, from its parameters. -/
def callGetBlockHash (height : Option UInt64) : Except RpcErr BlockHash := do
  n.getBlockHash (← GetBlockHashRequest.parse height)

/-- A call of `getblock`, from its parameters. -/
def callGetBlock (hash : Option (Option BlockHash)) (verbosity : Option UInt64) :
    Except RpcErr BlockReply := do
  n.getBlock (← GetBlockRequest.parse hash verbosity)

end Node

/-! ### Parameters -/

/-- The call is refused for its parameters with this error. -/
inductive GetBlockRequest.Refused :
    Option (Option BlockHash) → Option UInt64 → RpcErr → Prop
  | missing (verbosity : Option UInt64) : Refused none verbosity (.missingParam "hash")
  | malformed (verbosity : Option UInt64) :
      Refused (some none) verbosity (.badParams "invalid hash format")
  | verbosity (hash : BlockHash) {verbosity : UInt64} (hlarge : 2 < verbosity) :
      Refused (some (some hash)) (some verbosity) (.badParams "verbosity must be 0, 1, or 2")

/-- `getblock` refuses its parameters, or handles the request for their hash and verbosity. -/
lemma Node.callGetBlock_cases (n : Node) (hash : Option (Option BlockHash))
    (verbosity : Option UInt64) :
    (∃ e, GetBlockRequest.Refused hash verbosity e ∧ n.callGetBlock hash verbosity = .error e) ∨
    ∃ request : GetBlockRequest, hash = some (some request.hash) ∧
      request.verbosity.toNat = (verbosity.getD 1).toNat ∧
      n.callGetBlock hash verbosity = n.getBlock request := by
  rcases hash with _ | _ | hash
  · exact .inl ⟨_, .missing verbosity, rfl⟩
  · exact .inl ⟨_, .malformed verbosity, rfl⟩
  by_cases hlarge : verbosity.getD 1 > 2
  · cases verbosity with
    | none => exact absurd hlarge (by decide)
    | some verbosity =>
      refine .inl ⟨_, .verbosity hash hlarge, ?_⟩
      rw [Node.callGetBlock, GetBlockRequest.parse, if_pos hlarge]
      rfl
  · refine .inr ⟨⟨hash, (verbosity.getD 1).toUInt8⟩, rfl, ?_, ?_⟩
    · have hsmall : (verbosity.getD 1).toNat ≤ 2 :=
        UInt64.le_iff_toNat_le.mp (UInt64.not_lt.mp hlarge)
      rw [UInt64.toNat_toUInt8]
      exact Nat.mod_eq_of_lt (by omega)
    · rw [Node.callGetBlock, GetBlockRequest.parse, if_neg hlarge]
      rfl

/-! ### What the handlers rely on -/

section

variable [Sha2] [ScriptVerifier] {cfg : Config} {s s' : System} {e : Event}

/-- What holds of the store and of the history in every state. -/
structure ServedInv (cfg : Config) (s : System) : Prop where
  readable : ∀ hash, ∃ found, s.node.store.getBlockIndex hash = .ok found
  checked : ∀ a ∈ s.history.accepted, checkBlock a.2 cfg.params = .ok ()
  bodies : ∀ block ∈ s.history.connected, s.node.store.HasBody block.header.blockHash
  table : ∀ height hash, s.node.store.getBlockHash height = some hash →
    height.toNat ≤ s.history.flushed ∧
      (chainHashes cfg s.history.connected)[height.toNat]? = some hash

omit [ScriptVerifier] in
/-- A record that is written can be read. -/
lemma StoreStep.readable {msgs : List StoreBlockMsg} (h : StoreStep s msgs s')
    (hreadable : ∀ hash, ∃ found, s.node.store.getBlockIndex hash = .ok found) (hash : BlockHash) :
    ∃ found, s'.node.store.getBlockIndex hash = .ok found := by
  obtain ⟨found, hfound⟩ := hreadable hash
  cases h with
  | headers hwritten =>
    rcases hwritten.index hash with ⟨-, hsame⟩ | ⟨e, -, -, hnew⟩
    · exact ⟨found, hsame.trans hfound⟩
    · exact ⟨_, hnew⟩
  | blocks hwritten =>
    rcases hwritten.index hash with ⟨-, hsame⟩ | ⟨e, -, -, hnew⟩
    · exact ⟨found, hsame.trans hfound⟩
    · exact ⟨_, hnew⟩
  | flush hwritten =>
    rw [hwritten.index hash]
    cases s.node.blockManager.pendingUndoIndexes.lookup hash with
    | none => exact ⟨found, hfound⟩
    | some index => exact ⟨_, rfl⟩

/-- A block is accepted only after `check_block`. -/
lemma checked_next (n : Node) {h : History}
    (hchecked : ∀ a ∈ h.accepted, checkBlock a.2 cfg.params = .ok ()) (e : Event) :
    ∀ a ∈ (h.next cfg n e).accepted, checkBlock a.2 cfg.params = .ok () := by
  cases e with
  | recvBlock block =>
    simp only [History.next]
    cases haccepted : n.acceptedIndex cfg block with
    | none => exact hchecked
    | some index =>
      intro a ha
      rcases List.mem_append.mp ha with ha | ha
      · exact hchecked a ha
      · obtain rfl := List.mem_singleton.mp ha
        unfold Node.acceptedIndex at haccepted
        cases hcheck : checkBlock block cfg.params with
        | error err => simp [hcheck] at haccepted
        | ok _ => rfl
  | connect completion =>
    simp only [History.next]
    split
    · split <;> exact hchecked
    · exact hchecked
  | _ => exact hchecked

/-- A block is connected only with its body on disk. -/
lemma bodies_step (hnode : NodeInv cfg s) (hstep : s.step cfg e = some s')
    (hbodies : ∀ block ∈ s.history.connected, s.node.store.HasBody block.header.blockHash) :
    ∀ block ∈ s'.history.connected, s'.node.store.HasBody block.header.blockHash := by
  have hgrows := (hnode.storeStep hstep).grows hnode.index
  intro block hmem
  refine hgrows.body _ ?_
  rcases connected_cases hstep with
    hsame | htake | ⟨a, hash, last, completion, r, hphase, -, hconnect⟩
  · exact hbodies block (hsame ▸ hmem)
  · exact hbodies block (List.mem_of_mem_take (htake ▸ hmem))
  · rw [hconnect] at hmem
    rcases List.mem_append.mp hmem with hmem | hmem
    · exact hbodies block hmem
    · obtain rfl := List.mem_singleton.mp hmem
      have hnext := hnode.chain.phase
      rw [PhaseInv, hphase] at hnext
      obtain ⟨-, -, hhash, -, hbody, -⟩ := hnext
      rwa [hhash]

/-- A call of `connect_block` writes nothing to the store. -/
lemma store_connect (n : Node) (a : Activation) (hash : BlockHash) (block : Block)
    (completion : List Nat) : (n.connect cfg a hash block completion).store = n.store := by
  unfold Node.connect
  split <;> rfl

lemma flushed_connect (n : Node) (h : History) (completion : List Nat) :
    (h.next cfg n (.connect completion)).flushed = h.flushed := by
  simp only [History.next]
  split
  · split <;> rfl
  · rfl

/-- The `H` table holds only hashes of the chain, up to the last flush. -/
lemma table_step (hnode : NodeInv cfg s) (hfree : e.CollisionFree) (hstep : s.step cfg e = some s')
    (htable : ∀ height hash, s.node.store.getBlockHash height = some hash →
      height.toNat ≤ s.history.flushed ∧
        (chainHashes cfg s.history.connected)[height.toNat]? = some hash) :
    ∀ height hash, s'.node.store.getBlockHash height = some hash →
      height.toNat ≤ s'.history.flushed ∧
        (chainHashes cfg s'.history.connected)[height.toNat]? = some hash := by
  intro height hash hget
  have hflushed := hnode.chain.flushed
  cases (hnode.step hfree hstep).2 with
  | quiet hquiet =>
    rw [hquiet.kept.height] at hget
    rw [hquiet.flushed, hquiet.connected]
    exact htable height hash hget
  | @connect a hash' block completion hphase =>
    have hold := htable height hash (by rwa [store_connect] at hget)
    rw [flushed_connect]
    refine ⟨hold.1, ?_⟩
    rcases connected_cases hstep with hsame | htake | ⟨_, _, _, _, _, -, -, hconnect⟩
    · rw [hsame]
      exact hold.2
    · rw [htake, getElem?_chainHashes_take cfg hold.1]
      exact hold.2
    · rw [hconnect, getElem?_chainHashes_append cfg (Nat.le_trans hold.1 hflushed)]
      exact hold.2
  | @storeUndo a hash' block undo hphase =>
    have hundone := hnode.chain.phase
    rw [PhaseInv, hphase] at hundone
    obtain ⟨bm, store, hundo⟩ := handleStoreUndo_of_hasBody undo hundone.2.1
      fun index hl => (hnode.index.undo hash' index hl).2.1
    obtain ⟨-, -, -, -, -, -, hdb, -⟩ := handleStoreUndo_eq_ok hundo
    simp only [Node.storeUndo, hundo, Store.getBlockHash, hdb] at hget
    exact htable height hash hget
  | @flush a coinOrder undoOrder trimOrder hphase =>
    have hwritten := IndexInv.chainstateWritten_flush s.node a coinOrder undoOrder trimOrder
    rcases hwritten.height height with ⟨-, hsame⟩ | ⟨entry, hentry, rfl, hnew⟩
    · obtain ⟨hle, hhash⟩ := htable height hash (hsame.symm.trans hget)
      exact ⟨Nat.le_trans hle hflushed, hhash⟩
    · obtain rfl := Option.some.inj (hnew.symm.trans hget)
      have hhash := hnode.chain.entries entry hentry
      exact ⟨le_of_getElem?_chainHashes cfg hhash, hhash⟩
  | crash =>
    obtain ⟨hle, hhash⟩ := htable height hash hget
    exact ⟨hle, (getElem?_chainHashes_take cfg hle).trans hhash⟩

/-- Every step keeps it. -/
lemma ServedInv.step (hinv : ServedInv cfg s) (hnode : NodeInv cfg s) (hfree : e.CollisionFree)
    (hstep : s.step cfg e = some s') : ServedInv cfg s' where
  readable := (hnode.storeStep hstep).readable hinv.readable
  checked := by
    obtain ⟨n', -, rfl⟩ := step_eq_some hstep
    exact checked_next s.node hinv.checked e
  bodies := bodies_step hnode hstep hinv.bodies
  table := table_step hnode hfree hstep hinv.table

lemma servedInv_init (cfg : Config) : ServedInv cfg (System.init cfg) where
  readable := by
    intro hash
    change ∃ found, (genesisStore cfg).getBlockIndex hash = .ok found
    have hdec := decodeExact_encode (roundTrips_blockIndex cfg.params.genesisIndex) "BlockIndex"
    by_cases hhash : hash = cfg.params.genesisHash
    · exact ⟨some cfg.params.genesisIndex, by
        simp [Store.getBlockIndex, get_genesisStore, hhash, hdec, Result.mapError_ok, Except.map]⟩
    · exact ⟨none, by simp [Store.getBlockIndex, get_genesisStore, hhash]⟩
  checked := nofun
  bodies := nofun
  table := by
    intro height hash hget
    have hget' : Store.readHash (genesisStore cfg).db (.height height) = some hash := hget
    simp [Store.readHash, get_genesisStore] at hget'

/-- The invariants in every state of a run. -/
lemma servedInv_of_reachable
    (h : Reachable (System.step cfg) (fun _ e _ => e.CollisionFree) (System.init cfg) s) :
    NodeInv cfg s ∧ ServedInv cfg s := by
  refine h.invariant (fun s => NodeInv cfg s ∧ ServedInv cfg s)
    ⟨nodeInv_init cfg, servedInv_init cfg⟩ ?_
  rintro s e s' ⟨hnode, hserved⟩ hstep hfree
  exact ⟨(hnode.step hfree hstep).1, hserved.step hnode hfree hstep⟩

/-! ### Blocks by hash -/

omit [ScriptVerifier] in
/-- The store has no body for a hash, or the bytes of a block that was accepted for it. -/
lemma getBlockRaw_cases (hindex : IndexInv s)
    (hreadable : ∀ hash, ∃ found, s.node.store.getBlockIndex hash = .ok found) (hash : BlockHash) :
    (s.node.getBlockRaw hash = .ok none ∧ ¬ s.node.store.HasBody hash) ∨
      ∃ height block, (height, block) ∈ s.history.accepted ∧ block.header.blockHash = hash ∧
        s.node.store.HasHeight hash height ∧
        s.node.getBlockRaw hash = .ok (some (serialize block)) := by
  obtain ⟨found, hfound⟩ := hreadable hash
  cases found with
  | none =>
    refine .inl ⟨by simp [Node.getBlockRaw, Store.getBlock, hfound, ok_bind, pure_eq_ok], ?_⟩
    rintro ⟨index, hindex, -⟩
    rw [hfound] at hindex
    cases hindex
  | some index =>
    cases hpos : index.filePos with
    | none =>
      refine .inl ⟨?_, ?_⟩
      · simp [Node.getBlockRaw, Store.getBlock, hfound, hpos, ok_bind, pure_eq_ok]
      · rintro ⟨index', hindex', hsome⟩
        obtain rfl := Option.some.inj (Except.ok.inj (hfound.symm.trans hindex'))
        rw [hpos] at hsome
        cases hsome
    | some pos =>
      obtain ⟨block, haccepted, hhash, hstored⟩ := hindex.backed hash index hfound pos hpos
      refine .inr ⟨index.height, block, haccepted, hhash, ⟨index, hfound, rfl⟩, ?_⟩
      simp [Node.getBlockRaw, Store.getBlock, hfound, hpos, hstored.readRecord, ok_bind, pure_eq_ok]

omit [Sha2] [ScriptVerifier] in
/-- The answer when the bytes are those of a block. -/
lemma getBlock_of_getBlockRaw {n : Node} {request : GetBlockRequest} {block : Block}
    (hraw : n.getBlockRaw request.hash = .ok (some (serialize block))) (hread : RoundTrips block) :
    n.getBlock request = .ok (if request.verbosity = 0 then .hex (serialize block)
      else .object request.hash block (request.verbosity = 2)) := by
  have hdec : decodeExact Block (serialize block) "Block" = .ok block :=
    decodeExact_encode hread "Block"
  simp only [Node.getBlock, hraw, Result.mapError_ok, ok_bind, hdec]
  split_ifs <;> rfl

/-- In every state of a run, `getblock` refuses its parameters or handles the request that they
make. It answers a request with the block that was accepted for the hash, after it had passed
`check_block`, or says that there is none. It never fails inside. -/
theorem getBlock_of_reachable
    (h : Reachable (System.step cfg) (fun _ e _ => e.CollisionFree) (System.init cfg) s) :
    (∀ hash verbosity,
      (∃ e, GetBlockRequest.Refused hash verbosity e ∧
        s.node.callGetBlock hash verbosity = .error e) ∨
      ∃ request : GetBlockRequest, hash = some (some request.hash) ∧
        request.verbosity.toNat = (verbosity.getD 1).toNat ∧
        s.node.callGetBlock hash verbosity = s.node.getBlock request) ∧
    ∀ request : GetBlockRequest,
      (s.node.getBlock request = .error (.badParams "block not found") ∧
        ¬ s.node.store.HasBody request.hash) ∨
      ∃ height block, (height, block) ∈ s.history.accepted ∧
        block.header.blockHash = request.hash ∧ checkBlock block cfg.params = .ok () ∧
        s.node.getBlockIndexHeight request.hash = .ok (some height) ∧
        s.node.getBlock request = .ok (if request.verbosity = 0 then .hex (serialize block)
          else .object request.hash block (request.verbosity = 2)) := by
  refine ⟨s.node.callGetBlock_cases, fun request => ?_⟩
  obtain ⟨hnode, hserved⟩ := servedInv_of_reachable h
  rcases getBlockRaw_cases hnode.index hserved.readable request.hash with
    ⟨hraw, hbody⟩ | ⟨height, block, haccepted, hhash, hheight, hraw⟩
  · refine .inl ⟨?_, hbody⟩
    simp [Node.getBlock, hraw, Result.mapError_ok, ok_bind, throw_eq_error]
  · have hcheck := hserved.checked _ haccepted
    obtain ⟨index, hindex, rfl⟩ := hheight
    refine .inr ⟨index.height, block, haccepted, hhash, hcheck, ?_,
      getBlock_of_getBlockRaw hraw (roundTrips_of_checkBlock hcheck)⟩
    simp [Node.getBlockIndexHeight, hindex, ok_bind, pure_eq_ok]

/-! ### Blocks by height -/

/-- In every state of a run, `getblockhash` takes the low 32 bits of its parameter. It answers with
the hash of the block connected at the height if a flush has made it durable, and `getblock` then
answers with a block of that hash. Above the last flush the height is out of range. For the genesis
block, whose body is not on disk, the answer may be either. -/
theorem getBlockHash_of_reachable
    (h : Reachable (System.step cfg) (fun _ e _ => e.CollisionFree) (System.init cfg) s) :
    (s.node.callGetBlockHash none = .error (.missingParam "height") ∧
      ∀ height : UInt64,
        s.node.callGetBlockHash (some height) = s.node.getBlockHash ⟨height.toUInt32⟩) ∧
    ∀ request : GetBlockHashRequest,
      (s.node.getBlockHash request =
          .error (.badParams s!"Height {request.height} out of range") ∧
        (request.height = 0 ∨ s.history.flushed < request.height.toNat)) ∨
      (s.node.getBlockHash request = .ok cfg.params.genesisHash ∧ request.height = 0) ∨
      ∃ connected block, s.history.connected[request.height.toNat - 1]? = some connected ∧
        request.height ≠ 0 ∧ request.height.toNat ≤ s.history.flushed ∧
        s.node.getBlockHash request = .ok connected.header.blockHash ∧
        block.header.blockHash = connected.header.blockHash ∧
        checkBlock block cfg.params = .ok () ∧
        s.node.callGetBlock (some (some connected.header.blockHash)) none =
          .ok (.object connected.header.blockHash block false) ∧
        s.node.getBlock ⟨connected.header.blockHash, 1⟩ =
          .ok (.object connected.header.blockHash block false) := by
  refine ⟨⟨rfl, fun height => rfl⟩, fun request => ?_⟩
  obtain ⟨hnode, hserved⟩ := servedInv_of_reachable h
  cases hget : s.node.store.getBlockHash request.height with
  | none =>
    refine .inl ⟨by simp [Node.getBlockHash, hget], ?_⟩
    by_contra hnot
    obtain ⟨hzero, hle⟩ := not_or.mp hnot
    -- the table has every height up to the last flush
    have htable := hnode.chain.tableFlushed request.height.toNat
      (Nat.pos_of_ne_zero fun hnat => hzero (UInt32.toNat_inj.mp hnat)) (Nat.le_of_not_lt hle)
    rw [UInt32.ofNat_toNat, hget, eq_comm, List.getElem?_eq_none_iff, length_chainHashes] at htable
    have hflushed := hnode.chain.flushed
    omega
  | some hash =>
    obtain ⟨hle, hhash⟩ := hserved.table _ _ hget
    by_cases hzero : request.height = 0
    · rw [hzero] at hhash
      obtain rfl := Option.some.inj hhash
      exact .inr (.inl ⟨by simp [Node.getBlockHash, hget], hzero⟩)
    · obtain ⟨i, hi⟩ := Nat.exists_eq_succ_of_ne_zero fun hnat => hzero (UInt32.toNat_inj.mp hnat)
      rw [hi, chainHashes, List.getElem?_cons_succ, List.getElem?_map,
        Option.map_eq_some_iff] at hhash
      obtain ⟨connected, hconnected, rfl⟩ := hhash
      have hbody := hserved.bodies connected (List.mem_of_getElem? hconnected)
      rcases getBlockRaw_cases hnode.index hserved.readable connected.header.blockHash with
        ⟨-, hnone⟩ | ⟨height, block, haccepted, hblock, -, hraw⟩
      · exact absurd hbody hnone
      · have hcheck := hserved.checked _ haccepted
        have hanswer := @getBlock_of_getBlockRaw _ ⟨connected.header.blockHash, 1⟩ block hraw
          (roundTrips_of_checkBlock hcheck)
        refine .inr (.inr ⟨connected, block, ?_, hzero, hle, by simp [Node.getBlockHash, hget],
          hblock, hcheck, hanswer, hanswer⟩)
        rwa [hi, Nat.succ_sub_one]

end

namespace Sample

lemma exists_reachable_served :
    ∃ s, Reachable (System.step cfg) (fun _ e _ => e.CollisionFree) (System.init cfg) s ∧
      s.history.connected = [nextBlock] := by
  obtain ⟨s, hrun, hconnected⟩ := exists_reachable_connected
  exact ⟨s, hrun.mono fun _ _ _ hsound => hsound.collisionFree, hconnected⟩

/-- The block that has been connected is served, and a verbosity of three is refused. -/
theorem getBlock_nextBlock :
    ∃ s block, Reachable (System.step cfg) (fun _ e _ => e.CollisionFree) (System.init cfg) s ∧
      block.header.blockHash = nextBlock.header.blockHash ∧
      s.node.getBlock ⟨nextBlock.header.blockHash, 1⟩ =
        .ok (.object nextBlock.header.blockHash block false) ∧
      s.node.callGetBlock (some (some nextBlock.header.blockHash)) (some 3) =
        .error (.badParams "verbosity must be 0, 1, or 2") := by
  obtain ⟨s, hrun, hconnected⟩ := exists_reachable_served
  have hbody := (servedInv_of_reachable hrun).2.bodies nextBlock (by simp [hconnected])
  rcases (getBlock_of_reachable hrun).2 ⟨nextBlock.header.blockHash, 1⟩ with
    ⟨-, hnone⟩ | ⟨height, block, -, hhash, -, -, hanswer⟩
  · exact absurd hbody hnone
  · exact ⟨s, block, hrun, hhash, hanswer, rfl⟩

/-- No block is at the height after it. -/
theorem getBlockHash_nextBlock :
    ∃ s, Reachable (System.step cfg) (fun _ e _ => e.CollisionFree) (System.init cfg) s ∧
      s.history.connected = [nextBlock] ∧
      s.node.callGetBlockHash (some 2) =
        .error (.badParams s!"Height {(2 : UInt32)} out of range") := by
  obtain ⟨s, hrun, hconnected⟩ := exists_reachable_served
  obtain ⟨⟨-, hcall⟩, hrequests⟩ := getBlockHash_of_reachable hrun
  rcases hrequests ⟨2⟩ with ⟨hanswer, -⟩ | ⟨-, hzero⟩ | ⟨connected, block, hget, -⟩
  · exact ⟨s, hrun, hconnected, (hcall 2).trans hanswer⟩
  · exact absurd hzero (by decide)
  · rw [hconnected] at hget
    cases hget

end Sample

end Bitcrab
