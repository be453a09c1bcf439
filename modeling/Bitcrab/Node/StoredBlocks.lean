import Bitcrab.Node.CrashConsistency
import Bitcrab.Node.StoreSteps
import Bitcrab.Types.Canonical

/-!
# What is kept of a received block

`process_block` stores the encoding of the block that was decoded, which is what was received unless
a transaction came with a superfluous witness.

Where the block and its undo data are is part of its index record, which several messages overwrite
as a whole. The position of the block is in all of them. The position of the undo data is lost when
a block is stored again after a flush has written it.
-/

namespace Bitcrab

/-! ### The bytes -/

section Bytes

variable [Sha2] [ScriptVerifier]

/-- The message that `process_block` sends carries the encoding of the block. -/
lemma rawBlock_of_recvBlock (cfg : Config) (n : Node) (block : Block) {msg : StoreBlockMsg}
    (h : msg ∈ (n.recvBlock cfg block).storeQueue) :
    msg ∈ n.storeQueue ∨ msg.rawBlock = encode block := by
  unfold Node.recvBlock at h
  split at h
  · exact .inl h
  · split at h
    · rcases List.mem_append.mp h with h | h
      · exact .inl h
      · obtain rfl := List.mem_singleton.mp h
        exact .inr rfl
    · exact .inl h

/-- Accepted bytes are the encoding of what they are decoded to, and a block is stored and weighed
as it was received, exactly when no transaction in them has a superfluous witness. -/
theorem encode_decoded_iff :
    (∀ (d d' : Decoder) (tx : Transaction), decode d = .ok (tx, d') →
      (d.rest.take (d'.pos - d.pos) = encode tx ↔
        ¬ ∃ bs, Transaction.SuperfluousWitness bs ∧ bs <+: d.rest)) ∧
    (∀ (d d' : Decoder) (block : Block), decode d = .ok (block, d') →
      (d.rest.take (d'.pos - d.pos) = encode block ↔ ¬ Block.SuperfluousWitness d.rest) ∧
      (block.weight = block.receivedWeight (d.rest.take (d'.pos - d.pos)) ↔
        ¬ Block.SuperfluousWitness d.rest) ∧
      ∀ (cfg : Config) (n : Node) (msg : StoreBlockMsg),
        msg ∈ (n.recvBlock cfg block).storeQueue → msg ∉ n.storeQueue →
          (msg.rawBlock = d.rest.take (d'.pos - d.pos) ↔ ¬ Block.SuperfluousWitness d.rest)) := by
  refine ⟨fun d d' tx h => Transaction.take_eq_encode_iff h, fun d d' block h => ?_⟩
  refine ⟨Block.take_eq_encode_iff h, Block.weight_eq_iff h, fun cfg n msg hmsg hnew => ?_⟩
  rcases rawBlock_of_recvBlock cfg n block hmsg with hold | hraw
  · exact absurd hold hnew
  · rw [hraw, ← Block.take_eq_encode_iff h, eq_comm]

end Bytes

namespace Sample

theorem encode_decoded_iff_spend :
    decode ⟨0, (spend [[1, 2, 3]]).encodeExtended ++ [9]⟩ =
        .ok (spend [[1, 2, 3]], ⟨0 + (spend [[1, 2, 3]]).encodeExtended.length, [9]⟩) ∧
      ¬ ∃ bs, Transaction.SuperfluousWitness bs ∧
        bs <+: (spend [[1, 2, 3]]).encodeExtended ++ [9] := by
  have hlimits : (spend [[1, 2, 3]]).WithinLimits := withinLimits_spend _ (by decide)
  have hread := Transaction.reads_encodeExtended hlimits 0 [9]
  refine ⟨hread, (encode_decoded_iff.1 _ _ _ hread).mp ?_⟩
  have hlen : 0 + (spend [[1, 2, 3]]).encodeExtended.length - 0 =
      (spend [[1, 2, 3]]).encodeExtended.length := by omega
  rw [hlen, List.take_left]
  exact (Transaction.encode_of_isSegwit rfl).symm

/-- A transaction without witnesses is accepted in the form with marker and flag, and encoded
without them. -/
theorem encode_ne_superfluous_spend :
    ¬ ∀ (d d' : Decoder) (tx : Transaction), decode d = .ok (tx, d') →
      d.rest.take (d'.pos - d.pos) = encode tx := by
  intro h
  have hlimits : (spend []).WithinLimits := withinLimits_spend _ (by decide)
  have hread := Transaction.reads_encodeExtended hlimits 0 []
  have heq := congrArg List.length (h _ _ _ hread)
  revert heq
  decide

end Sample

/-! ### The positions -/

/-- The calls of the store while a node runs: those of its events, and more of those that
activations make, in any order. -/
inductive StoreEvent where
  /-- An event of the node. -/
  | node (e : Event)
  /-- A call of `process_block` lets others send their messages first. -/
  | delay (i : Nat)
  /-- A call of `store_undo`, as in the activation loop. -/
  | storeUndo (hash : BlockHash) (undo : BlockUndo)
  /-- A call of `update_utxo_set`, as in a flush. -/
  | updateUtxoSet (coinOrder : List OutPoint) (undoOrder : List BlockHash)
      (coins : HashMap OutPoint CoinUpdate) (bestBlock : Option BlockHash)
      (connectedBlocks : List (UInt32 × BlockHash))

section Positions

variable [Sha2] [ScriptVerifier] (cfg : Config)

/-- One call. A call of `store_undo` that fails changes nothing. -/
def System.storeStep (s : System) : StoreEvent → Option System
  | .node e => s.step cfg e
  | .delay i =>
    match s.node.storeQueue[i]? with
    | none => none
    | some msg => some { s with node := { s.node with
        storeQueue := s.node.storeQueue.eraseIdx i ++ [msg] } }
  | .storeUndo hash undo =>
    match s.node.blockManager.handleStoreUndo s.node.store hash undo with
    | .error _ => some s
    | .ok (blockManager, store) => some { s with node := { s.node with blockManager, store } }
  | .updateUtxoSet coinOrder undoOrder coins bestBlock connectedBlocks =>
    let (blockManager, store) := s.node.blockManager.handleUpdateUtxoSet s.node.store coinOrder
      undoOrder coins bestBlock connectedBlocks
    some { s with node := { s.node with blockManager, store } }

/-- The headers of one message do not collide. -/
def StoreEvent.CollisionFree : StoreEvent → Prop
  | .node e => e.CollisionFree
  | _ => True

/-- The `StoreBlock` messages that a call handles. -/
def StoreEvent.handled (n : Node) : StoreEvent → List StoreBlockMsg
  | .node e => e.handled n
  | _ => []

variable {cfg} {s s' : System} {e : StoreEvent}

/-- Every call keeps the index and writes to it as it should. -/
lemma IndexInv.storeStep (hinv : IndexInv s)
    (hgenesis : s.node.store.HasHeight cfg.params.genesisHash 0) (hfree : e.CollisionFree)
    (hstep : s.storeStep cfg e = some s') :
    IndexInv s' ∧ StoreStep s (e.handled s.node) s' := by
  cases e with
  | node e => exact ⟨hinv.step hgenesis hfree hstep, .of_step hinv hgenesis hstep⟩
  | delay i =>
    simp only [System.storeStep] at hstep
    split at hstep
    · cases hstep
    · rename_i msg hmsg
      obtain rfl := Option.some.inj hstep
      refine ⟨?_, .of_eq rfl rfl⟩
      refine hinv.of_store_eq rfl rfl (List.Subset.refl _) hinv.waiting hinv.downloaded ?_
        hinv.headers
      intro msg' hmsg'
      rcases List.mem_append.mp hmsg' with hold | hlast
      · exact .inl (List.mem_of_mem_eraseIdx hold)
      · obtain rfl := List.mem_singleton.mp hlast
        exact .inl (List.mem_of_getElem? hmsg)
  | storeUndo hash undo =>
    simp only [System.storeStep] at hstep
    split at hstep
    · obtain rfl := Option.some.inj hstep
      exact ⟨hinv, .of_eq rfl rfl⟩
    · rename_i hundo
      obtain rfl := Option.some.inj hstep
      exact ⟨hinv.of_handleStoreUndo hundo rfl rfl rfl rfl rfl, .of_handleStoreUndo hundo⟩
  | updateUtxoSet coinOrder undoOrder coins bestBlock connectedBlocks =>
    obtain rfl := Option.some.inj hstep
    have hwritten := chainstateWritten_handleUpdateUtxoSet s.node.blockManager s.node.store
      coinOrder undoOrder coins bestBlock connectedBlocks
    exact ⟨hinv.of_chainstateWritten hwritten rfl rfl rfl rfl rfl rfl rfl, .flush hwritten rfl⟩

/-- The index is kept, with the genesis block in it and positions of undo data in the buffer. -/
structure PositionInv (cfg : Config) (s : System) : Prop where
  index : IndexInv s
  genesis : s.node.store.HasHeight cfg.params.genesisHash 0
  buffered : s.node.blockManager.UndoBuffered

lemma PositionInv.step (hinv : PositionInv cfg s) (hfree : e.CollisionFree)
    (hstep : s.storeStep cfg e = some s') :
    PositionInv cfg s' ∧ StoreStep s (e.handled s.node) s' := by
  obtain ⟨hindex, hwrites⟩ := hinv.index.storeStep hinv.genesis hfree hstep
  exact ⟨⟨hindex, (hwrites.grows hinv.index).height _ _ hinv.genesis,
    hwrites.undoBuffered hinv.buffered⟩, hwrites⟩

lemma positionInv_of_reachable
    (h : Reachable (System.storeStep cfg) (fun _ e _ => e.CollisionFree) (System.init cfg) s) :
    PositionInv cfg s := by
  refine h.invariant (PositionInv cfg)
    ⟨indexInv_init cfg, hasHeight_genesisStore cfg, fun hash index hl => by cases hl⟩ ?_
  intro s e s' hinv hstep hfree
  exact (hinv.step hfree hstep).1

/-- A stored block stays stored: its index always has the position of a block with its hash that was
accepted. A position of undo data that a flush has written stays as long as no message stores the
block again. -/
theorem positions_kept :
    (∀ s s',
      Reachable (System.storeStep cfg) (fun _ e _ => e.CollisionFree) (System.init cfg) s →
      Reachable (System.storeStep cfg) (fun _ e _ => e.CollisionFree) s s' →
      ∀ hash, s.node.store.HasBody hash → ∃ index pos block,
        s'.node.store.getBlockIndex hash = .ok (some index) ∧ index.filePos = some pos ∧
        (index.height, block) ∈ s'.history.accepted ∧ block.header.blockHash = hash ∧
        readRecord s'.node.store.disk.blocks pos = .ok (serialize block)) ∧
    (∀ s s',
      Reachable (System.storeStep cfg) (fun _ e _ => e.CollisionFree) (System.init cfg) s →
      Reachable (System.storeStep cfg) (fun s e _ => e.CollisionFree ∧
        ∀ msg ∈ e.handled s.node, ¬ s.node.store.HasUndo msg.header.blockHash) s s' →
      ∀ hash, s.node.store.HasUndo hash → s'.node.store.HasUndo hash) := by
  refine ⟨fun s s' hs hs' hash hbody => ?_, fun s s' hs hs' hash hundo => ?_⟩
  · have hkept : PositionInv cfg s' ∧ s'.node.store.HasBody hash := by
      refine hs'.invariant (fun s => PositionInv cfg s ∧ s.node.store.HasBody hash)
        ⟨positionInv_of_reachable hs, hbody⟩ ?_
      rintro s e s' ⟨hinv, hbody⟩ hstep hfree
      obtain ⟨hinv', hwrites⟩ := hinv.step hfree hstep
      exact ⟨hinv', (hwrites.grows hinv.index).body hash hbody⟩
    obtain ⟨hinv, index, hindex, hsome⟩ := hkept
    obtain ⟨pos, hpos⟩ := Option.isSome_iff_exists.mp hsome
    obtain ⟨block, hmem, hhash, hstored⟩ := hinv.index.backed hash index hindex pos hpos
    exact ⟨index, pos, block, hindex, hpos, hmem, hhash, hstored.readRecord⟩
  · have hkept : PositionInv cfg s' ∧ s'.node.store.HasUndo hash := by
      refine hs'.invariant (fun s => PositionInv cfg s ∧ s.node.store.HasUndo hash)
        ⟨positionInv_of_reachable hs, hundo⟩ ?_
      rintro s e s' ⟨hinv, hundo⟩ hstep ⟨hfree, hmsgs⟩
      obtain ⟨hinv', hwrites⟩ := hinv.step hfree hstep
      exact ⟨hinv', hwrites.hasUndo hinv.buffered hmsgs hundo⟩
    exact hkept.2

end Positions

/-! ### A block stored twice -/

instance [Sha2] : DecidablePred StoreEvent.CollisionFree
  | .node e => inferInstanceAs (Decidable e.CollisionFree)
  | .delay _ | .storeUndo _ _ | .updateUtxoSet _ _ _ _ _ => .isTrue True.intro

instance (s : Store) (hash : BlockHash) : Decidable (s.HasUndo hash) :=
  match h : s.getBlockIndex hash with
  | .ok (some index) => decidable_of_iff (index.undoPos.isSome = true) <| by
      simp [Store.HasUndo, h]
  | .ok none => .isFalse <| by simp [Store.HasUndo, h]
  | .error _ => .isFalse <| by simp [Store.HasUndo, h]

namespace Sample

/-- A block arrives from two peers; it is stored once and connected. -/
def twiceEvents : List StoreEvent :=
  ([.recvHeaders [nextBlock.header], .acceptHeader, .storeHeaders, .recvBlock nextBlock,
    .recvBlock nextBlock, .storeBlocks 1, .blockDownloaded 0, .activate, .selectBlock false,
    .connect [], .storeUndo, .selectBlock false] : List Event).map .node

/-- The call of a flush. -/
def flushCall (s : System) : StoreEvent :=
  .updateUtxoSet [] [] s.node.cacheView.toUpdates s.node.cacheView.getBestBlock
    s.node.cacheView.connectedBlocks

set_option maxRecDepth 100000 in
/-- The second message takes the position of the undo data away. -/
lemma run_twiceEvents :
    ((Reachable.run (System.storeStep cfg) (fun _ e _ => decide e.CollisionFree) (System.init cfg)
        twiceEvents).bind fun s => (s.storeStep cfg (flushCall s)).bind fun s' =>
          (s'.storeStep cfg (.node (.storeBlocks 1))).map fun s'' =>
            (s'.history.connected, decide (s'.node.store.HasUndo nextBlock.header.blockHash),
              decide (s''.node.store.HasUndo nextBlock.header.blockHash))) =
      some ([nextBlock], true, false) := by
  unfold cfg System.storeStep System.step System.init Node.step Node.init Node.loadGenesisBlock
    Node.acceptHeader HeaderBatch.acceptHeader HeaderBatch.push ChainParams.genesisIndex
    Node.selectBlock Node.connect
  rw [sha2_eq_digests, calculateBlockWork_eq_division]
  decide +kernel

/-- The states before and after it. -/
lemma exists_reachable_twice :
    ∃ s s', Reachable (System.storeStep cfg) (fun _ e _ => e.CollisionFree) (System.init cfg) s ∧
      s.storeStep cfg (.node (.storeBlocks 1)) = some s' ∧ s.history.connected = [nextBlock] ∧
      s.node.store.HasUndo nextBlock.header.blockHash ∧
      ¬ s'.node.store.HasUndo nextBlock.header.blockHash := by
  obtain ⟨s, hrun, hs⟩ := Option.bind_eq_some_iff.mp run_twiceEvents
  obtain ⟨s', hflush, hs'⟩ := Option.bind_eq_some_iff.mp hs
  obtain ⟨s'', hstep, hundo⟩ := Option.map_eq_some_iff.mp hs'
  simp only [Prod.mk.injEq, decide_eq_true_eq, decide_eq_false_iff_not] at hundo
  have hreach := Reachable.init.of_run (fun _ _ _ => of_decide_eq_true) hrun
  exact ⟨s', s'', .step hreach hflush trivial, hstep, hundo⟩

theorem positions_kept_nextBlock :
    ∃ s s', Reachable (System.storeStep cfg) (fun _ e _ => e.CollisionFree) (System.init cfg) s ∧
      s.storeStep cfg (.node .crash) = some s' ∧ s.history.connected = [nextBlock] ∧
      s'.node.store.HasUndo nextBlock.header.blockHash := by
  obtain ⟨s, -, hs, -, hconnected, hundo, -⟩ := exists_reachable_twice
  have hcrash : s.storeStep cfg (.node .crash) =
      some ⟨Node.start cfg s.node.store, s.history.next cfg s.node .crash⟩ := rfl
  have hs' : Reachable (System.storeStep cfg) (fun s e _ => e.CollisionFree ∧
      ∀ msg ∈ e.handled s.node, ¬ s.node.store.HasUndo msg.header.blockHash) s
      ⟨Node.start cfg s.node.store, s.history.next cfg s.node .crash⟩ :=
    .step .init hcrash ⟨trivial, by simp [StoreEvent.handled, Event.handled]⟩
  exact ⟨s, _, hs, hcrash, hconnected, positions_kept.2 s _ hs hs' _ hundo⟩

/-- A position of undo data that a flush has written for a connected block is lost. -/
theorem positions_lost :
    ¬ ∀ s s',
      Reachable (System.storeStep cfg) (fun _ e _ => e.CollisionFree) (System.init cfg) s →
      Reachable (System.storeStep cfg) (fun _ e _ => e.CollisionFree) s s' →
      ∀ block ∈ s.history.connected, s.node.store.HasUndo block.header.blockHash →
        s'.node.store.HasUndo block.header.blockHash := by
  intro h
  obtain ⟨s, s', hs, hstep, hconnected, hundo, hlost⟩ := exists_reachable_twice
  refine hlost (h s s' hs (.step .init hstep trivial) nextBlock ?_ hundo)
  rw [hconnected]
  exact List.mem_singleton_self _

end Sample

end Bitcrab
