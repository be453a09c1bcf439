import Bitcrab.Consensus.Accounting
import Bitcrab.Consensus.Spends
import Bitcrab.Node.HeaderIndex

/-!
# The ledger of a node

A node with its caches, stores and flushes maintains a ledger: a chain of blocks, each of them valid
after the blocks before it. In every run the connected blocks form such a chain, the cache shows its
UTXO set and the store that of a prefix. What is true of every valid chain is then true of the node.
-/

namespace Bitcrab

open Result Writes CoinsViewCache

section

variable [Sha2] [ScriptVerifier]

/-! ### Valid chains -/

/-- The height of the block after a chain. -/
def nextHeight (chain : List Block) : BlockHeight := UInt32.ofNat (chain.length + 1)

/-- A block is valid after a chain. -/
structure ValidNext (cfg : Config) (chain : List Block) (block : Block) : Prop where
  check : checkBlock block cfg.params = .ok ()
  work : block.header.meetsTarget = true
  small : chain.length + 1 < 2 ^ 32
  distinct : (chainTxids (chain ++ [block])).Nodup
  replay : ∃ fees undo, Replay (nextHeight chain) (utxoSet chain) block.rest fees undo ∧
    ClaimAllowed block (nextHeight chain) cfg.params fees ∧
    ∀ coin ∈ undo, coin.Mature (nextHeight chain)

/-- A chain of blocks that are valid one after the other. -/
inductive ValidChain (cfg : Config) : List Block → Prop
  | genesis : ValidChain cfg []
  | connect {chain : List Block} {block : Block} (hchain : ValidChain cfg chain)
      (hnext : ValidNext cfg chain block) : ValidChain cfg (chain ++ [block])

variable {cfg : Config} {chain : List Block} {block : Block}

/-- A prefix of a valid chain is valid. -/
lemma ValidChain.take (h : ValidChain cfg chain) (k : Nat) : ValidChain cfg (chain.take k) := by
  induction h with
  | genesis => simpa using ValidChain.genesis
  | @connect chain block hchain hnext ih =>
    by_cases hk : k ≤ chain.length
    · rwa [List.take_append_of_le_length hk]
    · rw [List.take_of_length_le (by simp; omega)]
      exact .connect hchain hnext

/-- Each block of a valid chain is valid after those before it. -/
lemma ValidChain.validNext (h : ValidChain cfg chain) {i : Nat} (hi : chain[i]? = some block) :
    ValidNext cfg (chain.take i) block := by
  induction h with
  | genesis => simp at hi
  | @connect chain last hchain hnext ih =>
    by_cases hlt : i < chain.length
    · rw [List.getElem?_append_left hlt] at hi
      rw [List.take_append_of_le_length hlt.le]
      exact ih hi
    · have hbound := (List.getElem?_eq_some_iff.mp hi).1
      obtain rfl : i = chain.length := by simp at hbound; omega
      rw [List.getElem?_concat_length, Option.some.injEq] at hi
      subst hi
      rwa [List.take_left]

lemma ValidNext.form (h : ValidNext cfg chain block) : WellFormedBlock block :=
  wellFormedBlock_of_checkBlock h.check

lemma ValidChain.ne_nil (h : ValidChain cfg chain) : ∀ block ∈ chain, block.transactions ≠ [] := by
  intro block hmem
  obtain ⟨i, hi⟩ := List.getElem?_of_mem hmem
  exact (h.validNext hi).form.ne_nil

lemma ValidChain.small (h : ValidChain cfg chain) : chain.length < 2 ^ 32 := by
  cases h with
  | genesis => simp
  | connect _ hnext => simpa using hnext.small

lemma ValidNext.toNat_nextHeight (h : ValidNext cfg chain block) :
    (nextHeight chain).toNat = chain.length + 1 :=
  UInt32.toNat_ofNat_of_lt' h.small

omit [ScriptVerifier] in
lemma nodup_txids_of_chainTxids (h : (chainTxids (chain ++ [block])).Nodup) :
    (block.transactions.map Transaction.txid).Nodup := by
  rw [chainTxids_append] at h
  exact h.of_append_right

/-- The outpoints that the next block creates hold no coin before it. -/
lemma ValidNext.creates_new (h : ValidNext cfg chain block) (hchain : ValidChain cfg chain) :
    ∀ tx ∈ block.transactions, ∀ o ∈ tx.outpoints, utxoSet chain o = none := by
  intro tx htx o ho
  have hdistinct := h.distinct
  rw [chainTxids_append] at hdistinct
  by_contra hsome
  obtain ⟨coin, hcoin⟩ := Option.ne_none_iff_exists'.mp hsome
  have hold := txid_mem_of_utxoSet hchain.ne_nil hcoin
  rw [txid_of_mem_outpoints ho] at hold
  exact List.disjoint_of_nodup_append hdistinct hold (List.mem_map_of_mem htx)

omit [ScriptVerifier] in
lemma utxoSet_connect (chain : List Block) (block : Block) :
    utxoSet (chain ++ [block]) = apply (utxoSet chain) (blockWrites block (nextHeight chain)) :=
  utxoSet_append chain block

/-! ### Runs -/

lemma mature_of_validateBlock {V : Type} [CoinsView V] {height : BlockHeight}
    {indexPrev : BlockIndex} {view : CoinsViewCache V} {params : ChainParams}
    {provider : BlockIndexProvider} {checkScripts : Bool} {engine : ConsensusEngine}
    {completion : List Nat} {st : ConnectState}
    (h : validateBlock block height indexPrev view params provider checkScripts engine
      completion = .ok st) :
    ∀ coin ∈ st.blockUndo.spentCoins, coin.Mature height := by
  simp only [validateBlock, ite_seq_eq_ok, bind_eq_ok, pure_eq_ok] at h
  obtain ⟨_, -, _, -, -, -, st', hloop, _, -, hret⟩ := h
  cases hret
  exact mature_of_foldlM hloop (by simp [ConnectState.start])

section Runs

variable {s s' : System} {e : Event}

/-- What a step does to the connected blocks. -/
lemma connected_cases (hstep : s.step cfg e = some s') :
    s'.history.connected = s.history.connected ∨
      s'.history.connected = s.history.connected.take s.history.flushed ∨
      ∃ a hash block completion r, s.node.phase = .connecting a hash block ∧
        (s.node.connectCall cfg a block completion).1 = .ok r ∧
        s'.history.connected = s.history.connected ++ [block] := by
  obtain ⟨n', -, rfl⟩ := step_eq_some hstep
  cases e with
  | recvBlock block => exact .inl (history_recvBlock cfg s.history s.node block).1
  | connect completion =>
    simp only [History.next]
    split
    · rename_i a hash block hphase
      split
      · rename_i r hr
        exact .inr (.inr ⟨a, hash, block, completion, r, hphase, hr, rfl⟩)
      · exact .inl rfl
    · exact .inl rfl
  | crash => exact .inr (.inl rfl)
  | _ => exact .inl rfl

/-- A block that the node connects is valid after the chain. -/
lemma validNext_of_connectCall (hnode : NodeInv cfg s) (hcoins : CoinsInv s) {a : Activation}
    {hash : BlockHash} {block : Block} {completion : List Nat} {r : Amount × BlockUndo}
    (hphase : s.node.phase = .connecting a hash block)
    (hcall : (s.node.connectCall cfg a block completion).1 = .ok r)
    (hdistinct : (chainTxids (s.history.connected ++ [block])).Nodup) :
    ValidNext cfg s.history.connected block := by
  have hnext := hnode.chain.phase
  rw [PhaseInv, hphase] at hnext
  have hheight : a.currentTip.height + 1 = nextHeight s.history.connected := by
    rw [hnext.1, succ_ofNat, nextHeight]
  rcases hresult : s.node.connectCall cfg a block completion with ⟨result, view⟩
  rw [hresult] at hcall
  obtain rfl : result = .ok r := hcall
  obtain ⟨fees, undo⟩ := r
  obtain ⟨st, hval, hvalid, hclaim, rfl, rfl, -⟩ := connectBlock_eq_ok hresult
  have hmap : s.node.cacheView.getCoin = utxoSet s.history.connected := funext hcoins.view
  have hreplay := hvalid.replay
  have hallowed := hvalid.checkCoinbaseValue_iff.mp hclaim
  rw [hheight] at hreplay hallowed
  rw [hmap] at hreplay
  refine ⟨hvalid.check, meetsTarget_of_checkBlockHeader hvalid.header, hnext.2.1, hdistinct,
    st.totalFees.toNat, st.blockUndo.spentCoins, hreplay, hallowed, ?_⟩
  rw [← hheight]
  exact mature_of_validateBlock hval

/-- What holds of a node and its ledger in every state of a sound run. -/
structure LedgerInv (cfg : Config) (s : System) : Prop where
  node : NodeInv cfg s
  coins : CoinsInv s
  chain : ValidChain cfg s.history.connected

/-- Every sound step keeps the chain valid. -/
lemma LedgerInv.step (hinv : LedgerInv cfg s) (hstep : s.step cfg e = some s')
    (hsound : SoundStep cfg s e s') : LedgerInv cfg s' := by
  refine ⟨(hinv.node.step hsound.collisionFree hstep).1, hinv.coins.step hinv.node hstep hsound, ?_⟩
  rcases connected_cases hstep with hsame | htake | ⟨a, hash, block, completion, r, hphase, hcall,
    hconnect⟩
  · rw [hsame]
    exact hinv.chain
  · rw [htake]
    exact hinv.chain.take _
  · have hdistinct := hsound.distinct
    rw [hconnect] at hdistinct ⊢
    exact .connect hinv.chain
      (validNext_of_connectCall hinv.node hinv.coins hphase hcall hdistinct)

lemma ledgerInv_of_reachable
    (hrun : Reachable (System.step cfg) (SoundStep cfg) (System.init cfg) s) : LedgerInv cfg s :=
  hrun.invariant (LedgerInv cfg) ⟨nodeInv_init cfg, coinsInv_init cfg, .genesis⟩
    fun _ _ _ hinv hstep hsound => hinv.step hstep hsound

/-- In every run the connected blocks are a valid chain, whose UTXO set the cache shows. The store
shows that of the blocks that were connected at the last flush. -/
theorem validChain_of_reachable
    (hrun : Reachable (System.step cfg) (SoundStep cfg) (System.init cfg) s) :
    ValidChain cfg s.history.connected ∧
      (∀ o, s.node.cacheView.getCoin o = utxoSet s.history.connected o) ∧
      ∀ o, s.node.store.getCoin o =
        .ok (utxoSet (s.history.connected.take s.history.flushed) o) := by
  have hinv := ledgerInv_of_reachable hrun
  exact ⟨hinv.chain, hinv.coins.view, hinv.coins.stored⟩

end Runs

end

namespace Sample

theorem validChain_nextBlock :
    ∃ s, Reachable (System.step cfg) (SoundStep cfg) (System.init cfg) s ∧
      ValidChain cfg [nextBlock] ∧ (∀ o, s.node.cacheView.getCoin o = utxoSet [nextBlock] o) ∧
      ∀ o, s.node.store.getCoin o = .ok (utxoSet ([nextBlock].take s.history.flushed) o) := by
  obtain ⟨s, hrun, hconnected⟩ := exists_reachable_connected
  have hledger := validChain_of_reachable hrun
  rw [hconnected] at hledger
  exact ⟨s, hrun, hledger⟩

end Sample

end Bitcrab
