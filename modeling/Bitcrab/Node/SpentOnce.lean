import Bitcrab.Node.VerifiedScripts

/-!
# Every coin of the chain is spent once

Over the whole chain that a node connects, no outpoint is spent twice, and each spend is of an
output of the chain: one of an earlier transaction, or of a coinbase at least a hundred blocks
below.
-/

namespace Bitcrab

open Writes

/-- The outpoints that transactions spend. Those in coinbase form spend none. -/
def spentBy (txs : List Transaction) : List OutPoint :=
  (txs.filter fun tx => !tx.isCoinbase).flatMap Transaction.spends

/-- The outpoints that the blocks of a chain spend. -/
def chainSpends (chain : List Block) : List OutPoint :=
  chain.flatMap fun block => spentBy block.rest

lemma spentBy_cons_of_isCoinbase {tx : Transaction} (h : tx.isCoinbase) (txs : List Transaction) :
    spentBy (tx :: txs) = spentBy txs := by
  simp [spentBy, h]

lemma spentBy_cons_of_not_isCoinbase {tx : Transaction} (h : ¬ tx.isCoinbase)
    (txs : List Transaction) : spentBy (tx :: txs) = tx.spends ++ spentBy txs := by
  simp [spentBy, h]

lemma chainSpends_append (chain : List Block) (block : Block) :
    chainSpends (chain ++ [block]) = chainSpends chain ++ spentBy block.rest := by
  simp [chainSpends]

/-- Each of the outpoints has a coin. -/
lemma exists_coin_of_forall₂ {m : CoinMap} {os : List OutPoint} {coins : List Coin}
    (h : List.Forall₂ (fun o c => m o = some c) os coins) {o : OutPoint} (ho : o ∈ os) :
    ∃ coin ∈ coins, m o = some coin := by
  have hmem := List.mem_map_of_mem (f := m) ho
  rw [map_eq_map_some h] at hmem
  obtain ⟨coin, hcoin, heq⟩ := List.mem_map.mp hmem
  exact ⟨coin, hcoin, heq.symm⟩

section

variable [Sha2]

/-! ### Replayed transactions -/

section Replay

variable {height : BlockHeight} {m : CoinMap} {txs : List Transaction} {fees : ℕ} {undo : List Coin}

/-- What is new after a transaction is what was new before, without its own outputs. -/
lemma creates_new_of_writes {tx : Transaction} (htxids : ((tx :: txs).map Transaction.txid).Nodup)
    (hnew : ∀ t ∈ tx :: txs, ∀ o ∈ t.outpoints, m o = none) :
    ∀ t ∈ txs, ∀ o ∈ t.outpoints, apply m (tx.writes height) o = none := by
  intro t ht o ho
  rw [List.map_cons, List.nodup_cons] at htxids
  refine apply_writes_eq_none (hnew t (List.mem_cons_of_mem _ ht) o ho) fun hown => ?_
  have hids := (txid_of_mem_outpoints ho).symm.trans (txid_of_mem_outpoints hown)
  exact htxids.1 (hids ▸ List.mem_map_of_mem ht)

/-- What is spent was there, or an earlier transaction created it. -/
lemma Replay.notMem_spentBy (h : Replay height m txs fees undo) {o : OutPoint} (hnone : m o = none)
    (hnot : ∀ tx ∈ txs, o ∉ tx.outpoints) : o ∉ spentBy txs := by
  induction h with
  | nil => simp [spentBy]
  | @cons m tx txs fee fees coins undo hchecked hrest ih =>
    rw [List.forall_mem_cons] at hnot
    have htail := ih (apply_writes_eq_none hnone hnot.1) hnot.2
    cases hchecked with
    | coinbase hcb => rwa [spentBy_cons_of_isCoinbase hcb]
    | regular hcb hcoins _ =>
      rw [spentBy_cons_of_not_isCoinbase hcb, List.mem_append, not_or]
      refine ⟨fun hmem => ?_, htail⟩
      obtain ⟨coin, -, hcoin⟩ := exists_coin_of_forall₂ hcoins hmem
      rw [hnone] at hcoin
      cases hcoin

/-- Transactions spend distinct outpoints, and leave them without a coin. -/
lemma Replay.spends_once (h : Replay height m txs fees undo)
    (hform : ∀ tx ∈ txs, WellFormedTx tx) (htxids : (txs.map Transaction.txid).Nodup)
    (hnew : ∀ tx ∈ txs, ∀ o ∈ tx.outpoints, m o = none) :
    (spentBy txs).Nodup ∧ ∀ o ∈ spentBy txs, apply m (restWrites txs height) o = none := by
  induction h with
  | nil => simp [spentBy]
  | @cons m tx txs fee fees coins undo hchecked hrest ih =>
    rw [List.forall_mem_cons] at hform
    have htxids' := htxids
    rw [List.map_cons, List.nodup_cons] at htxids'
    obtain ⟨hnodup, hgone⟩ := ih hform.2 htxids'.2 (creates_new_of_writes htxids hnew)
    rw [restWrites_cons, apply_append]
    cases hchecked with
    | coinbase hcb =>
      rw [spentBy_cons_of_isCoinbase hcb]
      exact ⟨hnodup, hgone⟩
    | regular hcb hcoins _ =>
      -- a coin that is there is not created by this transaction or a later one
      have hnot : ∀ o ∈ tx.spends, ∀ t ∈ tx :: txs, o ∉ t.outpoints := by
        intro o ho t ht hcreated
        obtain ⟨coin, -, hcoin⟩ := exists_coin_of_forall₂ hcoins ho
        rw [hnew t ht o hcreated] at hcoin
        cases hcoin
      have hnone : ∀ o ∈ tx.spends, apply m (tx.writes height) o = none :=
        fun o ho => apply_writes_of_spends ho (hnot o ho tx List.mem_cons_self)
      have hlater : ∀ o ∈ tx.spends, ∀ t ∈ txs, o ∉ t.outpoints :=
        fun o ho t ht => hnot o ho t (List.mem_cons_of_mem _ ht)
      rw [spentBy_cons_of_not_isCoinbase hcb]
      refine ⟨List.Nodup.append hform.1.spends hnodup fun o ho ho' => ?_, ?_⟩
      · exact hrest.notMem_spentBy (hnone o ho) (hlater o ho) ho'
      · intro o ho
        rcases List.mem_append.mp ho with ho | ho
        · exact apply_restWrites_eq_none (hnone o ho) (hlater o ho)
        · exact hgone o ho

end Replay

/-! ### Valid chains -/

section Chain

variable [ScriptVerifier] {cfg : Config} {chain : List Block} {block : Block}

omit [ScriptVerifier] in
/-- A block leaves an outpoint without a coin that had none and that it does not create. -/
lemma apply_blockWrites_eq_none {height : BlockHeight} {m : CoinMap} {o : OutPoint}
    (hne : block.transactions ≠ []) (hnone : m o = none)
    (hnot : ∀ tx ∈ block.transactions, o ∉ tx.outpoints) :
    apply m (blockWrites block height) o = none := by
  by_contra hsome
  obtain ⟨coin, hcoin⟩ := Option.ne_none_iff_exists'.mp hsome
  rcases apply_eq_some hcoin with hold | hwrite
  · rw [hnone] at hold
    cases hold
  · obtain ⟨tx, htx, ho⟩ := exists_mem_outpoints hne hwrite rfl
    exact hnot tx htx ho

/-- The outpoints of a block are not those of the chain before it. -/
lemma ValidNext.notMem_outpoints (h : ValidNext cfg chain block) {o : OutPoint}
    (ho : o.txid ∈ chainTxids chain) : ∀ tx ∈ block.transactions, o ∉ tx.outpoints := by
  intro tx htx hmem
  have hdistinct := h.distinct
  rw [chainTxids_append] at hdistinct
  rw [txid_of_mem_outpoints hmem] at ho
  exact List.disjoint_of_nodup_append hdistinct ho (List.mem_map_of_mem htx)

lemma ValidNext.rest_subset (h : ValidNext cfg chain block) {tx : Transaction}
    (htx : tx ∈ block.rest) : tx ∈ block.transactions := by
  rw [transactions_eq h.form.ne_nil]
  exact List.mem_cons_of_mem _ htx

/-- What a block spends is an output of the chain up to it. -/
lemma ValidNext.txid_mem_of_spentBy (h : ValidNext cfg chain block) (hchain : ValidChain cfg chain)
    {o : OutPoint} (ho : o ∈ spentBy block.rest) : o.txid ∈ chainTxids (chain ++ [block]) := by
  obtain ⟨fees, undo, hreplay, -⟩ := h.replay
  by_contra hnew
  rw [chainTxids_append, List.mem_append, not_or] at hnew
  refine hreplay.notMem_spentBy ?_ ?_ ho
  · by_contra hsome
    obtain ⟨coin, hcoin⟩ := Option.ne_none_iff_exists'.mp hsome
    exact hnew.1 (txid_mem_of_utxoSet hchain.ne_nil hcoin)
  · intro tx htx hmem
    rw [txid_of_mem_outpoints hmem] at hnew
    exact hnew.2 (List.mem_map_of_mem (h.rest_subset htx))

/-- A block does not spend the outputs of its coinbase. -/
lemma ValidNext.notMem_coinbase (h : ValidNext cfg chain block) (hchain : ValidChain cfg chain)
    {o : OutPoint} (ho : o ∈ spentBy block.rest) : o ∉ block.coinbase.outpoints := by
  obtain ⟨fees, undo, hreplay, -⟩ := h.replay
  have htxs := transactions_eq h.form.ne_nil
  intro hmem
  refine hreplay.notMem_spentBy ?_ ?_ ho
  · exact h.creates_new hchain block.coinbase (htxs ▸ List.mem_cons_self) o hmem
  · intro tx htx hown
    have htxids := nodup_txids_of_chainTxids h.distinct
    rw [htxs, List.map_cons, List.nodup_cons] at htxids
    have hids := (txid_of_mem_outpoints hmem).symm.trans (txid_of_mem_outpoints hown)
    exact htxids.1 (hids ▸ List.mem_map_of_mem htx)

/-- What a block spends has no coin after it. -/
lemma ValidNext.spends_once (h : ValidNext cfg chain block) (hchain : ValidChain cfg chain) :
    (spentBy block.rest).Nodup ∧ ∀ o ∈ spentBy block.rest, utxoSet (chain ++ [block]) o = none := by
  obtain ⟨fees, undo, hreplay, -⟩ := h.replay
  have htxids := nodup_txids_of_chainTxids h.distinct
  rw [transactions_eq h.form.ne_nil, List.map_cons, List.nodup_cons] at htxids
  obtain ⟨hnodup, hgone⟩ := hreplay.spends_once
    (fun tx htx => h.form.transactions tx (h.rest_subset htx)) htxids.2
    (fun tx htx => h.creates_new hchain tx (h.rest_subset htx))
  refine ⟨hnodup, fun o ho => ?_⟩
  rw [utxoSet_connect, blockWrites, apply_append, apply_of_notMem]
  · exact hgone o ho
  · rw [map_fst_additions, map_fst_created]
    exact h.notMem_coinbase hchain ho

/-- The spends of a chain are distinct outputs of it, and none of them has a coin left. -/
lemma ValidChain.spends_once (h : ValidChain cfg chain) :
    (chainSpends chain).Nodup ∧
      ∀ o ∈ chainSpends chain, utxoSet chain o = none ∧ o.txid ∈ chainTxids chain := by
  induction h with
  | genesis => simp [chainSpends]
  | @connect chain block hchain hnext ih =>
    obtain ⟨hnodup, hold⟩ := ih
    obtain ⟨hnodup', hgone⟩ := hnext.spends_once hchain
    obtain ⟨fees, undo, hreplay, -⟩ := hnext.replay
    rw [chainSpends_append]
    refine ⟨hnodup.append hnodup' fun o ho ho' => ?_, fun o ho => ?_⟩
    · obtain ⟨hnone, htxid⟩ := hold o ho
      refine hreplay.notMem_spentBy hnone (fun tx htx => ?_) ho'
      exact hnext.notMem_outpoints htxid tx (hnext.rest_subset htx)
    · rcases List.mem_append.mp ho with ho | ho
      · obtain ⟨hnone, htxid⟩ := hold o ho
        refine ⟨?_, ?_⟩
        · rw [utxoSet_connect]
          exact apply_blockWrites_eq_none hnext.form.ne_nil hnone (hnext.notMem_outpoints htxid)
        · rw [chainTxids_append]
          exact List.mem_append_left _ htxid
      · exact ⟨hgone o ho, hnext.txid_mem_of_spentBy hchain ho⟩

end Chain

/-! ### Where a coin comes from -/

section Origin

variable [ScriptVerifier] {cfg : Config} {chain : List Block} {block : Block}

/-- An outpoint is an output of a chain: of a transaction after the first of a block, or of a
coinbase that is mature at a height. -/
def CreatedIn (chain : List Block) (height : ℕ) (o : OutPoint) : Prop :=
  ∃ j block, chain[j]? = some block ∧ ((∃ tx ∈ block.rest, o ∈ tx.outpoints) ∨
    o ∈ block.coinbase.outpoints ∧ j + 1 + coinbaseMaturity ≤ height)

omit [ScriptVerifier] in
lemma mem_created {tx : Transaction} {height : BlockHeight} {isCoinbase : Bool} {o : OutPoint}
    {coin : Coin} (h : (o, some coin) ∈ additions (tx.created height isCoinbase)) :
    o ∈ tx.outpoints ∧ coin.height = height ∧ coin.isCoinbase = isCoinbase := by
  have ho := mem_outpoints_of_mem_additions h
  obtain ⟨⟨o', coin'⟩, hmem, heq⟩ := List.mem_map.mp h
  obtain ⟨⟨output, vout⟩, -, hcreated⟩ := List.mem_map.mp hmem
  cases heq
  cases hcreated
  exact ⟨ho, rfl, rfl⟩

omit [ScriptVerifier] in
/-- A mature coin of the UTXO set is an output of the chain. -/
lemma createdIn_of_utxoSet {o : OutPoint} {coin : Coin} {height : BlockHeight}
    (hsmall : chain.length < 2 ^ 32) (h : utxoSet chain o = some coin)
    (hmature : coin.Mature height) :
    CreatedIn chain height.toNat o := by
  rcases apply_eq_some h with h | h
  · cases h
  · obtain ⟨⟨block, n⟩, hblock, hw⟩ := List.mem_flatMap.mp h
    obtain ⟨hpos, hget⟩ := List.mem_zipIdx_iff_le_and_getElem?_sub.mp hblock
    have hlt := (List.getElem?_eq_some_iff.mp hget).1
    refine ⟨n - 1, block, hget, ?_⟩
    rw [blockWrites, List.mem_append] at hw
    rcases hw with hw | hw
    · obtain ⟨tx, htx, hw⟩ := List.mem_flatMap.mp hw
      rcases List.mem_append.mp hw with hw | hw
      · simp [removals] at hw
      · exact .inl ⟨tx, htx, (mem_created hw).1⟩
    · obtain ⟨ho, hheight, hcoinbase⟩ := mem_created hw
      have hle := hmature hcoinbase
      rw [hheight, UInt32.toNat_ofNat_of_lt' (show n < 2 ^ 32 by omega)] at hle
      exact .inr ⟨ho, by omega⟩

/-- An input of a connected transaction spends an output of an earlier transaction of its block, or
one of the chain before the block. -/
lemma ValidChain.origin (h : ValidChain cfg chain) {i : ℕ} (hi : chain[i]? = some block) {k : ℕ}
    {tx : Transaction} (hk : block.rest[k]? = some tx) (hcb : ¬ tx.isCoinbase) {o : OutPoint}
    (ho : o ∈ tx.spends) :
    (∃ k' < k, ∃ tx', block.rest[k']? = some tx' ∧ o ∈ tx'.outpoints) ∨
      CreatedIn (chain.take i) (i + 1) o := by
  have hnext := h.validNext hi
  have hlen : (chain.take i).length = i :=
    List.length_take_of_le (List.getElem?_eq_some_iff.mp hi).1.le
  obtain ⟨fees, undo, hreplay, -, hmature⟩ := hnext.replay
  obtain ⟨fee, coins, hchecked, hsub⟩ := hreplay.checked_getElem hk
  cases hchecked with
  | coinbase h => exact absurd h hcb
  | regular _ hcoins _ =>
    obtain ⟨coin, hmem, hcoin⟩ := exists_coin_of_forall₂ hcoins ho
    rcases mapBefore_eq_some hcoin with hold | ⟨k', hk', tx', htx', hcreated⟩
    · right
      have horigin := createdIn_of_utxoSet (h.take i).small hold (hmature coin (hsub hmem))
      rwa [hnext.toNat_nextHeight, hlen] at horigin
    · exact .inl ⟨k', hk', tx', htx', mem_outpoints_of_created hcreated⟩

end Origin

/-! ### Runs -/

section Runs

variable [ScriptVerifier] {cfg : Config} {s : System}

/-- In every run no outpoint is spent twice by the connected blocks, none that was spent is shown by
the cache, and each spend is of an output of an earlier transaction of the block or of the chain
before it, coinbases only after a hundred blocks. -/
theorem spends_of_reachable
    (hrun : Reachable (System.step cfg) (SoundStep cfg) (System.init cfg) s) :
    (chainSpends s.history.connected).Nodup ∧
      (∀ o ∈ chainSpends s.history.connected, s.node.cacheView.getCoin o = none) ∧
      ∀ (i : ℕ) (block : Block), s.history.connected[i]? = some block →
        ∀ (k : ℕ) (tx : Transaction), block.rest[k]? = some tx → ¬ tx.isCoinbase →
          ∀ o ∈ tx.spends,
            (∃ k' < k, ∃ tx', block.rest[k']? = some tx' ∧ o ∈ tx'.outpoints) ∨
              CreatedIn (s.history.connected.take i) (i + 1) o := by
  have hledger := ledgerInv_of_reachable hrun
  obtain ⟨hnodup, hgone⟩ := hledger.chain.spends_once
  refine ⟨hnodup, fun o ho => ?_, fun i block hi k tx hk hcb o ho => ?_⟩
  · rw [hledger.coins.view]
    exact (hgone o ho).1
  · exact hledger.chain.origin hi hk hcb ho

end Runs

end

namespace Sample

attribute [local instance] nativeVerifier spendHash spendCurve

lemma chainSpends_spendBlock :
    chainSpends [mintBlock, spendBlock] = [⟨mintTxid, 0⟩, ⟨mintTxid, 1⟩] := by
  decide +kernel

/-- Two coins of the first block are spent in the second one. -/
theorem spends_spendBlock :
    ∃ s, Reachable (System.step spendCfg) (SoundStep spendCfg) (System.init spendCfg) s ∧
      s.history.connected = [mintBlock, spendBlock] ∧
      ([⟨mintTxid, 0⟩, ⟨mintTxid, 1⟩] : List OutPoint).Nodup ∧
      ∀ o ∈ [⟨mintTxid, 0⟩, ⟨mintTxid, 1⟩],
        s.node.cacheView.getCoin o = none ∧ CreatedIn [mintBlock] 2 o := by
  obtain ⟨s, hrun, hconnected, -⟩ := exists_reachable_spends
  obtain ⟨hnodup, hgone, horigin⟩ := spends_of_reachable hrun
  rw [hconnected] at hnodup hgone horigin
  rw [chainSpends_spendBlock] at hnodup hgone
  refine ⟨s, hrun, hconnected, hnodup, fun o ho => ⟨hgone o ho, ?_⟩⟩
  rcases horigin 1 spendBlock rfl 0 spendTx rfl (by decide) o ho with ⟨k, hk, -⟩ | hcreated
  · exact absurd hk (Nat.not_lt_zero k)
  · exact hcreated

end Sample

end Bitcrab
