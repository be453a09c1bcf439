import Bitcrab.Consensus.BaseEncoding
import Bitcrab.Consensus.ConnectBlock

/-!
# What a connected block spends

The transactions of a block spend coins of the view and outputs of earlier transactions of the
block, and coinbase outputs only after a hundred blocks. No outpoint is spent twice, unless one is
created again that the view still holds: there is no check against that.
-/

namespace Bitcrab

open Result Writes

lemma spends_eq_of_withoutWitness {tx tx' : Transaction}
    (h : tx.withoutWitness = tx'.withoutWitness) : tx.spends = tx'.spends := by
  have hspends : ∀ t : Transaction, t.withoutWitness.spends = t.spends := by
    intro t
    simp [Transaction.spends, Transaction.withoutWitness]
  rw [← hspends tx, h, hspends]

/-! ### Replayed transactions -/

section Replay

variable [Sha2] {height : BlockHeight} {m : CoinMap} {txs : List Transaction} {fees : ℕ}
  {undo : List Coin}

/-- What the map is before transaction `k`. -/
def mapBefore (height : BlockHeight) (m : CoinMap) (txs : List Transaction) (k : Nat) : CoinMap :=
  apply m (restWrites (txs.take k) height)

lemma mapBefore_zero : mapBefore height m txs 0 = m := rfl

lemma mapBefore_succ {k : Nat} {tx : Transaction} (hk : txs[k]? = some tx) :
    mapBefore height m txs (k + 1) = apply (mapBefore height m txs k) (tx.writes height) := by
  rw [mapBefore, List.take_add_one, hk, restWrites, List.flatMap_append, apply_append]
  simp [mapBefore, restWrites]

/-- Each transaction is checked on the map before it. -/
lemma Replay.checked_getElem (h : Replay height m txs fees undo) {k : Nat} {tx : Transaction}
    (hk : txs[k]? = some tx) :
    ∃ fee coins, Checked (mapBefore height m txs k) tx fee coins ∧ coins ⊆ undo := by
  induction h generalizing k with
  | nil => simp at hk
  | cons hchecked hrest ih =>
    rename_i m' tx' txs' fee fees' coins undo'
    cases k with
    | zero =>
      cases hk
      exact ⟨fee, coins, hchecked, List.subset_append_left _ _⟩
    | succ k =>
      obtain ⟨fee', coins', hchecked', hsub⟩ := ih hk
      refine ⟨fee', coins', ?_, List.Subset.trans hsub (List.subset_append_right _ _)⟩
      rw [mapBefore, List.take_succ_cons, restWrites_cons, apply_append]
      exact hchecked'

/-- The coin of an input of a transaction. -/
lemma Replay.exists_coin (h : Replay height m txs fees undo)
    (hone : ∀ tx ∈ txs, ¬ tx.isCoinbase) {k : Nat} {tx : Transaction} (hk : txs[k]? = some tx)
    {o : OutPoint} (ho : o ∈ tx.spends) :
    ∃ coin ∈ undo, mapBefore height m txs k o = some coin := by
  obtain ⟨fee, coins, hchecked, hsub⟩ := h.checked_getElem hk
  cases hchecked with
  | coinbase hcb => exact absurd hcb (hone tx (List.mem_of_getElem? hk))
  | regular _ hcoins _ =>
    have hmem := List.mem_map_of_mem (f := mapBefore height m txs k) ho
    rw [map_eq_map_some hcoins] at hmem
    obtain ⟨coin, hcoin, heq⟩ := List.mem_map.mp hmem
    exact ⟨coin, hsub hcoin, heq.symm⟩

/-- A coin before transaction `k` is one of the first map, or was created by an earlier
transaction. -/
lemma mapBefore_eq_some {k : Nat} {o : OutPoint} {coin : Coin}
    (h : mapBefore height m txs k o = some coin) :
    m o = some coin ∨ ∃ j < k, ∃ tx, txs[j]? = some tx ∧ (o, coin) ∈ tx.created height false := by
  rcases apply_eq_some h with hold | hwrite
  · exact .inl hold
  · obtain ⟨tx, htx, hwrite⟩ := List.mem_flatMap.mp hwrite
    obtain ⟨j, hj⟩ := List.getElem?_of_mem htx
    rw [List.getElem?_take] at hj
    split_ifs at hj with hjk
    refine .inr ⟨j, hjk, tx, hj, ?_⟩
    rcases List.mem_append.mp hwrite with hw | hw
    · simp [removals] at hw
    · obtain ⟨⟨o', coin'⟩, hmem, heq⟩ := List.mem_map.mp hw
      cases heq
      exact hmem

lemma mem_outpoints_of_created {tx : Transaction} {o : OutPoint} {coin : Coin}
    (h : (o, coin) ∈ tx.created height false) : o ∈ tx.outpoints := by
  rw [← map_fst_created tx height false]
  exact List.mem_map_of_mem (f := Prod.fst) h

/-- A transaction that spends an outpoint removes it, unless it creates it. -/
lemma apply_writes_of_spends {tx : Transaction} {o : OutPoint} (hspends : o ∈ tx.spends)
    (hcreates : o ∉ tx.outpoints) : apply m (tx.writes height) o = none := by
  refine apply_eq_of_forall (.inl ?_) fun w hw heq => ?_
  · simp [Transaction.writes, hspends]
  · rcases List.mem_append.mp hw with hw | hw
    · obtain ⟨_, _, rfl⟩ := List.mem_map.mp hw
      rfl
    · exact absurd (heq ▸ mem_outpoints_of_mem_additions hw) hcreates

/-- An outpoint that is spent stays spent until it is created again. -/
lemma mapBefore_eq_none {p q : Nat} {tx : Transaction} {o : OutPoint} (hp : txs[p]? = some tx)
    (hspends : o ∈ tx.spends) (hpq : p < q) (hq : q ≤ txs.length)
    (hcreates : ∀ r tx', p ≤ r → r < q → txs[r]? = some tx' → o ∉ tx'.outpoints) :
    mapBefore height m txs q o = none := by
  induction q, hpq using Nat.le_induction with
  | base =>
    rw [mapBefore_succ hp]
    exact apply_writes_of_spends hspends (hcreates p tx le_rfl (Nat.lt_succ_self p) hp)
  | succ q hpq ih =>
    have hget : txs[q]? = some txs[q] := List.getElem?_eq_getElem hq
    rw [mapBefore_succ hget]
    refine apply_writes_eq_none (ih (Nat.le_of_succ_le hq) fun r tx' hr hrq => ?_) ?_
    · exact hcreates r tx' hr (hrq.trans (Nat.lt_succ_self q))
    · exact hcreates q _ (Nat.le_of_succ_le hpq) (Nat.lt_succ_self q) hget

/-- Different contents of the transactions have different txids. -/
def DistinctTxids (txs : List Transaction) : Prop :=
  ∀ tx ∈ txs, ∀ tx' ∈ txs, tx.withoutWitness ≠ tx'.withoutWitness → tx.txid ≠ tx'.txid

/-- Two transactions of the block do not spend the same outpoint. -/
lemma Replay.not_spent_twice (h : Replay height m txs fees undo)
    (hone : ∀ tx ∈ txs, ¬ tx.isCoinbase) (hform : ∀ tx ∈ txs, WellFormedTx tx)
    (htxid : DistinctTxids txs) (hnew : ∀ tx ∈ txs, ∀ o ∈ tx.outpoints, m o = none) {p q : Nat}
    {tx tx' : Transaction} {o : OutPoint} (hpq : p < q) (hp : txs[p]? = some tx)
    (hq : txs[q]? = some tx') (ho : o ∈ tx.spends) : o ∉ tx'.spends := by
  -- the first of the two spends is pushed to an earlier transaction each time
  induction p using Nat.strong_induction_on generalizing q tx tx' o with
  | _ p ih =>
    intro ho'
    obtain ⟨coin', _, hcoin'⟩ := h.exists_coin hone hq ho'
    obtain ⟨r, again, hpr, hrq, hr, hagain⟩ : ∃ r again, p ≤ r ∧ r < q ∧ txs[r]? = some again ∧
        o ∈ again.outpoints := by
      by_contra hnone
      push Not at hnone
      have hspent : mapBefore height m txs q o = none :=
        mapBefore_eq_none hp ho hpq (List.getElem?_eq_some_iff.mp hq).1.le
          fun r tx'' hpr hrq hr => hnone r tx'' hpr hrq hr
      rw [hspent] at hcoin'
      cases hcoin'
    obtain ⟨coin, _, hcoin⟩ := h.exists_coin hone hp ho
    rcases mapBefore_eq_some hcoin with hold | ⟨r', hr'p, first, hr', hfirst⟩
    · rw [hnew again (List.mem_of_getElem? hr) o hagain] at hold
      cases hold
    · -- the outpoint was created twice, by the same transaction, which spends its inputs twice
      have hids : first.txid = again.txid :=
        (txid_of_mem_outpoints (mem_outpoints_of_created hfirst)).symm.trans
          (txid_of_mem_outpoints hagain)
      have hcontent : first.withoutWitness = again.withoutWitness := by
        by_contra hne
        exact htxid first (List.mem_of_getElem? hr') again (List.mem_of_getElem? hr) hne hids
      have hspends := spends_eq_of_withoutWitness hcontent
      obtain ⟨i, hi⟩ := List.exists_mem_of_ne_nil first.spends (by
        simpa [Transaction.spends] using (hform first (List.mem_of_getElem? hr')).inputs)
      exact ih r' hr'p (hr'p.trans_le hpr) hr' hr hi (hspends ▸ hi)

/-- No outpoint is spent twice. -/
lemma Replay.nodup_spends (h : Replay height m txs fees undo)
    (hone : ∀ tx ∈ txs, ¬ tx.isCoinbase) (hform : ∀ tx ∈ txs, WellFormedTx tx)
    (htxid : DistinctTxids txs) (hnew : ∀ tx ∈ txs, ∀ o ∈ tx.outpoints, m o = none) :
    (txs.flatMap Transaction.spends).Nodup := by
  rw [List.nodup_flatMap]
  refine ⟨fun tx htx => (hform tx htx).spends, ?_⟩
  rw [List.pairwise_iff_getElem]
  intro p q hp hq hpq o ho ho'
  exact h.not_spent_twice hone hform htxid hnew hpq (List.getElem?_eq_getElem hp)
    (List.getElem?_eq_getElem hq) ho ho'

end Replay

/-! ### Maturity -/

/-- The coin may be spent at the height. -/
def Coin.Mature (coin : Coin) (height : BlockHeight) : Prop :=
  coin.isCoinbase → coin.height.toNat + coinbaseMaturity ≤ height.toNat

lemma mature_of_checkInputs {V : Type} [CoinsView V] {view : V} {height : BlockHeight}
    {total total' : Amount} {inputs : List TxIn} {coins : List Coin}
    (h : checkInputs view height total inputs = .ok (total', coins)) :
    ∀ coin ∈ coins, coin.Mature height := by
  induction inputs generalizing total coins with
  | nil =>
    obtain ⟨rfl, rfl⟩ := Prod.mk.inj (Except.ok.inj h)
    simp
  | cons input inputs ih =>
    simp only [checkInputs, bind_eq_ok, throw_eq_error, error_bind, pure_eq_ok, ite_error_eq_ok,
      okOr_eq_ok] at h
    obtain ⟨coin, _, hmature, mid, _, ⟨total'', coins'⟩, hrest, hret⟩ := h
    obtain ⟨rfl, rfl⟩ := Prod.mk.inj (Except.ok.inj hret)
    refine List.forall_mem_cons.mpr ⟨fun hcoinbase => ?_, ih hrest⟩
    have hge := not_lt.mp fun hlt => hmature ⟨hcoinbase, hlt⟩
    unfold coinbaseMaturity at hge ⊢
    omega

lemma mature_of_metadata {V : Type} [CoinsView V] {view : V} {height : BlockHeight}
    {tx : Transaction} {fee : Amount} {coins : List Coin}
    (h : contextualCheckTransactionMetadata tx view height = .ok (fee, coins)) :
    ∀ coin ∈ coins, coin.Mature height := by
  unfold contextualCheckTransactionMetadata at h
  split_ifs at h with hcb
  · obtain ⟨rfl, rfl⟩ := Prod.mk.inj (Except.ok.inj h)
    simp
  · simp only [bind_eq_ok, throw_eq_error, error_bind, pure_eq_ok, ite_error_eq_ok,
      okOr_eq_ok] at h
    obtain ⟨⟨totalIn, coins'⟩, hin, _, _, _, _, _, hret⟩ := h
    obtain ⟨rfl, rfl⟩ := Prod.mk.inj (Except.ok.inj hret)
    exact mature_of_checkInputs hin

section Connect

variable [Sha2] {V : Type} [CoinsView V] {view : CoinsViewCache V} {height : BlockHeight}
  {checkScripts : Bool}

/-- The coins in the undo data are mature, transaction by transaction. -/
lemma mature_of_foldlM {st st' : ConnectState} {txs : List Transaction}
    (h : txs.foldlM (validateTransaction view height checkScripts) st = .ok st')
    (hst : ∀ coin ∈ st.blockUndo.spentCoins, coin.Mature height) :
    ∀ coin ∈ st'.blockUndo.spentCoins, coin.Mature height := by
  induction txs generalizing st with
  | nil =>
    cases h
    exact hst
  | cons tx txs ih =>
    rw [List.foldlM_cons, bind_eq_ok] at h
    obtain ⟨mid, htx, hrest⟩ := h
    refine ih hrest ?_
    simp only [validateTransaction, bind_eq_ok, pure_eq_ok] at htx
    obtain ⟨⟨fee, coins⟩, hmeta, _, _, hret⟩ := htx
    cases hret
    exact List.forall_mem_append.mpr ⟨hst, mature_of_metadata hmeta⟩

variable [ScriptVerifier]

/-- A connected block with one coinbase: its transactions spend coins of the view or outputs of
earlier ones, coinbase outputs only when they are mature, and no outpoint twice if the view holds no
coin at an outpoint that they create. -/
theorem spends_of_connectBlock (block : Block) (height : BlockHeight) (indexPrev : BlockIndex)
    (view view' : CoinsViewCache V) (params : ChainParams) (provider : BlockIndexProvider)
    (checkScripts : Bool) (engine : ConsensusEngine) (completion : List Nat) (fees : Amount)
    (undo : BlockUndo) (hone : block.transactions.countP Transaction.isCoinbase = 1)
    (htxid : DistinctTxids block.transactions)
    (h : connectBlock block height indexPrev view params provider checkScripts engine completion =
      (.ok (fees, undo), view')) :
    ((∀ tx ∈ block.rest, ∀ o ∈ tx.outpoints, view.getCoin o = none) →
      (block.rest.flatMap Transaction.spends).Nodup) ∧
    (∀ (k : Nat) (tx : Transaction), block.rest[k]? = some tx → ∀ o ∈ tx.spends,
      ∃ coin ∈ undo.spentCoins, view.getCoin o = some coin ∨
        ∃ j < k, ∃ tx' : Transaction, block.rest[j]? = some tx' ∧
          (o, coin) ∈ tx'.created height false) ∧
    ∀ coin ∈ undo.spentCoins, coin.isCoinbase →
      coin.height.toNat + coinbaseMaturity ≤ height.toNat := by
  obtain ⟨st, hval, hvalid, _, _, rfl, _⟩ := connectBlock_eq_ok h
  have hform := wellFormedBlock_of_checkBlock hvalid.check
  have htxs := transactions_eq hform.ne_nil
  have hrest : ∀ tx ∈ block.rest, ¬ tx.isCoinbase := by
    rw [htxs, List.countP_cons_of_pos hform.coinbase, Nat.add_eq_right, List.countP_eq_zero] at hone
    exact hone
  have hmem : ∀ tx ∈ block.rest, tx ∈ block.transactions := fun tx htx => List.mem_of_mem_drop htx
  refine ⟨fun hnew => ?_, fun k tx hk o ho => ?_, ?_⟩
  · exact hvalid.replay.nodup_spends hrest (fun tx htx => hform.transactions tx (hmem tx htx))
      (fun tx htx tx' htx' => htxid tx (hmem tx htx) tx' (hmem tx' htx')) hnew
  · obtain ⟨coin, hcoin, hbefore⟩ := hvalid.replay.exists_coin hrest hk ho
    exact ⟨coin, hcoin, mapBefore_eq_some hbefore⟩
  · simp only [validateBlock, ite_seq_eq_ok, bind_eq_ok, pure_eq_ok] at hval
    obtain ⟨_, _, _, _, _, _, st', hloop, _, _, hret⟩ := hval
    cases hret
    exact mature_of_foldlM hloop (by simp [ConnectState.start])

end Connect

namespace Sample

/-- A block that spends a coin of the view, creates it again and spends it again. -/
def recreatingBlock : Block where
  header := header [57, 243, 111, 233, 8, 125, 237, 173, 255, 201, 13, 73, 59, 39, 120, 168, 211,
    75, 119, 72, 38, 106, 71, 239, 22, 125, 217, 63, 168, 85, 16, 29] 0
  transactions :=
    [coinbaseTx 5000000000, payment ⟨firstTxid, 0⟩ 4999999800,
      payment (sampleOutPoint 0) 4999999900, payment ⟨firstTxid, 0⟩ 4999999700]

/-- A view that holds the output of the second payment already. -/
def recreatedView : CoinsViewCache Store :=
  view.addCoin ⟨firstTxid, 0⟩ ⟨⟨⟨4999999900⟩, ⟨[]⟩⟩, 1, false⟩ false

/-- `connect_block` with it. -/
def connectRecreating : Except ValidationError (Amount × BlockUndo) × CoinsViewCache Store :=
  connectBlock recreatingBlock 2 genesisIndex recreatedView regtestParams (fun _ => none) false
    (.new .native) []

set_option maxRecDepth 100000 in
lemma connects_recreatingBlock :
    connectRecreating.1 = .ok (⟨400⟩, ⟨[⟨⟨⟨4999999900⟩, ⟨[]⟩⟩, 1, false⟩, sampleCoin,
      ⟨⟨⟨4999999900⟩, ⟨[]⟩⟩, 2, false⟩]⟩) ∧
      (recreatingBlock.transactions.map Transaction.txid).Nodup := by
  decide +kernel

lemma distinctTxids_of_nodup {txs : List Transaction} (h : (txs.map Transaction.txid).Nodup) :
    DistinctTxids txs := by
  intro tx htx tx' htx' hne hid
  exact hne (congrArg _ (List.inj_on_of_nodup_map h htx htx' hid))

theorem not_nodup_spends_of_connectBlock :
    ¬ ∀ (block : Block) (height : BlockHeight) (indexPrev : BlockIndex)
      (view view' : CoinsViewCache Store) (params : ChainParams) (provider : BlockIndexProvider)
      (checkScripts : Bool) (engine : ConsensusEngine) (completion : List Nat) (fees : Amount)
      (undo : BlockUndo), block.transactions.countP Transaction.isCoinbase = 1 →
      DistinctTxids block.transactions →
      connectBlock block height indexPrev view params provider checkScripts engine completion =
        (.ok (fees, undo), view') →
      (block.rest.flatMap Transaction.spends).Nodup := by
  intro h
  have hconnect := (Prod.mk.eta (p := connectRecreating)).symm
  rw [connects_recreatingBlock.1] at hconnect
  have hnodup :=
    h recreatingBlock 2 genesisIndex recreatedView _ regtestParams (fun _ => none) false
    (.new .native) [] _ _ (by decide) (distinctTxids_of_nodup connects_recreatingBlock.2) hconnect
  revert hnodup
  decide

theorem spends_of_connectBlock_block :
    ((∀ tx ∈ block.rest, ∀ o ∈ tx.outpoints, view.getCoin o = none) →
      (block.rest.flatMap Transaction.spends).Nodup) ∧
    (∀ (k : Nat) (tx : Transaction), block.rest[k]? = some tx → ∀ o ∈ tx.spends,
      ∃ coin ∈ [sampleCoin, ⟨⟨⟨4999999900⟩, ⟨[]⟩⟩, 2, false⟩], view.getCoin o = some coin ∨
        ∃ j < k, ∃ tx' : Transaction, block.rest[j]? = some tx' ∧
          (o, coin) ∈ tx'.created 2 false) ∧
    ∀ coin ∈ [sampleCoin, ⟨⟨⟨4999999900⟩, ⟨[]⟩⟩, 2, false⟩], coin.isCoinbase →
      coin.height.toNat + coinbaseMaturity ≤ (2 : BlockHeight).toNat :=
  spends_of_connectBlock block 2 genesisIndex view _ regtestParams (fun _ => none) false
    (.new .native) [] ⟨300⟩ ⟨[sampleCoin, ⟨⟨⟨4999999900⟩, ⟨[]⟩⟩, 2, false⟩]⟩ (by decide)
    (distinctTxids_of_nodup nodup_txids_block) connect_block

end Sample

end Bitcrab
