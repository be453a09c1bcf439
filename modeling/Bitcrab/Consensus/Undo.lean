import Bitcrab.Consensus.ConnectBlock

/-!
# Undo data

The undo data of a block lists the coins its inputs spent. The overlay pass records it while the
commit pass changes the view; walking the transactions backwards with it restores the view.
-/

namespace Bitcrab

open Writes CoinsViewCache

section Undo

variable [Sha2]

/-! ### The coins spent -/

/-- The coins a cache shows when each removal of a list of writes is made. -/
def CoinsViewCache.spentDuring {V : Type} [CoinsView V] (c : CoinsViewCache V) :
    List (OutPoint × Option Coin) → List (Option Coin)
  | [] => []
  | (o, none) :: ws => c.getCoin o :: spentDuring (c.write (o, none)) ws
  | (o, some coin) :: ws => spentDuring (c.write (o, some coin)) ws

omit [Sha2] in
lemma spentDuring_eq_removed {V : Type} [CoinsView V] {c : CoinsViewCache V}
    {ws : List (OutPoint × Option Coin)} (hfresh : c.FreshInv) (hun : c.CreatesUncached ws) :
    c.spentDuring ws = removed c.getCoin ws := by
  induction ws generalizing c with
  | nil => rfl
  | cons w ws ih =>
    have htail := ih (freshInv_write hfresh (hun w List.mem_cons_self)) (hun.tail hfresh)
    rw [getCoin_write hfresh (hun w List.mem_cons_self)] at htail
    obtain ⟨o, v⟩ := w
    cases v with
    | none => simp only [spentDuring, removed, htail]
    | some coin => simp only [spentDuring, removed, htail]

variable {height : BlockHeight}

/-- The undo coins of a replay are the coins removed. -/
lemma Replay.removed_eq {m : CoinMap} {txs : List Transaction} {fees : ℕ} {undo : List Coin}
    (h : Replay height m txs fees undo) (hregular : ∀ tx ∈ txs, ¬ tx.isCoinbase)
    (hspends : ∀ tx ∈ txs, tx.spends.Nodup) :
    removed m (restWrites txs height) = undo.map some := by
  induction h with
  | nil => rfl
  | @cons m tx txs fee fees coins undo hchecked hrest ih =>
    have htail := ih (fun t ht => hregular t (List.mem_cons_of_mem _ ht))
      (fun t ht => hspends t (List.mem_cons_of_mem _ ht))
    cases hchecked with
    | coinbase hcb => exact absurd hcb (hregular tx List.mem_cons_self)
    | regular _ hcoins _ =>
      rw [restWrites_cons, removed_append, htail, Transaction.writes, removed_append,
        removed_removals (hspends tx List.mem_cons_self), removed_additions, List.append_nil,
        map_eq_map_some hcoins, List.map_append]

/-- The undo list has one coin for each input. -/
lemma Replay.length_undo {m : CoinMap} {txs : List Transaction} {fees : ℕ} {undo : List Coin}
    (h : Replay height m txs fees undo) (hregular : ∀ tx ∈ txs, ¬ tx.isCoinbase) :
    undo.length = (txs.map fun tx => tx.inputs.length).sum := by
  induction h with
  | nil => rfl
  | @cons m tx txs fee fees coins undo hchecked hrest ih =>
    have htail := ih fun t ht => hregular t (List.mem_cons_of_mem _ ht)
    cases hchecked with
    | coinbase hcb => exact absurd hcb (hregular tx List.mem_cons_self)
    | regular _ hcoins _ =>
      have hlen := hcoins.length_eq
      rw [Transaction.spends, List.length_map] at hlen
      rw [List.length_append, List.map_cons, List.sum_cons, htail, hlen]

/-! ### Walking backwards -/

/-- Take back one transaction: delete its outputs and restore its inputs from the last coins of the
undo list. -/
def disconnectTransaction (s : CoinMap × List Coin) (tx : Transaction) : CoinMap × List Coin :=
  let count := if tx.isCoinbase then 0 else tx.inputs.length
  let keep := s.2.length - count
  (apply s.1 (removals tx.outpoints ++ additions (tx.spends.zip (s.2.drop keep))), s.2.take keep)

/-- Take back the transactions of a block, from the last one on. -/
def disconnectBlock (m : CoinMap) (block : Block) (undo : BlockUndo) : CoinMap :=
  (block.transactions.reverse.foldl disconnectTransaction (m, undo.spentCoins)).1

/-- Taking back a coinbase deletes its outputs. -/
lemma disconnectTransaction_coinbase {m : CoinMap} {tx : Transaction} {undo : List Coin}
    (h : tx.isCoinbase) :
    disconnectTransaction (m, undo) tx = (apply m (removals tx.outpoints), undo) := by
  simp [disconnectTransaction, h, additions]

/-- Taking back a transaction right after it restores the map. -/
lemma disconnectTransaction_writes {m : CoinMap} {tx : Transaction} {coins undo : List Coin}
    (hregular : ¬ tx.isCoinbase) (hcoins : List.Forall₂ (fun o c => m o = some c) tx.spends coins)
    (hnew : ∀ o ∈ tx.outpoints, m o = none) :
    disconnectTransaction (apply m (tx.writes height), undo ++ coins) tx = (m, undo) := by
  have hlen : (undo ++ coins).length - tx.inputs.length = undo.length := by
    have hlength := hcoins.length_eq
    rw [Transaction.spends, List.length_map] at hlength
    rw [List.length_append, hlength, Nat.add_sub_cancel]
  simp only [disconnectTransaction, if_neg hregular, hlen, List.drop_left, List.take_left,
    Transaction.writes]
  rw [← map_fst_created tx height false]
  rw [apply_revert hcoins (by rwa [map_fst_created])]

/-- Taking back replayed transactions restores the map and leaves the rest of the undo list. -/
lemma Replay.disconnect {m : CoinMap} {txs : List Transaction} {fees : ℕ} {undo : List Coin}
    (h : Replay height m txs fees undo) (hregular : ∀ tx ∈ txs, ¬ tx.isCoinbase)
    (htxids : (txs.map Transaction.txid).Nodup)
    (hnew : ∀ tx ∈ txs, ∀ o ∈ tx.outpoints, m o = none) (before : List Coin) :
    txs.reverse.foldl disconnectTransaction
      (apply m (restWrites txs height), before ++ undo) = (m, before) := by
  induction h generalizing before with
  | nil => simp
  | @cons m tx txs fee fees coins undo hchecked hrest ih =>
    rw [List.map_cons, List.nodup_cons] at htxids
    cases hchecked with
    | coinbase hcb => exact absurd hcb (hregular tx List.mem_cons_self)
    | regular hcb hcoins _ =>
      -- the outputs of the later transactions are not yet there after this one
      have hnew' : ∀ t ∈ txs, ∀ o ∈ t.outpoints, apply m (tx.writes height) o = none := by
        intro t ht o ho
        apply apply_writes_eq_none (hnew t (List.mem_cons_of_mem _ ht) o ho)
        intro hown
        have htx := (txid_of_mem_outpoints ho).symm.trans (txid_of_mem_outpoints hown)
        exact htxids.1 (htx ▸ List.mem_map_of_mem ht)
      have htail := ih (fun t ht => hregular t (List.mem_cons_of_mem _ ht)) htxids.2 hnew'
        (before ++ coins)
      rw [restWrites_cons, apply_append, List.reverse_cons, List.foldl_append, ← List.append_assoc,
        htail]
      exact disconnectTransaction_writes hcb hcoins (hnew tx List.mem_cons_self)

/-! ### The coinbase of the block -/

/-- A replay depends on the map at the outpoints it spends only. -/
lemma Replay.congr {m m' : CoinMap} {txs : List Transaction} {fees : ℕ} {undo : List Coin}
    (h : Replay height m txs fees undo) (hsame : ∀ tx ∈ txs, ∀ o ∈ tx.spends, m o = m' o) :
    Replay height m' txs fees undo := by
  induction h generalizing m' with
  | nil => exact .nil
  | @cons m tx txs fee fees coins undo hchecked hrest ih =>
    refine .cons ?_ (ih ?_)
    · cases hchecked with
      | coinbase hcb => exact .coinbase hcb
      | regular hcb hcoins hvalue =>
        refine .regular hcb ?_ hvalue
        have hspends := hsame tx List.mem_cons_self
        rw [List.forall₂_iff_zip] at hcoins ⊢
        refine ⟨hcoins.1, ?_⟩
        intro o coin hmem
        rw [← hspends o (List.of_mem_zip hmem).1]
        exact hcoins.2 hmem
    · intro t ht o ho
      exact apply_congr _ (hsame t (List.mem_cons_of_mem _ ht) o ho)

/-- A replay spends coins of the map or coins it creates. -/
lemma Replay.mem_spends {m : CoinMap} {txs : List Transaction} {fees : ℕ} {undo : List Coin}
    (h : Replay height m txs fees undo) (hregular : ∀ tx ∈ txs, ¬ tx.isCoinbase)
    {tx : Transaction} (htx : tx ∈ txs) {o : OutPoint} (ho : o ∈ tx.spends) :
    m o ≠ none ∨ ∃ t ∈ txs, o ∈ t.outpoints := by
  induction h with
  | nil => simp at htx
  | @cons m t txs fee fees coins undo hchecked hrest ih =>
    rcases List.mem_cons.mp htx with rfl | htx
    · cases hchecked with
      | coinbase hcb => exact absurd hcb (hregular tx List.mem_cons_self)
      | regular _ hcoins _ =>
        have hmem : m o ∈ coins.map some := by
          rw [← map_eq_map_some hcoins]
          exact List.mem_map_of_mem ho
        obtain ⟨coin, -, hcoin⟩ := List.mem_map.mp hmem
        left
        simp [← hcoin]
    · rcases ih (fun t ht => hregular t (List.mem_cons_of_mem _ ht)) htx with hm | ⟨t', ht', ho'⟩
      · obtain ⟨coin, hcoin⟩ := Option.ne_none_iff_exists'.mp hm
        rcases apply_writes_eq_some hcoin with hold | hnew
        · left
          simp [hold]
        · exact .inr ⟨t, List.mem_cons_self, hnew⟩
      · exact .inr ⟨t', List.mem_cons_of_mem _ ht', ho'⟩

/-- The outpoints of the coinbase are touched by no other transaction of the block. -/
lemma coinbase_outpoints_notMem {block : Block} {m : CoinMap} {fees : ℕ} {undo : List Coin}
    (h : Replay height m block.rest fees undo) (hregular : ∀ tx ∈ block.rest, ¬ tx.isCoinbase)
    (htxids : block.coinbase.txid ∉ block.rest.map Transaction.txid)
    (hnew : ∀ o ∈ block.coinbase.outpoints, m o = none) :
    ∀ o ∈ block.coinbase.outpoints, o ∉ (restWrites block.rest height).map Prod.fst := by
  have hother : ∀ tx ∈ block.rest, ∀ o ∈ block.coinbase.outpoints, o ∉ tx.outpoints := by
    intro tx htx o ho hmem
    have heq := (txid_of_mem_outpoints ho).symm.trans (txid_of_mem_outpoints hmem)
    exact htxids (heq ▸ List.mem_map_of_mem htx)
  intro o ho hmem
  simp only [restWrites, List.map_flatMap, List.mem_flatMap, Transaction.writes, List.map_append,
    map_fst_removals, map_fst_additions, map_fst_created, List.mem_append] at hmem
  obtain ⟨tx, htx, hspent | hcreated⟩ := hmem
  · rcases h.mem_spends hregular htx hspent with hm | ⟨t, ht, hcreated⟩
    · exact hm (hnew o ho)
    · exact hother t ht o ho hcreated
  · exact hother tx htx o ho hcreated

/-- Walking a replayed block backwards restores the map. -/
lemma disconnectBlock_blockWrites {block : Block} {m : CoinMap} {fees : ℕ} {undo : List Coin}
    (hne : block.transactions ≠ []) (hcb : block.coinbase.isCoinbase)
    (h : Replay height m block.rest fees undo) (hregular : ∀ tx ∈ block.rest, ¬ tx.isCoinbase)
    (htxids : (block.transactions.map Transaction.txid).Nodup)
    (hnew : ∀ tx ∈ block.transactions, ∀ o ∈ tx.outpoints, m o = none) :
    disconnectBlock (apply m (blockWrites block height)) block ⟨undo⟩ = m := by
  have htxs : block.transactions = block.coinbase :: block.rest := transactions_eq hne
  rw [htxs, List.map_cons, List.nodup_cons] at htxids
  rw [htxs, List.forall_mem_cons] at hnew
  have hkeys : (additions (block.coinbase.created height true)).map Prod.fst =
      block.coinbase.outpoints := by simp
  have hapart := coinbase_outpoints_notMem h hregular htxids.1 hnew.1
  -- the coinbase outputs can as well be there from the start
  set m' := apply m (additions (block.coinbase.created height true)) with hm'
  have hsame : ∀ o ∈ (restWrites block.rest height).map Prod.fst, m o = m' o := by
    intro o ho
    rw [hm', apply_of_notMem]
    rw [hkeys]
    exact fun hmem => hapart o hmem ho
  have hmem : ∀ tx ∈ block.rest, ∀ o, o ∈ tx.spends ∨ o ∈ tx.outpoints →
      o ∈ (restWrites block.rest height).map Prod.fst := by
    intro tx htx o ho
    simp only [restWrites, List.map_flatMap, List.mem_flatMap, Transaction.writes, List.map_append,
      map_fst_removals, map_fst_additions, map_fst_created, List.mem_append]
    exact ⟨tx, htx, ho⟩
  have hreplay : Replay height m' block.rest fees undo :=
    h.congr fun tx htx o ho => hsame o (hmem tx htx o (.inl ho))
  have hback := hreplay.disconnect hregular htxids.2 (fun tx htx o ho => by
    rw [← hsame o (hmem tx htx o (.inr ho))]
    exact hnew.2 tx htx o ho) []
  have hswap : apply m (blockWrites block height) = apply m' (restWrites block.rest height) := by
    rw [blockWrites, apply_append, hm', apply_comm]
    rw [hkeys]
    intro o ho hmem'
    exact hapart o hmem' ho
  rw [List.nil_append] at hback
  rw [disconnectBlock, hswap, htxs, List.reverse_cons, List.foldl_append, hback, List.foldl_cons,
    List.foldl_nil, disconnectTransaction_coinbase hcb]
  have hcreated : ∀ o ∈ (block.coinbase.created height true).map Prod.fst, m o = none := by
    rw [map_fst_created]
    exact hnew.1
  have hrevert := apply_revert .nil hcreated
  rw [map_fst_created] at hrevert
  simpa [removals, additions, hm'] using hrevert

variable [ScriptVerifier] {V : Type} [CoinsView V] {block : Block} {indexPrev : BlockIndex}
  {view view' : CoinsViewCache V} {params : ChainParams} {provider : BlockIndexProvider}
  {checkScripts : Bool} {engine : ConsensusEngine} {completion : List Nat}

/-- The undo data of a connected block lists, in order, the coins the view held when its inputs were
spent, and walking the block backwards with it restores the view. -/
theorem disconnectBlock_connectBlock (hfresh : view.FreshInv) (hnew : CreatesNew view block)
    (htxids : (block.transactions.map Transaction.txid).Nodup)
    (hregular : ∀ tx ∈ block.rest, ¬ tx.isCoinbase) {fees : Amount} {undo : BlockUndo}
    (h : connectBlock block height indexPrev view params provider checkScripts engine completion =
      (.ok (fees, undo), view')) :
    undo.spentCoins.map some = view.spentDuring (blockWrites block height) ∧
    undo.spentCoins.length = (block.rest.map fun tx => tx.inputs.length).sum ∧
    ∀ o, disconnectBlock view'.getCoin block undo o = view.getCoin o := by
  have hview := funext (getCoin_connectBlock hfresh hnew h)
  obtain ⟨st, -, hvalid, -, rfl, rfl, -⟩ := connectBlock_eq_ok h
  have hform := wellFormedBlock_of_checkBlock hvalid.check
  have hspends : ∀ tx ∈ block.rest, tx.spends.Nodup := by
    intro tx htx
    exact (hform.transactions tx (List.mem_of_mem_drop htx)).spends
  have hremoved := hvalid.replay.removed_eq hregular hspends
  refine ⟨?_, ?_, ?_⟩
  · rw [spentDuring_eq_removed hfresh (hnew.createsUncached hform.ne_nil height), blockWrites,
      removed_append, removed_additions, List.append_nil, hremoved]
  · exact hvalid.replay.length_undo hregular
  · intro o
    rw [hview]
    exact congrFun (disconnectBlock_blockWrites hform.ne_nil hform.coinbase hvalid.replay hregular
      htxids hnew) o

end Undo

namespace Sample

lemma not_isCoinbase_block : ∀ tx ∈ block.rest, ¬ tx.isCoinbase := by decide +kernel

theorem disconnectBlock_connectBlock_block :
    [some sampleCoin, some ⟨⟨⟨4999999900⟩, ⟨[]⟩⟩, 2, false⟩] =
      view.spentDuring (blockWrites block 2) ∧
    ∀ o, disconnectBlock (connect block regtestParams).2.getCoin block
      ⟨[sampleCoin, ⟨⟨⟨4999999900⟩, ⟨[]⟩⟩, 2, false⟩]⟩ o = view.getCoin o := by
  obtain ⟨hspent, -, hback⟩ := disconnectBlock_connectBlock (freshInv_new _ _) createsNew_block
    nodup_txids_block not_isCoinbase_block connect_block
  exact ⟨hspent, hback⟩

end Sample

end Bitcrab
