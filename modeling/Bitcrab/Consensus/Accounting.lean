import Bitcrab.Consensus.ConnectBlock
import Mathlib.Data.Fintype.Vector

/-!
# Value conservation

How much value a connected block adds to the view. Its first transaction may claim the subsidy and
the fees. A later transaction in coinbase form is exempt from the check of its inputs, and its
outputs are added like any others, so that a block whose first transaction claims all it may stays
within the subsidy only if later ones create nothing.
-/

namespace Bitcrab

open Writes CoinsViewCache

instance finiteUInt8 : Finite UInt8 :=
  Finite.of_injective UInt8.toFin fun _ _ h => UInt8.toNat_inj.mp (congrArg Fin.val h)

instance finiteUInt32 : Finite UInt32 :=
  Finite.of_injective UInt32.toFin fun _ _ h => UInt32.toNat_inj.mp (congrArg Fin.val h)

instance {k : HashKind} : Finite (Digest k) :=
  Finite.of_injective Digest.bytes fun _ _ => Digest.ext

instance : Finite OutPoint := by
  apply Finite.of_injective fun o : OutPoint => (o.txid, o.vout)
  rintro ⟨txid, vout⟩ ⟨txid', vout'⟩ h
  obtain ⟨rfl, rfl⟩ := Prod.mk.inj h
  rfl

/-- The total value of the coins a view shows. -/
noncomputable def totalValue (m : CoinMap) : ℕ := total Coin.value m

/-- The value at an outpoint. -/
def valueAt (m : CoinMap) (o : OutPoint) : ℕ := weight Coin.value (m o)

/-- The value that transactions in coinbase form create. -/
def mintedValue (txs : List Transaction) : ℕ :=
  ((txs.filter Transaction.isCoinbase).map fun tx => outputsValue tx.outputs).sum

lemma mintedValue_eq_zero_iff {txs : List Transaction} :
    mintedValue txs = 0 ↔ ∀ tx ∈ txs, tx.isCoinbase → outputsValue tx.outputs = 0 := by
  simp only [mintedValue, List.sum_eq_zero_iff, List.mem_map, List.mem_filter]
  constructor
  · intro h tx htx hcb
    exact h _ ⟨tx, ⟨htx, hcb⟩, rfl⟩
  · rintro h _ ⟨tx, ⟨htx, hcb⟩, rfl⟩
    exact h tx htx hcb

/-- The value at the null outpoint, if a transaction in coinbase form removes it. -/
def nullValue (m : CoinMap) (txs : List Transaction) : ℕ :=
  if txs.any Transaction.isCoinbase then valueAt m OutPoint.coinbase else 0

section Accounting

variable [Sha2] {height : BlockHeight}

lemma weight_additions_created (tx : Transaction) (height : BlockHeight) (isCoinbase : Bool) :
    ((additions (tx.created height isCoinbase)).map fun w => weight Coin.value w.2).sum =
      outputsValue tx.outputs := by
  have houtputs : outputsValue tx.outputs =
      (tx.outputs.zipIdx.map fun p => p.1.value.toNat).sum := by
    rw [outputsValue]
    conv_lhs => rw [← List.zipIdx_map_fst 0 tx.outputs, List.map_map]
    rfl
  rw [houtputs, additions, Transaction.created, List.map_map, List.map_map]
  rfl

lemma weight_writes (tx : Transaction) (height : BlockHeight) :
    ((tx.writes height).map fun w => weight Coin.value w.2).sum = outputsValue tx.outputs := by
  rw [Transaction.writes, List.map_append, List.sum_append, weight_additions_created]
  have hremovals : ((removals tx.spends : List (OutPoint × Option Coin)).map
      fun w => weight Coin.value w.2).sum = 0 := by
    simp [removals, weight, Function.comp_def]
  omega

lemma weight_restWrites (txs : List Transaction) (height : BlockHeight) :
    ((restWrites txs height).map fun w => weight Coin.value w.2).sum =
      (txs.map fun tx => outputsValue tx.outputs).sum := by
  induction txs with
  | nil => rfl
  | cons tx txs ih =>
    rw [restWrites_cons, List.map_append, List.sum_append, weight_writes, ih, List.map_cons,
      List.sum_cons]

omit [Sha2] in
lemma weight_map_some (coins : List Coin) :
    ((coins.map some).map (weight Coin.value)).sum = coinsValue coins := by
  rw [List.map_map]
  rfl

/-- What a well-formed transaction replaces when its outputs are new. -/
lemma weight_displaced_writes (height : BlockHeight) {m : CoinMap} {tx : Transaction}
    (hform : WellFormedTx tx) (hlen : tx.outputs.length < 2 ^ 32 - 1)
    (hnew : ∀ o ∈ tx.outpoints, m o = none) :
    ((displaced m (tx.writes height)).map (weight Coin.value)).sum =
      ((tx.spends.map m).map (weight Coin.value)).sum := by
  have hadded := weight_displaced_additions Coin.value
    (apply m (removals tx.spends)) (tx.created height false)
    (by rw [map_fst_created]; exact nodup_outpoints hlen) (by
      rw [map_fst_created]
      intro o ho
      by_contra hsome
      obtain ⟨coin, hcoin⟩ := Option.ne_none_iff_exists'.mp hsome
      rcases apply_eq_some hcoin with hold | hwrite
      · rw [hnew o ho] at hold
        simp at hold
      · simp [removals] at hwrite)
  rw [Transaction.writes, displaced_append, List.map_append, List.sum_append, hadded,
    displaced_removals hform.spends, Nat.add_zero]

/-- Away from its outputs, a transaction removes what it spends. -/
lemma apply_writes_of_notMem (height : BlockHeight) (m : CoinMap) {tx : Transaction} {o : OutPoint}
    (ho : o ∉ tx.outpoints) :
    apply m (tx.writes height) o = if o ∈ tx.spends then none else m o := by
  rw [Transaction.writes, apply_append, apply_of_notMem (by simpa using ho)]
  split_ifs with hspent
  · apply apply_eq_of_forall (by simpa using Or.inl hspent)
    rintro w hw -
    obtain ⟨o', -, rfl⟩ := List.mem_map.mp hw
    rfl
  · exact apply_of_notMem (by simpa using hspent)

/-- What the writes of replayed transactions replace: the coins of the regular ones, and what was at
the null outpoint. -/
lemma Replay.weight_displaced {m : CoinMap} {txs : List Transaction} {fees : ℕ} {undo : List Coin}
    (h : Replay height m txs fees undo) (hform : ∀ tx ∈ txs, WellFormedTx tx)
    (hlen : ∀ tx ∈ txs, tx.outputs.length < 2 ^ 32 - 1)
    (htxids : (txs.map Transaction.txid).Nodup)
    (hnew : ∀ tx ∈ txs, ∀ o ∈ tx.outpoints, m o = none) :
    ((displaced m (restWrites txs height)).map (weight Coin.value)).sum + mintedValue txs =
      fees + (txs.map fun tx => outputsValue tx.outputs).sum + nullValue m txs := by
  induction h with
  | nil => rfl
  | @cons m tx txs fee fees coins undo hchecked hrest ih =>
    rw [List.forall_mem_cons] at hform hlen hnew
    rw [List.map_cons, List.nodup_cons] at htxids
    have htail := ih hform.2 hlen.2 htxids.2 (by
      intro t ht o ho
      apply apply_writes_eq_none (hnew.2 t ht o ho)
      intro hown
      have htx := (txid_of_mem_outpoints ho).symm.trans (txid_of_mem_outpoints hown)
      exact htxids.1 (htx ▸ List.mem_map_of_mem ht))
    have hhead := weight_displaced_writes height hform.1 hlen.1 hnew.1
    have hnull := coinbase_notMem_outpoints hlen.1
    rw [restWrites_cons, displaced_append, List.map_append, List.sum_append, hhead]
    rw [List.map_cons, List.sum_cons]
    have hvalueNull := apply_writes_of_notMem height m hnull
    cases hchecked with
    | coinbase hcb =>
      -- the null outpoint is removed here, so that nothing is left for later ones
      rw [if_pos (by simp [spends_of_isCoinbase hcb])] at hvalueNull
      have hnone : nullValue (apply m (tx.writes height)) txs = 0 := by
        simp [nullValue, valueAt, hvalueNull, weight]
      have hsome : nullValue m (tx :: txs) = weight Coin.value (m OutPoint.coinbase) := by
        simp [nullValue, valueAt, hcb]
      have hminted : mintedValue (tx :: txs) = outputsValue tx.outputs + mintedValue txs := by
        simp [mintedValue, hcb]
      rw [spends_of_isCoinbase hcb, hsome, hminted]
      simp only [List.map_cons, List.map_nil, List.sum_cons, List.sum_nil]
      omega
    | regular hcb hcoins hvalue =>
      rw [if_neg (hform.1.notNull hcb)] at hvalueNull
      have hsame : nullValue m (tx :: txs) = nullValue (apply m (tx.writes height)) txs := by
        simp [nullValue, valueAt, hcb, hvalueNull]
      have hminted : mintedValue (tx :: txs) = mintedValue txs := by
        simp [mintedValue, hcb]
      rw [map_eq_map_some hcoins, weight_map_some, hvalue, hsame, hminted]
      omega

/-- The value that a block uncovers in the base of the view: where its writes remove the entry of an
outpoint, the coin of the base shows again. With the cache invariant there is none. -/
noncomputable def uncoveredValue {V : Type} [CoinsView V] (view : CoinsViewCache V)
    (block : Block) (height : BlockHeight) : ℕ :=
  ∑ᶠ o, if view.Uncovers (blockWrites block height) o then
    valueAt (CoinsView.getCoin view.base) o else 0

lemma apply_restWrites_eq_none {m : CoinMap} {txs : List Transaction} {o : OutPoint}
    (hm : m o = none) (ho : ∀ tx ∈ txs, o ∉ tx.outpoints) :
    apply m (restWrites txs height) o = none := by
  induction txs generalizing m with
  | nil => exact hm
  | cons tx txs ih =>
    rw [List.forall_mem_cons] at ho
    rw [restWrites_cons, apply_append]
    exact ih (apply_writes_eq_none hm ho.1) ho.2

/-- What the writes of a block do to the total: it gains the outputs of the transactions in coinbase
form, and loses the fees and what was at the null outpoint. -/
lemma totalValue_blockWrites {block : Block} {m : CoinMap} {fees : ℕ} {undo : List Coin}
    (hform : WellFormedBlock block) (h : Replay height m block.rest fees undo)
    (htxids : (block.transactions.map Transaction.txid).Nodup)
    (hnew : ∀ tx ∈ block.transactions, ∀ o ∈ tx.outpoints, m o = none) :
    totalValue (apply m (blockWrites block height)) + fees + nullValue m block.rest =
      totalValue m + outputsValue block.coinbase.outputs + mintedValue block.rest := by
  have htxs := transactions_eq hform.ne_nil
  have hlen : ∀ tx ∈ block.transactions, tx.outputs.length < 2 ^ 32 - 1 :=
    fun tx htx => hform.length_outputs_lt htx
  have hforms := hform.transactions
  rw [htxs, List.forall_mem_cons] at hlen hforms hnew
  rw [htxs, List.map_cons, List.nodup_cons] at htxids
  have hrest := h.weight_displaced hforms.2 hlen.2 htxids.2 hnew.2
  -- the coinbase outputs are new after the rest of the block
  have hcoinbase := weight_displaced_additions Coin.value
    (apply m (restWrites block.rest height)) (block.coinbase.created height true)
    (by rw [map_fst_created]; exact nodup_outpoints hlen.1) (by
      rw [map_fst_created]
      intro o ho
      apply apply_restWrites_eq_none (hnew.1 o ho)
      intro tx htx hmem
      have heq := (txid_of_mem_outpoints ho).symm.trans (txid_of_mem_outpoints hmem)
      exact htxids.1 (heq ▸ List.mem_map_of_mem htx))
  have htotal := total_apply Coin.value m (blockWrites block height)
  rw [blockWrites, displaced_append, List.map_append, List.map_append, List.sum_append,
    List.sum_append, hcoinbase, weight_restWrites, weight_additions_created] at htotal
  unfold totalValue
  rw [blockWrites]
  omega

section Connect

variable [ScriptVerifier] {V : Type} [CoinsView V] {block : Block} {indexPrev : BlockIndex}
  {view view' : CoinsViewCache V} {params : ChainParams} {provider : BlockIndexProvider}
  {checkScripts : Bool} {engine : ConsensusEngine} {completion : List Nat}

omit [ScriptVerifier] in
lemma uncoveredValue_eq_zero (hfresh : view.FreshInv) (hnew : CreatesNew view block)
    (hne : block.transactions ≠ []) : uncoveredValue view block height = 0 := by
  apply finsum_eq_zero_of_forall_eq_zero
  intro o
  split_ifs with h
  · rw [valueAt, getCoin_base_of_uncovers hfresh (hnew.createsUncached hne height) h]
    rfl
  · rfl

/-- The balance of a connected block. -/
lemma totalValue_connectBlock
    (htxids : (block.transactions.map Transaction.txid).Nodup) (hnew : CreatesNew view block)
    {fees : Amount} {undo : BlockUndo}
    (h : connectBlock block height indexPrev view params provider checkScripts engine completion =
      (.ok (fees, undo), view')) :
    totalValue view'.getCoin + fees.toNat + nullValue view.getCoin block.rest =
      totalValue view.getCoin + outputsValue block.coinbase.outputs + mintedValue block.rest +
        uncoveredValue view block height := by
  obtain ⟨st, -, hvalid, -, rfl, -, rfl⟩ := connectBlock_eq_ok h
  have hform := wellFormedBlock_of_checkBlock hvalid.check
  have hview : totalValue (view.writeAll (blockWrites block height)).getCoin =
      totalValue (apply view.getCoin (blockWrites block height)) +
        uncoveredValue view block height :=
    total_eq_add Coin.value (fun o ho => getCoin_writeAll_of_uncovers ho)
      (fun o ho => getCoin_writeAll_of_not_uncovers ho)
  have hbest : ((view.writeAll (blockWrites block height)).setBestBlock block.header.blockHash
      height).getCoin = (view.writeAll (blockWrites block height)).getCoin := rfl
  have haccount := totalValue_blockWrites hform hvalid.replay htxids hnew
  rw [hbest, hview]
  omega

/-- On a view with the cache invariant, a connected block whose later transactions in coinbase form,
if it has any, create no value adds at most the subsidy to the total value of the view: the check of
the coinbase bounds what the first transaction claims. A block whose first transaction claims all
that the check allows stays within the subsidy only in this case, if no coin is at the null
outpoint. -/
theorem totalValue_connectBlock_le
    (htxids : (block.transactions.map Transaction.txid).Nodup) (hnew : CreatesNew view block)
    (hfresh : view.FreshInv) {fees : Amount} {undo : BlockUndo}
    (h : connectBlock block height indexPrev view params provider checkScripts engine completion =
      (.ok (fees, undo), view')) :
    ((∀ tx ∈ block.rest, tx.isCoinbase → outputsValue tx.outputs = 0) →
      totalValue view'.getCoin ≤ totalValue view.getCoin + (blockSubsidy height params).toNat) ∧
    (outputsValue block.coinbase.outputs = (blockSubsidy height params).toNat + fees.toNat →
      view.getCoin OutPoint.coinbase = none →
      totalValue view'.getCoin ≤ totalValue view.getCoin + (blockSubsidy height params).toNat →
      ∀ tx ∈ block.rest, tx.isCoinbase → outputsValue tx.outputs = 0) := by
  have hbalance := totalValue_connectBlock htxids hnew h
  obtain ⟨st, -, hvalid, hclaim, rfl, -, -⟩ := connectBlock_eq_ok h
  have hne := (wellFormedBlock_of_checkBlock hvalid.check).ne_nil
  rw [uncoveredValue_eq_zero hfresh hnew hne, Nat.add_zero] at hbalance
  constructor
  · intro hlater
    have hminted : mintedValue block.rest = 0 := mintedValue_eq_zero_iff.mpr hlater
    obtain ⟨-, hallowed⟩ := hvalid.checkCoinbaseValue_iff.mp hclaim
    omega
  · intro hfull hnull hle
    have hnone : nullValue view.getCoin block.rest = 0 := by
      simp [nullValue, valueAt, hnull, weight]
    refine mintedValue_eq_zero_iff.mp ?_
    omega

end Connect

end Accounting

namespace Sample

lemma nullValue_view (txs : List Transaction) : nullValue view.getCoin txs = 0 := by
  have hstore : sampleStore.getCoin OutPoint.coinbase = .ok none := by decide +kernel
  have hview : view.getCoin OutPoint.coinbase = none := by
    rw [view, getCoin_of_lookup_none (by simp [CoinsViewCache.new])]
    simp only [CoinsView.getCoin, CoinsViewCache.new, hstore]
  simp [nullValue, valueAt, hview, weight]

/-- The block pays from two coins of the view, and its coinbase claims the subsidy and the fees. -/
theorem totalValue_connectBlock_le_block :
    totalValue (connect block regtestParams).2.getCoin ≤
      totalValue view.getCoin + (blockSubsidy 2 regtestParams).toNat :=
  (totalValue_connectBlock_le nodup_txids_block createsNew_block (freshInv_new _ _)
    connect_block).1 (by decide)

/-- A second transaction in coinbase form. -/
def secondCoinbase : Transaction where
  version := 1
  inputs := [⟨OutPoint.coinbase, ⟨[0x52, 0x52]⟩, 0xffffffff, []⟩]
  outputs := [⟨⟨5000000000⟩, ⟨[]⟩⟩]
  lockTime := 0

/-- A block with two transactions in coinbase form, each with outputs worth the subsidy. -/
def inflatingBlock : Block where
  header := header [0xba, 0x95, 0x7e, 0x1b, 0xb5, 0x84, 0xe7, 0xd6, 0x4b, 0x56, 0x3f, 0x95, 0x95,
    0xbe, 0x03, 0x2b, 0xfa, 0x71, 0x2c, 0x5c, 0x72, 0xb5, 0xc8, 0x57, 0x05, 0xfc, 0x06, 0xd0, 0x2c,
    0x12, 0x40, 0x71] 1
  transactions := [coinbaseTx 5000000000, secondCoinbase]

set_option maxRecDepth 100000 in
lemma connects_inflatingBlock :
    (connect inflatingBlock regtestParams).1 = .ok (⟨0⟩, ⟨[]⟩) ∧
      (∀ tx ∈ inflatingBlock.transactions, ∀ o ∈ tx.outpoints,
        sampleStore.getCoin o = .ok none) ∧
      (inflatingBlock.transactions.map Transaction.txid).Nodup := by
  decide +kernel

/-- The block is connected and adds twice the subsidy. -/
theorem inflatingBlock_inflates :
    (inflatingBlock.transactions.map Transaction.txid).Nodup ∧ CreatesNew view inflatingBlock ∧
    (connect inflatingBlock regtestParams).1 = .ok (⟨0⟩, ⟨[]⟩) ∧
    ¬ totalValue (connect inflatingBlock regtestParams).2.getCoin ≤
      totalValue view.getCoin + (blockSubsidy 2 regtestParams).toNat := by
  obtain ⟨hconnect, hcoins, htxids⟩ := connects_inflatingBlock
  have hnew : CreatesNew view inflatingBlock := createsNew_of_getCoin hcoins
  have h : connect inflatingBlock regtestParams =
      (.ok (⟨0⟩, ⟨[]⟩), (connect inflatingBlock regtestParams).2) := by
    rw [← hconnect]
  refine ⟨htxids, hnew, hconnect, ?_⟩
  have hbalance := totalValue_connectBlock htxids hnew h
  rw [nullValue_view] at hbalance
  have hfees : (⟨0⟩ : Amount).toNat = 0 := rfl
  have hclaim : outputsValue inflatingBlock.coinbase.outputs = 5000000000 := by decide
  have hminted : mintedValue inflatingBlock.rest = 5000000000 := by decide
  have hsubsidy : (blockSubsidy 2 regtestParams).toNat = 5000000000 := by decide +kernel
  rw [hfees, hclaim, hminted] at hbalance
  rw [hsubsidy]
  omega

end Sample

end Bitcrab
