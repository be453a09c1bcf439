import Bitcrab.Lib.Epochs
import Bitcrab.Node.VerifiedScripts

/-!
# The supply of coins

The value of the UTXO set of a node is at most the sum of the subsidies of its chain, and what
transactions in coinbase form mint after the first of their block. The native engine verifies no
such transaction, so that the supply is bounded once the scripts of every block are checked.
-/

namespace Bitcrab

open Writes

/-! ### Subsidies -/

/-- The subsidy of the blocks of a halving period. -/
def reward (halvings : ℕ) : ℕ := if halvings < 64 then 5000000000 / 2 ^ halvings else 0

/-- The subsidies of the blocks of a chain, which start at height 1. -/
def subsidies (params : ChainParams) (n : ℕ) : ℕ :=
  ∑ i ∈ Finset.range n, (blockSubsidy (UInt32.ofNat (i + 1)) params).toNat

lemma subsidies_succ (params : ChainParams) (n : ℕ) :
    subsidies params (n + 1) =
      subsidies params n + (blockSubsidy (UInt32.ofNat (n + 1)) params).toNat :=
  Finset.sum_range_succ _ n

/-- The subsidy is halved in each period, rounded down. -/
lemma toNat_blockSubsidy (params : ChainParams) (height : BlockHeight) :
    (blockSubsidy height params).toNat =
      reward (height.toNat / params.consensus.nSubsidyHalvingInterval.toNat) := by
  unfold blockSubsidy
  dsimp only
  have hhalvings : (height / params.consensus.nSubsidyHalvingInterval).toNat =
      height.toNat / params.consensus.nSubsidyHalvingInterval.toNat := UInt32.toNat_div _ _
  rw [← hhalvings]
  generalize height / params.consensus.nSubsidyHalvingInterval = halvings
  by_cases hlt : halvings.toNat < 64
  · have hge : ¬ halvings ≥ 64 := by
      rw [ge_iff_le, UInt32.le_iff_toNat_le]
      exact Nat.not_le.mpr hlt
    have hreward : (initialBlockReward >>> halvings.toUInt64).toNat =
        5000000000 / 2 ^ halvings.toNat := by
      rw [UInt64.toNat_shiftRight, UInt32.toNat_toUInt64, Nat.mod_eq_of_lt hlt,
        Nat.shiftRight_eq_div_pow]
      rfl
    have hvalid : initialBlockReward >>> halvings.toUInt64 ≤ maxMoney := by
      rw [UInt64.le_iff_toNat_le, hreward]
      exact (Nat.div_le_self _ _).trans (by decide)
    simp only [if_neg hge, if_pos hvalid, Amount.toNat, hreward, reward, if_pos hlt]
  · have hge : halvings ≥ 64 := by
      rw [ge_iff_le, UInt32.le_iff_toNat_le]
      exact Nat.not_lt.mp hlt
    rw [if_pos hge, Amount.toNat_zero, reward, if_neg hlt]

/-- The subsidies of any chain, by the length of the halving period. -/
lemma subsidies_le {params : ChainParams} (hperiod : params.consensus.nSubsidyHalvingInterval ≠ 0)
    {n : ℕ} (hn : n < 2 ^ 32) :
    subsidies params n ≤ params.consensus.nSubsidyHalvingInterval.toNat * 9999999989 := by
  have hpos : 0 < params.consensus.nSubsidyHalvingInterval.toNat := by
    rw [Nat.pos_iff_ne_zero]
    intro hzero
    exact hperiod (UInt32.toNat_inj.mp hzero)
  have hheights : subsidies params n ≤
      ∑ i ∈ Finset.range (n + 1), reward (i / params.consensus.nSubsidyHalvingInterval.toNat) := by
    rw [Finset.sum_range_succ']
    refine (Finset.sum_congr rfl fun i hi => ?_).le.trans (Nat.le_add_right _ _)
    rw [Finset.mem_range] at hi
    rw [toNat_blockSubsidy, UInt32.toNat_ofNat_of_lt' (show i + 1 < 2 ^ 32 by omega)]
  refine hheights.trans ?_
  have hzero : ∀ k, 64 ≤ k → reward k = 0 := fun k hk => if_neg (Nat.not_lt.mpr hk)
  have hsum : ∑ k ∈ Finset.range 64, reward k = 9999999989 := by decide +kernel
  rw [← hsum]
  exact Epochs.sum_range_le reward hpos hzero (n + 1)

/-! ### Valid chains -/

/-- What the blocks of a chain mint beside their subsidies. -/
def mintedBy (chain : List Block) : ℕ := (chain.map fun block => mintedValue block.rest).sum

lemma mintedBy_append (chain chain' : List Block) :
    mintedBy (chain ++ chain') = mintedBy chain + mintedBy chain' := by
  rw [mintedBy, List.map_append, List.sum_append]
  rfl

lemma mintedBy_eq_zero {chain : List Block}
    (h : ∀ block ∈ chain, ∀ tx ∈ block.rest, ¬ tx.isCoinbase) : mintedBy chain = 0 := by
  refine List.sum_eq_zero fun value hvalue => ?_
  obtain ⟨block, hblock, rfl⟩ := List.mem_map.mp hvalue
  have hnone : block.rest.filter Transaction.isCoinbase = [] :=
    List.filter_eq_nil_iff.mpr (h block hblock)
  rw [mintedValue, hnone]
  rfl

section Chain

variable [Sha2] [ScriptVerifier] {cfg : Config} {chain : List Block} {block : Block}

omit [Sha2] [ScriptVerifier] in
lemma totalValue_empty : totalValue (fun _ => none) = 0 := by
  simp [totalValue, total, weight]

/-- A block adds at most its subsidy and what it mints. -/
lemma ValidNext.totalValue_le (h : ValidNext cfg chain block) (hchain : ValidChain cfg chain) :
    totalValue (utxoSet (chain ++ [block])) ≤
      totalValue (utxoSet chain) + (blockSubsidy (nextHeight chain) cfg.params).toNat +
        mintedValue block.rest := by
  obtain ⟨fees, undo, hreplay, ⟨-, hclaim⟩, -⟩ := h.replay
  have hbalance := totalValue_blockWrites h.form hreplay (nodup_txids_of_chainTxids h.distinct)
    (h.creates_new hchain)
  rw [utxoSet_connect]
  omega

/-- The value of a chain is at most its subsidies and what its blocks mint. -/
lemma ValidChain.totalValue_le (h : ValidChain cfg chain) :
    totalValue (utxoSet chain) ≤ subsidies cfg.params chain.length + mintedBy chain := by
  induction h with
  | genesis =>
    have hempty : totalValue (utxoSet []) = 0 := totalValue_empty
    rw [hempty]
    exact Nat.zero_le _
  | @connect chain block hchain hnext ih =>
    have hblock := hnext.totalValue_le hchain
    rw [nextHeight] at hblock
    rw [mintedBy_append, List.length_append, List.length_singleton, subsidies_succ]
    simp only [mintedBy, List.map_cons, List.map_nil, List.sum_cons, List.sum_nil] at ih ⊢
    omega

/-- The same for a prefix of the chain. -/
lemma ValidChain.totalValue_take_le (h : ValidChain cfg chain) (k : ℕ) :
    totalValue (utxoSet (chain.take k)) ≤ subsidies cfg.params chain.length + mintedBy chain := by
  have hprefix := (h.take k).totalValue_le
  have hsubsidies : subsidies cfg.params (chain.take k).length ≤
      subsidies cfg.params chain.length := by
    refine Finset.sum_le_sum_of_subset (Finset.range_subset_range.mpr ?_)
    exact List.length_take_le' k chain
  have hminted := mintedBy_append (chain.take k) (chain.drop k)
  rw [List.take_append_drop] at hminted
  omega

end Chain

/-! ### Runs -/

section Native

variable [Sha2] [LegacyHash] [Secp256k1] {cfg : Config} {s : System}

attribute [local instance] nativeVerifier

/-- With the native engine and script checks, the value that a node shows, and the value that it has
stored, is at most the subsidies of its chain, and what was minted up to the height of the assumed
block. The subsidies are less than a hundred coins for each block of a halving period. -/
theorem totalValue_of_reachable (hscripts : cfg.scriptChecks = true)
    (hnative : cfg.engine.kind = .native)
    (hperiod : cfg.params.consensus.nSubsidyHalvingInterval ≠ 0)
    (hrun : Reachable (System.step cfg) (SoundStep cfg) (System.init cfg) s) {assumed : ℕ}
    (hassumed : ∀ height, s.node.store.HasHeight cfg.params.consensus.defaultAssumeValid height →
      height.toNat ≤ assumed) :
    totalValue s.node.cacheView.getCoin ≤
        subsidies cfg.params s.history.connected.length +
          mintedBy (s.history.connected.take assumed) ∧
      totalValue (CoinsView.getCoin s.node.store) ≤
        subsidies cfg.params s.history.connected.length +
          mintedBy (s.history.connected.take assumed) ∧
      subsidies cfg.params s.history.connected.length ≤
        cfg.params.consensus.nSubsidyHalvingInterval.toNat * 9999999989 := by
  have hledger := ledgerInv_of_reachable hrun
  have hverified := scriptsInv_of_reachable hscripts hrun
  have hview : s.node.cacheView.getCoin = utxoSet s.history.connected := funext hledger.coins.view
  have hstore : CoinsView.getCoin s.node.store =
      utxoSet (s.history.connected.take s.history.flushed) := by
    funext o
    simp only [CoinsView.getCoin, hledger.coins.stored]
  -- above the assumed block nothing is minted
  have hdrop : mintedBy (s.history.connected.drop assumed) = 0 := by
    refine mintedBy_eq_zero fun block hblock => ?_
    obtain ⟨i, hi⟩ := List.getElem?_of_mem hblock
    rw [List.getElem?_drop] at hi
    refine hverified.not_isCoinbase hnative hi ?_
    rintro ⟨height, hheight, hle⟩
    have hbelow := hassumed height hheight
    omega
  have hminted := mintedBy_append (s.history.connected.take assumed)
    (s.history.connected.drop assumed)
  rw [List.take_append_drop, hdrop, Nat.add_zero] at hminted
  rw [hview, hstore, ← hminted]
  exact ⟨hledger.chain.totalValue_le, hledger.chain.totalValue_take_le _,
    subsidies_le hperiod hledger.chain.small⟩

end Native

namespace Sample

attribute [local instance] nativeVerifier spendHash spendCurve

/-- After two blocks the node holds at most two subsidies, and what the assumed block has minted. -/
theorem totalValue_spendBlock :
    ∃ s, Reachable (System.step spendCfg) (SoundStep spendCfg) (System.init spendCfg) s ∧
      s.history.connected = [mintBlock, spendBlock] ∧
      totalValue s.node.cacheView.getCoin ≤ subsidies spendCfg.params 2 + 2000 ∧
      totalValue (CoinsView.getCoin s.node.store) ≤ subsidies spendCfg.params 2 + 2000 ∧
      subsidies spendCfg.params 2 ≤ 150 * 9999999989 := by
  obtain ⟨s, hrun, hconnected, hheight⟩ := exists_reachable_spends
  have hassumed : ∀ height,
      s.node.store.HasHeight spendCfg.params.consensus.defaultAssumeValid height →
        height.toNat ≤ 1 := by
    intro height hassumed
    rw [hheight height hassumed]
    rfl
  have hvalue := totalValue_of_reachable rfl rfl (by decide) hrun hassumed
  have hminted : mintedBy [mintBlock] = 2000 := by decide +kernel
  rw [hconnected, List.take_one, List.head?_cons, Option.toList_some, hminted] at hvalue
  exact ⟨s, hrun, hconnected, hvalue⟩

end Sample

end Bitcrab
