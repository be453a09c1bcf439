import Bitcrab.Consensus.ConnectBlock

/-!
# Failed connections

A failed `connect_block` should leave the view as it was. Every failure before the commit does. The
limit on the coinbase is checked after the commit, so that a block that claims too much fails with
its writes in the cache.
-/

namespace Bitcrab

open Result Writes CoinsViewCache

/-! ### What can be seen of a cache -/

section Observation

variable {V : Type} [CoinsView V]

/-- The views are the same to every caller. -/
structure Unchanged (view view' : CoinsViewCache V) : Prop where
  getCoin : ∀ o, view'.getCoin o = view.getCoin o
  getBestBlock : view'.getBestBlock = view.getBestBlock
  connectedBlocks : view'.connectedBlocks = view.connectedBlocks
  toUpdates : ∀ o, view'.toUpdates.lookup o = view.toUpdates.lookup o

/-- What is seen of a cache at an outpoint: the coin it shows and the update it will write. -/
def observe (base : Option Coin) (entry : Option CoinCacheEntry) :
    Option Coin × Option CoinUpdate :=
  (match entry with
    | some e => e.coin
    | none => base, entry.bind updateOf)

lemma observe_lookup (c : CoinsViewCache V) (o : OutPoint) :
    observe (CoinsView.getCoin c.base o) (c.cache.lookup o) =
      (c.getCoin o, c.toUpdates.lookup o) := by
  rw [lookup_toUpdates]
  rfl

/-- The writes leave at every outpoint the coin shown and the pending update. -/
def WritesNothing (c : CoinsViewCache V) (ws : List (OutPoint × Option Coin)) : Prop :=
  ∀ o, observe (CoinsView.getCoin c.base o) ((valuesAt ws o).foldl entryAfter (c.cache.lookup o)) =
    observe (CoinsView.getCoin c.base o) (c.cache.lookup o)

/-- Writes are seen unless they leave every outpoint as it was. -/
lemma unchanged_writeAll_iff (c : CoinsViewCache V) (ws : List (OutPoint × Option Coin)) :
    Unchanged c (c.writeAll ws) ↔ WritesNothing c ws := by
  have hobserve : ∀ o, observe (CoinsView.getCoin c.base o)
      ((valuesAt ws o).foldl entryAfter (c.cache.lookup o)) =
        ((c.writeAll ws).getCoin o, (c.writeAll ws).toUpdates.lookup o) := by
    intro o
    rw [← lookup_writeAll, ← observe_lookup, base_writeAll]
  constructor
  · intro h o
    rw [hobserve, observe_lookup, h.getCoin, h.toUpdates]
  · intro h
    have hboth : ∀ o, ((c.writeAll ws).getCoin o, (c.writeAll ws).toUpdates.lookup o) =
        (c.getCoin o, c.toUpdates.lookup o) := by
      intro o
      rw [← hobserve, h o, observe_lookup]
    refine ⟨fun o => (Prod.mk.inj (hboth o)).1, ?_, by simp, fun o => (Prod.mk.inj (hboth o)).2⟩
    simp [CoinsViewCache.getBestBlock]

lemma unchanged_refl (c : CoinsViewCache V) : Unchanged c c :=
  ⟨fun _ => rfl, rfl, rfl, fun _ => rfl⟩

end Observation

section Connect

variable [Sha2] [ScriptVerifier] {V : Type} [CoinsView V] (block : Block) (height : BlockHeight)
  (indexPrev : BlockIndex) (view : CoinsViewCache V) (params : ChainParams)
  (provider : BlockIndexProvider) (checkScripts : Bool) (engine : ConsensusEngine)
  (completion : List Nat)

/-- A failed connection leaves the view unchanged unless the block passes every check up to the
commit, its coinbase claims more than the subsidy and the fees its transactions leave, and its
writes are not all in the cache already. -/
theorem connectBlock_error_unchanged_iff :
    (∀ e view', connectBlock block height indexPrev view params provider checkScripts engine
        completion = (.error e, view') → Unchanged view view') ↔
      (∀ st fees undo, validateBlock block height indexPrev view params provider checkScripts engine
          completion = .ok st → Replay height view.getCoin block.rest fees undo →
        ClaimAllowed block height params fees) ∨
      WritesNothing view (blockWrites block height) := by
  constructor
  · intro h
    by_contra hnot
    rw [not_or] at hnot
    obtain ⟨hclaim, hwrites⟩ := hnot
    push Not at hclaim
    obtain ⟨st, fees, undo, hval, hreplay, hclaim⟩ := hclaim
    have hvalid := validated_of_eq_ok hval
    obtain ⟨rfl, -⟩ := hvalid.replay.unique hreplay
    cases hcb : checkCoinbaseValue block height params st.totalFees with
    | ok _ => exact hclaim (hvalid.checkCoinbaseValue_iff.mp hcb)
    | error e =>
      have hview := h e _ (connectBlock_of_checkCoinbaseValue_error hval hcb)
      exact hwrites ((unchanged_writeAll_iff _ _).mp hview)
  · rintro hor e view' herr
    rcases connectBlock_eq_error herr with ⟨-, rfl⟩ | ⟨st, hval, hcb, rfl⟩
    · exact unchanged_refl _
    · rcases hor with hclaim | hwrites
      · have hvalid := validated_of_eq_ok hval
        rw [hvalid.checkCoinbaseValue_iff.mpr (hclaim st _ _ hval hvalid.replay)] at hcb
        simp at hcb
      · exact (unchanged_writeAll_iff _ _).mpr hwrites

end Connect

namespace Sample

/-- A block whose coinbase claims one satoshi more than the subsidy. -/
def overclaimingBlock : Block where
  header := header [0xef, 0x78, 0x4e, 0x11, 0x05, 0x7e, 0x0f, 0xb0, 0x02, 0xea, 0x86, 0xc3, 0x77,
    0x49, 0x9d, 0xa8, 0x6d, 0x5d, 0x4a, 0x7a, 0x32, 0xd9, 0x62, 0x57, 0x3b, 0x52, 0x6e, 0xd9, 0x37,
    0x71, 0x13, 0x8f] 0
  transactions := [coinbaseTx 5000000001]

set_option maxRecDepth 100000 in
lemma connect_overclaimingBlock :
    (connect overclaimingBlock regtestParams).1 =
        .error (.coinbaseValueTooHigh 5000000001 5000000000) ∧
      (connect overclaimingBlock regtestParams).2.getCoin ⟨(coinbaseTx 5000000001).txid, 0⟩ =
        some ⟨⟨⟨5000000001⟩, ⟨[]⟩⟩, 2, true⟩ ∧
      view.getCoin ⟨(coinbaseTx 5000000001).txid, 0⟩ = none := by
  decide +kernel

/-- The coin of the rejected coinbase is in the view. -/
theorem overclaimingBlock_changes_view :
    ¬ ∀ e view', connect overclaimingBlock regtestParams = (.error e, view') →
      Unchanged view view' := by
  intro h
  obtain ⟨herror, hafter, hbefore⟩ := connect_overclaimingBlock
  have hconnect : connect overclaimingBlock regtestParams =
      (.error (.coinbaseValueTooHigh 5000000001 5000000000),
        (connect overclaimingBlock regtestParams).2) := by
    rw [← herror]
  have hsame := (h _ _ hconnect).getCoin ⟨(coinbaseTx 5000000001).txid, 0⟩
  rw [hafter, hbefore] at hsame
  simp at hsame

end Sample

end Bitcrab
