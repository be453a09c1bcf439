import Bitcrab.Consensus.Coins

/-!
# A flush is invisible

`to_updates`, `handle_update_utxo_set` and `clear_history` agree on what the flags of a cache entry
mean: a flush moves the changes to the store and the view over it stays the same, whatever the
budget and the iteration order of the hash maps.
-/

namespace Bitcrab

open CoinsViewCache

/-- Every coin held by the cache has a script the decoder accepts. -/
def ScriptsWithinLimit {V : Type} (c : CoinsViewCache V) : Prop :=
  ∀ o entry coin, c.cache.lookup o = some entry → entry.coin = some coin →
    coin.output.scriptPubkey.bytes.length ≤ maxWireAllocation

lemma coin_of_updateOf_eq_add {entry : CoinCacheEntry} {coin : Coin}
    (h : updateOf entry = some (.add coin)) : entry.coin = some coin := by
  unfold updateOf at h
  cases hd : entry.isDirty <;> cases hc : entry.coin <;> cases hf : entry.isFresh <;>
    simp_all

variable (bm : BlockManager) {c : CoinsViewCache Store} (coinOrder trimOrder : List OutPoint)
  (undoOrder : List BlockHash)

/-- What the storage actor leaves at an outpoint, given the updates of a cache. -/
lemma getCoin_handleUpdateUtxoSet_toUpdates (hsize : ScriptsWithinLimit c)
    (bestBlock : Option BlockHash) (connectedBlocks : List (UInt32 × BlockHash)) (o : OutPoint) :
    (bm.handleUpdateUtxoSet c.base coinOrder undoOrder c.toUpdates bestBlock
      connectedBlocks).2.getCoin o =
      match c.toUpdates.lookup o with
      | some (.add coin) => .ok (some coin)
      | some .remove => .ok none
      | none => c.base.getCoin o := by
  apply bm.getCoin_handleUpdateUtxoSet
  intro coin hadd
  rw [lookup_toUpdates, Option.bind_eq_some_iff] at hadd
  obtain ⟨entry, hl, hu⟩ := hadd
  exact hsize o entry coin hl (coin_of_updateOf_eq_add hu)

/-- The store that the storage actor leaves has absorbed the updates of the cache. -/
lemma absorbs_handleUpdateUtxoSet (hsize : ScriptsWithinLimit c) (bestBlock : Option BlockHash)
    (connectedBlocks : List (UInt32 × BlockHash)) :
    c.Absorbs (bm.handleUpdateUtxoSet c.base coinOrder undoOrder c.toUpdates bestBlock
      connectedBlocks).2 := by
  intro o
  simp only [CoinsView.getCoin,
    getCoin_handleUpdateUtxoSet_toUpdates bm coinOrder undoOrder hsize]
  cases c.toUpdates.lookup o with
  | none => rfl
  | some u => cases u <;> rfl

/-- Where the store could be read before, it can be read after. -/
lemma getCoin_handleUpdateUtxoSet_eq_ok (hsize : ScriptsWithinLimit c)
    (bestBlock : Option BlockHash) (connectedBlocks : List (UInt32 × BlockHash)) {o : OutPoint}
    {coin : Option Coin} (hread : c.base.getCoin o = .ok coin) :
    (bm.handleUpdateUtxoSet c.base coinOrder undoOrder c.toUpdates bestBlock
      connectedBlocks).2.getCoin o =
      .ok (CoinsView.getCoin (bm.handleUpdateUtxoSet c.base coinOrder undoOrder c.toUpdates
        bestBlock connectedBlocks).2 o) := by
  simp only [CoinsView.getCoin,
    getCoin_handleUpdateUtxoSet_toUpdates bm coinOrder undoOrder hsize, hread]
  cases c.toUpdates.lookup o with
  | none => rfl
  | some u => cases u <;> rfl

/-- A successful flush leaves every coin of the view unchanged, makes the store agree with it,
leaves no dirty entry, and keeps the cache invariant. -/
theorem flush_invisible (hfresh : c.FreshInv) (hclean : c.CleanInv)
    (hsize : ScriptsWithinLimit c) :
    (∀ o, (flush bm c coinOrder undoOrder trimOrder).2.getCoin o = c.getCoin o) ∧
    (∀ o, CoinsView.getCoin (flush bm c coinOrder undoOrder trimOrder).2.base o =
      (flush bm c coinOrder undoOrder trimOrder).2.getCoin o) ∧
    (∀ o entry, (flush bm c coinOrder undoOrder trimOrder).2.cache.lookup o = some entry →
      entry.isDirty = false) ∧
    (flush bm c coinOrder undoOrder trimOrder).2.FreshInv ∧
    (flush bm c coinOrder undoOrder trimOrder).2.CleanInv := by
  have habs := absorbs_handleUpdateUtxoSet bm coinOrder undoOrder hsize c.getBestBlock
    c.connectedBlocks
  have hview := fun o => habs.getCoin_clearHistory trimOrder hfresh hclean o
  refine ⟨hview, ?_, ?_, habs.freshInv_clearHistory trimOrder hfresh hclean,
    habs.cleanInv_clearHistory trimOrder hfresh hclean⟩
  · intro o
    exact (habs.getCoin_eq hfresh hclean o).trans (hview o).symm
  · intro o entry hl
    obtain ⟨old, -, hentry⟩ := lookup_clearHistory_eq_some hl
    exact (cleanEntry_eq_some hentry).1

/-! ### A flush with a created, a spent and an untouched coin -/

/-- A coin of 50 coins paid to an empty script, created at height 1. -/
def sampleCoin : Coin := ⟨⟨⟨5000000000⟩, ⟨[]⟩⟩, 1, false⟩

/-- The `n`-th output of the transaction with the zero txid. -/
def sampleOutPoint (n : UInt32) : OutPoint := ⟨Digest.zero, n⟩

/-- A store that holds two coins and no block. -/
def sampleStore : Store where
  db := Db.commit (fun _ _ => none)
    [.put (.coin (sampleOutPoint 0)) (encode sampleCoin),
      .put (.coin (sampleOutPoint 1)) (encode sampleCoin)]
  disk := ⟨fun _ => none, fun _ => none⟩

/-- The storage actor at startup on that store. -/
def sampleManager : BlockManager :=
  BlockManager.new sampleStore ⟨[0xfa, 0xbf, 0xb5, 0xda], Sample.length_regtestMagic⟩

/-- A cache that has spent one coin of the store and created another. -/
def sampleCache : CoinsViewCache Store :=
  ((CoinsViewCache.new sampleStore 512).spendCoinKnown (sampleOutPoint 0)).addCoin
    (sampleOutPoint 2) sampleCoin false

lemma sampleStore_getCoin_two : CoinsView.getCoin sampleStore (sampleOutPoint 2) = none := by
  have h : sampleStore.db.get (.coin (sampleOutPoint 2)) = none := by
    apply Db.get_commit_of_forall_ne
    decide
  simp [CoinsView.getCoin, Store.getCoin, h]

lemma sampleCache_scriptsWithinLimit : ScriptsWithinLimit sampleCache := by
  intro o entry coin hl hc
  have hsample : coin = sampleCoin := by
    rw [sampleCache, lookup_addCoin] at hl
    split_ifs at hl with ho
    · obtain rfl := Option.some.inj hl
      simpa [addedEntry, eq_comm] using hc
    · have hs := (spendCoinKnown_spendsTo (CoinsViewCache.new sampleStore 512)
        (sampleOutPoint 0)).2.2.2 o
      rw [hl] at hs
      split_ifs at hs with ho'
      · obtain rfl := Option.some.inj hs
        simp [CoinCacheEntry.spent] at hc
      · simp [CoinsViewCache.new] at hs
  rw [hsample]
  decide

theorem flush_invisible_sampleCache :
    (flush sampleManager sampleCache [] [] []).2.getCoin (sampleOutPoint 2) = some sampleCoin ∧
    CoinsView.getCoin (flush sampleManager sampleCache [] [] []).2.base (sampleOutPoint 0) =
      none := by
  have hfresh : sampleCache.FreshInv := by
    apply freshInv_addCoin (freshInv_spendCoinKnown (freshInv_new _ _) _)
    intro _
    rw [base_spendCoinKnown]
    exact sampleStore_getCoin_two
  have hclean : sampleCache.CleanInv :=
    cleanInv_addCoin (cleanInv_spendCoinKnown (freshInv_new _ _) (cleanInv_new _ _) _) _ _ _
  obtain ⟨hview, hstore, -, -, -⟩ := flush_invisible sampleManager [] [] [] hfresh hclean
    sampleCache_scriptsWithinLimit
  have h0 : sampleCache.getCoin (sampleOutPoint 0) = none := by
    rw [sampleCache, getCoin_addCoin, if_neg (by decide),
      getCoin_spendCoinKnown (freshInv_new _ _), if_pos rfl]
  have h2 : sampleCache.getCoin (sampleOutPoint 2) = some sampleCoin := by
    rw [sampleCache, getCoin_addCoin, if_pos rfl]
  exact ⟨(hview _).trans h2, (hstore _).trans ((hview _).trans h0)⟩

end Bitcrab
