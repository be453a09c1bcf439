import Bitcrab.Storage.BlockManager

/-!
# The UTXO cache (`consensus/coins.rs`)

`CoinsViewCache` buffers changes over a base view. The hit and miss counters are not modelled. The
part of a cache that lives in memory, `CacheState`, is separate from the base, because the base of
the node's cache is the store, which other writes change too.
-/

namespace Bitcrab

/-- The mathematical map a view stands for. -/
abbrev CoinMap := OutPoint → Option Coin

/-- `CoinsView`. -/
class CoinsView (V : Type) where
  getCoin : V → OutPoint → Option Coin
  getBestBlock : V → Option BlockHash

/-- `CoinCacheEntry`. -/
structure CoinCacheEntry where
  coin : Option Coin
  isDirty : Bool
  isFresh : Bool
  deriving DecidableEq

/-- The fields of `CoinsViewCache` other than its base. -/
structure CacheState where
  cache : HashMap OutPoint CoinCacheEntry
  bestBlock : Option BlockHash
  connectedBlocks : List (UInt32 × BlockHash)
  maxEntries : Nat

/-- `CoinsViewCache`. -/
structure CoinsViewCache (V : Type) extends CacheState where
  base : V

/-- `ESTIMATED_CACHE_ENTRY_BYTES`. -/
def estimatedCacheEntryBytes : Nat := 256

/-- The entry that marks a coin of the base as spent. -/
def CoinCacheEntry.spent : CoinCacheEntry := ⟨none, true, false⟩

namespace CoinsViewCache

variable {V : Type} [CoinsView V]

/-- `CoinsViewCache::new`. -/
def new (base : V) (budgetBytes : Nat) : CoinsViewCache V where
  base
  cache := ∅
  bestBlock := CoinsView.getBestBlock base
  connectedBlocks := []
  maxEntries := max (budgetBytes / estimatedCacheEntryBytes) 1

/-- `get_coin`. -/
def getCoin (c : CoinsViewCache V) (o : OutPoint) : Option Coin :=
  match c.cache.lookup o with
  | some entry => entry.coin
  | none => CoinsView.getCoin c.base o

/-- `get_best_block`. -/
def getBestBlock (c : CoinsViewCache V) : Option BlockHash :=
  c.bestBlock.or (CoinsView.getBestBlock c.base)

instance : CoinsView (CoinsViewCache V) := ⟨getCoin, getBestBlock⟩

/-- `set_best_block`. -/
def setBestBlock (c : CoinsViewCache V) (hash : BlockHash) (height : UInt32) : CoinsViewCache V :=
  { c with bestBlock := some hash, connectedBlocks := c.connectedBlocks ++ [(height, hash)] }

/-- `add_coin`. The source looks at `possible_overwrite` in branches that do nothing. -/
def addCoin (c : CoinsViewCache V) (o : OutPoint) (coin : Coin) (_possibleOverwrite : Bool) :
    CoinsViewCache V :=
  let isFresh := match c.cache.lookup o with
    | some existing => existing.isFresh
    | none => true
  { c with cache := c.cache.insert o ⟨some coin, true, isFresh⟩ }

/-- `spend_coin`. -/
def spendCoin (c : CoinsViewCache V) (o : OutPoint) : Option Coin × CoinsViewCache V :=
  match c.cache.lookup o with
  | some entry =>
    match entry.coin with
    | none => (none, c)
    | some coin =>
      if entry.isFresh then (some coin, { c with cache := c.cache.erase o })
      else (some coin, { c with cache := c.cache.insert o .spent })
  | none =>
    match CoinsView.getCoin c.base o with
    | none => (none, c)
    | some coin => (some coin, { c with cache := c.cache.insert o .spent })

/-- `spend_coin_known`. -/
def spendCoinKnown (c : CoinsViewCache V) (o : OutPoint) : CoinsViewCache V :=
  if (c.cache.lookup o).isSome then (c.spendCoin o).2
  else { c with cache := c.cache.insert o .spent }

/-- The update `to_updates` makes of an entry, if any. -/
def updateOf (entry : CoinCacheEntry) : Option CoinUpdate :=
  if entry.isDirty then
    match entry.coin with
    | some coin => some (.add coin)
    | none => if entry.isFresh then none else some .remove
  else none

/-- `to_updates`. -/
def toUpdates (c : CoinsViewCache V) : HashMap OutPoint CoinUpdate :=
  HashMap.filterMap (fun _ entry => updateOf entry) c.cache

/-- What the `retain` of `clear_history` does to an entry. -/
def cleanEntry (entry : CoinCacheEntry) : Option CoinCacheEntry :=
  if entry.isDirty then
    if entry.coin.isNone then none else some { entry with isDirty := false, isFresh := false }
  else some entry

/-- `trim_to_budget`: drop clean entries, in iteration order, down to the budget. -/
def trimToBudget (c : CoinsViewCache V) (order : List OutPoint) : CoinsViewCache V :=
  let remaining := c.cache.entries.length - c.maxEntries
  let cache := HashMap.removeFirst (fun entry => !entry.isDirty) remaining
    (HashMap.iterKeys order c.cache) c.cache
  { c with cache }

/-- `clear_history`; `order` is the iteration order of the final trim. -/
def clearHistory (c : CoinsViewCache V) (order : List OutPoint) : CoinsViewCache V :=
  trimToBudget { c with
    connectedBlocks := []
    cache := HashMap.filterMap (fun _ entry => cleanEntry entry) c.cache } order

/-! ### The cache invariant -/

/-- A fresh entry's outpoint is absent from the base. -/
def FreshInv (c : CoinsViewCache V) : Prop :=
  ∀ o entry, c.cache.lookup o = some entry → entry.isFresh →
    CoinsView.getCoin c.base o = none

/-- A clean entry equals the base. -/
def CleanInv (c : CoinsViewCache V) : Prop :=
  ∀ o entry, c.cache.lookup o = some entry → entry.isDirty = false →
    entry.coin = CoinsView.getCoin c.base o

/-- The base does not hold a coin at an outpoint without a cache entry. -/
def Uncached (c : CoinsViewCache V) (o : OutPoint) : Prop :=
  c.cache.lookup o = none → CoinsView.getCoin c.base o = none

lemma freshInv_new (base : V) (budget : Nat) : (new base budget).FreshInv := by
  intro o entry h
  simp [new] at h

lemma cleanInv_new (base : V) (budget : Nat) : (new base budget).CleanInv := by
  intro o entry h
  simp [new] at h

/-! ### What the operations do to the view -/

lemma getCoin_of_lookup {c : CoinsViewCache V} {o : OutPoint} {entry : CoinCacheEntry}
    (h : c.cache.lookup o = some entry) : c.getCoin o = entry.coin := by
  simp [getCoin, h]

lemma getCoin_of_lookup_none {c : CoinsViewCache V} {o : OutPoint}
    (h : c.cache.lookup o = none) : c.getCoin o = CoinsView.getCoin c.base o := by
  simp [getCoin, h]

/-- A view depends on the entry at the outpoint and on the base only. -/
lemma getCoin_congr {c c' : CoinsViewCache V} {o : OutPoint}
    (hbase : CoinsView.getCoin c.base o = CoinsView.getCoin c'.base o)
    (h : c.cache.lookup o = c'.cache.lookup o) : c.getCoin o = c'.getCoin o := by
  simp [getCoin, h, hbase]

/-- The entry `add_coin` leaves: as fresh as the cached one was, fresh if there was none. -/
def addedEntry (existing : Option CoinCacheEntry) (coin : Coin) : CoinCacheEntry :=
  ⟨some coin, true, (existing.map (·.isFresh)).getD true⟩

omit [CoinsView V] in
lemma lookup_addCoin (c : CoinsViewCache V) (o : OutPoint) (coin : Coin) (ow : Bool)
    (o' : OutPoint) :
    (c.addCoin o coin ow).cache.lookup o' =
      if o' = o then some (addedEntry (c.cache.lookup o) coin) else c.cache.lookup o' := by
  unfold addCoin addedEntry
  split_ifs with h
  · subst h
    cases hl : c.cache.lookup o' <;> simp
  · simp [AList.lookup_insert_ne h]

/-- An added coin is the one seen at its outpoint, and nothing else changes. -/
lemma getCoin_addCoin (c : CoinsViewCache V) (o : OutPoint) (coin : Coin) (ow : Bool)
    (o' : OutPoint) :
    (c.addCoin o coin ow).getCoin o' = if o' = o then some coin else c.getCoin o' := by
  have h := lookup_addCoin c o coin ow o'
  split_ifs at h ⊢ with ho
  · rw [getCoin_of_lookup h]
    rfl
  · exact getCoin_congr rfl h

lemma freshInv_addCoin {c : CoinsViewCache V} (hinv : c.FreshInv) {o : OutPoint}
    (hun : c.Uncached o) (coin : Coin) (ow : Bool) : (c.addCoin o coin ow).FreshInv := by
  intro o' entry hl hfresh
  rw [lookup_addCoin] at hl
  split_ifs at hl with ho
  · -- the new entry is fresh only if there was none, or a fresh one
    subst ho
    obtain rfl := Option.some.inj hl
    cases hc : c.cache.lookup o' with
    | none => exact hun hc
    | some existing => exact hinv o' existing hc (by simpa [addedEntry, hc] using hfresh)
  · exact hinv o' entry hl hfresh

lemma cleanInv_addCoin {c : CoinsViewCache V} (hinv : c.CleanInv) (o : OutPoint) (coin : Coin)
    (ow : Bool) : (c.addCoin o coin ow).CleanInv := by
  intro o' entry hl hclean
  rw [lookup_addCoin] at hl
  split_ifs at hl with ho
  · obtain rfl := Option.some.inj hl
    simp [addedEntry] at hclean
  · exact hinv o' entry hl hclean

/-- The entry a spend leaves at an outpoint that has an entry. -/
def spentEntry (entry : CoinCacheEntry) : Option CoinCacheEntry :=
  if entry.coin.isNone then some entry else if entry.isFresh then none else some .spent

/-- A spend changes the entry at its outpoint and nothing else. -/
def SpendsTo (c c' : CoinsViewCache V) (o : OutPoint) (entry : Option CoinCacheEntry) : Prop :=
  c'.base = c.base ∧ c'.bestBlock = c.bestBlock ∧ c'.connectedBlocks = c.connectedBlocks ∧
    ∀ o', c'.cache.lookup o' = if o' = o then entry else c.cache.lookup o'

omit [CoinsView V] in
lemma spendsTo_self {c : CoinsViewCache V} {o : OutPoint} :
    SpendsTo c c o (c.cache.lookup o) := by
  refine ⟨rfl, rfl, rfl, ?_⟩
  intro o'
  split_ifs with h
  · rw [h]
  · rfl

omit [CoinsView V] in
lemma spendsTo_erase {c : CoinsViewCache V} {o : OutPoint} :
    SpendsTo c { c with cache := c.cache.erase o } o none := by
  refine ⟨rfl, rfl, rfl, ?_⟩
  intro o'
  split_ifs with h
  · subst h
    exact AList.lookup_erase o' _
  · exact AList.lookup_erase_ne h

omit [CoinsView V] in
lemma spendsTo_insert {c : CoinsViewCache V} {o : OutPoint} {entry : CoinCacheEntry} :
    SpendsTo c { c with cache := c.cache.insert o entry } o (some entry) := by
  refine ⟨rfl, rfl, rfl, ?_⟩
  intro o'
  split_ifs with h
  · subst h
    exact AList.lookup_insert _
  · exact AList.lookup_insert_ne h

/-- `spend_coin` returns the coin that was seen. -/
lemma spendCoin_fst (c : CoinsViewCache V) (o : OutPoint) : (c.spendCoin o).1 = c.getCoin o := by
  unfold spendCoin getCoin
  repeat' split
  all_goals simp_all

/-- `spend_coin` at a cached outpoint. -/
lemma spendCoin_of_lookup {c : CoinsViewCache V} {o : OutPoint} {entry : CoinCacheEntry}
    (h : c.cache.lookup o = some entry) : SpendsTo c (c.spendCoin o).2 o (spentEntry entry) := by
  unfold spendCoin spentEntry
  simp only [h]
  cases hc : entry.coin with
  | none =>
    have hself := spendsTo_self (c := c) (o := o)
    rw [h] at hself
    exact hself
  | some coin =>
    cases hf : entry.isFresh with
    | true => exact spendsTo_erase
    | false => exact spendsTo_insert

/-- `spend_coin` at an outpoint that is not cached. -/
lemma spendCoin_of_lookup_none {c : CoinsViewCache V} {o : OutPoint}
    (h : c.cache.lookup o = none) :
    SpendsTo c (c.spendCoin o).2 o
      (if (CoinsView.getCoin c.base o).isSome then some .spent else none) := by
  unfold spendCoin
  simp only [h]
  cases hb : CoinsView.getCoin c.base o with
  | none =>
    have hself := spendsTo_self (c := c) (o := o)
    rw [h] at hself
    exact hself
  | some coin => exact spendsTo_insert

/-- `spend_coin_known` leaves the entry that says the coin is spent, or none. -/
lemma spendCoinKnown_spendsTo (c : CoinsViewCache V) (o : OutPoint) :
    SpendsTo c (c.spendCoinKnown o) o
      (match c.cache.lookup o with
        | some entry => spentEntry entry
        | none => some .spent) := by
  unfold spendCoinKnown
  cases h : c.cache.lookup o with
  | none => exact spendsTo_insert
  | some entry => exact spendCoin_of_lookup h

@[simp] lemma base_spendCoinKnown (c : CoinsViewCache V) (o : OutPoint) :
    (c.spendCoinKnown o).base = c.base :=
  (spendCoinKnown_spendsTo c o).1

/-- An entry left by a spend holds no coin, and is fresh or clean only if the old entry was. -/
lemma spentEntry_eq_some {entry entry' : CoinCacheEntry} (h : spentEntry entry = some entry') :
    entry'.coin = none ∧ (entry' = entry ∨ entry' = .spent) := by
  unfold spentEntry at h
  split_ifs at h with hc hf
  · obtain rfl := Option.some.inj h
    exact ⟨by simpa using hc, .inl rfl⟩
  · obtain rfl := Option.some.inj h
    exact ⟨rfl, .inr rfl⟩

/-- A spend removes an entry only if it was fresh. -/
lemma spentEntry_eq_none {entry : CoinCacheEntry} (h : spentEntry entry = none) :
    entry.isFresh := by
  unfold spentEntry at h
  split_ifs at h with hc hf
  exact hf

/-- The entry at an outpoint after a spend: one without a coin, or none where the base has none. -/
structure LeavesSpent (c : CoinsViewCache V) (o : OutPoint) (entry : Option CoinCacheEntry) :
    Prop where
  some : ∀ e, entry = some e → e.coin = none ∧ (c.cache.lookup o = some e ∨ e = .spent)
  none : entry = none → CoinsView.getCoin c.base o = none

lemma leavesSpent_spent (c : CoinsViewCache V) (o : OutPoint) : LeavesSpent c o (some .spent) where
  some := by
    rintro e ⟨⟩
    exact ⟨rfl, .inr rfl⟩
  none := by simp

lemma leavesSpent_spentEntry {c : CoinsViewCache V} (hinv : c.FreshInv) {o : OutPoint}
    {entry : CoinCacheEntry} (h : c.cache.lookup o = some entry) :
    LeavesSpent c o (spentEntry entry) where
  some e he := by
    refine ⟨(spentEntry_eq_some he).1, ?_⟩
    rcases (spentEntry_eq_some he).2 with rfl | rfl
    · exact .inl h
    · exact .inr rfl
  none hnone := hinv o entry h (spentEntry_eq_none hnone)

/-- With the invariant, `spend_coin` removes the coin at its outpoint. -/
lemma exists_spendCoin {c : CoinsViewCache V} (hinv : c.FreshInv) (o : OutPoint) :
    ∃ entry, SpendsTo c (c.spendCoin o).2 o entry ∧ LeavesSpent c o entry := by
  cases h : c.cache.lookup o with
  | some entry => exact ⟨_, spendCoin_of_lookup h, leavesSpent_spentEntry hinv h⟩
  | none =>
    refine ⟨_, spendCoin_of_lookup_none h, ?_⟩
    split_ifs with hb
    · exact leavesSpent_spent c o
    · exact ⟨by simp, fun _ => by simpa using hb⟩

/-- With the invariant, `spend_coin_known` removes the coin at its outpoint. -/
lemma exists_spendCoinKnown {c : CoinsViewCache V} (hinv : c.FreshInv) (o : OutPoint) :
    ∃ entry, SpendsTo c (c.spendCoinKnown o) o entry ∧ LeavesSpent c o entry := by
  have hto := spendCoinKnown_spendsTo c o
  cases h : c.cache.lookup o with
  | some entry =>
    rw [h] at hto
    exact ⟨_, hto, leavesSpent_spentEntry hinv h⟩
  | none =>
    rw [h] at hto
    exact ⟨_, hto, leavesSpent_spent c o⟩

namespace SpendsTo

variable {c c' : CoinsViewCache V} {o : OutPoint} {entry : Option CoinCacheEntry}

lemma getCoin_eq (h : SpendsTo c c' o entry) (hleft : LeavesSpent c o entry) (o' : OutPoint) :
    c'.getCoin o' = if o' = o then none else c.getCoin o' := by
  obtain ⟨hbase, -, -, hlookup⟩ := h
  have hl := hlookup o'
  split_ifs at hl ⊢ with ho
  · cases entry with
    | none => rw [getCoin_of_lookup_none hl, hbase, ho, hleft.none rfl]
    | some e => rw [getCoin_of_lookup hl, (hleft.some e rfl).1]
  · exact getCoin_congr (by rw [hbase]) hl

/-- An entry after a spend is an entry from before, or marks a spent coin of the base. -/
lemma lookup_eq_some (h : SpendsTo c c' o entry) (hleft : LeavesSpent c o entry)
    {o' : OutPoint} {e : CoinCacheEntry} (hl : c'.cache.lookup o' = some e) :
    c.cache.lookup o' = some e ∨ e = .spent := by
  rw [h.2.2.2] at hl
  split_ifs at hl with ho
  · rw [ho]
    exact (hleft.some e hl).2
  · exact .inl hl

lemma freshInv (h : SpendsTo c c' o entry) (hleft : LeavesSpent c o entry) (hinv : c.FreshInv) :
    c'.FreshInv := by
  intro o' e hl hfresh
  rw [h.1]
  rcases h.lookup_eq_some hleft hl with hold | rfl
  · exact hinv o' e hold hfresh
  · simp [CoinCacheEntry.spent] at hfresh

lemma cleanInv (h : SpendsTo c c' o entry) (hleft : LeavesSpent c o entry) (hinv : c.CleanInv) :
    c'.CleanInv := by
  intro o' e hl hclean
  rw [h.1]
  rcases h.lookup_eq_some hleft hl with hold | rfl
  · exact hinv o' e hold hclean
  · simp [CoinCacheEntry.spent] at hclean

end SpendsTo

section Spend

variable {c : CoinsViewCache V}

lemma getCoin_spendCoin (hinv : c.FreshInv) (o o' : OutPoint) :
    (c.spendCoin o).2.getCoin o' = if o' = o then none else c.getCoin o' := by
  obtain ⟨_, hto, hleft⟩ := exists_spendCoin hinv o
  exact hto.getCoin_eq hleft o'

lemma freshInv_spendCoin (hinv : c.FreshInv) (o : OutPoint) : (c.spendCoin o).2.FreshInv := by
  obtain ⟨_, hto, hleft⟩ := exists_spendCoin hinv o
  exact hto.freshInv hleft hinv

lemma cleanInv_spendCoin (hfresh : c.FreshInv) (hclean : c.CleanInv) (o : OutPoint) :
    (c.spendCoin o).2.CleanInv := by
  obtain ⟨_, hto, hleft⟩ := exists_spendCoin hfresh o
  exact hto.cleanInv hleft hclean

/-- The invariant makes `spend_coin_known` a deletion. -/
lemma getCoin_spendCoinKnown (hinv : c.FreshInv) (o o' : OutPoint) :
    (c.spendCoinKnown o).getCoin o' = if o' = o then none else c.getCoin o' := by
  obtain ⟨_, hto, hleft⟩ := exists_spendCoinKnown hinv o
  exact hto.getCoin_eq hleft o'

lemma freshInv_spendCoinKnown (hinv : c.FreshInv) (o : OutPoint) :
    (c.spendCoinKnown o).FreshInv := by
  obtain ⟨_, hto, hleft⟩ := exists_spendCoinKnown hinv o
  exact hto.freshInv hleft hinv

lemma cleanInv_spendCoinKnown (hfresh : c.FreshInv) (hclean : c.CleanInv) (o : OutPoint) :
    (c.spendCoinKnown o).CleanInv := by
  obtain ⟨_, hto, hleft⟩ := exists_spendCoinKnown hfresh o
  exact hto.cleanInv hleft hclean

end Spend

/-! ### Clearing the history -/

omit [CoinsView V] in
lemma lookup_toUpdates (c : CoinsViewCache V) (o : OutPoint) :
    c.toUpdates.lookup o = (c.cache.lookup o).bind updateOf :=
  HashMap.lookup_filterMap _ _ _

omit [CoinsView V] in
/-- `clear_history` leaves the cleaned entry, or drops it when it is over the budget. -/
lemma lookup_clearHistory (c : CoinsViewCache V) (order : List OutPoint) (o : OutPoint) :
    (c.clearHistory order).cache.lookup o = (c.cache.lookup o).bind cleanEntry ∨
      (c.clearHistory order).cache.lookup o = none ∧
        ∃ entry, (c.cache.lookup o).bind cleanEntry = some entry := by
  unfold clearHistory trimToBudget
  simp only
  rcases HashMap.lookup_removeFirst (fun entry => !entry.isDirty) _ _
    (HashMap.filterMap (fun _ entry => cleanEntry entry) c.cache) o with h | ⟨h, entry, he, -⟩
  · left
    rw [h, HashMap.lookup_filterMap]
  · right
    rw [HashMap.lookup_filterMap] at he
    exact ⟨h, entry, he⟩

omit [CoinsView V] in
@[simp] lemma base_clearHistory (c : CoinsViewCache V) (order : List OutPoint) :
    (c.clearHistory order).base = c.base := rfl

/-- A cleaned entry is clean, holds the old coin, and is fresh only if it was clean and fresh. -/
lemma cleanEntry_eq_some {entry entry' : CoinCacheEntry} (h : cleanEntry entry = some entry') :
    entry'.isDirty = false ∧ entry'.coin = entry.coin ∧
      (entry'.isFresh → entry.isDirty = false ∧ entry.isFresh) := by
  unfold cleanEntry at h
  split_ifs at h with hd hc
  · obtain rfl := Option.some.inj h
    simp
  · obtain rfl := Option.some.inj h
    exact ⟨by simpa using hd, rfl, fun hf => ⟨by simpa using hd, hf⟩⟩

/-! ### Moving the changes to the base -/

/-- The base `base'` is the base of `c` with the updates of `c` applied. -/
def Absorbs (c : CoinsViewCache V) (base' : V) : Prop :=
  ∀ o, CoinsView.getCoin base' o =
    match c.toUpdates.lookup o with
    | some (.add coin) => some coin
    | some .remove => none
    | none => CoinsView.getCoin c.base o

section Rebase

variable {c : CoinsViewCache V} {base' : V} (order : List OutPoint)

/-- A base that absorbs the updates of a cache holds what the cache shows. -/
lemma Absorbs.getCoin_eq (h : c.Absorbs base') (hfresh : c.FreshInv) (hclean : c.CleanInv)
    (o : OutPoint) : CoinsView.getCoin base' o = c.getCoin o := by
  rw [h o, lookup_toUpdates]
  cases hl : c.cache.lookup o with
  | none => exact (getCoin_of_lookup_none hl).symm
  | some entry =>
    rw [getCoin_of_lookup hl]
    simp only [Option.bind_some, updateOf]
    -- dirty entries are written; a fresh spent one and a clean one are already in the base
    cases hd : entry.isDirty with
    | false => exact (hclean o entry hl hd).symm
    | true =>
      cases hc : entry.coin with
      | some coin => rfl
      | none =>
        cases hf : entry.isFresh with
        | false => rfl
        | true => exact hfresh o entry hl hf

omit [CoinsView V] in
/-- The entries left by `clear_history` are cleaned entries of the old cache. -/
lemma lookup_clearHistory_eq_some {order : List OutPoint} {o : OutPoint} {entry : CoinCacheEntry}
    (h : (c.clearHistory order).cache.lookup o = some entry) :
    ∃ old, c.cache.lookup o = some old ∧ cleanEntry old = some entry := by
  rcases lookup_clearHistory c order o with he | ⟨hnone, -⟩
  · rw [h] at he
    exact Option.bind_eq_some_iff.mp he.symm
  · rw [h] at hnone
    simp at hnone

/-- Clearing the history over a base that absorbed the updates keeps the view. -/
lemma Absorbs.getCoin_clearHistory (h : c.Absorbs base') (hfresh : c.FreshInv)
    (hclean : c.CleanInv) (o : OutPoint) :
    (clearHistory { c with base := base' } order).getCoin o = c.getCoin o := by
  cases hl : (clearHistory { c with base := base' } order).cache.lookup o with
  | none =>
    rw [getCoin_of_lookup_none hl]
    exact h.getCoin_eq hfresh hclean o
  | some entry =>
    obtain ⟨old, hold, hentry⟩ := lookup_clearHistory_eq_some hl
    rw [getCoin_of_lookup hl, getCoin_of_lookup (c := c) hold, (cleanEntry_eq_some hentry).2.1]

lemma Absorbs.freshInv_clearHistory (h : c.Absorbs base') (hfresh : c.FreshInv)
    (hclean : c.CleanInv) : (clearHistory { c with base := base' } order).FreshInv := by
  -- an entry still fresh was clean and fresh, so the base had and has no coin
  intro o entry hl hf
  obtain ⟨old, hold, hentry⟩ := lookup_clearHistory_eq_some hl
  obtain ⟨-, -, hkeep⟩ := cleanEntry_eq_some hentry
  rw [base_clearHistory, h.getCoin_eq hfresh hclean o, getCoin_of_lookup (c := c) hold,
    hclean o old hold (hkeep hf).1]
  exact hfresh o old hold (hkeep hf).2

lemma Absorbs.cleanInv_clearHistory (h : c.Absorbs base') (hfresh : c.FreshInv)
    (hclean : c.CleanInv) : (clearHistory { c with base := base' } order).CleanInv := by
  intro o entry hl _
  obtain ⟨old, hold, hentry⟩ := lookup_clearHistory_eq_some hl
  rw [base_clearHistory, h.getCoin_eq hfresh hclean o, getCoin_of_lookup (c := c) hold,
    (cleanEntry_eq_some hentry).2.1]

end Rebase

end CoinsViewCache

/-! ### The store as a view -/

/-- `StoreCoinsView`: read errors count as an absent coin. -/
instance : CoinsView Store where
  getCoin s o := match s.getCoin o with
    | .ok coin => coin
    | .error _ => none
  getBestBlock s := s.getBestBlock

/-- `StoreCoinsView::flush` of a cache over the same store: the storage actor writes the updates,
then the cache is cleared. The orders are those in which the hash maps happen to be iterated. -/
def flush (bm : BlockManager) (c : CoinsViewCache Store) (coinOrder : List OutPoint)
    (undoOrder : List BlockHash) (trimOrder : List OutPoint) :
    BlockManager × CoinsViewCache Store :=
  let (bm, store) := bm.handleUpdateUtxoSet c.base coinOrder undoOrder c.toUpdates c.getBestBlock
    c.connectedBlocks
  (bm, CoinsViewCache.clearHistory { c with base := store } trimOrder)

end Bitcrab
