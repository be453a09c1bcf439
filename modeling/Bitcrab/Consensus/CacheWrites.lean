import Bitcrab.Consensus.Coins
import Bitcrab.Lib.Writes

/-!
# Lists of writes to the cache

A block reaches the cache as a list of writes: `spend_coin_known` where a coin is removed,
`add_coin` where one is created. The entry at an outpoint depends on the writes to that
outpoint only.
-/

namespace Bitcrab

open Writes

namespace CoinsViewCache

variable {V : Type} [CoinsView V]

/-- A write to the cache. -/
def write (c : CoinsViewCache V) (w : OutPoint × Option Coin) : CoinsViewCache V :=
  match w.2 with
  | none => c.spendCoinKnown w.1
  | some coin => c.addCoin w.1 coin false

/-- The cache after a list of writes. -/
def writeAll (c : CoinsViewCache V) (ws : List (OutPoint × Option Coin)) : CoinsViewCache V :=
  ws.foldl write c

@[simp] lemma writeAll_nil (c : CoinsViewCache V) : c.writeAll [] = c := rfl

@[simp] lemma writeAll_cons (c : CoinsViewCache V) (w : OutPoint × Option Coin)
    (ws : List (OutPoint × Option Coin)) : c.writeAll (w :: ws) = (c.write w).writeAll ws := rfl

lemma writeAll_append (c : CoinsViewCache V) (ws ws' : List (OutPoint × Option Coin)) :
    c.writeAll (ws ++ ws') = (c.writeAll ws).writeAll ws' :=
  List.foldl_append

lemma writeAll_removals (c : CoinsViewCache V) (os : List OutPoint) :
    c.writeAll (removals os) = os.foldl spendCoinKnown c := by
  simp only [writeAll, removals, List.foldl_map]
  rfl

lemma writeAll_additions (c : CoinsViewCache V) (created : List (OutPoint × Coin)) :
    c.writeAll (additions created) = created.foldl (fun c kv => c.addCoin kv.1 kv.2 false) c := by
  simp only [writeAll, additions, List.foldl_map]
  rfl

/-! ### The entry at an outpoint -/

/-- What a write makes of the entry at its outpoint. -/
def entryAfter (entry : Option CoinCacheEntry) : Option Coin → Option CoinCacheEntry
  | some coin => some (addedEntry entry coin)
  | none =>
    match entry with
    | some entry => spentEntry entry
    | none => some .spent

/-- A write changes the entry at its outpoint and nothing else. -/
lemma write_spendsTo (c : CoinsViewCache V) (w : OutPoint × Option Coin) :
    SpendsTo c (c.write w) w.1 (entryAfter (c.cache.lookup w.1) w.2) := by
  obtain ⟨o, v⟩ := w
  cases v with
  | none => exact spendCoinKnown_spendsTo c o
  | some coin => exact ⟨rfl, rfl, rfl, lookup_addCoin c o coin false⟩

@[simp] lemma base_writeAll (c : CoinsViewCache V) (ws : List (OutPoint × Option Coin)) :
    (c.writeAll ws).base = c.base := by
  induction ws generalizing c with
  | nil => rfl
  | cons w ws ih => rw [writeAll_cons, ih, (write_spendsTo c w).1]

@[simp] lemma bestBlock_writeAll (c : CoinsViewCache V) (ws : List (OutPoint × Option Coin)) :
    (c.writeAll ws).bestBlock = c.bestBlock := by
  induction ws generalizing c with
  | nil => rfl
  | cons w ws ih => rw [writeAll_cons, ih, (write_spendsTo c w).2.1]

@[simp] lemma connectedBlocks_writeAll (c : CoinsViewCache V)
    (ws : List (OutPoint × Option Coin)) :
    (c.writeAll ws).connectedBlocks = c.connectedBlocks := by
  induction ws generalizing c with
  | nil => rfl
  | cons w ws ih => rw [writeAll_cons, ih, (write_spendsTo c w).2.2.1]

/-- The entry at an outpoint after a list of writes. -/
lemma lookup_writeAll (c : CoinsViewCache V) (ws : List (OutPoint × Option Coin)) (o : OutPoint) :
    (c.writeAll ws).cache.lookup o = (valuesAt ws o).foldl entryAfter (c.cache.lookup o) := by
  induction ws generalizing c with
  | nil => rfl
  | cons w ws ih =>
    rw [writeAll_cons, ih, (write_spendsTo c w).2.2.2, valuesAt_cons]
    by_cases h : o = w.1
    · rw [if_pos h, if_pos h.symm, List.foldl_cons, h]
    · rw [if_neg h, if_neg (Ne.symm h)]

/-- An entry left by a write holds what was written; no entry is left only by a removal. -/
lemma coin_entryAfter {entry : Option CoinCacheEntry} {v : Option Coin} :
    (∀ e, entryAfter entry v = some e → e.coin = v) ∧ (entryAfter entry v = none → v = none) := by
  cases v with
  | some coin =>
    constructor
    · rintro e ⟨⟩
      rfl
    · rintro ⟨⟩
  | none =>
    refine ⟨?_, fun _ => rfl⟩
    intro e he
    cases entry with
    | none =>
      obtain rfl := Option.some.inj he
      rfl
    | some entry => exact (spentEntry_eq_some he).1

/-- After at least one write, the entry at an outpoint holds what was written last. -/
lemma coin_foldl_entryAfter {entry : Option CoinCacheEntry} {v : Option Coin}
    {vs : List (Option Coin)} (hlast : vs.getLast? = some v) :
    (∀ e, vs.foldl entryAfter entry = some e → e.coin = v) ∧
      (vs.foldl entryAfter entry = none → v = none) := by
  obtain ⟨init, rfl⟩ := List.getLast?_eq_some_iff.mp hlast
  rw [List.foldl_append, List.foldl_cons, List.foldl_nil]
  exact coin_entryAfter

/-- The writes leave no entry at an outpoint they touch, so that the base shows through. -/
def Uncovers (c : CoinsViewCache V) (ws : List (OutPoint × Option Coin)) (o : OutPoint) : Prop :=
  valuesAt ws o ≠ [] ∧ (valuesAt ws o).foldl entryAfter (c.cache.lookup o) = none

instance (c : CoinsViewCache V) (ws : List (OutPoint × Option Coin)) :
    DecidablePred (c.Uncovers ws) :=
  fun _ => inferInstanceAs (Decidable (_ ∧ _))

/-- The view after a list of writes. -/
lemma getCoin_writeAll_of_not_uncovers {c : CoinsViewCache V}
    {ws : List (OutPoint × Option Coin)} {o : OutPoint} (h : ¬ c.Uncovers ws o) :
    (c.writeAll ws).getCoin o = apply c.getCoin ws o := by
  rw [apply_eq_getLast?]
  have hlookup := lookup_writeAll c ws o
  cases hlast : (valuesAt ws o).getLast? with
  | none =>
    rw [List.getLast?_eq_none_iff] at hlast
    rw [hlast] at hlookup
    exact getCoin_congr (by rw [base_writeAll]) hlookup
  | some v =>
    have hne : valuesAt ws o ≠ [] := by
      rintro hnil
      simp [hnil] at hlast
    cases hentry : (valuesAt ws o).foldl entryAfter (c.cache.lookup o) with
    | none => exact absurd ⟨hne, hentry⟩ h
    | some e =>
      rw [getCoin_of_lookup (hlookup.trans hentry)]
      exact (coin_foldl_entryAfter hlast).1 e hentry

lemma getCoin_writeAll_of_uncovers {c : CoinsViewCache V} {ws : List (OutPoint × Option Coin)}
    {o : OutPoint} (h : c.Uncovers ws o) :
    (c.writeAll ws).getCoin o = CoinsView.getCoin c.base o ∧ apply c.getCoin ws o = none := by
  obtain ⟨hne, hentry⟩ := h
  constructor
  · rw [getCoin_of_lookup_none ((lookup_writeAll c ws o).trans hentry), base_writeAll]
  · cases hlast : (valuesAt ws o).getLast? with
    | none => exact absurd (List.getLast?_eq_none_iff.mp hlast) hne
    | some v =>
      rw [apply_eq_getLast?, hlast, Option.getD_some]
      exact (coin_foldl_entryAfter hlast).2 hentry

/-! ### Writes that keep the invariant -/

/-- A view that does not show an outpoint has nothing below its cache there. -/
lemma uncached_of_getCoin_eq_none {c : CoinsViewCache V} {o : OutPoint}
    (h : c.getCoin o = none) : c.Uncached o := by
  intro hl
  rw [← getCoin_of_lookup_none hl]
  exact h

/-- After a write to an outpoint, nothing is below the cache there. -/
lemma uncached_write {c : CoinsViewCache V} (hfresh : c.FreshInv) (w : OutPoint × Option Coin) :
    (c.write w).Uncached w.1 := by
  intro hl
  obtain ⟨o, v⟩ := w
  cases v with
  | none =>
    obtain ⟨entry, hto, hleft⟩ := exists_spendCoinKnown hfresh o
    rw [show (c.write (o, none)) = c.spendCoinKnown o from rfl, hto.2.2.2, if_pos rfl] at hl
    rw [show (c.write (o, none)) = c.spendCoinKnown o from rfl, hto.1]
    exact hleft.none hl
  | some coin =>
    rw [(write_spendsTo c (o, some coin)).2.2.2, if_pos rfl] at hl
    simp [entryAfter] at hl

lemma Uncached.write {c : CoinsViewCache V} (hfresh : c.FreshInv) {o : OutPoint}
    (h : c.Uncached o) (w : OutPoint × Option Coin) : (c.write w).Uncached o := by
  by_cases ho : o = w.1
  · rw [ho]
    exact uncached_write hfresh w
  · intro hl
    rw [(write_spendsTo c w).2.2.2, if_neg ho] at hl
    rw [(write_spendsTo c w).1]
    exact h hl

lemma freshInv_write {c : CoinsViewCache V} (hfresh : c.FreshInv) {w : OutPoint × Option Coin}
    (hun : w.2.isSome → c.Uncached w.1) : (c.write w).FreshInv := by
  obtain ⟨o, v⟩ := w
  cases v with
  | none => exact freshInv_spendCoinKnown hfresh o
  | some coin => exact freshInv_addCoin hfresh (hun rfl) coin false

lemma cleanInv_write {c : CoinsViewCache V} (hfresh : c.FreshInv) (hclean : c.CleanInv)
    (w : OutPoint × Option Coin) : (c.write w).CleanInv := by
  obtain ⟨o, v⟩ := w
  cases v with
  | none => exact cleanInv_spendCoinKnown hfresh hclean o
  | some coin => exact cleanInv_addCoin hclean o coin false

/-- The writes create coins only where nothing is below the cache. -/
def CreatesUncached (c : CoinsViewCache V) (ws : List (OutPoint × Option Coin)) : Prop :=
  ∀ w ∈ ws, w.2.isSome → c.Uncached w.1

section WriteAll

variable {c : CoinsViewCache V} {ws : List (OutPoint × Option Coin)}

lemma CreatesUncached.tail {w : OutPoint × Option Coin} (hfresh : c.FreshInv)
    (h : c.CreatesUncached (w :: ws)) : (c.write w).CreatesUncached ws := by
  intro w' hw' hsome
  exact (h w' (List.mem_cons_of_mem _ hw') hsome).write hfresh w

lemma freshInv_writeAll (hfresh : c.FreshInv) (hun : c.CreatesUncached ws) :
    (c.writeAll ws).FreshInv := by
  induction ws generalizing c with
  | nil => exact hfresh
  | cons w ws ih =>
    exact ih (freshInv_write hfresh (hun w List.mem_cons_self)) (hun.tail hfresh)

lemma cleanInv_writeAll (hfresh : c.FreshInv) (hclean : c.CleanInv) (hun : c.CreatesUncached ws) :
    (c.writeAll ws).CleanInv := by
  induction ws generalizing c with
  | nil => exact hclean
  | cons w ws ih =>
    exact ih (freshInv_write hfresh (hun w List.mem_cons_self)) (cleanInv_write hfresh hclean w)
      (hun.tail hfresh)

/-- Outpoints that are uncached stay so, and those written to become so. -/
lemma uncached_writeAll (hfresh : c.FreshInv) (hun : c.CreatesUncached ws) {o : OutPoint}
    (ho : o ∈ ws.map Prod.fst ∨ c.Uncached o) : (c.writeAll ws).Uncached o := by
  induction ws generalizing c with
  | nil => simpa using ho
  | cons w ws ih =>
    apply ih (freshInv_write hfresh (hun w List.mem_cons_self)) (hun.tail hfresh)
    rcases ho with ho | ho
    · rw [List.map_cons, List.mem_cons] at ho
      rcases ho with rfl | ho
      · exact .inr (uncached_write hfresh w)
      · exact .inl ho
    · exact .inr (ho.write hfresh w)

/-- With the invariant, there is nothing to uncover. -/
lemma getCoin_base_of_uncovers (hfresh : c.FreshInv) (hun : c.CreatesUncached ws) {o : OutPoint}
    (h : c.Uncovers ws o) : CoinsView.getCoin c.base o = none := by
  have hmem : o ∈ ws.map Prod.fst := by
    by_contra hnot
    apply h.1
    rw [valuesAt, List.filterMap_eq_nil_iff]
    intro w hw
    rw [if_neg]
    rintro rfl
    exact hnot (List.mem_map_of_mem hw)
  have hbelow := uncached_writeAll hfresh hun (.inl hmem) ((lookup_writeAll c ws o).trans h.2)
  rwa [base_writeAll] at hbelow

/-- With the invariant, the cache shows the map after the same writes. -/
lemma getCoin_writeAll (hfresh : c.FreshInv) (hun : c.CreatesUncached ws) (o : OutPoint) :
    (c.writeAll ws).getCoin o = apply c.getCoin ws o := by
  by_cases h : c.Uncovers ws o
  · obtain ⟨hbase, hnone⟩ := getCoin_writeAll_of_uncovers h
    rw [hbase, hnone, getCoin_base_of_uncovers hfresh hun h]
  · exact getCoin_writeAll_of_not_uncovers h

/-- With the invariant, a write changes the view at its outpoint only. -/
lemma getCoin_write (hfresh : c.FreshInv) {w : OutPoint × Option Coin}
    (hun : w.2.isSome → c.Uncached w.1) :
    (c.write w).getCoin = Function.update c.getCoin w.1 w.2 := by
  have hone : c.CreatesUncached [w] := by
    intro w' hw' hsome
    rw [List.mem_singleton] at hw'
    subst hw'
    exact hun hsome
  funext o
  exact getCoin_writeAll hfresh hone o

end WriteAll

end CoinsViewCache

end Bitcrab
