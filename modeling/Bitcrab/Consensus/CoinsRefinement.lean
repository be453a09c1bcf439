import Bitcrab.Consensus.Flush

/-!
# The cache against a plain map

A `CoinsViewCache` is meant to behave as one map from outpoints to coins. It does as long as
`add_coin` is not called on a coin of the base that the cache has no entry for: the new entry is
then marked fresh, and spending it uncovers the coin of the base.
-/

namespace Bitcrab

/-- A call on a cache. A flush comes with the base it leaves and the order of its trim. -/
inductive CoinOp (V : Type) where
  | addCoin (o : OutPoint) (coin : Coin) (possibleOverwrite : Bool)
  | spendCoin (o : OutPoint)
  | spendCoinKnown (o : OutPoint)
  | getCoin (o : OutPoint)
  | flush (base' : V) (order : List OutPoint)

namespace CoinOp

open CoinsViewCache

variable {V : Type} [CoinsView V]

/-- The coins a call returns and the cache it leaves. -/
def exec (c : CoinsViewCache V) : CoinOp V → List (Option Coin) × CoinsViewCache V
  | addCoin o coin possibleOverwrite => ([], c.addCoin o coin possibleOverwrite)
  | spendCoin o => ([(c.spendCoin o).1], (c.spendCoin o).2)
  | spendCoinKnown o => ([], c.spendCoinKnown o)
  | getCoin o => ([c.getCoin o], c)
  | flush base' order => ([], clearHistory { c with base := base' } order)

/-- The same call on a plain map. -/
def execMap (m : CoinMap) : CoinOp V → List (Option Coin) × CoinMap
  | addCoin o coin _ => ([], Function.update m o (some coin))
  | spendCoin o => ([m o], Function.update m o none)
  | spendCoinKnown o => ([], Function.update m o none)
  | getCoin o => ([m o], m)
  | flush _ _ => ([], m)

/-- What a caller owes: the flag of `add_coin` tells whether the coin may exist, a known coin
exists, and a flush succeeds. -/
def Allowed (c : CoinsViewCache V) : CoinOp V → Prop
  | addCoin o _ possibleOverwrite =>
    possibleOverwrite = false ↔ c.getCoin o = none ∧ CoinsView.getCoin c.base o = none
  | spendCoinKnown o => (c.getCoin o).isSome
  | flush base' _ => c.Absorbs base'
  | _ => True

/-- No coin is added at an outpoint that the base holds and the cache has no entry for. -/
def NotBlind (c : CoinsViewCache V) : CoinOp V → Prop
  | addCoin o _ _ => c.Uncached o
  | _ => True

/-- Every call of a run satisfies `P` in the cache it is made on. -/
def All (P : CoinsViewCache V → CoinOp V → Prop) : CoinsViewCache V → List (CoinOp V) → Prop
  | _, [] => True
  | c, op :: ops => P c op ∧ All P (op.exec c).2 ops

/-- The coins a run of calls returns. -/
def answers (c : CoinsViewCache V) : List (CoinOp V) → List (Option Coin)
  | [] => []
  | op :: ops => (op.exec c).1 ++ answers (op.exec c).2 ops

/-- The coins the same run returns on a plain map. -/
def answersMap (m : CoinMap) : List (CoinOp V) → List (Option Coin)
  | [] => []
  | op :: ops => (op.execMap m).1 ++ answersMap (op.execMap m).2 ops

/-- The cache shows the map and keeps its invariant. -/
structure Simulates (c : CoinsViewCache V) (m : CoinMap) : Prop where
  view : ∀ o, c.getCoin o = m o
  fresh : c.FreshInv
  clean : c.CleanInv

lemma simulates_new (base : V) (budget : Nat) :
    Simulates (new base budget) (CoinsView.getCoin base) where
  view o := by simp [CoinsViewCache.getCoin, new]
  fresh := freshInv_new base budget
  clean := cleanInv_new base budget

/-- A view that lost the coin at an outpoint shows the map without it. -/
lemma view_erase {c c' : CoinsViewCache V} {m : CoinMap} {o : OutPoint}
    (h : ∀ o, c.getCoin o = m o)
    (herase : ∀ o', c'.getCoin o' = if o' = o then none else c.getCoin o') (o' : OutPoint) :
    c'.getCoin o' = Function.update m o none o' := by
  rw [herase, Function.update_apply, h]

/-- One call keeps the simulation and gives the answer of the map. -/
lemma exec_simulates {c : CoinsViewCache V} {m : CoinMap} (h : Simulates c m) (op : CoinOp V)
    (hallowed : op.Allowed c) (hblind : op.NotBlind c) :
    (op.exec c).1 = (op.execMap m).1 ∧ Simulates (op.exec c).2 (op.execMap m).2 := by
  obtain ⟨hview, hfresh, hclean⟩ := h
  cases op with
  | addCoin o coin possibleOverwrite =>
    refine ⟨rfl, ?_, freshInv_addCoin hfresh hblind coin possibleOverwrite,
      cleanInv_addCoin hclean o coin possibleOverwrite⟩
    intro o'
    simp only [exec, execMap]
    rw [getCoin_addCoin, Function.update_apply, hview]
  | spendCoin o =>
    refine ⟨?_, ?_, freshInv_spendCoin hfresh o, cleanInv_spendCoin hfresh hclean o⟩
    · simp only [exec, execMap]
      rw [spendCoin_fst, hview]
    · exact view_erase hview (getCoin_spendCoin hfresh o)
  | spendCoinKnown o =>
    refine ⟨rfl, ?_, freshInv_spendCoinKnown hfresh o, cleanInv_spendCoinKnown hfresh hclean o⟩
    exact view_erase hview (getCoin_spendCoinKnown hfresh o)
  | getCoin o =>
    refine ⟨?_, hview, hfresh, hclean⟩
    simp only [exec, execMap]
    rw [hview]
  | flush base' order =>
    have habs : c.Absorbs base' := hallowed
    refine ⟨rfl, ?_, habs.freshInv_clearHistory order hfresh hclean,
      habs.cleanInv_clearHistory order hfresh hclean⟩
    intro o
    exact (habs.getCoin_clearHistory order hfresh hclean o).trans (hview o)

/-- A run gives the answers of the map, from any cache that simulates it. -/
lemma answers_eq_of_simulates {c : CoinsViewCache V} {m : CoinMap} (ops : List (CoinOp V))
    (h : Simulates c m) (hallowed : All Allowed c ops) (hblind : All NotBlind c ops) :
    answers c ops = answersMap m ops := by
  induction ops generalizing c m with
  | nil => rfl
  | cons op ops ih =>
    obtain ⟨hanswer, hnext⟩ := exec_simulates h op hallowed.1 hblind.1
    simp only [answers, answersMap]
    rw [hanswer, ih hnext hallowed.2 hblind.2]

/-- From a new cache, a run that adds no coin blindly returns the coins of the plain map that
starts as the base and undergoes the same insertions and deletions. -/
theorem answers_eq_answersMap (base : V) (budget : Nat) (ops : List (CoinOp V))
    (hallowed : All Allowed (new base budget) ops) (hblind : All NotBlind (new base budget) ops) :
    answers (new base budget) ops = answersMap (CoinsView.getCoin base) ops :=
  answers_eq_of_simulates ops (simulates_new base budget) hallowed hblind

/-! ### The flush of the store -/

/-- The calls of the storage actor in a flush are one successful flush of the cache. -/
lemma flush_eq_exec (bm : BlockManager) (c : CoinsViewCache Store)
    (coinOrder trimOrder : List OutPoint) (undoOrder : List BlockHash)
    (hsize : ScriptsWithinLimit c) :
    ∃ op : CoinOp Store, op.Allowed c ∧ op.NotBlind c ∧
      (Bitcrab.flush bm c coinOrder undoOrder trimOrder).2 = (op.exec c).2 := by
  refine ⟨.flush _ trimOrder, ?_, trivial, rfl⟩
  exact absorbs_handleUpdateUtxoSet bm coinOrder undoOrder hsize c.getBestBlock c.connectedBlocks

/-- The store after a flush of the sample cache. -/
def sampleFlushed : Store :=
  (sampleManager.handleUpdateUtxoSet sampleCache.base [] [] sampleCache.toUpdates
    sampleCache.getBestBlock sampleCache.connectedBlocks).2

/-- A coin of the store is spent, another one is created, flushed and spent. -/
def sampleRun : List (CoinOp Store) :=
  [.spendCoinKnown (sampleOutPoint 0), .addCoin (sampleOutPoint 2) sampleCoin false,
    .flush sampleFlushed [], .spendCoin (sampleOutPoint 2), .getCoin (sampleOutPoint 0)]

lemma sampleStore_getCoin_zero :
    CoinsView.getCoin sampleStore (sampleOutPoint 0) = some sampleCoin := by
  have h : sampleStore.getCoin (sampleOutPoint 0) = .ok (some sampleCoin) := by decide +kernel
  simp only [CoinsView.getCoin, h]

theorem answers_eq_answersMap_sampleRun :
    answers (new sampleStore 512) sampleRun = [some sampleCoin, none] := by
  have hspend : (new sampleStore 512).getCoin (sampleOutPoint 0) = some sampleCoin :=
    sampleStore_getCoin_zero
  have hview : ((new sampleStore 512).spendCoinKnown (sampleOutPoint 0)).getCoin
      (sampleOutPoint 2) = none := by
    rw [getCoin_spendCoinKnown (freshInv_new _ _), if_neg (by decide)]
    exact sampleStore_getCoin_two
  have hallowed : All Allowed (new sampleStore 512) sampleRun := by
    refine ⟨?_, ?_, ?_, trivial, trivial, trivial⟩
    · simp [Allowed, hspend]
    · simp only [Allowed, exec, hview, base_spendCoinKnown]
      simpa [new] using sampleStore_getCoin_two
    · exact absorbs_handleUpdateUtxoSet sampleManager [] [] sampleCache_scriptsWithinLimit _ _
  have hblind : All NotBlind (new sampleStore 512) sampleRun := by
    refine ⟨trivial, ?_, trivial, trivial, trivial, trivial⟩
    intro _
    simp only [exec, base_spendCoinKnown]
    exact sampleStore_getCoin_two
  rw [answers_eq_answersMap sampleStore 512 sampleRun hallowed hblind]
  simp only [sampleRun, answersMap, execMap]
  simp [sampleOutPoint]

/-- A coin added over an uncached coin of the base, then spent: the coin of the base is back. -/
theorem answers_ne_answersMap_overwrite :
    ¬ ∀ (V : Type) (_ : CoinsView V) (base : V) (budget : Nat) (ops : List (CoinOp V)),
      All Allowed (new base budget) ops →
      answers (new base budget) ops = answersMap (CoinsView.getCoin base) ops := by
  intro h
  have hbase := sampleStore_getCoin_zero
  have hview : (new sampleStore 512).getCoin (sampleOutPoint 0) = some sampleCoin := hbase
  have hrun := h Store inferInstance sampleStore 512
    [.addCoin (sampleOutPoint 0) sampleCoin true, .spendCoin (sampleOutPoint 0),
      .getCoin (sampleOutPoint 0)] (by simp [All, Allowed, hview])
  have hback : (((new sampleStore 512).addCoin (sampleOutPoint 0) sampleCoin true).spendCoin
      (sampleOutPoint 0)).2.getCoin (sampleOutPoint 0) = some sampleCoin := by
    -- the entry was added as a fresh one, so the spend removes it
    have hadd : ((new sampleStore 512).addCoin (sampleOutPoint 0) sampleCoin true).cache.lookup
        (sampleOutPoint 0) = some ⟨some sampleCoin, true, true⟩ := by
      rw [lookup_addCoin, if_pos rfl]
      rfl
    obtain ⟨hsame, -, -, hlookup⟩ := spendCoin_of_lookup hadd
    rw [getCoin_of_lookup_none ((hlookup _).trans (if_pos rfl)), hsame]
    exact hbase
  simp only [answers, exec, answersMap, execMap, hback] at hrun
  simp at hrun

end CoinOp

end Bitcrab
