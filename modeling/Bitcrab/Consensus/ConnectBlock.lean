import Bitcrab.Consensus.CacheWrites
import Bitcrab.Consensus.CheckBlock
import Bitcrab.Consensus.Flush

/-!
# What connecting a block does

A block is a list of writes to the UTXO set: the removals and additions of its transactions in
order, then the outputs of its coinbase. The validation loop applies them to its overlay, the commit
loop to the cache.
-/

namespace Bitcrab

open Result Writes CoinsViewCache

section Effects

variable [Sha2]

/-! ### The writes of a block -/

/-- The writes of a transaction other than the first. -/
def Transaction.writes (tx : Transaction) (height : BlockHeight) : List (OutPoint × Option Coin) :=
  removals tx.spends ++ additions (tx.created height false)

/-- The writes of the transactions after the first. -/
def restWrites (txs : List Transaction) (height : BlockHeight) : List (OutPoint × Option Coin) :=
  txs.flatMap fun tx => tx.writes height

/-- The writes of a block. -/
def blockWrites (block : Block) (height : BlockHeight) : List (OutPoint × Option Coin) :=
  restWrites block.rest height ++ additions (block.coinbase.created height true)

@[simp] lemma restWrites_nil (height : BlockHeight) : restWrites [] height = [] := rfl

@[simp] lemma restWrites_cons (tx : Transaction) (txs : List Transaction) (height : BlockHeight) :
    restWrites (tx :: txs) height = tx.writes height ++ restWrites txs height := rfl

lemma mem_outpoints_of_mem_additions {tx : Transaction} {height : BlockHeight} {isCoinbase : Bool}
    {w : OutPoint × Option Coin} (h : w ∈ additions (tx.created height isCoinbase)) :
    w.1 ∈ tx.outpoints := by
  rw [← map_fst_created tx height isCoinbase, ← map_fst_additions]
  exact List.mem_map_of_mem h

/-- A block adds coins at the outpoints of its transactions only. -/
lemma exists_mem_outpoints {block : Block} {height : BlockHeight} {w : OutPoint × Option Coin}
    (hne : block.transactions ≠ []) (hw : w ∈ blockWrites block height) (hsome : w.2.isSome) :
    ∃ tx ∈ block.transactions, w.1 ∈ tx.outpoints := by
  rw [blockWrites, List.mem_append] at hw
  rcases hw with hw | hw
  · obtain ⟨tx, htx, hw⟩ := List.mem_flatMap.mp hw
    refine ⟨tx, List.mem_of_mem_drop htx, ?_⟩
    rcases List.mem_append.mp hw with hw | hw
    · obtain ⟨o, -, rfl⟩ := List.mem_map.mp hw
      simp at hsome
    · exact mem_outpoints_of_mem_additions hw
  · refine ⟨block.coinbase, ?_, mem_outpoints_of_mem_additions hw⟩
    rw [transactions_eq hne]
    exact List.mem_cons_self

/-- After a transaction a coin was there before, or is one of its outputs. -/
lemma apply_writes_eq_some {height : BlockHeight} {m : CoinMap} {tx : Transaction} {o : OutPoint}
    {coin : Coin}
    (h : apply m (tx.writes height) o = some coin) : m o = some coin ∨ o ∈ tx.outpoints := by
  rcases apply_eq_some h with hold | hwrite
  · exact .inl hold
  · rcases List.mem_append.mp hwrite with hw | hw
    · simp [removals] at hw
    · exact .inr (mem_outpoints_of_mem_additions hw)

lemma apply_writes_eq_none {height : BlockHeight} {m : CoinMap} {tx : Transaction} {o : OutPoint}
    (hm : m o = none) (ho : o ∉ tx.outpoints) : apply m (tx.writes height) o = none := by
  by_contra hsome
  obtain ⟨coin, hcoin⟩ := Option.ne_none_iff_exists'.mp hsome
  rcases apply_writes_eq_some hcoin with hold | hown
  · rw [hm] at hold
    simp at hold
  · exact ho hown

/-! ### The commit -/

section Commit

variable {V : Type} [CoinsView V]

lemma foldl_zip_spends (height : BlockHeight) (txs : List Transaction) (c : CoinsViewCache V) :
    (txs.zip (txs.map Transaction.spends)).foldl (fun view (tx, txSpends) =>
        addOutputs (txSpends.foldl spendCoinKnown view) (tx.created height false)) c =
      c.writeAll (restWrites txs height) := by
  induction txs generalizing c with
  | nil => rfl
  | cons tx txs ih =>
    simp only [List.map_cons, List.zip_cons_cons, List.foldl_cons, restWrites_cons,
      Transaction.writes]
    rw [ih, writeAll_append, writeAll_append, writeAll_removals, writeAll_additions, addOutputs]

/-- The commit writes the block to the cache. -/
lemma commitBlock_eq_writeAll (block : Block) (height : BlockHeight) (c : CoinsViewCache V) :
    commitBlock block height (block.rest.map Transaction.spends) c =
      c.writeAll (blockWrites block height) := by
  rw [commitBlock, blockWrites, writeAll_append, writeAll_additions, foldl_zip_spends, addOutputs]

end Commit

/-! ### The validation loop -/

section Validate

variable {V : Type} [CoinsView V] (view : CoinsViewCache V) (height : BlockHeight)

/-- What the overlay shows on top of the view. -/
def overlayView (overlay : Overlay) : CoinMap :=
  CoinsView.getCoin (OverlayCoinsView.mk view overlay)

omit [Sha2] in
lemma overlayView_empty : overlayView view ∅ = view.getCoin := by
  funext o
  simp [overlayView, CoinsView.getCoin]

omit [Sha2] in
lemma overlayView_insert (overlay : Overlay) (o : OutPoint) (v : Option Coin) :
    overlayView view (overlay.insert o v) = Function.update (overlayView view overlay) o v := by
  funext o'
  simp only [overlayView, CoinsView.getCoin]
  by_cases h : o' = o
  · subst h
    simp
  · simp [AList.lookup_insert_ne h, Function.update_of_ne h]

omit [Sha2] in
/-- Insertions in the overlay are writes to what it shows. -/
lemma overlayView_foldl_insert (overlay : Overlay) (ws : List (OutPoint × Option Coin)) :
    overlayView view (ws.foldl (fun overlay w => overlay.insert w.1 w.2) overlay) =
      apply (overlayView view overlay) ws := by
  induction ws generalizing overlay with
  | nil => rfl
  | cons w ws ih => rw [List.foldl_cons, ih, overlayView_insert, apply_cons]

/-- The overlay with the coinbase outputs added. -/
def extendOverlay (overlay : Overlay) (created : List (OutPoint × Coin)) : Overlay :=
  created.foldl (fun overlay c => overlay.insert c.1 (some c.2)) overlay

omit [Sha2] in
lemma overlayView_extendOverlay (overlay : Overlay) (created : List (OutPoint × Coin)) :
    overlayView view (extendOverlay overlay created) =
      apply (overlayView view overlay) (additions created) := by
  rw [← overlayView_foldl_insert, additions, List.foldl_map]
  rfl

end Validate

/-! ### Values -/

/-- The value of a coin. -/
def Coin.value (c : Coin) : ℕ := c.output.value.toNat

/-- The value of a list of outputs. -/
def outputsValue (outputs : List TxOut) : ℕ := (outputs.map (·.value.toNat)).sum

/-- The value of a list of coins. -/
def coinsValue (coins : List Coin) : ℕ := (coins.map Coin.value).sum

omit [Sha2] in
lemma sumOutputs_eq_some {acc total : Amount} {outputs : List TxOut}
    (h : Transaction.sumOutputs acc outputs = some total) :
    total.toNat = acc.toNat + outputsValue outputs := by
  induction outputs generalizing acc with
  | nil =>
    obtain rfl := Option.some.inj h
    simp [outputsValue]
  | cons output outputs ih =>
    obtain ⟨acc', hacc, hrest⟩ := Option.bind_eq_some_iff.mp h
    have hsum := ((Amount.checkedAdd_eq_some_iff _ _ _).mp hacc).1
    rw [ih hrest, hsum, outputsValue, outputsValue, List.map_cons, List.sum_cons, Nat.add_assoc]

omit [Sha2] in
lemma outputValue_eq_some {tx : Transaction} {total : Amount} (h : tx.outputValue = some total) :
    total.toNat = outputsValue tx.outputs := by
  rw [sumOutputs_eq_some h, Amount.toNat_zero, Nat.zero_add]

/-- The coinbase claims no more than the subsidy and the fees, which are a valid amount. -/
def ClaimAllowed (block : Block) (height : BlockHeight) (params : ChainParams) (fees : ℕ) : Prop :=
  (blockSubsidy height params).toNat + fees ≤ maxMoney.toNat ∧
    outputsValue block.coinbase.outputs ≤ (blockSubsidy height params).toNat + fees

omit [Sha2] in
lemma checkCoinbaseValue_eq_ok_iff {block : Block} {height : BlockHeight} {params : ChainParams}
    {fees total : Amount} (htotal : block.coinbase.outputValue = some total) :
    checkCoinbaseValue block height params fees = .ok () ↔
      ClaimAllowed block height params fees.toNat := by
  have hvalue := outputValue_eq_some htotal
  simp only [checkCoinbaseValue, bind_eq_ok, throw_eq_error, pure_eq_ok, ite_error_eq_ok,
    okOr_eq_ok, htotal, Option.some.injEq, exists_eq_left', ClaimAllowed]
  have hgt : ∀ allowed : Amount, ¬ total.gt allowed = true ↔ total.toNat ≤ allowed.toNat := by
    intro allowed
    simp [Amount.gt, Amount.toNat, UInt64.le_iff_toNat_le]
  constructor
  · rintro ⟨allowed, hallowed, hle, -⟩
    obtain ⟨hsum, hmax⟩ := (Amount.checkedAdd_eq_some_iff _ _ _).mp hallowed
    refine ⟨hmax, ?_⟩
    rw [← hvalue, ← hsum]
    exact (hgt allowed).mp hle
  · rintro ⟨hmax, hle⟩
    obtain ⟨allowed, hallowed⟩ := Amount.exists_checkedAdd hmax
    have hsum := ((Amount.checkedAdd_eq_some_iff _ _ _).mp hallowed).1
    refine ⟨allowed, hallowed, (hgt allowed).mpr ?_, trivial⟩
    rw [hvalue, hsum]
    exact hle

omit [Sha2] in
/-- The input loop finds a coin for each input and sums their values. -/
lemma checkInputs_eq_ok {V : Type} [CoinsView V] {view : V} {height : BlockHeight}
    {total total' : Amount} {inputs : List TxIn} {coins : List Coin}
    (h : checkInputs view height total inputs = .ok (total', coins)) :
    List.Forall₂ (fun o c => CoinsView.getCoin view o = some c) (inputs.map (·.previousOutput))
      coins ∧ total'.toNat = total.toNat + coinsValue coins := by
  induction inputs generalizing total coins with
  | nil =>
    obtain ⟨rfl, rfl⟩ := Prod.mk.inj (Except.ok.inj h)
    simp [coinsValue]
  | cons input inputs ih =>
    simp only [checkInputs, bind_eq_ok, throw_eq_error, error_bind, pure_eq_ok, ite_error_eq_ok,
      okOr_eq_ok] at h
    obtain ⟨coin, hcoin, -, mid, hmid, ⟨total'', coins'⟩, hrest, hret⟩ := h
    obtain ⟨rfl, rfl⟩ := Prod.mk.inj (Except.ok.inj hret)
    obtain ⟨hall, hsum⟩ := ih hrest
    refine ⟨.cons hcoin hall, ?_⟩
    have hadd := ((Amount.checkedAdd_eq_some_iff _ _ _).mp hmid).1
    simp only [coinsValue, List.map_cons, List.sum_cons, Coin.value] at hsum ⊢
    omega

/-! ### Replaying a block -/

/-- What a transaction passes `contextual_check_transaction_metadata` with: the fee and the coins
spent. -/
inductive Checked (m : CoinMap) (tx : Transaction) : ℕ → List Coin → Prop
  | coinbase (h : tx.isCoinbase) : Checked m tx 0 []
  | regular {fee : ℕ} {coins : List Coin} (h : ¬ tx.isCoinbase)
      (hcoins : List.Forall₂ (fun o c => m o = some c) tx.spends coins)
      (hvalue : coinsValue coins = fee + outputsValue tx.outputs) : Checked m tx fee coins

omit [Sha2] in
lemma checked_of_eq_ok {V : Type} [CoinsView V] {view : V} {height : BlockHeight}
    {tx : Transaction} {fee : Amount} {coins : List Coin}
    (h : contextualCheckTransactionMetadata tx view height = .ok (fee, coins)) :
    Checked (CoinsView.getCoin view) tx fee.toNat coins := by
  unfold contextualCheckTransactionMetadata at h
  by_cases hcb : tx.isCoinbase
  · rw [if_pos hcb] at h
    obtain ⟨rfl, rfl⟩ := Prod.mk.inj (Except.ok.inj h)
    exact .coinbase hcb
  · rw [if_neg hcb] at h
    simp only [bind_eq_ok, throw_eq_error, error_bind, pure_eq_ok, ite_error_eq_ok,
      okOr_eq_ok] at h
    obtain ⟨⟨totalIn, coins'⟩, hin, totalOut, hout, -, fee', hfee, hret⟩ := h
    obtain ⟨rfl, rfl⟩ := Prod.mk.inj (Except.ok.inj hret)
    obtain ⟨hall, hsum⟩ := checkInputs_eq_ok hin
    have hsub := (Amount.checkedSub_eq_some_iff _ _ _).mp hfee
    have hval := outputValue_eq_some hout
    refine .regular hcb hall ?_
    rw [Amount.toNat_zero] at hsum
    dsimp only at hsum hsub ⊢
    omega

/-- Transactions replayed on a map, each checked on what the ones before leave: the sum of the fees
and the coins spent, in order. -/
inductive Replay (height : BlockHeight) : CoinMap → List Transaction → ℕ → List Coin → Prop
  | nil {m : CoinMap} : Replay height m [] 0 []
  | cons {m : CoinMap} {tx : Transaction} {txs : List Transaction} {fee fees : ℕ}
      {coins undo : List Coin} (hchecked : Checked m tx fee coins)
      (hrest : Replay height (apply m (tx.writes height)) txs fees undo) :
      Replay height m (tx :: txs) (fee + fees) (coins ++ undo)

omit [Sha2] in
lemma map_eq_map_some {m : CoinMap} {os : List OutPoint} {coins : List Coin}
    (h : List.Forall₂ (fun o c => m o = some c) os coins) : os.map m = coins.map some := by
  induction h with
  | nil => rfl
  | cons hc _ ih => rw [List.map_cons, List.map_cons, hc, ih]

omit [Sha2] in
lemma Checked.unique {m : CoinMap} {tx : Transaction} {fee fee' : ℕ} {coins coins' : List Coin}
    (h : Checked m tx fee coins) (h' : Checked m tx fee' coins') : fee = fee' ∧ coins = coins' := by
  cases h with
  | coinbase hcb =>
    cases h' with
    | coinbase _ => exact ⟨rfl, rfl⟩
    | regular hcb' _ _ => exact absurd hcb hcb'
  | regular hcb hcoins hvalue =>
    cases h' with
    | coinbase hcb' => exact absurd hcb' hcb
    | regular _ hcoins' hvalue' =>
      have hsome := (map_eq_map_some hcoins).symm.trans (map_eq_map_some hcoins')
      obtain rfl := List.map_injective_iff.mpr (Option.some_injective _) hsome
      exact ⟨by omega, rfl⟩

/-- The fees and the coins spent are determined by the map. -/
lemma Replay.unique {height : BlockHeight} {m : CoinMap} {txs : List Transaction} {fees fees' : ℕ}
    {undo undo' : List Coin} (h : Replay height m txs fees undo)
    (h' : Replay height m txs fees' undo') : fees = fees' ∧ undo = undo' := by
  induction h generalizing fees' undo' with
  | nil =>
    cases h'
    exact ⟨rfl, rfl⟩
  | cons hchecked hrest ih =>
    cases h' with
    | cons hchecked' hrest' =>
      obtain ⟨rfl, rfl⟩ := hchecked.unique hchecked'
      obtain ⟨rfl, rfl⟩ := ih hrest'
      exact ⟨rfl, rfl⟩

section ValidateAll

variable {V : Type} [CoinsView V] {view : CoinsViewCache V} {height : BlockHeight}
  {checkScripts : Bool}

/-- One round of the validation loop. -/
lemma validateTransaction_eq_ok {st st' : ConnectState} {tx : Transaction}
    (h : validateTransaction view height checkScripts st tx = .ok st') :
    ∃ fee coins, Checked (overlayView view st.overlay) tx fee coins ∧
      st'.totalFees.toNat = st.totalFees.toNat + fee ∧
      st'.blockUndo.spentCoins = st.blockUndo.spentCoins ++ coins ∧
      st'.validatedSpends = st.validatedSpends ++ [tx.spends] ∧
      overlayView view st'.overlay = apply (overlayView view st.overlay) (tx.writes height) := by
  simp only [validateTransaction, bind_eq_ok, pure_eq_ok, okOr_eq_ok] at h
  obtain ⟨⟨fee, coins⟩, hmeta, totalFees, hfees, hret⟩ := h
  obtain rfl := Except.ok.inj hret
  refine ⟨fee.toNat, coins, checked_of_eq_ok hmeta,
    ((Amount.checkedAdd_eq_some_iff _ _ _).mp hfees).1, rfl, rfl, ?_⟩
  rw [Transaction.writes, apply_append]
  -- the two insertion loops of the source are the two halves of the writes
  have hspent : tx.spends.foldl (fun overlay o => overlay.insert o none) st.overlay =
      (removals tx.spends).foldl (fun overlay w => overlay.insert w.1 w.2) st.overlay := by
    rw [removals, List.foldl_map]
  rw [← overlayView_foldl_insert view st.overlay, ← hspent]
  exact overlayView_extendOverlay view _ _

/-- The whole validation loop replays the transactions on what the overlay shows. -/
lemma foldlM_validateTransaction_eq_ok {st st' : ConnectState} {txs : List Transaction}
    (h : txs.foldlM (validateTransaction view height checkScripts) st = .ok st') :
    ∃ fees undo, Replay height (overlayView view st.overlay) txs fees undo ∧
      st'.totalFees.toNat = st.totalFees.toNat + fees ∧
      st'.blockUndo.spentCoins = st.blockUndo.spentCoins ++ undo ∧
      st'.validatedSpends = st.validatedSpends ++ txs.map Transaction.spends ∧
      overlayView view st'.overlay =
        apply (overlayView view st.overlay) (restWrites txs height) := by
  induction txs generalizing st with
  | nil =>
    obtain rfl := Except.ok.inj h
    exact ⟨0, [], .nil, by simp⟩
  | cons tx txs ih =>
    rw [List.foldlM_cons, bind_eq_ok] at h
    obtain ⟨mid, htx, hrest⟩ := h
    obtain ⟨fee, coins, hchecked, hfee, hundo, hspends, hview⟩ := validateTransaction_eq_ok htx
    obtain ⟨fees, undo, hreplay, hfees, hundos, hspendss, hviews⟩ := ih hrest
    rw [hview] at hreplay hviews
    refine ⟨fee + fees, coins ++ undo, .cons hchecked hreplay, ?_, ?_, ?_, ?_⟩
    · omega
    · rw [hundos, hundo, List.append_assoc]
    · rw [hspendss, hspends, List.map_cons, List.append_assoc, List.singleton_append]
    · rw [hviews, restWrites_cons, apply_append]

end ValidateAll

/-! ### The whole call -/

section Connect

variable [ScriptVerifier] {V : Type} [CoinsView V] {block : Block} {height : BlockHeight}
  {indexPrev : BlockIndex} {view view' : CoinsViewCache V} {params : ChainParams}
  {provider : BlockIndexProvider} {checkScripts : Bool} {engine : ConsensusEngine}
  {completion : List Nat}

/-- What a block that reaches the commit has passed. -/
structure Validated (block : Block) (height : BlockHeight) (indexPrev : BlockIndex)
    (view : CoinsViewCache V) (params : ChainParams) (provider : BlockIndexProvider)
    (st : ConnectState) : Prop where
  check : checkBlock block params = .ok ()
  header : checkBlockHeader block.header indexPrev params provider = .ok ()
  commitment : params.consensus.segwitHeight ≤ height → checkWitnessCommitment block = .ok ()
  replay : Replay height view.getCoin block.rest st.totalFees.toNat st.blockUndo.spentCoins
  spends : st.validatedSpends = block.rest.map Transaction.spends
  overlay : overlayView view st.overlay = apply view.getCoin (restWrites block.rest height)

lemma validated_of_eq_ok {st : ConnectState}
    (h : validateBlock block height indexPrev view params provider checkScripts engine
      completion = .ok st) :
    Validated block height indexPrev view params provider st := by
  simp only [validateBlock, ite_seq_eq_ok, bind_eq_ok, pure_eq_ok] at h
  obtain ⟨_, hcheck, _, hheader, -, hcommitment, st', hloop, _, -, hret⟩ := h
  obtain rfl := Except.ok.inj hret
  obtain ⟨fees, undo, hreplay, hfees, hundo, hspends, hview⟩ :=
    foldlM_validateTransaction_eq_ok hloop
  have hstart : overlayView view ConnectState.start.overlay = view.getCoin := overlayView_empty view
  rw [hstart] at hreplay hview
  refine ⟨hcheck, hheader, hcommitment, ?_, ?_, hview⟩
  · rw [hfees, hundo]
    simpa [ConnectState.start] using hreplay
  · rw [hspends]
    rfl

/-- The check of the coinbase value on a validated block. -/
lemma Validated.checkCoinbaseValue_iff {st : ConnectState}
    (h : Validated block height indexPrev view params provider st) :
    checkCoinbaseValue block height params st.totalFees = .ok () ↔
      ClaimAllowed block height params st.totalFees.toNat := by
  have hform := wellFormedBlock_of_checkBlock h.check
  have hmem : block.coinbase ∈ block.transactions := by
    rw [transactions_eq hform.ne_nil]
    exact List.mem_cons_self
  obtain ⟨total, htotal⟩ := (hform.transactions _ hmem).value
  exact checkCoinbaseValue_eq_ok_iff htotal

/-- A block that is connected was validated, its coinbase claims no more than it may, and the view
is left with its writes and as the best block. -/
lemma connectBlock_eq_ok {fees : Amount} {undo : BlockUndo}
    (h : connectBlock block height indexPrev view params provider checkScripts engine completion =
      (.ok (fees, undo), view')) :
    ∃ st, validateBlock block height indexPrev view params provider checkScripts engine
        completion = .ok st ∧
      Validated block height indexPrev view params provider st ∧
      checkCoinbaseValue block height params fees = .ok () ∧
      st.totalFees = fees ∧ st.blockUndo = undo ∧
      view' = (view.writeAll (blockWrites block height)).setBestBlock block.header.blockHash
        height := by
  unfold connectBlock at h
  cases hval : validateBlock block height indexPrev view params provider checkScripts engine
      completion with
  | error e => simp [hval] at h
  | ok st =>
    have hvalid := validated_of_eq_ok hval
    simp only [hval, hvalid.spends, commitBlock_eq_writeAll] at h
    cases hcb : checkCoinbaseValue block height params st.totalFees with
    | error e => simp [hcb] at h
    | ok _ =>
      simp only [hcb, Prod.mk.injEq, Except.ok.injEq] at h
      obtain ⟨⟨rfl, rfl⟩, rfl⟩ := h
      exact ⟨st, rfl, hvalid, hcb, rfl, rfl, rfl⟩

/-- A block that is not connected leaves the view alone, or fails at the limit on its coinbase with
its writes already made. -/
lemma connectBlock_eq_error {e : ValidationError}
    (h : connectBlock block height indexPrev view params provider checkScripts engine completion =
      (.error e, view')) :
    validateBlock block height indexPrev view params provider checkScripts engine
        completion = .error e ∧ view' = view ∨
      ∃ st, validateBlock block height indexPrev view params provider checkScripts engine
          completion = .ok st ∧
        checkCoinbaseValue block height params st.totalFees = .error e ∧
        view' = view.writeAll (blockWrites block height) := by
  unfold connectBlock at h
  cases hval : validateBlock block height indexPrev view params provider checkScripts engine
      completion with
  | error e' =>
    simp only [hval, Prod.mk.injEq, Except.error.injEq] at h
    obtain ⟨rfl, rfl⟩ := h
    exact .inl ⟨rfl, rfl⟩
  | ok st =>
    have hvalid := validated_of_eq_ok hval
    simp only [hval, hvalid.spends, commitBlock_eq_writeAll] at h
    cases hcb : checkCoinbaseValue block height params st.totalFees with
    | error e' =>
      simp only [hcb, Prod.mk.injEq, Except.error.injEq] at h
      obtain ⟨rfl, rfl⟩ := h
      exact .inr ⟨st, rfl, hcb, rfl⟩
    | ok _ => simp [hcb] at h

/-- A validated block that fails at the limit on its coinbase has made its writes. -/
lemma connectBlock_of_checkCoinbaseValue_error {st : ConnectState} {e : ValidationError}
    (hval : validateBlock block height indexPrev view params provider checkScripts engine
      completion = .ok st) (hcb : checkCoinbaseValue block height params st.totalFees = .error e) :
    connectBlock block height indexPrev view params provider checkScripts engine completion =
      (.error e, view.writeAll (blockWrites block height)) := by
  simp only [connectBlock, hval, hcb, (validated_of_eq_ok hval).spends, commitBlock_eq_writeAll]

/-- The view contains none of the outpoints the block creates. -/
def CreatesNew (view : CoinsViewCache V) (block : Block) : Prop :=
  ∀ tx ∈ block.transactions, ∀ o ∈ tx.outpoints, view.getCoin o = none

omit [ScriptVerifier] in
lemma CreatesNew.createsUncached (hnew : CreatesNew view block) (hne : block.transactions ≠ [])
    (height : BlockHeight) : view.CreatesUncached (blockWrites block height) := by
  intro w hw hsome
  obtain ⟨tx, htx, ho⟩ := exists_mem_outpoints hne hw hsome
  exact uncached_of_getCoin_eq_none (hnew tx htx w.1 ho)

/-- With the invariant, a connected block has made its writes to the view. -/
lemma getCoin_connectBlock (hfresh : view.FreshInv) (hnew : CreatesNew view block) {fees : Amount}
    {undo : BlockUndo}
    (h : connectBlock block height indexPrev view params provider checkScripts engine completion =
      (.ok (fees, undo), view')) (o : OutPoint) :
    view'.getCoin o = apply view.getCoin (blockWrites block height) o := by
  obtain ⟨st, -, hvalid, -, -, -, rfl⟩ := connectBlock_eq_ok h
  have hne := (wellFormedBlock_of_checkBlock hvalid.check).ne_nil
  exact getCoin_writeAll hfresh (hnew.createsUncached hne height) o

/-- After a block is connected, the cache shows what the final overlay shows on top of the old
view, extended with the coinbase outputs. -/
theorem getCoin_connectBlock_eq_overlay (hfresh : view.FreshInv) (hnew : CreatesNew view block)
    {fees : Amount} {undo : BlockUndo}
    (h : connectBlock block height indexPrev view params provider checkScripts engine completion =
      (.ok (fees, undo), view')) :
    ∃ st, validateBlock block height indexPrev view params provider checkScripts engine
        completion = .ok st ∧
      ∀ o, view'.getCoin o = CoinsView.getCoin
        (OverlayCoinsView.mk view
          (extendOverlay st.overlay (block.coinbase.created height true))) o := by
  obtain ⟨st, hval, hvalid, -⟩ := connectBlock_eq_ok h
  refine ⟨st, hval, ?_⟩
  intro o
  have hext := overlayView_extendOverlay view st.overlay (block.coinbase.created height true)
  rw [hvalid.overlay, ← apply_append] at hext
  exact (getCoin_connectBlock hfresh hnew h o).trans (congrFun hext o).symm

end Connect

end Effects

/-! ### A block with a chain of two spends -/

namespace Sample

/-- An interpreter for blocks whose scripts are not checked. -/
scoped instance scriptVerifier : ScriptVerifier := ⟨fun _ _ _ _ _ _ _ => .ok (), none⟩

/-- A hash given by its bytes. -/
def digest {k : HashKind} (bytes : List UInt8) : Digest k := ⟨toBytes32 bytes⟩

/-- The hash of the regtest genesis block. -/
def genesisHash : BlockHash :=
  digest [0x06, 0x22, 0x6e, 0x46, 0x11, 0x1a, 0x0b, 0x59, 0xca, 0xaf, 0x12, 0x60, 0x43, 0xeb, 0x5b,
    0xbf, 0x28, 0xc3, 0x4f, 0x3a, 0x5e, 0x33, 0x2a, 0x1f, 0xc7, 0xb2, 0xb7, 0x3c, 0xf1, 0x88, 0x91,
    0x0f]

/-- The index of the regtest genesis block. -/
def genesisIndex : BlockIndex :=
  ⟨Genesis.regtest.build.header, 0, calculateBlockWork 0x207fffff, none, none⟩

/-- A coinbase that claims an amount. -/
def coinbaseTx (claim : UInt64) : Transaction where
  version := 1
  inputs := [⟨OutPoint.coinbase, ⟨[0x51, 0x51]⟩, 0xffffffff, []⟩]
  outputs := [⟨⟨claim⟩, ⟨[]⟩⟩]
  lockTime := 0

/-- A transaction with one input and one output. -/
def payment (from_ : OutPoint) (amount : UInt64) : Transaction where
  version := 1
  inputs := [⟨from_, ⟨[]⟩, 0, []⟩]
  outputs := [⟨⟨amount⟩, ⟨[]⟩⟩]
  lockTime := 0

/-- The txid of the first payment. -/
def firstTxid : Txid :=
  digest [0x5b, 0xc7, 0x89, 0x1c, 0x6b, 0x0b, 0xef, 0x02, 0x3b, 0x8a, 0x42, 0x22, 0x30, 0x80, 0x54,
    0x21, 0xd8, 0xb9, 0x58, 0x93, 0x6e, 0xe5, 0x9b, 0xeb, 0xa7, 0xe1, 0xae, 0x16, 0xa0, 0xb7, 0x82,
    0x8e]

/-- A header after the genesis block. -/
def header (merkleRoot : List UInt8) (nonce : UInt32) : BlockHeader where
  version := 1
  prevHash := genesisHash
  merkleRoot := digest merkleRoot
  time := 1296688603
  bits := 0x207fffff
  nonce := nonce

/-- A block that spends a coin of the store and, in the same block, the coin this creates. -/
def block : Block where
  header := header [0xbd, 0xd0, 0x5d, 0x68, 0x3a, 0x34, 0x32, 0x4c, 0x75, 0x12, 0xd0, 0xb0, 0x8e,
    0xa2, 0x5b, 0x3f, 0xe1, 0xfe, 0xb1, 0xf4, 0xa2, 0x85, 0x00, 0xb9, 0x46, 0xc0, 0xce, 0x2f, 0x6b,
    0x76, 0xf1, 0xee] 0
  transactions :=
    [coinbaseTx 5000000300, payment (sampleOutPoint 0) 4999999900,
      payment ⟨firstTxid, 0⟩ 4999999700]

/-- An empty cache over the sample store. -/
def view : CoinsViewCache Store := CoinsViewCache.new sampleStore 512

/-- `connect_block` at height 2, without script checks. -/
def connect (block : Block) (params : ChainParams) :
    Except ValidationError (Amount × BlockUndo) × CoinsViewCache Store :=
  connectBlock block 2 genesisIndex view params (fun _ => none) false (.new .native) []

set_option maxRecDepth 100000 in
/-- The block connects, its outputs are new to the store, and its transactions are distinct. -/
lemma connects_block :
    (connect block regtestParams).1 =
        .ok (⟨300⟩, ⟨[sampleCoin, ⟨⟨⟨4999999900⟩, ⟨[]⟩⟩, 2, false⟩]⟩) ∧
      (∀ tx ∈ block.transactions, ∀ o ∈ tx.outpoints, sampleStore.getCoin o = .ok none) ∧
      (block.transactions.map Transaction.txid).Nodup := by
  decide +kernel

lemma connect_block :
    connect block regtestParams = (.ok (⟨300⟩, ⟨[sampleCoin, ⟨⟨⟨4999999900⟩, ⟨[]⟩⟩, 2, false⟩]⟩),
      (connect block regtestParams).2) := by
  rw [← connects_block.1]

lemma createsNew_of_getCoin {block : Block}
    (h : ∀ tx ∈ block.transactions, ∀ o ∈ tx.outpoints, sampleStore.getCoin o = .ok none) :
    CreatesNew view block := by
  intro tx htx o ho
  rw [view, getCoin_of_lookup_none (by simp [CoinsViewCache.new])]
  simp only [CoinsView.getCoin, CoinsViewCache.new, h tx htx o ho]

lemma createsNew_block : CreatesNew view block := createsNew_of_getCoin connects_block.2.1

lemma nodup_txids_block : (block.transactions.map Transaction.txid).Nodup := connects_block.2.2

theorem getCoin_connectBlock_eq_overlay_block :
    ∃ st, validateBlock block 2 genesisIndex view regtestParams (fun _ => none) false
        (.new .native) [] = .ok st ∧
      ∀ o, (connect block regtestParams).2.getCoin o = CoinsView.getCoin
        (OverlayCoinsView.mk view (extendOverlay st.overlay (block.coinbase.created 2 true))) o :=
  getCoin_connectBlock_eq_overlay (freshInv_new _ _) createsNew_block connect_block

end Sample

end Bitcrab
