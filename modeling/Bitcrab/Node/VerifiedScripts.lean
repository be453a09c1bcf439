import Bitcrab.Consensus.NativeEngine
import Bitcrab.Node.AssumeValid
import Bitcrab.Node.Ledger
import Bitcrab.Node.StoreSteps
import Bitcrab.Script.MultisigOutputs

/-!
# The scripts of the connected chain

Above the height of the assumed block the node connects no block whose scripts it has not run. Each
transaction is verified with the coins that the ledger held before it, whatever the order in which
the verification tasks end.
-/

namespace Bitcrab

open Result Writes CoinsViewCache

/-! ### One block -/

section Block

variable [Sha2] [ScriptVerifier]

/-- Each transaction is accepted by the engine with the coins it spends. -/
def ScriptsVerified (engine : ConsensusEngine) (height : BlockHeight) (m : CoinMap)
    (txs : List Transaction) : Prop :=
  ∀ k tx, txs[k]? = some tx → ∃ fee coins, Checked (mapBefore height m txs k) tx fee coins ∧
    engine.verifyTransaction tx coins = .ok ()

variable {V : Type} [CoinsView V] {view : CoinsViewCache V} {height : BlockHeight}

omit [ScriptVerifier] in
/-- A round of the validation loop hands the transaction and its coins to the script checks. -/
lemma verificationSet_of_validateTransaction {st st' : ConnectState} {tx : Transaction}
    (h : validateTransaction view height true st tx = .ok st') :
    ∃ fee coins, Checked (overlayView view st.overlay) tx fee coins ∧
      st'.verificationSet = st.verificationSet ++ [(tx, coins)] := by
  simp only [validateTransaction, bind_eq_ok, pure_eq_ok, okOr_eq_ok] at h
  obtain ⟨⟨fee, coins⟩, hmeta, totalFees, -, hret⟩ := h
  obtain rfl := Except.ok.inj hret
  exact ⟨fee.toNat, coins, checked_of_eq_ok hmeta, rfl⟩

omit [ScriptVerifier] in
/-- The loop collects every transaction, with the coins it spends on what the ones before leave. -/
lemma verificationSet_of_foldlM {st st' : ConnectState} {txs : List Transaction}
    (h : txs.foldlM (validateTransaction view height true) st = .ok st') :
    st.verificationSet ⊆ st'.verificationSet ∧
      ∀ k tx, txs[k]? = some tx →
        ∃ fee coins, Checked (mapBefore height (overlayView view st.overlay) txs k) tx fee coins ∧
          (tx, coins) ∈ st'.verificationSet := by
  induction txs generalizing st with
  | nil =>
    obtain rfl := Except.ok.inj h
    exact ⟨List.Subset.refl _, fun k tx hk => by simp at hk⟩
  | cons first txs ih =>
    rw [List.foldlM_cons, bind_eq_ok] at h
    obtain ⟨mid, hfirst, hrest⟩ := h
    obtain ⟨hsub, htail⟩ := ih hrest
    obtain ⟨_, _, -, -, -, -, hview⟩ := validateTransaction_eq_ok hfirst
    obtain ⟨fee, coins, hchecked, hset⟩ := verificationSet_of_validateTransaction hfirst
    rw [hset] at hsub
    refine ⟨fun task htask => hsub (List.mem_append_left _ htask), ?_⟩
    intro k tx hk
    cases k with
    | zero =>
      cases hk
      exact ⟨fee, coins, hchecked, hsub (List.mem_append_right _ List.mem_cons_self)⟩
    | succ k =>
      obtain ⟨fee', coins', hchecked', hmem⟩ := htail k tx (by simpa using hk)
      refine ⟨fee', coins', ?_, hmem⟩
      rw [mapBefore, List.take_succ_cons, restWrites_cons, apply_append, ← hview]
      exact hchecked'

omit [Sha2] in
/-- In whatever order the tasks end, all of them succeed. -/
lemma verifyTransaction_of_joinAll {engine : ConsensusEngine} {completion : List Nat}
    {tasks : List (Transaction × List Coin)} (h : joinAll engine completion tasks = .ok ())
    {task : Transaction × List Coin} (htask : task ∈ tasks) :
    engine.verifyTransaction task.1 task.2 = .ok () :=
  forM_eq_ok.mp h task (List.mem_append_right _ htask)

/-- A block that is validated with script checks has verified scripts. -/
lemma scriptsVerified_of_validateBlock {block : Block} {indexPrev : BlockIndex}
    {params : ChainParams} {provider : BlockIndexProvider} {engine : ConsensusEngine}
    {completion : List Nat} {st : ConnectState}
    (h : validateBlock block height indexPrev view params provider true engine completion =
      .ok st) : ScriptsVerified engine height view.getCoin block.rest := by
  simp only [validateBlock, ite_seq_eq_ok, bind_eq_ok, pure_eq_ok] at h
  obtain ⟨_, -, _, -, -, -, st', hloop, _, hjoin, hret⟩ := h
  intro k tx hk
  obtain ⟨fee, coins, hchecked, hmem⟩ := (verificationSet_of_foldlM hloop).2 k tx hk
  have hstart : overlayView view ConnectState.start.overlay = view.getCoin := overlayView_empty view
  rw [hstart] at hchecked
  exact ⟨fee, coins, hchecked, verifyTransaction_of_joinAll hjoin hmem⟩

end Block

/-! ### Runs -/

section Runs

variable [Sha2] [ScriptVerifier] {cfg : Config} {s s' : System} {e : Event}

/-- The assumed block is indexed, at this height or above. -/
def Store.AssumesHeight (cfg : Config) (store : Store) (height : ℕ) : Prop :=
  ∃ assumed, store.HasHeight cfg.params.consensus.defaultAssumeValid assumed ∧
    height ≤ assumed.toNat

/-- The activation of a phase. -/
def Phase.activation : Phase → Option Activation
  | .repairing _ | .idle => none
  | .activating a | .connecting a _ _ | .storingUndo a _ _ _ | .flushing a => some a

/-- The scripts of the connected blocks are verified above the height of the assumed block, and each
activation knows this height from the index. -/
structure ScriptsInv (cfg : Config) (s : System) : Prop where
  verified : ∀ i block, s.history.connected[i]? = some block →
    ScriptsVerified cfg.engine (nextHeight (s.history.connected.take i))
      (utxoSet (s.history.connected.take i)) block.rest ∨ s.node.store.AssumesHeight cfg (i + 1)
  assumed : ∀ a height, s.node.phase.activation = some a → a.assumeValidHeight = some height →
    s.node.store.HasHeight cfg.params.consensus.defaultAssumeValid height

omit [Sha2] [ScriptVerifier] in
lemma Store.AssumesHeight.mono {store store' : Store} {height : ℕ}
    (h : store.AssumesHeight cfg height) (hgrows : store.Grows store') :
    store'.AssumesHeight cfg height := by
  obtain ⟨assumed, hheight, hle⟩ := h
  exact ⟨assumed, hgrows.height _ _ hheight, hle⟩

omit [Sha2] [ScriptVerifier] in
/-- The height of the assumed block is read from the index. -/
lemma hasHeight_of_assumeValidHeight {n : Node} {height : UInt32}
    (h : n.assumeValidHeight cfg = .ok (some height)) :
    n.store.HasHeight cfg.params.consensus.defaultAssumeValid height := by
  unfold Node.assumeValidHeight at h
  dsimp only at h
  split_ifs at h
  · cases h
  · cases hindex : n.store.getBlockIndex cfg.params.consensus.defaultAssumeValid with
    | error e =>
      rw [hindex] at h
      cases h
    | ok index =>
      rw [hindex] at h
      cases index with
      | none => cases h
      | some index =>
        cases h
        exact ⟨index, hindex, rfl⟩

/-- An activation goes on from the one before the step, or has read the index in this step. -/
lemma activation_cases (hstep : s.step cfg e = some s') {a : Activation}
    (ha : s'.node.phase.activation = some a) :
    (∃ a', s.node.phase.activation = some a' ∧ a.assumeValidHeight = a'.assumeValidHeight) ∨
      s'.node.store = s.node.store ∧ s.node.assumeValidHeight cfg = .ok a.assumeValidHeight := by
  obtain ⟨n', hnode, rfl⟩ := step_eq_some hstep
  dsimp only at ha ⊢
  -- the steps of other tasks leave the phase alone
  have hsame : n'.phase = s.node.phase → (∃ a', s.node.phase.activation = some a' ∧
      a.assumeValidHeight = a'.assumeValidHeight) ∨ n'.store = s.node.store ∧
        s.node.assumeValidHeight cfg = .ok a.assumeValidHeight := by
    intro hphase
    rw [hphase] at ha
    exact .inl ⟨a, ha, rfl⟩
  cases e with
  | recvHeaders headers =>
    obtain rfl := Node.step_recvHeaders hnode
    exact hsame rfl
  | acceptHeader =>
    obtain ⟨headers, rfl⟩ := Node.step_acceptHeader hnode
    exact hsame rfl
  | storeHeaders =>
    obtain rfl | ⟨batch, -, rfl⟩ := Node.step_storeHeaders hnode
    · exact hsame rfl
    · exact hsame rfl
  | recvBlock block =>
    obtain rfl := Option.some.inj hnode
    obtain ⟨storeQueue, downloaded, heq⟩ := Node.recvBlock_eq cfg s.node block
    exact hsame (by rw [heq])
  | storeBlocks count =>
    obtain ⟨blockManager, store, storeQueue, downloaded, rfl⟩ := Node.step_storeBlocks hnode
    exact hsame rfl
  | blockDownloaded i =>
    obtain ⟨downloaded, waitingBlocks, rfl⟩ := Node.step_blockDownloaded hnode
    exact hsame rfl
  | activate =>
    obtain ⟨-, rfl | ⟨a', hbegin, rfl⟩⟩ := Node.step_activate hnode
    · exact hsame rfl
    · cases ha
      simp only [Node.beginActivation, bind_eq_ok] at hbegin
      obtain ⟨height, hheight, index, -, hret⟩ := hbegin
      cases index with
      | none => cases hret
      | some index =>
        cases hret
        exact .inr ⟨rfl, hheight⟩
  | selectBlock recentlyFailed =>
    obtain ⟨a', hphase, hselect⟩ := Node.step_selectBlock hnode
    obtain ⟨waitingBlocks, phase, rfl, -, hcases⟩ := selectBlock_eq_some hselect
    rcases hcases with rfl | ⟨hash, block, rfl, -⟩
    · cases ha
    · cases ha
      exact .inl ⟨a, by rw [hphase, Phase.activation], rfl⟩
  | connect completion =>
    obtain ⟨a', hash, block, hphase, rfl⟩ := Node.step_connect hnode
    unfold Node.connect at ha
    split at ha
    · cases ha
      exact .inl ⟨a, by rw [hphase, Phase.activation], rfl⟩
    · cases ha
  | storeUndo =>
    obtain ⟨a', hash, block, undo, hphase, rfl⟩ := Node.step_storeUndo hnode
    refine .inl ⟨a', by rw [hphase, Phase.activation], ?_⟩
    unfold Node.storeUndo at ha
    split at ha
    · cases ha
    · dsimp only at ha
      split_ifs at ha <;> cases ha <;> rfl
  | flush coinOrder undoOrder trimOrder =>
    obtain ⟨a', hphase, rfl⟩ := Node.step_flush hnode
    cases ha
    exact .inl ⟨a, by rw [hphase, Phase.activation], rfl⟩
  | repairTip =>
    obtain ⟨-, rfl⟩ | ⟨tip, tips, -, rfl⟩ := Node.step_repairTip hnode
    · cases ha
    · cases ha
  | loadGenesis =>
    simp only [Node.step] at hnode
    split at hnode
    · obtain rfl := Option.some.inj hnode
      refine hsame ?_
      unfold Node.loadGenesisBlock
      dsimp only
      split <;> rfl
    · cases hnode
  | crash =>
    obtain rfl := Node.step_crash hnode
    cases ha

/-- A block connected with script checks has verified scripts; the checks are skipped only up to the
height of the assumed block. -/
lemma ScriptsInv.connect (hinv : ScriptsInv cfg s) (hnode : NodeInv cfg s) (hcoins : CoinsInv s)
    (hscripts : cfg.scriptChecks = true) {a : Activation} {hash : BlockHash} {block : Block}
    {completion : List Nat} {r : Amount × BlockUndo}
    (hphase : s.node.phase = .connecting a hash block)
    (hcall : (s.node.connectCall cfg a block completion).1 = .ok r) :
    ScriptsVerified cfg.engine (nextHeight s.history.connected) (utxoSet s.history.connected)
      block.rest ∨ s.node.store.AssumesHeight cfg (s.history.connected.length + 1) := by
  have hnext := hnode.chain.phase
  rw [PhaseInv, hphase] at hnext
  have hheight : a.currentTip.height + 1 = nextHeight s.history.connected := by
    rw [hnext.1, succ_ofNat, nextHeight]
  have hmap : s.node.cacheView.getCoin = utxoSet s.history.connected := funext hcoins.view
  rcases hresult : s.node.connectCall cfg a block completion with ⟨result, view⟩
  rw [hresult] at hcall
  obtain rfl : result = .ok r := hcall
  obtain ⟨fees, undo⟩ := r
  obtain ⟨st, hval, -⟩ := connectBlock_eq_ok hresult
  cases hchecks : a.checkScripts cfg with
  | true =>
    unfold Activation.checkScripts at hchecks
    rw [hchecks, hheight] at hval
    have hverified := scriptsVerified_of_validateBlock hval
    rw [hmap] at hverified
    exact .inl hverified
  | false =>
    obtain ⟨assumed, hassumed, hle⟩ := Activation.checkScripts_eq_false hscripts hchecks
    refine .inr ⟨assumed, hinv.assumed a assumed (by rw [hphase, Phase.activation]) hassumed, ?_⟩
    rw [hheight, UInt32.le_iff_toNat_le] at hle
    rwa [nextHeight, UInt32.toNat_ofNat_of_lt' hnext.2.1] at hle

/-- Every sound step keeps it. -/
lemma ScriptsInv.step (hinv : ScriptsInv cfg s) (hnode : NodeInv cfg s) (hcoins : CoinsInv s)
    (hscripts : cfg.scriptChecks = true) (hstep : s.step cfg e = some s') : ScriptsInv cfg s' := by
  have hgrows := (hnode.storeStep hstep).grows hnode.index
  refine ⟨?_, ?_⟩
  · intro i block hi
    rcases connected_cases hstep with hsame | htake | ⟨a, hash, last, completion, r, hphase, hcall,
      hconnect⟩
    · rw [hsame] at hi ⊢
      exact (hinv.verified i block hi).imp_right fun h => h.mono hgrows
    · rw [htake] at hi ⊢
      have hlt : i < s.history.flushed := by
        have hlen := (List.getElem?_eq_some_iff.mp hi).1
        rw [List.length_take] at hlen
        omega
      rw [List.getElem?_take_of_lt hlt] at hi
      rw [List.take_take, Nat.min_eq_left hlt.le]
      exact (hinv.verified i block hi).imp_right fun h => h.mono hgrows
    · rw [hconnect] at hi ⊢
      by_cases hlt : i < s.history.connected.length
      · rw [List.getElem?_append_left hlt] at hi
        rw [List.take_append_of_le_length hlt.le]
        exact (hinv.verified i block hi).imp_right fun h => h.mono hgrows
      · have hbound := (List.getElem?_eq_some_iff.mp hi).1
        obtain rfl : i = s.history.connected.length := by
          rw [List.length_append, List.length_singleton] at hbound
          omega
        rw [List.getElem?_concat_length, Option.some.injEq] at hi
        subst hi
        rw [List.take_left]
        exact (hinv.connect hnode hcoins hscripts hphase hcall).imp_right fun h => h.mono hgrows
  · intro a height ha hheight
    rcases activation_cases hstep ha with ⟨a', ha', hsame⟩ | ⟨-, hread⟩
    · exact hgrows.height _ _ (hinv.assumed a' height ha' (hsame ▸ hheight))
    · rw [hheight] at hread
      exact hgrows.height _ _ (hasHeight_of_assumeValidHeight hread)

lemma scriptsInv_init (cfg : Config) : ScriptsInv cfg (System.init cfg) where
  verified i block hi := by cases hi
  assumed a height ha := by
    have hphase : (System.init cfg).node.phase = .idle := by
      unfold System.init Node.init Node.loadGenesisBlock
      dsimp only
      split <;> rfl
    rw [hphase] at ha
    cases ha

/-- In every run with script checks, each connected block has verified scripts, unless the assumed
block is indexed at its height or above. -/
lemma scriptsInv_of_reachable (hscripts : cfg.scriptChecks = true)
    (hrun : Reachable (System.step cfg) (SoundStep cfg) (System.init cfg) s) :
    ScriptsInv cfg s := by
  refine hrun.invariant_of_reachable (ScriptsInv cfg) (scriptsInv_init cfg) ?_
  intro s e s' hreach hverified hstep _
  have hledger := ledgerInv_of_reachable hreach
  exact hverified.step hledger.node hledger.coins hscripts hstep

end Runs

/-! ### The native engine -/

section Native

variable [Sha2] [LegacyHash] [Secp256k1] {cfg : Config} {s : System}

attribute [local instance] nativeVerifier

/-- The native engine verifies no transaction in coinbase form, and every input of the others. -/
lemma inputs_of_verifyTransaction {engine : ConsensusEngine} (hnative : engine.kind = .native)
    {m : CoinMap} {tx : Transaction} {fee : ℕ} {coins : List Coin}
    (hchecked : Checked m tx fee coins) (h : engine.verifyTransaction tx coins = .ok ()) :
    ¬ tx.isCoinbase ∧
      List.Forall₂ (fun input coin => m input.previousOutput = some coin) tx.inputs coins ∧
      ∀ j input coin, tx.inputs[j]? = some input → coins[j]? = some coin →
        verifyInput engine.flags tx j (coins.map (·.output)) input.scriptSig.bytes
          coin.output.scriptPubkey.bytes input.witness = .ok () := by
  simp only [ConsensusEngine.verifyTransaction, hnative] at h
  obtain ⟨hlen, hinputs⟩ := verifyNative_eq_ok.mp h
  cases hchecked with
  | coinbase hcb =>
    have hspends := congrArg List.length (spends_of_isCoinbase hcb)
    rw [Transaction.spends, List.length_map, ← hlen] at hspends
    simp at hspends
  | regular hcb hcoins _ =>
    rw [Transaction.spends, List.forall₂_map_left_iff] at hcoins
    exact ⟨hcb, hcoins, hinputs⟩

/-- No transaction is in coinbase form, and the interpreter accepts every input with the coin that
the transactions before it leave for it. -/
def InputsVerified (flags : VerifyFlags) (height : BlockHeight) (m : CoinMap)
    (txs : List Transaction) : Prop :=
  ∀ k tx, txs[k]? = some tx → ¬ tx.isCoinbase ∧ ∃ coins : List Coin,
    List.Forall₂ (fun input coin => mapBefore height m txs k input.previousOutput = some coin)
      tx.inputs coins ∧
    ∀ j input coin, tx.inputs[j]? = some input → coins[j]? = some coin →
      verifyInput flags tx j (coins.map (·.output)) input.scriptSig.bytes
        coin.output.scriptPubkey.bytes input.witness = .ok ()

lemma ScriptsInv.inputsVerified (hinv : ScriptsInv cfg s) (hnative : cfg.engine.kind = .native)
    {i : ℕ} {block : Block} (hi : s.history.connected[i]? = some block)
    (habove : ¬ s.node.store.AssumesHeight cfg (i + 1)) :
    InputsVerified cfg.engine.flags (nextHeight (s.history.connected.take i))
      (utxoSet (s.history.connected.take i)) block.rest := by
  intro k tx hk
  rcases hinv.verified i block hi with hverified | hassumed
  · obtain ⟨fee, coins, hchecked, haccepted⟩ := hverified k tx hk
    obtain ⟨hcb, hcoins, hinputs⟩ := inputs_of_verifyTransaction hnative hchecked haccepted
    exact ⟨hcb, coins, hcoins, hinputs⟩
  · exact absurd hassumed habove

/-- Above the height of the assumed block, connected blocks have a single transaction in coinbase
form. -/
lemma ScriptsInv.not_isCoinbase (hinv : ScriptsInv cfg s) (hnative : cfg.engine.kind = .native)
    {i : ℕ} {block : Block} (hi : s.history.connected[i]? = some block)
    (habove : ¬ s.node.store.AssumesHeight cfg (i + 1)) :
    ∀ tx ∈ block.rest, ¬ tx.isCoinbase := by
  intro tx htx
  obtain ⟨k, hk⟩ := List.getElem?_of_mem htx
  exact (hinv.inputsVerified hnative hi habove k tx hk).1

/-- With the native engine and script checks, every input of a connected block above the height of
the assumed block was accepted by the interpreter, with the coin that the ledger held for it. -/
theorem verifyInput_of_reachable (hscripts : cfg.scriptChecks = true)
    (hnative : cfg.engine.kind = .native)
    (hrun : Reachable (System.step cfg) (SoundStep cfg) (System.init cfg) s) {i : ℕ} {block : Block}
    (hi : s.history.connected[i]? = some block)
    (habove : ¬ s.node.store.AssumesHeight cfg (i + 1)) :
    InputsVerified cfg.engine.flags (nextHeight (s.history.connected.take i))
      (utxoSet (s.history.connected.take i)) block.rest :=
  (scriptsInv_of_reachable hscripts hrun).inputsVerified hnative hi habove

end Native

/-! ### A chain with spends -/

namespace Sample

/-- The suffixes of some bytes that start at a multiple of 32. -/
def rows : Nat → List UInt8 → List (List UInt8)
  | 0, _ => []
  | fuel + 1, bytes => bytes :: rows fuel (bytes.drop 32)

lemma getD_rows {fuel k : Nat} (bytes : List UInt8) (h : k < fuel) :
    (rows fuel bytes).getD k [] = bytes.drop (32 * k) := by
  induction fuel generalizing k bytes with
  | zero => exact absurd h (Nat.not_lt_zero k)
  | succ fuel ih =>
    cases k with
    | zero => rfl
    | succ k =>
      rw [rows, List.getD_cons_succ, ih _ (Nat.lt_of_succ_lt_succ h), List.drop_drop]
      congr 1
      omega

/-- A byte of a file is found from the start of its row. -/
lemma writeAt_eq_rows : FlatFile.writeAt = fun f start data =>
    { len := max f.len (start + data.length)
      byte := fun i =>
        if start ≤ i ∧ i < start + data.length then
          ((rows data.length data).getD ((i - start) / 32) []).getD ((i - start) % 32) 0
        else if i < f.len then f.byte i
        else 0 } := by
  funext f start data
  unfold FlatFile.writeAt
  congr
  funext i
  split_ifs with h
  · have hrow : (i - start) / 32 < data.length := by omega
    rw [getD_rows data hrow, List.getD_eq_getElem?_getD, List.getD_eq_getElem?_getD,
      List.getElem?_drop, Nat.div_add_mod]
  · rfl
  · rfl

/-- The public keys of the coins. -/
def spendKeys : List (List UInt8) :=
  [[0x03, 0x77, 0x4a, 0xe7, 0xf8, 0x58, 0xa9, 0x41, 0x1e, 0x5e, 0xf4, 0x24, 0x6b, 0x70, 0xc6, 0x5a,
     0xac, 0x56, 0x49, 0x98, 0x0b, 0xe5, 0xc1, 0x78, 0x91, 0xbb, 0xec, 0x17, 0x89, 0x5d, 0xa0, 0x08,
     0xcb],
    [0x03, 0xf2, 0x87, 0x73, 0xc2, 0xd9, 0x75, 0x28, 0x8b, 0xc7, 0xd1, 0xd2, 0x05, 0xc3, 0x74, 0x86,
     0x51, 0xb0, 0x75, 0xfb, 0xc6, 0x61, 0x0e, 0x58, 0xcd, 0xde, 0xed, 0xdf, 0x8f, 0x19, 0x40, 0x5a,
     0xa8],
    [0x03, 0xde, 0xfd, 0xea, 0x4c, 0xdb, 0x67, 0x77, 0x50, 0xa4, 0x20, 0xfe, 0xe8, 0x07, 0xea, 0xcf,
     0x21, 0xeb, 0x98, 0x98, 0xae, 0x79, 0xb9, 0x76, 0x87, 0x66, 0xe4, 0xfa, 0xa0, 0x4a, 0x2d, 0x4a,
     0x34]]

/-- The digest of the first key, and its hash. -/
def firstKeyDigest : Bytes32 :=
  ⟨[0xf2, 0xd7, 0xb8, 0x8e, 0x34, 0x19, 0x34, 0xf9, 0x23, 0xde, 0xe6, 0x62, 0xd1, 0x33, 0xb2, 0xfc,
    0x67, 0x29, 0x6f, 0x7f, 0x92, 0x2d, 0x8a, 0x6c, 0xf8, 0xc0, 0x80, 0x33, 0x9a, 0xe6, 0x04, 0x09],
    rfl⟩

@[inherit_doc firstKeyDigest]
def firstKeyHash : List UInt8 :=
  [0x36, 0x29, 0x95, 0xa6, 0xe6, 0x92, 0x2a, 0x04, 0xe0, 0xb8, 0x32, 0xa8, 0x0b, 0xc5, 0x6c, 0x33,
   0x70, 0x9a, 0x42, 0xd2]

/-- A transaction in coinbase form, with a coin for the first key and one for two of the keys. -/
def mintTx : Transaction where
  version := 1
  inputs := [⟨OutPoint.coinbase, ⟨[0x52, 0x52]⟩, 0xffffffff, []⟩]
  outputs := [⟨⟨1000⟩, ⟨keyHashScript firstKeyHash⟩⟩, ⟨⟨1000⟩, ⟨multisigScript 2 spendKeys⟩⟩]
  lockTime := 0

/-- The txid of this transaction. -/
def mintTxid : Txid :=
  digest [0x3b, 0xe5, 0xea, 0xd0, 0xf2, 0x83, 0x46, 0x65, 0x77, 0x2f, 0x28, 0x7d, 0x03, 0xc5, 0xee,
    0xe6, 0xcb, 0x37, 0x5e, 0xc0, 0x93, 0xcc, 0xb8, 0x7f, 0x1a, 0xf7, 0x52, 0x79, 0x69, 0xe1, 0x73,
    0x11]

/-- A block that creates the coins, after the genesis block. -/
def mintBlock : Block where
  header := header [0x2e, 0x15, 0x79, 0x27, 0x2f, 0xbe, 0x72, 0x41, 0x0a, 0x4b, 0xae, 0xa2, 0xb5,
    0x34, 0xeb, 0x6a, 0x22, 0x58, 0xa5, 0xe9, 0x77, 0xbe, 0xa8, 0x06, 0x02, 0x6f, 0xe0, 0xb5, 0xf3,
    0x83, 0xe4, 0x11] 3
  transactions := [coinbaseTx 5000000000, mintTx]

/-- A transaction that spends both coins. -/
def spendWith (scriptSig scriptSig' : List UInt8) : Transaction where
  version := 1
  inputs := [⟨⟨mintTxid, 0⟩, ⟨scriptSig⟩, 0xffffffff, []⟩,
    ⟨⟨mintTxid, 1⟩, ⟨scriptSig'⟩, 0xffffffff, []⟩]
  outputs := [⟨⟨1900⟩, ⟨[]⟩⟩]
  lockTime := 0

/-- The messages that are signed for the two inputs, with the hash type for everything. -/
def signedMessages : List (List UInt8) :=
  [(spendWith (keyHashScript firstKeyHash) []).encodeBase ++ [1, 0, 0, 0],
    (spendWith [] (multisigScript 2 spendKeys)).encodeBase ++ [1, 0, 0, 0]]

/-- The digests of these messages, and the signatures: one of the first, two of the second. -/
def signedDigests : List Bytes32 :=
  [⟨[0x61, 0xbb, 0xaf, 0xf0, 0x5b, 0x69, 0xdf, 0x5d, 0xc2, 0x1e, 0x7f, 0x49, 0xd5, 0x7e, 0x64, 0x9c,
      0xe5, 0xf1, 0x1d, 0x7e, 0x5c, 0x7c, 0xb9, 0x51, 0x80, 0x5a, 0x35, 0x7c, 0x44, 0x9f, 0xfe,
      0x00], rfl⟩,
    ⟨[0xf6, 0xf7, 0x59, 0x77, 0x1b, 0xda, 0xb6, 0x12, 0x5d, 0xb9, 0x25, 0x6a, 0x69, 0x5f, 0x68,
      0x76, 0xe1, 0x23, 0x04, 0x50, 0xdd, 0x14, 0x3b, 0x8e, 0x45, 0xa0, 0x5f, 0xa7, 0x08, 0x9b,
      0x7c, 0x19], rfl⟩]

@[inherit_doc signedDigests]
def signatures : List (List UInt8) :=
  [[0x30, 0x45, 0x02, 0x21, 0x00, 0xf0, 0x1d, 0x6b, 0x90, 0x18, 0xab, 0x42, 0x1d, 0xd4, 0x10, 0x40,
     0x4c, 0xb8, 0x69, 0x07, 0x20, 0x65, 0x52, 0x2b, 0xf8, 0x57, 0x34, 0x00, 0x8f, 0x10, 0x5c, 0xf3,
     0x85, 0xa0, 0x23, 0xa8, 0x0f, 0x02, 0x20, 0x4a, 0x21, 0x08, 0xc1, 0xea, 0x6b, 0xd9, 0x61, 0xaa,
     0x25, 0x42, 0xc7, 0x6b, 0xa4, 0x37, 0xb1, 0x39, 0xe1, 0xd3, 0x41, 0xbb, 0x29, 0x23, 0x78, 0x87,
     0xbd, 0x54, 0xf0, 0x65, 0xcb, 0xa6, 0x19],
    [0x30, 0x44, 0x02, 0x20, 0x27, 0x16, 0x6a, 0xc5, 0xe6, 0x01, 0x6c, 0x08, 0x04, 0xc8, 0xfa, 0xc1,
     0xbb, 0x3c, 0x3f, 0x4c, 0x7d, 0x0a, 0x1f, 0x3f, 0x22, 0x56, 0xa3, 0x42, 0xcc, 0x80, 0x24, 0xb8,
     0xd6, 0x7c, 0x26, 0x8c, 0x02, 0x20, 0x6c, 0x8e, 0x17, 0x3f, 0x63, 0x9f, 0xa1, 0x3d, 0x87, 0x64,
     0xbb, 0x97, 0x72, 0x3b, 0x7e, 0x2f, 0x4c, 0xcc, 0xfa, 0x8c, 0xa1, 0x08, 0xc2, 0xaf, 0x2d, 0x69,
     0x29, 0x96, 0xbb, 0x8a, 0xca, 0x18],
    [0x30, 0x45, 0x02, 0x21, 0x00, 0xdb, 0x21, 0x67, 0xae, 0x05, 0x39, 0x47, 0xb1, 0xbb, 0x88, 0xf9,
     0x12, 0x09, 0xae, 0x25, 0xc9, 0x81, 0x90, 0x6d, 0xa0, 0xb2, 0x45, 0x9d, 0xb5, 0x3b, 0x03, 0xfd,
     0x70, 0x0b, 0xef, 0x06, 0x02, 0x02, 0x20, 0x6b, 0x3d, 0xba, 0x14, 0x3f, 0x62, 0x3f, 0xd2, 0x13,
     0xaf, 0xad, 0x47, 0x41, 0x4e, 0x0d, 0x22, 0xf8, 0xdf, 0x14, 0x73, 0x0c, 0x1d, 0x36, 0xe1, 0xad,
     0x97, 0xa5, 0x37, 0x53, 0x57, 0x08, 0x33]]

/-- What these signatures sign, and the key of each. -/
def signed : List ((Bytes32 × List UInt8) × List UInt8) :=
  ([signedDigests[0], signedDigests[1], signedDigests[1]].zip signatures).zip
    [spendKeys[0], spendKeys[0], spendKeys[2]]

/-- The transaction with its signatures. -/
def spendTx : Transaction :=
  spendWith (pushData (signatures[0] ++ [1]) ++ pushData spendKeys[0])
    (0x00 :: (pushData (signatures[1] ++ [1]) ++ pushData (signatures[2] ++ [1])))

/-- A block with the transaction, after the one that creates the coins. -/
def spendBlock : Block where
  header :=
    { version := 1
      prevHash := digest [0x63, 0x9a, 0x8b, 0xed, 0xf6, 0x73, 0x87, 0x91, 0xee, 0xb5, 0x5a, 0x1a,
        0x05, 0x0e, 0x2d, 0xfc, 0xf6, 0x7a, 0xc6, 0xd6, 0x9b, 0xc8, 0x87, 0x55, 0x6b, 0xe8, 0x7c,
        0xb5, 0x89, 0x95, 0xfc, 0x71]
      merkleRoot := digest [0x0e, 0x47, 0x4f, 0xc3, 0xed, 0x2b, 0xbf, 0x90, 0x02, 0x56, 0x4f, 0xab,
        0x31, 0xaa, 0x26, 0x74, 0xec, 0x78, 0x7b, 0x51, 0xa5, 0x9a, 0xf7, 0x67, 0x03, 0x9b, 0xa8,
        0x3d, 0x4a, 0xe2, 0x55, 0x1f]
      time := 1296689203
      bits := 0x207fffff
      nonce := 0 }
  transactions := [coinbaseTx 5000000100, spendTx]

/-- A hash function that knows the first key. -/
@[reducible] def spendHash : LegacyHash where
  ripemd160 message :=
    if message = firstKeyDigest.toList then ⟨firstKeyHash, rfl⟩ else List.Vector.replicate 20 0
  sha1 _ := List.Vector.replicate 20 0

/-- A curve with the three keys and the three signatures. -/
@[reducible] def spendCurve : Secp256k1 where
  PublicKey := List UInt8
  Signature := List UInt8
  XOnlyPublicKey := Empty
  SchnorrSignature := Empty
  Scalar := Empty
  publicKeyFromSlice bytes := if spendKeys.contains bytes then some bytes else none
  signatureFromDerLax der := if signatures.contains der then some der else none
  verifyEcdsa digest signature key := signed.contains ((digest, signature), key)
  xOnlyFromSlice _ := none
  schnorrFromSlice _ := none
  verifySchnorr _ _ _ := false
  scalarFromBeBytes _ := none
  tweakAddCheck _ _ _ _ := false

/-- The digests of the two blocks, of the messages that are signed and of the first key. -/
def spendDigests : List (List UInt8 × Bytes32) :=
  (spendKeys[0], firstKeyDigest) ::
  twice mintTx.encodeBase
    ⟨[0xcf, 0x9f, 0x3a, 0x29, 0x62, 0xdf, 0x68, 0x2d, 0xf9, 0xfd, 0x4d, 0x7e, 0x21, 0xfd, 0x7a,
      0x55, 0x28, 0xc9, 0x33, 0xc6, 0xa0, 0x7c, 0xf8, 0xe3, 0xa7, 0x7a, 0xb5, 0x3e, 0x6a, 0xcc,
      0xec, 0x0e], rfl⟩
    ⟨[0x3b, 0xe5, 0xea, 0xd0, 0xf2, 0x83, 0x46, 0x65, 0x77, 0x2f, 0x28, 0x7d, 0x03, 0xc5, 0xee,
      0xe6, 0xcb, 0x37, 0x5e, 0xc0, 0x93, 0xcc, 0xb8, 0x7f, 0x1a, 0xf7, 0x52, 0x79, 0x69, 0xe1,
      0x73, 0x11], rfl⟩ ++
  twice (nextBlock.header.merkleRoot.bytes.toList ++ mintTxid.bytes.toList)
    ⟨[0x22, 0xdf, 0x57, 0x0b, 0xd2, 0x29, 0x03, 0x0c, 0x8a, 0xac, 0x5f, 0xd3, 0x56, 0x2a, 0x43,
      0xea, 0x2f, 0x55, 0x1e, 0x07, 0xab, 0xcf, 0xe3, 0xd2, 0xc9, 0xe3, 0x85, 0x32, 0x27, 0x52,
      0xe1, 0x3d], rfl⟩
    ⟨[0x2e, 0x15, 0x79, 0x27, 0x2f, 0xbe, 0x72, 0x41, 0x0a, 0x4b, 0xae, 0xa2, 0xb5, 0x34, 0xeb,
      0x6a, 0x22, 0x58, 0xa5, 0xe9, 0x77, 0xbe, 0xa8, 0x06, 0x02, 0x6f, 0xe0, 0xb5, 0xf3, 0x83,
      0xe4, 0x11], rfl⟩ ++
  twice mintBlock.header.serialize.toList
    ⟨[0xce, 0x57, 0xde, 0x5f, 0x5e, 0x4b, 0xe2, 0x43, 0x8f, 0x79, 0xc7, 0x90, 0x6a, 0x76, 0x30,
      0x23, 0xc2, 0x92, 0x66, 0xfc, 0x1f, 0x4e, 0x69, 0x33, 0xc5, 0x02, 0x2c, 0x9e, 0x0a, 0xdf,
      0x9b, 0x57], rfl⟩
    ⟨[0x63, 0x9a, 0x8b, 0xed, 0xf6, 0x73, 0x87, 0x91, 0xee, 0xb5, 0x5a, 0x1a, 0x05, 0x0e, 0x2d,
      0xfc, 0xf6, 0x7a, 0xc6, 0xd6, 0x9b, 0xc8, 0x87, 0x55, 0x6b, 0xe8, 0x7c, 0xb5, 0x89, 0x95,
      0xfc, 0x71], rfl⟩ ++
  twice (coinbaseTx 5000000100).encodeBase
    ⟨[0xf3, 0x3d, 0xd5, 0x94, 0x16, 0x64, 0x14, 0x03, 0x4c, 0xe2, 0x7f, 0x58, 0xcc, 0x5f, 0x49,
      0x54, 0x53, 0x2c, 0x1f, 0x0a, 0x1c, 0x09, 0xe7, 0x7b, 0x2d, 0xa3, 0x91, 0x7a, 0xd3, 0x1a,
      0x27, 0x26], rfl⟩
    ⟨[0x5a, 0xa6, 0x38, 0x9b, 0x0e, 0xae, 0x37, 0x2e, 0x0f, 0xf3, 0xe7, 0x2b, 0x48, 0xca, 0x32,
      0xbf, 0x72, 0x1d, 0x0a, 0x68, 0xcb, 0x6d, 0x38, 0x5b, 0x3a, 0x10, 0xd5, 0xf4, 0x10, 0x34,
      0x76, 0x38], rfl⟩ ++
  twice spendTx.encodeBase
    ⟨[0xc1, 0xdb, 0x56, 0x47, 0x0e, 0x30, 0x1b, 0x7d, 0xfd, 0x3c, 0xcf, 0x88, 0xaf, 0xf1, 0x15,
      0xca, 0x6c, 0xed, 0x8d, 0xe9, 0xaf, 0x5a, 0xdb, 0xea, 0xd3, 0xea, 0xa6, 0xc0, 0x27, 0x14,
      0x6b, 0x70], rfl⟩
    ⟨[0x76, 0x17, 0xfd, 0xcf, 0x44, 0xf4, 0x1e, 0x91, 0xbd, 0x8d, 0x72, 0x6f, 0xa4, 0x97, 0xa4,
      0xdd, 0x12, 0xd0, 0x38, 0xe3, 0x3f, 0x4b, 0x7c, 0x97, 0x2a, 0xd7, 0xfb, 0xfa, 0x2b, 0xcb,
      0x99, 0x04], rfl⟩ ++
  twice [0x5a, 0xa6, 0x38, 0x9b, 0x0e, 0xae, 0x37, 0x2e, 0x0f, 0xf3, 0xe7, 0x2b, 0x48, 0xca, 0x32,
     0xbf, 0x72, 0x1d, 0x0a, 0x68, 0xcb, 0x6d, 0x38, 0x5b, 0x3a, 0x10, 0xd5, 0xf4, 0x10, 0x34, 0x76,
     0x38, 0x76, 0x17, 0xfd, 0xcf, 0x44, 0xf4, 0x1e, 0x91, 0xbd, 0x8d, 0x72, 0x6f, 0xa4, 0x97, 0xa4,
     0xdd, 0x12, 0xd0, 0x38, 0xe3, 0x3f, 0x4b, 0x7c, 0x97, 0x2a, 0xd7, 0xfb, 0xfa, 0x2b, 0xcb, 0x99,
     0x04]
    ⟨[0x5d, 0x96, 0xf4, 0x6c, 0x1f, 0x17, 0xd6, 0x34, 0x2e, 0xd3, 0xcf, 0xc0, 0x2c, 0xb2, 0x36,
      0xa7, 0x71, 0xfe, 0xa3, 0xe0, 0x04, 0xba, 0xc7, 0x6e, 0x79, 0x51, 0xc0, 0xaf, 0x37, 0x3e,
      0xbf, 0x2f], rfl⟩
    ⟨[0x0e, 0x47, 0x4f, 0xc3, 0xed, 0x2b, 0xbf, 0x90, 0x02, 0x56, 0x4f, 0xab, 0x31, 0xaa, 0x26,
      0x74, 0xec, 0x78, 0x7b, 0x51, 0xa5, 0x9a, 0xf7, 0x67, 0x03, 0x9b, 0xa8, 0x3d, 0x4a, 0xe2,
      0x55, 0x1f], rfl⟩ ++
  twice spendBlock.header.serialize.toList
    ⟨[0x6f, 0xd7, 0xda, 0xbf, 0x74, 0x94, 0x84, 0x2f, 0x09, 0x1d, 0xdc, 0xb4, 0xf2, 0xaa, 0x1e,
      0x38, 0x8a, 0x6d, 0x67, 0x0c, 0x9b, 0xa4, 0xa8, 0xc1, 0x79, 0x80, 0xb5, 0xc2, 0xa6, 0x5f,
      0xbb, 0x1d], rfl⟩
    ⟨[0xd2, 0xbd, 0xa2, 0x3a, 0xdb, 0xeb, 0x1b, 0x21, 0x1f, 0x04, 0xe8, 0x23, 0x61, 0xbb, 0xc0,
      0xfd, 0x56, 0x30, 0xa2, 0x0d, 0x76, 0x13, 0xc3, 0x6b, 0x49, 0x31, 0x5a, 0x0f, 0x70, 0x00,
      0x76, 0x2a], rfl⟩ ++
  twice signedMessages[0]
    ⟨[0x87, 0x92, 0xd9, 0x0e, 0x81, 0x85, 0x0c, 0x24, 0x3f, 0x7d, 0x64, 0x46, 0x8a, 0xcd, 0x25,
      0x02, 0x0e, 0xfe, 0x65, 0x59, 0x5e, 0x11, 0x68, 0x13, 0x3c, 0x23, 0x6c, 0x70, 0x7e, 0xe3,
      0xd9, 0x2a], rfl⟩
    ⟨[0x61, 0xbb, 0xaf, 0xf0, 0x5b, 0x69, 0xdf, 0x5d, 0xc2, 0x1e, 0x7f, 0x49, 0xd5, 0x7e, 0x64,
      0x9c, 0xe5, 0xf1, 0x1d, 0x7e, 0x5c, 0x7c, 0xb9, 0x51, 0x80, 0x5a, 0x35, 0x7c, 0x44, 0x9f,
      0xfe, 0x00], rfl⟩ ++
  twice signedMessages[1]
    ⟨[0x10, 0x00, 0xfe, 0x57, 0xce, 0x3f, 0x69, 0x27, 0xfd, 0x9e, 0x00, 0x3a, 0xd1, 0x40, 0xcc,
      0x04, 0x82, 0x2c, 0xfc, 0x14, 0x80, 0x71, 0x5b, 0xf4, 0xa8, 0x9a, 0xa6, 0x07, 0xf2, 0x51,
      0x62, 0xf3], rfl⟩
    ⟨[0xf6, 0xf7, 0x59, 0x77, 0x1b, 0xda, 0xb6, 0x12, 0x5d, 0xb9, 0x25, 0x6a, 0x69, 0x5f, 0x68,
      0x76, 0xe1, 0x23, 0x04, 0x50, 0xdd, 0x14, 0x3b, 0x8e, 0x45, 0xa0, 0x5f, 0xa7, 0x08, 0x9b,
      0x7c, 0x19], rfl⟩

set_option maxRecDepth 100000 in
lemma sha256_spendDigests : ∀ e ∈ spendDigests, Sha256.sha256 e.1 = e.2 := by
  decide +kernel

lemma sha2_eq_spendDigests : sha2 = remember (digests ++ spendDigests) :=
  sha2_eq_remember (List.forall_mem_append.mpr ⟨sha256_digests, sha256_spendDigests⟩)

/-- A node that assumes the block with the coins to be valid. -/
def spendCfg : Config := assumeValidCfg mintBlock.header.blockHash

/-- The node learns of both blocks, downloads and connects them. -/
def spendEvents : List Event :=
  [.recvHeaders [mintBlock.header, spendBlock.header], .acceptHeader, .acceptHeader, .storeHeaders,
    .recvBlock mintBlock, .storeBlocks 1, .recvBlock spendBlock, .storeBlocks 1, .blockDownloaded 0,
    .blockDownloaded 0, .activate, .selectBlock false, .connect [], .storeUndo, .selectBlock false,
    .connect [], .storeUndo]

attribute [local instance] nativeVerifier spendHash spendCurve

set_option maxRecDepth 100000 in
lemma run_spendEvents :
    (Reachable.run (System.step spendCfg) (soundCheck spendCfg) (System.init spendCfg)
      spendEvents).map (fun s => (s.history.connected,
        (s.node.store.findBlockIndex spendCfg.params.consensus.defaultAssumeValid).map
          (·.height))) = some ([mintBlock, spendBlock], some 1) := by
  unfold spendCfg assumeValidCfg cfg System.step System.init Node.step Node.init
    Node.loadGenesisBlock Node.acceptHeader HeaderBatch.acceptHeader HeaderBatch.push
    ChainParams.genesisIndex Node.selectBlock Node.connect Node.storeBlocks
    BlockManager.handleStoreBlocks BlockManager.writeBlocks BlockManager.writeBlocks
    BlockFileManager.writeBlock BlockFileManager.append FlatFileSeq.openAndWrite
    FlatFile.preallocate
  rw [writeAt_eq_rows, sha2_eq_spendDigests, calculateBlockWork_eq_division]
  decide +kernel

/-- A run in which two coins are spent above the height of the assumed block. -/
lemma exists_reachable_spends :
    ∃ s, Reachable (System.step spendCfg) (SoundStep spendCfg) (System.init spendCfg) s ∧
      s.history.connected = [mintBlock, spendBlock] ∧
      ∀ height, s.node.store.HasHeight spendCfg.params.consensus.defaultAssumeValid height →
        height = 1 := by
  obtain ⟨s, hrun, hs⟩ := Option.map_eq_some_iff.mp run_spendEvents
  obtain ⟨hconnected, hindex⟩ := Prod.mk.inj hs
  refine ⟨s, Reachable.init.of_run (fun _ _ _ => soundStep_of_soundCheck) hrun, hconnected, ?_⟩
  rintro height ⟨index, hassumed, rfl⟩
  have hfind : s.node.store.findBlockIndex spendCfg.params.consensus.defaultAssumeValid =
      some index := by
    rw [Store.findBlockIndex, hassumed]
    rfl
  rw [hfind, Option.map_some, Option.some.injEq] at hindex
  exact hindex

/-- The spends are above that height. -/
lemma not_assumesHeight_spendBlock {s : System}
    (h : ∀ height, s.node.store.HasHeight spendCfg.params.consensus.defaultAssumeValid height →
      height = 1) : ¬ s.node.store.AssumesHeight spendCfg 2 := by
  rintro ⟨height, hheight, hle⟩
  rw [h height hheight] at hle
  exact absurd hle (by decide)

/-- Both spends are accepted with the coins of the ledger. -/
theorem verifyInput_spendBlock :
    ∃ s, Reachable (System.step spendCfg) (SoundStep spendCfg) (System.init spendCfg) s ∧
      s.history.connected = [mintBlock, spendBlock] ∧
      InputsVerified spendCfg.engine.flags 2 (utxoSet [mintBlock]) [spendTx] := by
  obtain ⟨s, hrun, hconnected, hassumed⟩ := exists_reachable_spends
  have hinputs := verifyInput_of_reachable rfl rfl hrun (i := 1) (by rw [hconnected]; rfl)
    (not_assumesHeight_spendBlock hassumed)
  rw [hconnected] at hinputs
  exact ⟨s, hrun, hconnected, hinputs⟩

end Sample

end Bitcrab
