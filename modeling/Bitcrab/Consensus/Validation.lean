import Bitcrab.Consensus.Coins
import Bitcrab.Consensus.Engine
import Bitcrab.Consensus.Pow
import Bitcrab.Lib.Result
import Bitcrab.Lib.Writes

/-!
# Block validation (`consensus/validation.rs`)

`connect_block` validates a block against an overlay of the view, waits for the script checks, and
then commits the changes to the view. It returns the view together with its result, because it can
fail after it has changed the view.
-/

namespace Bitcrab

open Result

/-! ### Constants -/

/-- `COINBASE_MATURITY`. -/
def coinbaseMaturity : Nat := 100

/-- `INITIAL_BLOCK_REWARD`. -/
def initialBlockReward : UInt64 := 50 * coin

/-- `MAX_BLOCK_WEIGHT`. -/
def maxBlockWeight : Nat := 4000000

/-- `MIN_COINBASE_SCRIPT_SIZE`. -/
def minCoinbaseScriptSize : Nat := 2

/-- `MAX_COINBASE_SCRIPT_SIZE`. -/
def maxCoinbaseScriptSize : Nat := 100

/-! ### Stateless checks -/

instance : Inhabited TxIn := ⟨⟨OutPoint.coinbase, default, 0, []⟩⟩

instance : Inhabited Transaction := ⟨⟨0, [], [], 0⟩⟩

/-- `transactions[0]`, read only after the block is known to have a transaction. -/
def Block.coinbase (b : Block) : Transaction := b.transactions.headD default

/-- `transactions.iter().skip(1)`. -/
def Block.rest (b : Block) : List Transaction := b.transactions.drop 1

/-- The loop of `check_transaction` over the outputs. -/
def checkOutputs : Amount → List TxOut → Except ValidationError Amount
  | total, [] => .ok total
  | total, output :: outputs => do
    if !output.value.isValid then
      throw .amountOutOfRange
    let total ← okOr .totalAmountOutOfRange (total.checkedAdd output.value)
    checkOutputs total outputs

/-- The loop of `check_transaction` over the inputs; `seen` is the set of outpoints so far. -/
def checkDuplicateInputs (seen : List OutPoint) : List TxIn → Except ValidationError Unit
  | [] => .ok ()
  | input :: inputs =>
    if input.previousOutput ∈ seen then .error .duplicateInput
    else checkDuplicateInputs (input.previousOutput :: seen) inputs

/-- `check_transaction`. -/
def checkTransaction (tx : Transaction) : Except ValidationError Unit := do
  if tx.inputs.isEmpty then
    throw .noInputs
  if tx.outputs.isEmpty then
    throw .noOutputs
  let total ← checkOutputs Amount.zero tx.outputs
  if !total.isValid then
    throw .totalAmountOutOfRange
  checkDuplicateInputs [] tx.inputs
  if tx.isCoinbase then
    let len := (tx.inputs.headD default).scriptSig.bytes.length
    if ¬ (minCoinbaseScriptSize ≤ len ∧ len ≤ maxCoinbaseScriptSize) then
      throw (.badCoinbaseScriptLength len)
  else if tx.inputs.any fun input => input.previousOutput.isCoinbase then
    throw .nullPrevout

/-- `block_subsidy`. -/
def blockSubsidy (height : BlockHeight) (params : ChainParams) : Amount :=
  let halvings := height / params.consensus.nSubsidyHalvingInterval
  if halvings ≥ 64 then Amount.zero
  else
    let reward := initialBlockReward >>> halvings.toUInt64
    if reward ≤ maxMoney then ⟨reward⟩ else Amount.zero

/-- `check_bip34_height`. -/
def checkBip34Height (block : Block) (height : BlockHeight) : Except ValidationError Unit :=
  let expectedPush := pushData (scriptNumEncode height.toNat)
  let scriptSig := (block.coinbase.inputs.headD default).scriptSig.bytes
  if expectedPush.isPrefixOf scriptSig then .ok ()
  else .error (.badCoinbaseHeight height)

/-- The witness merkle tree's leaves: the coinbase's wtxid counts as zero. -/
def witnessLeaves [Sha2] (block : Block) : List Hash256 :=
  Digest.zero :: block.rest.map fun tx => ⟨tx.wtxid.bytes⟩

/-- `check_witness_commitment`. -/
def checkWitnessCommitment [Sha2] (block : Block) : Except ValidationError Unit :=
  match getWitnessCommitmentIndex block.coinbase with
  | none =>
    if block.transactions.any Transaction.isSegwit then .error .unexpectedWitness else .ok ()
  | some commitmentIndex =>
    match (block.coinbase.inputs.headD default).witness with
    | [nonce] =>
      if nonce.length ≠ 32 then .error .badWitnessNonceSize
      else
        let witnessRoot := merkleRoot (witnessLeaves block)
        let expected := hash256 (witnessRoot.bytes.toList ++ nonce)
        let script := (block.coinbase.outputs.getD commitmentIndex
          ⟨Amount.zero, default⟩).scriptPubkey.bytes
        if (script.drop 6).take 32 ≠ expected.toList then .error .witnessCommitmentMismatch
        else .ok ()
    | _ => .error .badWitnessNonceSize

/-- `check_block`. -/
def checkBlock [Sha2] [ScriptVerifier] (block : Block) (params : ChainParams) :
    Except ValidationError Unit := do
  if block.transactions.isEmpty then
    throw .noTransactions
  let computedRoot := block.computeMerkleRoot
  if block.header.merkleRoot ≠ computedRoot then
    throw (.invalidMerkleRoot block.header.merkleRoot computedRoot)
  if !block.coinbase.isCoinbase then
    throw .invalidCoinbase
  block.transactions.forM checkTransaction
  let weight := block.weight
  if weight > maxBlockWeight then
    throw (.blockWeightTooLarge weight)
  if params.consensus.signetBlocks then
    (checkSignetBlockSolution block params).mapError .signetSolution

/-- `check_block_header`. -/
def checkBlockHeader [Sha2] (header : BlockHeader) (indexPrev : BlockIndex)
    (params : ChainParams) (provider : BlockIndexProvider) : Except ValidationError Unit := do
  if !header.meetsTarget then
    throw .invalidProofOfWork
  let expectedBits := getNextWorkRequired indexPrev header params.consensus provider
  if header.bits ≠ expectedBits then
    throw (.wrongDifficulty (indexPrev.height + 1) expectedBits header.bits)

/-! ### Checks against a view -/

/-- The changes of a block that is being validated. -/
abbrev Overlay := HashMap OutPoint (Option Coin)

/-- `OverlayCoinsView`. -/
structure OverlayCoinsView (V : Type) where
  base : V
  coins : Overlay

instance {V : Type} [CoinsView V] : CoinsView (OverlayCoinsView V) where
  getCoin v o := match v.coins.lookup o with
    | some coin => coin
    | none => CoinsView.getCoin v.base o
  getBestBlock v := CoinsView.getBestBlock v.base

/-- The loop of `contextual_check_transaction_metadata` over the inputs. -/
def checkInputs {V : Type} [CoinsView V] (view : V) (height : BlockHeight) :
    Amount → List TxIn → Except ValidationError (Amount × List Coin)
  | total, [] => .ok (total, [])
  | total, input :: inputs => do
    let coin ← okOr (.inputMissingOrSpent input.previousOutput)
      (CoinsView.getCoin view input.previousOutput)
    if coin.isCoinbase ∧ height.toNat - coin.height.toNat < coinbaseMaturity then
      throw (.prematureCoinbaseSpend coin.height height)
    let total ← okOr .totalAmountOutOfRange (total.checkedAdd coin.output.value)
    let (total, coins) ← checkInputs view height total inputs
    return (total, coin :: coins)

/-- `contextual_check_transaction_metadata`: the fee and the coins spent. -/
def contextualCheckTransactionMetadata {V : Type} [CoinsView V] (tx : Transaction) (view : V)
    (height : BlockHeight) : Except ValidationError (Amount × List Coin) := do
  if tx.isCoinbase then
    return (Amount.zero, [])
  let (totalInputValue, spentCoins) ← checkInputs view height Amount.zero tx.inputs
  let totalOutputValue ← okOr .totalAmountOutOfRange tx.outputValue
  if totalOutputValue.gt totalInputValue then
    throw .negativeFee
  let fee ← okOr .negativeFee (totalInputValue.checkedSub totalOutputValue)
  return (fee, spentCoins)

/-! ### Connecting a block -/

section Connect

variable [Sha2]

/-- The outpoints and coins of a transaction's outputs. -/
def Transaction.created (tx : Transaction) (height : BlockHeight) (isCoinbase : Bool) :
    List (OutPoint × Coin) :=
  tx.outputs.zipIdx.map fun (output, vout) =>
    (⟨tx.txid, UInt32.ofNat vout⟩, ⟨output, height, isCoinbase⟩)

/-- The outpoints of a transaction's inputs. -/
def Transaction.spends (tx : Transaction) : List OutPoint := tx.inputs.map (·.previousOutput)

/-- What the loops of `connect_block` collect. -/
structure ConnectState where
  totalFees : Amount
  blockUndo : BlockUndo
  overlay : Overlay
  validatedSpends : List (List OutPoint)
  verificationSet : List (Transaction × List Coin)

/-- The state before the first transaction. -/
def ConnectState.start : ConnectState := ⟨Amount.zero, ⟨[]⟩, ∅, [], []⟩

variable {V : Type} [CoinsView V]

/-- The body of the validation loop. -/
def validateTransaction (view : CoinsViewCache V) (height : BlockHeight) (checkScripts : Bool)
    (st : ConnectState) (tx : Transaction) : Except ValidationError ConnectState := do
  let (fee, spentCoins) ←
    contextualCheckTransactionMetadata tx (OverlayCoinsView.mk view st.overlay) height
  let totalFees ← okOr .totalAmountOutOfRange (st.totalFees.checkedAdd fee)
  let overlay := tx.spends.foldl (fun overlay o => overlay.insert o none) st.overlay
  let overlay := (tx.created height false).foldl
    (fun overlay c => overlay.insert c.1 (some c.2)) overlay
  return {
    totalFees
    blockUndo := ⟨st.blockUndo.spentCoins ++ spentCoins⟩
    overlay
    validatedSpends := st.validatedSpends ++ [tx.spends]
    verificationSet :=
      if checkScripts then st.verificationSet ++ [(tx, spentCoins)] else st.verificationSet }

/-- The wait for the script checks. `completion` lists tasks by index in the order in which they
end; a task it does not list ends after those. -/
def joinAll [ScriptVerifier] (engine : ConsensusEngine) (completion : List Nat)
    (tasks : List (Transaction × List Coin)) : Except ValidationError Unit :=
  (completion.filterMap (tasks[·]?) ++ tasks).forM fun task =>
    engine.verifyTransaction task.1 task.2

/-- The part of `connect_block` before the commit. -/
def validateBlock [ScriptVerifier] (block : Block) (height : BlockHeight)
    (indexPrev : BlockIndex) (view : CoinsViewCache V) (params : ChainParams)
    (provider : BlockIndexProvider) (checkScripts : Bool) (engine : ConsensusEngine)
    (completion : List Nat) : Except ValidationError ConnectState := do
  checkBlock block params
  checkBlockHeader block.header indexPrev params provider
  if height ≥ params.consensus.bip34Height then
    checkBip34Height block height
  if height ≥ params.consensus.segwitHeight then
    checkWitnessCommitment block
  let st ← block.rest.foldlM (validateTransaction view height checkScripts) .start
  joinAll engine completion st.verificationSet
  return st

/-- `add_coin` for each output of a transaction. -/
def addOutputs (view : CoinsViewCache V) (created : List (OutPoint × Coin)) : CoinsViewCache V :=
  created.foldl (fun view c => view.addCoin c.1 c.2 false) view

/-- The commit of a block's changes to the view. -/
def commitBlock (block : Block) (height : BlockHeight) (validatedSpends : List (List OutPoint))
    (view : CoinsViewCache V) : CoinsViewCache V :=
  let view := (block.rest.zip validatedSpends).foldl (fun view (tx, txSpends) =>
    addOutputs (txSpends.foldl CoinsViewCache.spendCoinKnown view) (tx.created height false)) view
  addOutputs view (block.coinbase.created height true)

/-- The limit on what the coinbase may claim. -/
def checkCoinbaseValue (block : Block) (height : BlockHeight) (params : ChainParams)
    (totalFees : Amount) : Except ValidationError Unit := do
  let coinbaseValue ← okOr .totalAmountOutOfRange block.coinbase.outputValue
  let allowed ← okOr .totalAmountOutOfRange ((blockSubsidy height params).checkedAdd totalFees)
  if coinbaseValue.gt allowed then
    throw (.coinbaseValueTooHigh coinbaseValue.sat allowed.sat)

/-- `connect_block`, with the view it leaves. -/
def connectBlock [ScriptVerifier] (block : Block) (height : BlockHeight)
    (indexPrev : BlockIndex) (view : CoinsViewCache V) (params : ChainParams)
    (provider : BlockIndexProvider) (checkScripts : Bool) (engine : ConsensusEngine)
    (completion : List Nat) : Except ValidationError (Amount × BlockUndo) × CoinsViewCache V :=
  match validateBlock block height indexPrev view params provider checkScripts engine
      completion with
  | .error e => (.error e, view)
  | .ok st =>
    let view := commitBlock block height st.validatedSpends view
    match checkCoinbaseValue block height params st.totalFees with
    | .error e => (.error e, view)
    | .ok () =>
      (.ok (st.totalFees, st.blockUndo), view.setBestBlock block.header.blockHash height)

end Connect

end Bitcrab
