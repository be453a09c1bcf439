import Bitcrab.Consensus.Signet

/-!
# Script-consensus engines (`consensus/engine.rs`)

Also the validation errors of `consensus/validation.rs`, which the engines return.
-/

namespace Bitcrab

/-- `ValidationError`. -/
inductive ValidationError where
  | noInputs
  | noOutputs
  | amountOutOfRange
  | totalAmountOutOfRange
  | inputMissingOrSpent (outpoint : OutPoint)
  | negativeFee
  | scriptFailure
  | scriptError (index : Nat) (error : ScriptError)
  | referenceEngineUnavailable
  | noTransactions
  | invalidCoinbase
  | invalidMerkleRoot (expected actual : Hash256)
  | invalidProofOfWork
  | wrongDifficulty (height expected actual : UInt32)
  | signetSolution (error : SignetError)
  | duplicateInput
  | badCoinbaseScriptLength (len : Nat)
  | nullPrevout
  | badCoinbaseHeight (expected : UInt32)
  | badWitnessNonceSize
  | witnessCommitmentMismatch
  | unexpectedWitness
  | blockWeightTooLarge (weight : Nat)
  | coinbaseValueTooHigh (claimed allowed : UInt64)
  | prematureCoinbaseSpend (created spent : UInt32)
  deriving DecidableEq

/-- `ConsensusEngineKind`. -/
inductive ConsensusEngineKind where
  | native
  | coreReference
  deriving Repr, DecidableEq

/-- `ConsensusEngine`. -/
structure ConsensusEngine where
  kind : ConsensusEngineKind
  flags : VerifyFlags
  deriving Repr, DecidableEq

/-- `ConsensusEngine::new`. -/
def ConsensusEngine.new (kind : ConsensusEngineKind) : ConsensusEngine :=
  ⟨kind, VerifyFlags.consensusTaproot⟩

variable [ScriptVerifier]

/-- The input loop of `verify_native`, from index `i` on. -/
def verifyInputs (tx : Transaction) (spentOutputs : List TxOut) (flags : VerifyFlags) :
    Nat → List TxIn → List Coin → Except ValidationError Unit
  | i, input :: inputs, coin :: coins => do
    (ScriptVerifier.verifyScript input.scriptSig.bytes coin.output.scriptPubkey.bytes
      input.witness flags tx i spentOutputs).mapError (.scriptError i)
    verifyInputs tx spentOutputs flags (i + 1) inputs coins
  | _, _, _ => .ok ()

/-- `verify_native`. -/
def verifyNative (tx : Transaction) (spentCoins : List Coin) (flags : VerifyFlags) :
    Except ValidationError Unit :=
  if spentCoins.length ≠ tx.inputs.length then .error .scriptFailure
  else verifyInputs tx (spentCoins.map (·.output)) flags 0 tx.inputs spentCoins

/-- The coin loop of `verify_core_reference`, from index `i` on. -/
def verifyCoins (verify : List UInt8 → UInt64 → Nat → Bool) :
    Nat → List Coin → Except ValidationError Unit
  | _, [] => .ok ()
  | i, coin :: coins =>
    if verify coin.output.scriptPubkey.bytes coin.output.value.sat i then
      verifyCoins verify (i + 1) coins
    else .error (.scriptError i .unknownError)

/-- `verify_core_reference`. Unlike the native engine it does not compare the number of coins with
the number of inputs: it checks one input for each coin it is given. -/
def verifyCoreReference (tx : Transaction) (spentCoins : List Coin) (flags : VerifyFlags) :
    Except ValidationError Unit :=
  match ScriptVerifier.verifyWithFlags with
  | none => .error .referenceEngineUnavailable
  | some verify =>
    verifyCoins (fun script value i =>
      verify script value (serialize tx) (spentCoins.map (·.output)) i flags.bits) 0 spentCoins

/-- `ConsensusEngine::verify_transaction`. -/
def ConsensusEngine.verifyTransaction (engine : ConsensusEngine) (tx : Transaction)
    (spentCoins : List Coin) : Except ValidationError Unit :=
  match engine.kind with
  | .native => verifyNative tx spentCoins engine.flags
  | .coreReference => verifyCoreReference tx spentCoins engine.flags

end Bitcrab
