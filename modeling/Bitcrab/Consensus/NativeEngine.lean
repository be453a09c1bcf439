import Bitcrab.Consensus.Engine
import Bitcrab.Script.Safety

/-!
# The native engine with the interpreter

The validation of blocks takes the script verifier as a parameter. Here it is the interpreter, whose
panics never show: the engine calls it once for each input of a transaction, with the index of the
input.
-/

namespace Bitcrab

open Outcome

section Native

variable [Sha2] [LegacyHash] [Secp256k1]

/-- `verify_script` with a `TransactionSignatureChecker`, as an `Outcome`. -/
def verifyInput (flags : VerifyFlags) (tx : Transaction) (index : Nat) (spentOutputs : List TxOut)
    (scriptSig scriptPubkey : List UInt8) (witness : List (List UInt8)) :
    Outcome ScriptError Unit :=
  verifyScript flags (TransactionSignatureChecker.mk tx index spentOutputs).toChecker scriptSig
    scriptPubkey witness

/-- The interpreter as a script verifier, without the `core-reference` feature. A panic would end
the validation task; the engine never meets one. -/
@[reducible]
def nativeVerifier : ScriptVerifier where
  verifyScript scriptSig scriptPubkey witness flags tx index spentOutputs :=
    (verifyInput flags tx index spentOutputs scriptSig scriptPubkey witness).toExcept .unknownError
  verifyWithFlags := none

lemma nativeVerifier_eq_ok {flags : VerifyFlags} {tx : Transaction} {index : Nat}
    {spentOutputs : List TxOut} {scriptSig scriptPubkey : List UInt8}
    {witness : List (List UInt8)} :
    nativeVerifier.verifyScript scriptSig scriptPubkey witness flags tx index spentOutputs =
        .ok () ↔
      verifyInput flags tx index spentOutputs scriptSig scriptPubkey witness = .ok () :=
  toExcept_eq_ok

/-- The input loop accepts when the interpreter accepts each input at its own index. -/
lemma verifyInputs_eq_ok {tx : Transaction} {spentOutputs : List TxOut} {flags : VerifyFlags}
    (inputs : List TxIn) (coins : List Coin) (i : Nat) :
    @verifyInputs nativeVerifier tx spentOutputs flags i inputs coins = .ok () ↔
      ∀ k input coin, inputs[k]? = some input → coins[k]? = some coin →
        verifyInput flags tx (i + k) spentOutputs input.scriptSig.bytes
          coin.output.scriptPubkey.bytes input.witness = .ok () := by
  induction inputs generalizing coins i with
  | nil => simp [verifyInputs]
  | cons input inputs ih =>
    cases coins with
    | nil => simp [verifyInputs]
    | cons coin coins =>
      simp only [verifyInputs, Result.bind_eq_ok, Result.mapError_eq_ok]
      constructor
      · rintro ⟨_, hfirst, hrest⟩ k input' coin' hin hcoin
        cases k with
        | zero =>
          simp only [List.getElem?_cons_zero, Option.some.injEq] at hin hcoin
          subst hin hcoin
          exact nativeVerifier_eq_ok.mp hfirst
        | succ k =>
          have hk := (ih coins (i + 1)).mp hrest k input' coin' (by simpa using hin)
            (by simpa using hcoin)
          rwa [show i + (k + 1) = i + 1 + k by omega]
      · intro h
        refine ⟨(), nativeVerifier_eq_ok.mpr (h 0 input coin rfl rfl), (ih coins (i + 1)).mpr ?_⟩
        intro k input' coin' hin hcoin
        have hk := h (k + 1) input' coin' (by simpa using hin) (by simpa using hcoin)
        rwa [show i + 1 + k = i + (k + 1) by omega]

/-- The native engine accepts a transaction exactly when it has one coin for each input and the
interpreter accepts each input with its coin. -/
theorem verifyNative_eq_ok {tx : Transaction} {coins : List Coin} {flags : VerifyFlags} :
    @verifyNative nativeVerifier tx coins flags = .ok () ↔
      coins.length = tx.inputs.length ∧
        ∀ k input coin, tx.inputs[k]? = some input → coins[k]? = some coin →
          verifyInput flags tx k (coins.map (·.output)) input.scriptSig.bytes
            coin.output.scriptPubkey.bytes input.witness = .ok () := by
  unfold verifyNative
  rw [Result.ite_error_eq_ok, not_not, verifyInputs_eq_ok]
  simp only [Nat.zero_add]

/-- No call of the native engine panics. -/
theorem verifyInput_ne_panic {tx : Transaction} {k : Nat} {input : TxIn} {flags : VerifyFlags}
    (hin : tx.inputs[k]? = some input) (hmem : witnessMemory input.witness < 2 ^ 62)
    (spentOutputs : List TxOut) (scriptPubkey : List UInt8) :
    verifyInput flags tx k spentOutputs input.scriptSig.bytes scriptPubkey input.witness ≠
      .error .panic := by
  have hk := (List.getElem?_eq_some_iff.mp hin).1
  exact (holds_verifyScript flags (P := False)
    (TransactionSignatureChecker.safe_toChecker (c := ⟨tx, k, spentOutputs⟩) hk) hmem _ _).ne_panic

end Native

end Bitcrab
