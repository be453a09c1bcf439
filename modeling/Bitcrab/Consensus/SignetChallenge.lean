import Bitcrab.Consensus.NativeEngine
import Bitcrab.Consensus.SignetCommitment
import Bitcrab.Script.WrappedPrograms
import Bitcrab.Types.Networks

/-!
# Signet challenges that anyone can solve

A challenge that is a witness program of an unknown version is refused, as the interpreter accepts
any solution of it. The check looks at the challenge itself, and not at a program that is behind the
script hash of the challenge.
-/

namespace Bitcrab

open Outcome

/-- The scriptSig and the witness of the solution of a block, if it can be read. -/
def Block.solution (block : Block) : Option (List UInt8 × List (List UInt8)) :=
  match block.transactions with
  | [] => none
  | coinbase :: _ =>
    if coinbase.isCoinbase then
      match getWitnessCommitmentIndex coinbase with
      | none => none
      | some i =>
        let output := coinbase.outputs.getD i ⟨Amount.zero, default⟩
        match (fetchAndClearCommitmentSection signetHeader output.scriptPubkey.bytes).1 with
        | none => some ([], [])
        | some bytes => (parseSignetSolution bytes).toOption
    else none

/-- The flags of `verify_solution_script`. -/
def signetFlags : VerifyFlags :=
  .p2sh ||| .dersig ||| .nulldummy ||| .witness ||| .taproot

section Solution

variable [Sha2]

/-- The transaction that is signed carries the solution, if there is one. -/
lemma new_cases (block : Block) (challenge : List UInt8) :
    (∃ e, SignetTxs.new block challenge = .error e) ∧ block.solution = none ∨
      ∃ txs outpoint scriptSig witness, SignetTxs.new block challenge = .ok txs ∧
        txs.toSign.inputs = [⟨outpoint, ⟨scriptSig⟩, 0, witness⟩] ∧
        txs.toSpend.outputs = [⟨Amount.zero, ⟨challenge⟩⟩] ∧
        block.solution = some (scriptSig, witness) := by
  unfold SignetTxs.new Block.solution
  cases block.transactions with
  | nil => exact .inl ⟨⟨_, rfl⟩, rfl⟩
  | cons coinbase rest =>
    simp only [Result.pure_eq_ok, Result.ok_bind]
    cases coinbase.isCoinbase with
    | false => exact .inl ⟨⟨_, rfl⟩, rfl⟩
    | true =>
      simp only [Bool.not_true, Bool.false_eq_true, if_false, if_true]
      cases getWitnessCommitmentIndex coinbase with
      | none => exact .inl ⟨⟨_, rfl⟩, rfl⟩
      | some i =>
        dsimp only
        cases (fetchAndClearCommitmentSection signetHeader
          (coinbase.outputs.getD i ⟨Amount.zero, default⟩).scriptPubkey.bytes).1 with
        | none => exact .inr ⟨_, _, _, _, rfl, rfl, rfl, rfl⟩
        | some bytes =>
          dsimp only
          cases parseSignetSolution bytes with
          | error e => exact .inl ⟨⟨e, rfl⟩, rfl⟩
          | ok solution => exact .inr ⟨_, _, _, _, rfl, rfl, rfl, rfl⟩

end Solution

section Challenge

variable [Sha2] [LegacyHash] [Secp256k1] {block : Block} {params : ChainParams}
  {challenge : List UInt8} {txs : SignetTxs} {input : TxIn}

/-- The solution is run as the spend of the challenge, unless the challenge is refused. -/
lemma verifySolutionScript_eq_ok (hinputs : txs.toSign.inputs = [input]) :
    @verifySolutionScript nativeVerifier txs challenge = .ok () ↔
      isUnsupportedChallenge challenge = false ∧
        verifyInput signetFlags txs.toSign 0 txs.toSpend.outputs input.scriptSig.bytes challenge
          input.witness = .ok () := by
  unfold verifySolutionScript
  cases isUnsupportedChallenge challenge with
  | true => simp
  | false =>
    simp only [Bool.false_eq_true, if_false, hinputs, true_and]
    rw [Result.mapError_eq_ok, ← nativeVerifier_eq_ok]
    rfl

omit [Sha2] [LegacyHash] [Secp256k1] in
/-- A challenge that is not refused is no upgrade of its own. -/
lemma not_isUpgrade_of_supported (h : isUnsupportedChallenge challenge = false)
    {program : WitnessProgram} (hparsed : parseWitnessProgram challenge = some program) :
    ¬ IsUpgrade signetFlags program false := by
  rintro ⟨hversion, hbranch⟩
  have htaproot : signetFlags.contains .taproot = true := by decide
  rw [isUnsupportedChallenge, hparsed] at h
  dsimp only at h
  rw [if_neg hversion] at h
  split_ifs at h with hone
  have hlen : program.program.length = 32 := by simpa using h
  exact hbranch ⟨hone, hlen, rfl, htaproot⟩

/-- `verify_script` succeeds through the last branch of `verify_witness_program` for the solution of
the block. -/
def SolvedByUpgrade (block : Block) (challenge : List UInt8) : Prop :=
  ∃ txs input, SignetTxs.new block challenge = .ok txs ∧ txs.toSign.inputs = [input] ∧
    SucceedsByUpgrade signetFlags
      (TransactionSignatureChecker.mk txs.toSign 0 txs.toSpend.outputs).toChecker
      input.scriptSig.bytes challenge input.witness

omit [Secp256k1] in
lemma isUnsupportedChallenge_of_isWrappedUpgrade {scriptSig : List UInt8}
    (h : IsWrappedUpgrade scriptSig challenge) : isUnsupportedChallenge challenge = false := by
  obtain ⟨redeem, _, _, _, _, _, rfl⟩ := h
  have hnone : parseWitnessProgram ([0xa9, 0x14] ++ (hash160 redeem).toList ++ [0x87]) = none :=
    parseWitnessProgram_payToScriptHash _
  rw [isUnsupportedChallenge, hnone]

lemma succeedsByUpgrade_signet_iff {checker : SignatureChecker} {scriptSig : List UInt8}
    {witness : List (List UInt8)} (h : isUnsupportedChallenge challenge = false) :
    SucceedsByUpgrade signetFlags checker scriptSig challenge witness ↔
      IsWrappedUpgrade scriptSig challenge :=
  succeedsByUpgrade_iff (by decide) (by decide) (by decide) (by decide) fun _ hparsed =>
    not_isUpgrade_of_supported h hparsed

/-- The check of a block that is not the genesis block. -/
lemma checkSignetBlockSolution_eq (hgenesis : block.header.blockHash ≠ params.genesisHash)
    (hne : params.consensus.signetChallenge ≠ [])
    (hnew : SignetTxs.new block params.consensus.signetChallenge = .ok txs) :
    @checkSignetBlockSolution _ nativeVerifier block params =
      @verifySolutionScript nativeVerifier txs params.consensus.signetChallenge := by
  unfold checkSignetBlockSolution
  simp [hgenesis, hne, hnew]

/-- Whoever shows the program behind the script hash has solved the block. -/
lemma solvedByUpgrade_of_isWrappedUpgrade {scriptSig : List UInt8} {witness : List (List UInt8)}
    (hgenesis : block.header.blockHash ≠ params.genesisHash)
    (hsolution : block.solution = some (scriptSig, witness))
    (hwrapped : IsWrappedUpgrade scriptSig params.consensus.signetChallenge) :
    @checkSignetBlockSolution _ nativeVerifier block params = .ok () ∧
      SolvedByUpgrade block params.consensus.signetChallenge := by
  obtain ⟨_, hnone⟩ | ⟨txs, outpoint, sig, items, hnew, hinputs, -, hsome⟩ :=
    new_cases block params.consensus.signetChallenge
  · rw [hnone] at hsolution
    cases hsolution
  · rw [hsome, Option.some.injEq, Prod.mk.injEq] at hsolution
    obtain ⟨rfl, rfl⟩ := hsolution
    have hne : params.consensus.signetChallenge ≠ [] := by
      obtain ⟨_, _, _, _, _, _, heq⟩ := hwrapped
      rw [heq]
      simp
    have hsupported := isUnsupportedChallenge_of_isWrappedUpgrade hwrapped
    have hsucceeds : SucceedsByUpgrade signetFlags
        (TransactionSignatureChecker.mk txs.toSign 0 txs.toSpend.outputs).toChecker sig
        params.consensus.signetChallenge items :=
      (succeedsByUpgrade_signet_iff hsupported).mpr hwrapped
    rw [checkSignetBlockSolution_eq hgenesis hne hnew, verifySolutionScript_eq_ok hinputs]
    exact ⟨⟨hsupported, hsucceeds.1⟩, txs, _, hnew, hinputs, hsucceeds⟩

/-- An accepted block is solved through the last branch exactly when the challenge is the script
hash of a witness program of version 1 or later, and the solution shows the program. -/
theorem not_solvedByUpgrade_iff (hgenesis : block.header.blockHash ≠ params.genesisHash) :
    (@checkSignetBlockSolution _ nativeVerifier block params = .ok () →
        ¬ SolvedByUpgrade block params.consensus.signetChallenge) ↔
      ∀ scriptSig witness, block.solution = some (scriptSig, witness) →
        ¬ IsWrappedUpgrade scriptSig params.consensus.signetChallenge := by
  constructor
  · intro h scriptSig witness hsolution hwrapped
    obtain ⟨hok, hsolved⟩ := solvedByUpgrade_of_isWrappedUpgrade hgenesis hsolution hwrapped
    exact h hok hsolved
  · rintro h hok ⟨txs, input, hnew, hinputs, hsucceeds⟩
    have hne : params.consensus.signetChallenge ≠ [] := by
      intro hnil
      unfold checkSignetBlockSolution at hok
      simp [hgenesis, hnil] at hok
    rw [checkSignetBlockSolution_eq hgenesis hne hnew, verifySolutionScript_eq_ok hinputs] at hok
    obtain ⟨⟨e, herror⟩, -⟩ | ⟨txs', outpoint, sig, items, hnew', hinputs', -, hsome⟩ :=
      new_cases block params.consensus.signetChallenge
    · rw [hnew] at herror
      cases herror
    · obtain rfl := Except.ok.inj (hnew.symm.trans hnew')
      rw [hinputs, List.cons.injEq] at hinputs'
      obtain ⟨rfl, -⟩ := hinputs'
      exact h _ _ hsome ((succeedsByUpgrade_signet_iff hok.1).mp hsucceeds)

end Challenge

namespace Sample

/-- A witness program of version 2. -/
def futureProgram : List UInt8 := [0x52, 0x02, 0x01, 0x01]

/-- The RIPEMD-160 hash of the SHA-256 hash of the program. -/
def futureHash : List.Vector UInt8 20 :=
  ⟨[0xe7, 0x7c, 0xb0, 0xe1, 0xab, 0xd5, 0xf3, 0xd6, 0xd6, 0x4f, 0xbc, 0xb0, 0x28, 0xbf, 0x8f, 0xde,
    0x6f, 0xef, 0x46, 0xa7], rfl⟩

/-- Hash functions for a script that hashes nothing but the program. -/
@[reducible]
def futureLegacyHash : LegacyHash := ⟨fun _ => futureHash, fun _ => List.Vector.replicate 20 0⟩

/-- A signet whose challenge is the script hash of the program. -/
def wrappedParams : ChainParams :=
  { signetParams with
    consensus := { signetParams.consensus with
      signetChallenge := [0xa9, 0x14] ++ futureHash.toList ++ [0x87] } }

/-- A block that shows the program. -/
def wrappedBlock : Block :=
  solvedBlock ([0x0b] ++ signetHeader ++ [0x05, 0x04] ++ futureProgram ++ [0x00]) 1

lemma isWrappedUpgrade_wrappedParams :
    @IsWrappedUpgrade _ futureLegacyHash (0x04 :: futureProgram)
      wrappedParams.consensus.signetChallenge :=
  ⟨futureProgram, ⟨2, [0x01, 0x01]⟩, by decide, by decide, by decide, rfl, rfl⟩

set_option maxRecDepth 100000 in
lemma blockHash_wrappedBlock : wrappedBlock.header.blockHash ≠ wrappedParams.genesisHash := by
  decide +kernel

/-- A block whose solution is empty does not pass in this way. -/
theorem not_solvedByUpgrade_directSolution :
    ¬ (@checkSignetBlockSolution _ (@nativeVerifier _ futureLegacyHash _)
        (solvedBlock directSolution 1) wrappedParams = .ok () ∧
      @SolvedByUpgrade _ futureLegacyHash _ (solvedBlock directSolution 1)
        wrappedParams.consensus.signetChallenge) := by
  have hgenesis : (solvedBlock directSolution 1).header.blockHash ≠ wrappedParams.genesisHash :=
    blockHash_wrappedBlock
  have hsolution : (solvedBlock directSolution 1).solution = some ([], []) := rfl
  rintro ⟨hok, hsolved⟩
  refine (@not_solvedByUpgrade_iff _ futureLegacyHash _ _ _ hgenesis).mpr ?_ hok hsolved
  rintro scriptSig witness heq ⟨redeem, _, _, _, _, hpush, _⟩
  rw [hsolution, Option.some.injEq, Prod.mk.injEq] at heq
  have hnil : pushData redeem = [] := hpush.symm.trans heq.1.symm
  unfold pushData at hnil
  dsimp only at hnil
  split_ifs at hnil
  all_goals simp at hnil

/-- The block is accepted, and nothing was checked but that the program is behind the challenge. -/
theorem wrappedBlock_solvedByUpgrade :
    wrappedBlock.header.blockHash ≠ wrappedParams.genesisHash ∧
      isPayToScriptHash wrappedParams.consensus.signetChallenge = .ok true ∧
      @checkSignetBlockSolution _ (@nativeVerifier _ futureLegacyHash _) wrappedBlock
        wrappedParams = .ok () ∧
      @SolvedByUpgrade _ futureLegacyHash _ wrappedBlock
        wrappedParams.consensus.signetChallenge := by
  have hsolution : wrappedBlock.solution = some (0x04 :: futureProgram, []) := rfl
  exact ⟨blockHash_wrappedBlock, by decide,
    @solvedByUpgrade_of_isWrappedUpgrade _ futureLegacyHash _ _ _ _ _ blockHash_wrappedBlock
      hsolution isWrappedUpgrade_wrappedParams⟩

end Sample

end Bitcrab
