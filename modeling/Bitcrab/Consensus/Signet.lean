import Bitcrab.Script.Basic
import Bitcrab.Types.Params

/-!
# Signet block solutions (`consensus/signet.rs`)

The script interpreter and the external consensus library are parameters here: block validation
uses nothing of them but whether they accept.
-/

namespace Bitcrab

open Bytes

/-- The two script verifiers block validation can call. -/
class ScriptVerifier where
  /-- `bitcrab_script::verify_script` with a signature checker for input `index` of `tx`, which
  spends `spentOutputs[index]`. -/
  verifyScript : (scriptSig scriptPubkey : List UInt8) → (witness : List (List UInt8)) →
    VerifyFlags → (tx : Transaction) → (index : Nat) → (spentOutputs : List TxOut) →
    Except ScriptError Unit
  /-- `bitcoinconsensus::verify_with_flags`, if the `core-reference` feature is compiled. -/
  verifyWithFlags : Option ((scriptPubkey : List UInt8) → (value : UInt64) →
    (rawTx : List UInt8) → (spentOutputs : List TxOut) → (index : Nat) → (flags : UInt32) → Bool)

/-- `SignetError`; the formatted messages of a malformed solution are kept as their parts. -/
inductive SignetError where
  | challengeMissing
  | noCoinbase
  | missingWitnessCommitment
  | malformedSolution (part : String) (cause : Option DecodeError)
  | unsupportedChallenge (reason : String)
  | scriptFailed (error : ScriptError)
  deriving Repr, DecidableEq

/-- `SIGNET_HEADER`. -/
def signetHeader : List UInt8 := [0xec, 0xc7, 0xda, 0xa2]

/-- `MINIMUM_WITNESS_COMMITMENT`. -/
def minimumWitnessCommitment : Nat := 38

/-- `WITNESS_COMMITMENT_PREFIX`. -/
def witnessCommitmentPrefix : List UInt8 := [0x6a, 0x24, 0xaa, 0x21, 0xa9, 0xed]

/-- The test `get_witness_commitment_index` makes on an output script. -/
def isWitnessCommitment (script : List UInt8) : Bool :=
  script.length ≥ minimumWitnessCommitment && script.take 6 = witnessCommitmentPrefix

/-- The search of `get_witness_commitment_index` on the outputs from index `i` on; the last match
wins. -/
def lastWitnessCommitment : Nat → List TxOut → Option Nat
  | _, [] => none
  | i, output :: outputs =>
    match lastWitnessCommitment (i + 1) outputs with
    | some j => some j
    | none => if isWitnessCommitment output.scriptPubkey.bytes then some i else none

/-- `get_witness_commitment_index`. -/
def getWitnessCommitmentIndex (coinbase : Transaction) : Option Nat :=
  lastWitnessCommitment 0 coinbase.outputs

/-- `merkle_root`. -/
def merkleRoot [Sha2] (hashes : List Hash256) : Hash256 :=
  if hashes.isEmpty then Digest.zero
  else PairFold.root hashPair Digest.zero hashes

/-- `compute_modified_merkle_root`. -/
def computeModifiedMerkleRoot [Sha2] (block : Block) (modifiedCoinbase : Transaction) : Hash256 :=
  merkleRoot (⟨modifiedCoinbase.txid.bytes⟩ ::
    (block.transactions.drop 1).map fun tx => ⟨tx.txid.bytes⟩)

/-- The loop of `fetch_and_clear_commitment_section` on the rest of the script. A malformed push
ends it, and the bytes from there on are not copied. -/
def clearCommitmentSection (header : List UInt8) :
    Nat → List UInt8 → Option (List UInt8) → List UInt8 → Option (List UInt8) × List UInt8
  | 0, _, sect, modified => (sect, modified)
  | _, [], sect, modified => (sect, modified)
  | fuel + 1, opcode :: rest, sect, modified =>
    if opcode > 0x4e then
      clearCommitmentSection header fuel rest sect (modified ++ [opcode])
    else
      let sizeLen :=
        if opcode = 0x4c then 1 else if opcode = 0x4d then 2 else if opcode = 0x4e then 4 else 0
      if rest.length < sizeLen then (sect, modified)
      else
        let len := if opcode ≤ 75 then opcode.toNat else ofLeBytes (rest.take sizeLen)
        if rest.length < sizeLen + len then (sect, modified)
        else
          let data := (rest.drop sizeLen).take len
          let next := rest.drop (sizeLen + len)
          if sect.isNone && len > header.length && header.isPrefixOf data then
            clearCommitmentSection header fuel next (some (data.drop header.length))
              (modified ++ UInt8.ofNat header.length :: header)
          else
            clearCommitmentSection header fuel next sect
              (modified ++ opcode :: rest.take sizeLen ++ data)

/-- `fetch_and_clear_commitment_section`: every round consumes a byte of the script. -/
def fetchAndClearCommitmentSection (header script : List UInt8) :
    Option (List UInt8) × List UInt8 :=
  clearCommitmentSection header script.length script none []

/-- `parse_signet_solution`. -/
def parseSignetSolution (data : List UInt8) :
    Except SignetError (List UInt8 × List (List UInt8)) := do
  let (scriptSig, d) ← ((Decoder.new data).readVarbytes "signet_scriptSig").mapError
    fun e => SignetError.malformedSolution "scriptSig" (some e)
  let (witness, d) ← (d.readVarList (List UInt8) "signet_witness").mapError
    fun e => SignetError.malformedSolution "witness" (some e)
  if !d.isDone then
    throw (.malformedSolution "extraneous data after solution" none)
  return (scriptSig, witness)

/-- `SignetTxs`: the two virtual transactions of a signet block. -/
structure SignetTxs where
  toSpend : Transaction
  toSign : Transaction

/-- The virtual transaction whose output the solution spends. -/
def signetToSpend [Sha2] (block : Block) (modifiedCoinbase : Transaction)
    (challenge : List UInt8) : Transaction :=
  let blockData := encode block.header.version ++ encode block.header.prevHash ++
    encode (computeModifiedMerkleRoot block modifiedCoinbase) ++ encode block.header.time
  { version := 0
    inputs := [⟨OutPoint.coinbase, ⟨0x00 :: pushData blockData⟩, 0, []⟩]
    outputs := [⟨Amount.zero, ⟨challenge⟩⟩]
    lockTime := 0 }

/-- `SignetTxs::new`. -/
def SignetTxs.new [Sha2] (block : Block) (challenge : List UInt8) :
    Except SignetError SignetTxs := do
  let coinbase ← match block.transactions with
    | [] => throw SignetError.noCoinbase
    | tx :: _ => pure tx
  if !coinbase.isCoinbase then
    throw .noCoinbase
  match getWitnessCommitmentIndex coinbase with
  | none => throw .missingWitnessCommitment
  | some cidx =>
    let output := coinbase.outputs.getD cidx ⟨Amount.zero, default⟩
    let (solution, modifiedCommitment) :=
      fetchAndClearCommitmentSection signetHeader output.scriptPubkey.bytes
    let modifiedCoinbase := { coinbase with
      outputs := coinbase.outputs.set cidx { output with scriptPubkey := ⟨modifiedCommitment⟩ } }
    -- a missing section stands for a trivial challenge
    let (scriptSig, witness) ← match solution with
      | some bytes => parseSignetSolution bytes
      | none => pure ([], [])
    let toSpend := signetToSpend block modifiedCoinbase challenge
    return {
      toSpend
      toSign := {
        version := 0
        inputs := [⟨⟨toSpend.txid, 0⟩, ⟨scriptSig⟩, 0, witness⟩]
        outputs := [⟨Amount.zero, ⟨[0x6a]⟩⟩]
        lockTime := 0 } }

/-- `is_unsupported_challenge`. -/
def isUnsupportedChallenge (challenge : List UInt8) : Bool :=
  match parseWitnessProgram challenge with
  | none => false
  | some program =>
    if program.version = 0 then false
    else if program.version = 1 then program.program.length != 32
    else true

/-- `verify_solution_script`. -/
def verifySolutionScript [ScriptVerifier] (txs : SignetTxs) (challenge : List UInt8) :
    Except SignetError Unit := do
  if isUnsupportedChallenge challenge then
    throw (.unsupportedChallenge "challenge is a v1+ witness program (taproot)")
  let flags := VerifyFlags.p2sh ||| VerifyFlags.dersig ||| VerifyFlags.nulldummy |||
    VerifyFlags.witness ||| VerifyFlags.taproot
  match txs.toSign.inputs with
  | [] => pure ()
  | input :: _ =>
    (ScriptVerifier.verifyScript input.scriptSig.bytes challenge input.witness flags txs.toSign 0
      txs.toSpend.outputs).mapError .scriptFailed

/-- `check_signet_block_solution`. -/
def checkSignetBlockSolution [Sha2] [ScriptVerifier] (block : Block) (params : ChainParams) :
    Except SignetError Unit := do
  if block.header.blockHash = params.genesisHash then
    return ()
  let challenge := params.consensus.signetChallenge
  if challenge.isEmpty then
    throw .challengeMissing
  let txs ← SignetTxs.new block challenge
  verifySolutionScript txs challenge

/-! ### The witness commitment output -/

/-- The last output found is one of the outputs and is a commitment. -/
lemma lastWitnessCommitment_spec {outputs : List TxOut} {i j : Nat}
    (h : lastWitnessCommitment i outputs = some j) :
    ∃ output, outputs[j - i]? = some output ∧ i ≤ j ∧
      isWitnessCommitment output.scriptPubkey.bytes := by
  induction outputs generalizing i with
  | nil => simp [lastWitnessCommitment] at h
  | cons out outs ih =>
    simp only [lastWitnessCommitment] at h
    split at h
    · rename_i j' hrest
      obtain rfl : j' = j := by simpa using h
      obtain ⟨output, hget, hle, hcommit⟩ := ih hrest
      refine ⟨output, ?_, by omega, hcommit⟩
      have hsub : j' - i = j' - (i + 1) + 1 := by omega
      rw [hsub, List.getElem?_cons_succ]
      exact hget
    · split_ifs at h with hcommit
      obtain rfl : i = j := by simpa using h
      exact ⟨out, by simp, le_rfl, hcommit⟩

end Bitcrab
