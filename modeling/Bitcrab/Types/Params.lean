import Bitcrab.Types.Block

/-!
# Coins, undo data and chain parameters

`common/types/coin.rs`, `common/types/undo.rs`, `common/types/params.rs`,
`common/types/genesis.rs` and `common/types/networks/regtest.rs`. Only the parameters that the
modelled code reads are kept; the networks are values of `ChainParams`.
-/

namespace Bitcrab

open Bytes

/-! ### Coins and undo data -/

/-- `Coin`: an unspent output and where it was created. -/
structure Coin where
  output : TxOut
  height : BlockHeight
  isCoinbase : Bool
  deriving DecidableEq

instance : BitcoinEncode Coin :=
  ⟨fun c => encode c.height ++ encode c.isCoinbase ++ encode c.output⟩

instance : BitcoinDecode Coin where
  decode d := do
    let (height, d) ← decode d
    let (isCoinbase, d) ← decode d
    let (output, d) ← decode d
    return (⟨output, height, isCoinbase⟩, d)

/-- A coin whose script is within the allocation limit is read back. -/
lemma roundTrips_coin {c : Coin} (h : c.output.scriptPubkey.bytes.length ≤ maxWireAllocation) :
    RoundTrips c := by
  intro pos suffix
  have h1 := roundTrips_uint32 c.height
  have h2 := roundTrips_bool c.isCoinbase
  have h3 := roundTrips_txOut h
  simp only [RoundTrips, Reads] at h1 h2 h3
  have e : encode c = encode c.height ++ encode c.isCoinbase ++ encode c.output := rfl
  simp only [e, List.append_assoc]
  unfold decode instBitcoinDecodeCoin
  simp only [h1, h2, h3, bind, Except.bind, pure, Except.pure]
  simp [Nat.add_assoc]

/-- `BlockUndo`: the coins spent by a block, in order of consumption. -/
structure BlockUndo where
  spentCoins : List Coin
  deriving DecidableEq

instance : BitcoinEncode BlockUndo := ⟨fun u => encodeVarList u.spentCoins⟩

instance : BitcoinDecode BlockUndo where
  decode d := do
    let (spentCoins, d) ← d.readVarList Coin "BlockUndo"
    return (⟨spentCoins⟩, d)

/-! ### Chain parameters -/

/-- `ConsensusParams`. -/
structure ConsensusParams where
  bip34Height : UInt32
  segwitHeight : UInt32
  powLimit : Hash256
  powTargetSpacing : UInt64
  powTargetTimespan : UInt64
  powNoRetargeting : Bool
  fPowAllowMinDifficultyBlocks : Bool
  nSubsidyHalvingInterval : UInt32
  defaultAssumeValid : BlockHash
  signetBlocks : Bool
  signetChallenge : List UInt8

/-- `ChainParams`. -/
structure ChainParams where
  genesisHeader : BlockHeader
  consensus : ConsensusParams

/-- `ChainParams::genesis_hash`. -/
def ChainParams.genesisHash [Sha2] (params : ChainParams) : BlockHash :=
  params.genesisHeader.blockHash

/-! ### Genesis blocks -/

/-- `Genesis`; the message is given by its bytes. -/
structure Genesis where
  version : Int32
  timestamp : UInt32
  bits : UInt32
  nonce : UInt32
  message : List UInt8
  outputScript : ScriptBuf
  reward : Amount

/-- The coinbase transaction of `Genesis::build`. -/
def Genesis.coinbaseTx (g : Genesis) : Transaction where
  version := 1
  inputs := [{
    previousOutput := OutPoint.coinbase
    scriptSig := ⟨0x04 :: leBytes 4 486604799 ++ [0x01, 0x04] ++
      UInt8.ofNat g.message.length :: g.message⟩
    sequence := 0xFFFFFFFF
    witness := [] }]
  outputs := [⟨g.reward, g.outputScript⟩]
  lockTime := 0

/-- `Genesis::build`. -/
def Genesis.build [Sha2] (g : Genesis) : Block :=
  let header : BlockHeader := {
    version := g.version
    prevHash := Digest.zero
    merkleRoot := Digest.zero
    time := g.timestamp
    bits := g.bits
    nonce := g.nonce }
  let block : Block := ⟨header, [g.coinbaseTx]⟩
  { block with header := { header with merkleRoot := block.computeMerkleRoot } }

/-- `Genesis::regtest`. -/
def Genesis.regtest : Genesis where
  version := 1
  timestamp := 1296688602
  bits := 0x207fffff
  nonce := 2
  -- "The Times 03/Jan/2009 Chancellor on brink of second bailout for banks"
  message :=
    [0x54, 0x68, 0x65, 0x20, 0x54, 0x69, 0x6d, 0x65, 0x73, 0x20, 0x30, 0x33, 0x2f, 0x4a, 0x61,
     0x6e, 0x2f, 0x32, 0x30, 0x30, 0x39, 0x20, 0x43, 0x68, 0x61, 0x6e, 0x63, 0x65, 0x6c, 0x6c,
     0x6f, 0x72, 0x20, 0x6f, 0x6e, 0x20, 0x62, 0x72, 0x69, 0x6e, 0x6b, 0x20, 0x6f, 0x66, 0x20,
     0x73, 0x65, 0x63, 0x6f, 0x6e, 0x64, 0x20, 0x62, 0x61, 0x69, 0x6c, 0x6f, 0x75, 0x74, 0x20,
     0x66, 0x6f, 0x72, 0x20, 0x62, 0x61, 0x6e, 0x6b, 0x73]
  outputScript :=
    ⟨[0x41, 0x04, 0x67, 0x8a, 0xfd, 0xb0, 0xfe, 0x55, 0x48, 0x27, 0x19, 0x67, 0xf1, 0xa6, 0x71,
       0x30, 0xb7, 0x10, 0x5c, 0xd6, 0xa8, 0x28, 0xe0, 0x39, 0x09, 0xa6, 0x79, 0x62, 0xe0, 0xea,
       0x1f, 0x61, 0xde, 0xb6, 0x49, 0xf6, 0xbc, 0x3f, 0x4c, 0xef, 0x38, 0xc4, 0xf3, 0x55, 0x04,
       0xe5, 0x1e, 0xc1, 0x12, 0xde, 0x5c, 0x38, 0x4d, 0xf7, 0xba, 0x0b, 0x8d, 0x57, 0x8a, 0x4c,
       0x70, 0x2b, 0x6b, 0xf1, 0x1d, 0x5f, 0xac]⟩
  reward := ⟨5000000000⟩

/-- `regtest_params`. -/
def regtestParams [Sha2] : ChainParams where
  genesisHeader := Genesis.regtest.build.header
  consensus := {
    bip34Height := 100
    segwitHeight := 0
    powLimit := ⟨⟨List.replicate 31 0xff ++ [0x7f], by simp⟩⟩
    powTargetSpacing := 600
    powTargetTimespan := 14 * 24 * 60 * 60
    powNoRetargeting := true
    fPowAllowMinDifficultyBlocks := true
    nSubsidyHalvingInterval := 150
    defaultAssumeValid :=
      ⟨⟨[0x5c, 0xe1, 0xde, 0xb6, 0x34, 0x57, 0x71, 0xd9, 0x95, 0x05, 0xa3, 0x89, 0xe7, 0x48, 0x0f,
         0xc6, 0x79, 0x5b, 0xeb, 0x43, 0x60, 0x12, 0xaf, 0xca, 0x59, 0x0b, 0x1a, 0x11, 0x46, 0x6e,
         0x22, 0x06], rfl⟩⟩
    signetBlocks := false
    signetChallenge := [] }

end Bitcrab
