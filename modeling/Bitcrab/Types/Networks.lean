import Bitcrab.Types.Params

/-!
# Test networks (`common/types/networks`)

The parameters of the default signet and of testnet3.
-/

namespace Bitcrab

/-- `Genesis::signet`: the message, the output and the reward are those of the other networks. -/
def Genesis.signet : Genesis :=
  { Genesis.regtest with
    timestamp := 1598918400
    bits := 0x1e0377ae
    nonce := 52613770 }

/-- `signet_params`. -/
def signetParams [Sha2] : ChainParams where
  genesisHeader := Genesis.signet.build.header
  consensus := {
    bip34Height := 1
    segwitHeight := 1
    powLimit := ⟨⟨List.replicate 27 0 ++ [0xae, 0x77, 0x03, 0x00, 0x00], by simp⟩⟩
    powTargetSpacing := 600
    powTargetTimespan := 14 * 24 * 60 * 60
    powNoRetargeting := false
    fPowAllowMinDifficultyBlocks := false
    nSubsidyHalvingInterval := 210000
    defaultAssumeValid :=
      ⟨⟨[0x29, 0xc3, 0xf5, 0x1f, 0xa0, 0x08, 0xb9, 0x93, 0xd4, 0xda, 0x9d, 0xf2, 0x6a, 0xf1, 0xe9,
         0xf9, 0x4c, 0xc5, 0xac, 0x1a, 0x3f, 0xf9, 0x2e, 0x09, 0x61, 0xab, 0x4a, 0x41, 0x08, 0x00,
         0x00, 0x00], rfl⟩⟩
    signetBlocks := true
    signetChallenge :=
      [0x51, 0x21, 0x03, 0xad, 0x5e, 0x0e, 0xda, 0xd1, 0x8c, 0xb1, 0xf0, 0xfc, 0x0d, 0x28, 0xa3,
       0xd4, 0xf1, 0xf3, 0xe4, 0x45, 0x64, 0x03, 0x37, 0x48, 0x9a, 0xbb, 0x10, 0x40, 0x4f, 0x2d,
       0x1e, 0x08, 0x6b, 0xe4, 0x30, 0x21, 0x03, 0x59, 0xef, 0x50, 0x21, 0x96, 0x4f, 0xe2, 0x2d,
       0x6f, 0x8e, 0x05, 0xb2, 0x46, 0x3c, 0x95, 0x40, 0xce, 0x96, 0x88, 0x3f, 0xe3, 0xb2, 0x78,
       0x76, 0x0f, 0x04, 0x8f, 0x51, 0x89, 0xf2, 0xe6, 0xc4, 0x52, 0xae] }

/-- `Genesis::testnet3`. -/
def Genesis.testnet3 : Genesis :=
  { Genesis.regtest with
    timestamp := 1296688602
    bits := 0x1d00ffff
    nonce := 414098458 }

/-- `testnet3_params`. -/
def testnet3Params [Sha2] : ChainParams where
  genesisHeader := Genesis.testnet3.build.header
  consensus := {
    bip34Height := 21111
    segwitHeight := 834624
    powLimit := ⟨⟨List.replicate 28 0xff ++ [0x00, 0x00, 0x00, 0x00], by simp⟩⟩
    powTargetSpacing := 600
    powTargetTimespan := 14 * 24 * 60 * 60
    powNoRetargeting := false
    fPowAllowMinDifficultyBlocks := true
    nSubsidyHalvingInterval := 210000
    defaultAssumeValid :=
      ⟨⟨[0xf4, 0x67, 0x5b, 0x50, 0xa6, 0x2f, 0x7d, 0x98, 0xf8, 0xf2, 0xfa, 0xc1, 0x7a, 0xe3,
         0x0d, 0x13, 0xa0, 0xe5, 0xb5, 0xb6, 0x5c, 0xac, 0x28, 0x0b, 0x23, 0xe4, 0x61, 0x7a,
         0x00, 0x00, 0x00, 0x00], rfl⟩⟩
    signetBlocks := false
    signetChallenge := [] }

end Bitcrab
