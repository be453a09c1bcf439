import Bitcrab.Lib.Bytes
import Bitcrab.Lib.Budget
import Bitcrab.Lib.Sha256
import Bitcrab.Wire.Encode
import Bitcrab.Wire.Decode
import Bitcrab.Types.Hash
import Bitcrab.Types.Amount
import Bitcrab.Lib.PairFold
import Bitcrab.Types.Transaction
import Bitcrab.Types.Block
import Bitcrab.Types.Codec
import Bitcrab.Types.Canonical
import Bitcrab.Types.Params
import Bitcrab.Types.Networks
import Bitcrab.Script.Basic
import Bitcrab.Lib.Result
import Bitcrab.Lib.Outcome
import Bitcrab.Script.Opcode
import Bitcrab.Script.ScriptOps
import Bitcrab.Script.Sig
import Bitcrab.Script.Sighash
import Bitcrab.Script.Checker
import Bitcrab.Script.StackOps
import Bitcrab.Script.Interpreter
import Bitcrab.Script.SoftFork
import Bitcrab.Script.StackSafety
import Bitcrab.Script.Limits
import Bitcrab.Script.ParseSafety
import Bitcrab.Script.CheckerSafety
import Bitcrab.Script.Safety
import Bitcrab.Consensus.Pow
import Bitcrab.Consensus.Signet
import Bitcrab.Consensus.Engine
import Bitcrab.Consensus.NativeEngine
import Bitcrab.Lib.HashMap
import Bitcrab.Storage.Db
import Bitcrab.Storage.Backends
import Bitcrab.Storage.BlockFile
import Bitcrab.Storage.BlockManager
import Bitcrab.Storage.BlockRecords
import Bitcrab.Storage.FileCalls
import Bitcrab.Storage.PersistedRecords
import Bitcrab.Storage.UndoScan
import Bitcrab.Storage.BlockIndexes
import Bitcrab.Storage.ActorLoop
import Bitcrab.Consensus.Coins
import Bitcrab.Consensus.Flush
import Bitcrab.Consensus.CoinsRefinement
import Bitcrab.Lib.Writes
import Bitcrab.Lib.Run
import Bitcrab.Consensus.CacheWrites
import Bitcrab.Consensus.Validation
import Bitcrab.Consensus.CoinbaseHeight
import Bitcrab.Consensus.CheckBlock
import Bitcrab.Consensus.ConnectBlock
import Bitcrab.Consensus.Undo
import Bitcrab.Consensus.WitnessCommitment
import Bitcrab.Consensus.FailedConnect
import Bitcrab.Consensus.Accounting
import Bitcrab.Consensus.Merkle
import Bitcrab.Node.Headers
import Bitcrab.Node.Chainstate
import Bitcrab.Node.System
import Bitcrab.Node.IndexInvariant
import Bitcrab.Node.ChainInvariant
import Bitcrab.Node.CrashConsistency
import Bitcrab.Node.HashChain
import Bitcrab.Node.AssumeValid
import Bitcrab.Node.ActiveTip
import Bitcrab.Node.HeaderCalls
import Bitcrab.Node.HeaderBatches
import Bitcrab.Node.StoreSteps
import Bitcrab.Node.HeaderIndex
import Bitcrab.Node.HeadersTip
import Bitcrab.Node.Retarget
import Bitcrab.Node.HeadersOneByOne
import Bitcrab.Node.StoredBlocks
import Bitcrab.Node.HeaderAnswers
import Bitcrab.Node.HeaderChain
import Bitcrab.Net.HeaderSync
import Bitcrab.Lib.Counters
import Bitcrab.Net.SyncManager
import Bitcrab.Net.BlockDownloader
import Bitcrab.Lib.Framer
import Bitcrab.Net.Codec
import Bitcrab.Net.Messages
import Bitcrab.Net.ReadLoop
import Bitcrab.Net.Reservations
import Bitcrab.Net.Address
import Bitcrab.Net.AddrMan
import Bitcrab.Net.Connections
import Bitcrab.Net.Registry
import Bitcrab.Net.GhostPeers
import Bitcrab.Net.Bans
import Bitcrab.Net.Retries
import Bitcrab.Net.Load
import Bitcrab.Net.InboundLimit
import Bitcrab.Net.OutboundQuotas
import Bitcrab.Net.Handshake
import Bitcrab.Net.SelfConnection
import Bitcrab.Net.NonceLeaks
import Bitcrab.Lib.OrderedMatching
import Bitcrab.Script.Multisig
import Bitcrab.Script.Segments
import Bitcrab.Script.MultisigScriptCode
import Bitcrab.Lib.PrefixCode
import Bitcrab.Script.MultisigReference
import Bitcrab.Script.SighashMessages
import Bitcrab.Script.CodeSeparators
import Bitcrab.Script.TaprootHashTypes
import Bitcrab.Script.SighashCommitments
import Bitcrab.Net.AddrManStore
import Bitcrab.Consensus.Spends
import Bitcrab.Script.SighashFreedom
import Bitcrab.Script.UntakenBranches
import Bitcrab.Script.ScriptHashes
import Bitcrab.Script.SigopsBudget
import Bitcrab.Script.NumEncoding
import Bitcrab.Consensus.SignetSection
import Bitcrab.Consensus.BaseEncoding
import Bitcrab.Consensus.SignetCommitment
import Bitcrab.Script.WrappedPrograms
import Bitcrab.Consensus.SignetChallenge
import Bitcrab.Lib.Truncation
import Bitcrab.Lib.Limbs
import Bitcrab.Lib.ShiftSubtract
import Bitcrab.Lib.While
import Bitcrab.Types.CompactTarget
import Bitcrab.Types.CompactForms
import Bitcrab.Consensus.RetargetBounds
import Bitcrab.Consensus.BlockWork
import Bitcrab.Consensus.MinDifficulty
import Bitcrab.Lib.Loop
import Bitcrab.Types.BlockLocator
import Bitcrab.Node.Ledger
import Bitcrab.Lib.Epochs
import Bitcrab.Node.VerifiedScripts
import Bitcrab.Node.Supply
import Bitcrab.Node.SpentOnce
import Bitcrab.Lib.Lease
import Bitcrab.Net.HeaderRequests
import Bitcrab.Script.KeyOutputs
import Bitcrab.Script.MultisigOutputs
import Bitcrab.Node.KeySpends
import Bitcrab.Net.DownloadBlacklist
import Bitcrab.Net.Penalties
import Bitcrab.Consensus.ReadBack
import Bitcrab.Node.Rpc
import Bitcrab.Node.BlockTip
import Bitcrab.Node.LocatorAncestry
import Bitcrab.Lib.DistinctList
import Bitcrab.Node.DownloadWindow
import Bitcrab.Node.InFlightHeights
import Bitcrab.Net.AddressGroups
import Bitcrab.Consensus.MerkleLoops
import Bitcrab.Types.Weight
import Bitcrab.Script.SignatureHash
import Bitcrab.Script.InstructionParser
import Bitcrab.Script.DeletedPushes
import Bitcrab.Lib.Der
import Bitcrab.Lib.MerkleProof
import Bitcrab.Script.DerSignatures
import Bitcrab.Script.TaprootTrees
import Bitcrab.Lib.SignMagnitude
import Bitcrab.Script.SignedNumbers
import Bitcrab.Consensus.WideArithmetic
