import PeercoinFormal.Codec.Decoder
import PeercoinFormal.Serialize.CompactSize
import PeercoinFormal.Serialize.VarInt
import PeercoinFormal.Primitives.Transaction
import PeercoinFormal.Primitives.TransactionFormat
import PeercoinFormal.Primitives.Block
import PeercoinFormal.Coins.Compressor
import PeercoinFormal.Coins.Coin
import PeercoinFormal.Script.SigHash
import PeercoinFormal.Ledger.Store
import PeercoinFormal.Ledger.Result
import PeercoinFormal.Coins.View
import PeercoinFormal.Chain.BlockIndex
import PeercoinFormal.Validation.Context
import PeercoinFormal.Validation.ContextualChecks
import PeercoinFormal.Validation.TxVerify
import PeercoinFormal.Validation.CheckBlock
import PeercoinFormal.Validation.ConnectBlock
import PeercoinFormal.Validation.BlockChecked
import PeercoinFormal.Validation.DisconnectBlock
import PeercoinFormal.Validation.MoneySupply
import PeercoinFormal.Sorting.Unstable
import PeercoinFormal.Kernel.StakeModifier
import PeercoinFormal.Pow.AsertAnchor
import PeercoinFormal.Radix.Digits
import PeercoinFormal.Util.StrEncodings
import PeercoinFormal.Util.MoneyStr
import PeercoinFormal.Encoding.Base58
import PeercoinFormal.Chain.Params
import PeercoinFormal.Kernel.KernelModifier
import PeercoinFormal.Arith.Compact
import PeercoinFormal.Numeric.Fixed
import PeercoinFormal.Pow.Asert
import PeercoinFormal.Pow.Target
import PeercoinFormal.Arith.BigNum
import PeercoinFormal.Numeric.Bisection
import PeercoinFormal.Pow.Reward
import PeercoinFormal.Validation.HeaderTime
import PeercoinFormal.Kernel.ProofOfStake
import PeercoinFormal.Sorting.Scan
import PeercoinFormal.Kernel.ComputeStakeModifier
import PeercoinFormal.Ledger.Overlay
import PeercoinFormal.Coins.Cache
import PeercoinFormal.Coins.CacheSound
import PeercoinFormal.Coins.CacheRefinement
import PeercoinFormal.Encoding.Bech32
import PeercoinFormal.Encoding.KeyIO
import PeercoinFormal.Ledger.SortedMap
import PeercoinFormal.Net.BlockWait
import PeercoinFormal.Net.BlockHandler
import PeercoinFormal.Script.ScriptNum
import PeercoinFormal.Pow.SuperMajority
import PeercoinFormal.Chain.SkipList
import PeercoinFormal.Mining.BlockAssembler
import PeercoinFormal.Wallet.Maturity
import PeercoinFormal.Memory.Slots
import PeercoinFormal.Container.Prevector
import PeercoinFormal.Container.PrevectorSpec
import PeercoinFormal.Container.PrevectorRefinement
import PeercoinFormal.Merkle.Levels
import PeercoinFormal.Validation.Merkle
