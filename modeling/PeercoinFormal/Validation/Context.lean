import PeercoinFormal.Coins.View
import PeercoinFormal.Chain.BlockIndex

/-!
# What the validation model takes as given

`Context` collects the functions that block validation calls and this model
does not open: the network's switch times, proof of work, the merkle root and
block signatures, the stake kernel, the stake modifier and its checkpoints,
the reward schedules, scripts, lock times and sigop counts.  Each field
stands for the function of the same name in the source, with the arguments
it reads there; every result about validation holds for every `Context`.
-/

set_option autoImplicit false

namespace Peercoin.Validation

open Peercoin.Primitives Peercoin.Coins Peercoin.Chain

structure Context where
  hashGenesisBlock : uint256
  nCoinbaseMaturity : Nat
  IsProtocolV03 : UInt32 → Bool
  IsProtocolV07 : UInt32 → Bool
  IsProtocolV09 : UInt32 → Bool
  /-- Applied to the time of the entry `ConnectBlock` passes it. -/
  IsProtocolV12 : UInt32 → Bool
  IsBTC16BIPsEnabled : UInt32 → Bool
  CheckProofOfWork : uint256 → UInt32 → Bool
  CheckMerkleRoot : CBlock → Bool
  CheckBlockSignature : CBlock → Bool
  GetLegacySigOpCount : CTransaction → Nat
  GetProofOfWorkReward : UInt32 → UInt32 → Int
  /-- The coinstake's hash proof from the parent entry, or `none` when the
  kernel check fails. -/
  CheckProofOfStake : Option CBlockIndex → CTransaction → UInt32 → UInt32 → Option uint256
  GetStakeEntropyBit : CBlock → UInt32
  ComputeNextStakeModifier : CBlockIndex → Option (UInt64 × Bool)
  GetStakeModifierChecksum : CBlockIndex → UInt32
  CheckStakeModifierCheckpoints : Nat → UInt32 → Bool
  GetCoinAge : CTransaction → CCoinsViewCache → UInt32 → Option Nat
  GetProofOfStakeReward : Nat → UInt32 → Int → Int
  SequenceLocks : CTransaction → List Nat → Bool
  GetTransactionSigOpCost : CTransaction → CCoinsViewCache → Nat
  /-- The script checks of one transaction, failing with their reject reason. -/
  CheckInputScripts : CTransaction → CCoinsViewCache → Except String Unit

end Peercoin.Validation
