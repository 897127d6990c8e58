import PeercoinFormal.Pow.AsertAnchor

/-!
# kernel/chainparams.cpp: consensus parameters

The consensus parameters that the stake kernel and the target computations
read.  The 256-bit limits are kept as the numbers `UintToArith256` makes of
them.  Signet's constructor sets none of the spacing, age and interval
fields, so it has no entry here.
-/

set_option autoImplicit false

namespace Peercoin.Chain

open Peercoin.Pow

structure ConsensusParams where
  powLimit : Nat
  bnInitialHashTarget : Nat
  nTargetTimespan : Int
  nStakeTargetSpacing : Int
  nTargetSpacingWorkMax : Int
  nStakeMinAge : Int
  nStakeMaxAge : Int
  nModifierInterval : Int
  fPowNoRetargeting : Bool

/-- `CMainParams`. -/
def mainParams : ConsensusParams where
  powLimit := 2 ^ 224 - 1
  bnInitialHashTarget := 2 ^ 216 - 1
  nTargetTimespan := 7 * 24 * 60 * 60
  nStakeTargetSpacing := 10 * 60
  nTargetSpacingWorkMax := 12 * (10 * 60)
  nStakeMinAge := 60 * 60 * 24 * 30
  nStakeMaxAge := 60 * 60 * 24 * 90
  nModifierInterval := 6 * 60 * 60
  fPowNoRetargeting := false

/-- `CTestNetParams`. -/
def testNetParams : ConsensusParams where
  powLimit := 2 ^ 228 - 1
  bnInitialHashTarget := 2 ^ 227 - 1
  nTargetTimespan := 7 * 24 * 60 * 60
  nStakeTargetSpacing := 10 * 60
  nTargetSpacingWorkMax := 12 * (10 * 60)
  nStakeMinAge := 60 * 60 * 24
  nStakeMaxAge := 60 * 60 * 24 * 90
  nModifierInterval := 60 * 20
  fPowNoRetargeting := false

/-- `CRegTestParams`. -/
def regTestParams : ConsensusParams where
  powLimit := 2 ^ 255 - 1
  bnInitialHashTarget := 2 ^ 227 - 1
  nTargetTimespan := 7 * 24 * 60 * 60
  nStakeTargetSpacing := 10 * 60
  nTargetSpacingWorkMax := 12 * (10 * 60)
  nStakeMinAge := 60 * 60 * 24
  nStakeMaxAge := 60 * 60 * 24 * 90
  nModifierInterval := 60 * 20
  fPowNoRetargeting := true

/-- The parameters of a network, where its constructor sets them. -/
def Params : ChainType → Option ConsensusParams
  | .MAIN => some mainParams
  | .TESTNET => some testNetParams
  | .SIGNET => none
  | .REGTEST => some regTestParams

end Peercoin.Chain
