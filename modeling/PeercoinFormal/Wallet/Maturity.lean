import PeercoinFormal.Chain.BlockIndex
import PeercoinFormal.Arith.Compact

/-!
# wallet.cpp: the depth and maturity of wallet transactions

`GetTxDepthInMainChain` counts the depth of a confirmed transaction in stake
heights: the active tip's `nHeightStake`, less that of the block the wallet
recorded, plus one.  For a block on the active chain this is at least one,
and a coinbase or coinstake the wallet calls mature has as many blocks over
it as `CheckTxInputs` asks.

The wallet learns of blocks through queued notifications, while the depth
reads the node's active chain as it is.  After a reorganisation to a chain
with fewer proof-of-stake blocks, and before the wallet has handled the
`blockDisconnected` of the old blocks, a coinbase confirmed in an old block
has a negative depth, and `GetTxBlocksToMaturity` fails its assertion.
-/

set_option autoImplicit false

namespace Peercoin.Wallet

open Peercoin.Primitives Peercoin.Chain

/-- Where the wallet last saw a transaction. -/
inductive TxState
  | Confirmed (confirmed_block_hash : uint256)
  | Conflicted (conflicting_block_hash : uint256)
  | Inactive
  deriving DecidableEq

structure CWalletTx where
  tx : CTransaction
  state : TxState
  deriving DecidableEq

/-- What the wallet reads of the node: the block index and the active chain. -/
structure NodeView where
  LookupBlockIndex : uint256 → Option CBlockIndex
  chain : CChain

/-- `CChain::HeightStake`: the tip's stake height, 0 for an empty chain. -/
def HeightStake (chain : CChain) : Nat :=
  match chain.vChain.getLast? with
  | some tip => tip.nHeightStake
  | none => 0

/-- Reading the entry `LookupBlockIndex` returns for a hash. -/
def NodeView.Deref (node : NodeView) (hash : uint256) : Except String CBlockIndex :=
  match node.LookupBlockIndex hash with
  | some pindex => .ok pindex
  | none => .error "null CBlockIndex dereferenced"

/-- `CWallet::GetTxDepthInMainChain`. -/
def GetTxDepthInMainChain (node : NodeView) (wtx : CWalletTx) : Except String Int :=
  match wtx.state with
  | .Confirmed hash =>
    (node.Deref hash).map fun pindex => (HeightStake node.chain : Int) - pindex.nHeightStake + 1
  | .Conflicted hash =>
    (node.Deref hash).map fun pindex => -1 * ((HeightStake node.chain : Int) - pindex.nHeightStake + 1)
  | .Inactive => .ok 0

/-- `CWallet::GetTxBlocksToMaturity`; an `.error` is a failed assertion or a
null entry read. -/
def GetTxBlocksToMaturity (nCoinbaseMaturity : Nat) (node : NodeView) (wtx : CWalletTx) :
    Except String Int :=
  if !(wtx.tx.IsCoinBase || wtx.tx.IsCoinStake) then .ok 0
  else
    match GetTxDepthInMainChain node wtx with
    | .error e => .error e
    | .ok chain_depth =>
      -- coinbase tx should not be conflicted
      if !wtx.tx.IsCoinStake && chain_depth < 0 then .error "assertion failed: chain_depth >= 0"
      else .ok (max 0 ((nCoinbaseMaturity + 1 : Int) - chain_depth))

/-- The validation-interface notifications the wallet handles, with what
it reads of them. -/
inductive ChainNotification
  | blockConnected (hash : uint256) (vtx : List CTransaction)
  | blockDisconnected (vtx : List CTransaction)

/-- `CWallet::blockConnected` and `blockDisconnected` on the transactions the
wallet holds: `SyncTransaction` of each transaction of the block as confirmed
in it, or as inactive. -/
def SyncNotification (wallet : List CWalletTx) : ChainNotification → List CWalletTx
  | .blockConnected hash vtx =>
    wallet.map fun wtx => if wtx.tx ∈ vtx then { wtx with state := .Confirmed hash } else wtx
  | .blockDisconnected vtx =>
    wallet.map fun wtx => if wtx.tx ∈ vtx then { wtx with state := .Inactive } else wtx

/-- The wallet after handling the notifications in the order they were queued. -/
def SyncNotifications (wallet : List CWalletTx) (queue : List ChainNotification) : List CWalletTx :=
  queue.foldl SyncNotification wallet

/-! ## On the active chain -/

section ActiveChain

variable {node : NodeView} {wtx : CWalletTx} {hash : uint256} {pindex : CBlockIndex}

/-- The depth of a transaction confirmed in a block on the active chain, and
how many blocks are over that block. -/
theorem GetTxDepthInMainChain_active (linked : HeightsLinked node.chain.vChain.reverse)
    (confirmed : wtx.state = .Confirmed hash) (found : node.LookupBlockIndex hash = some pindex)
    (active : pindex ∈ node.chain.vChain) :
    ∃ tip above, node.chain.vChain.getLast? = some tip ∧
      GetTxDepthInMainChain node wtx = .ok ((tip.nHeightStake : Int) - pindex.nHeightStake + 1) ∧
      tip.nHeight = pindex.nHeight + above ∧ pindex.nHeightStake ≤ tip.nHeightStake ∧
      tip.nHeightStake ≤ pindex.nHeightStake + above := by
  obtain ⟨above, inChain, entry⟩ := List.getElem_of_mem (List.mem_reverse.mpr active)
  have nonempty : node.chain.vChain.reverse ≠ [] := List.ne_nil_of_mem (List.mem_reverse.mpr active)
  obtain ⟨tip, tipIs⟩ : ∃ tip, node.chain.vChain.getLast? = some tip :=
    Option.isSome_iff_exists.mp (by simpa [List.getLast?_isSome] using nonempty)
  have headIs : node.chain.vChain.reverse[0]? = some tip := by
    rw [← List.head?_eq_getElem?, List.head?_reverse, tipIs]
  obtain ⟨headIn, head⟩ := List.getElem?_eq_some_iff.mp headIs
  have heights := linked.nHeight_getElem above inChain
  have tipHeight := linked.nHeight_getElem 0 headIn
  have stakes := linked.nHeightStake_getElem above inChain
  rw [entry, head] at stakes
  rw [entry] at heights
  rw [head] at tipHeight
  refine ⟨tip, above, tipIs, ?_, by omega, stakes.1, stakes.2⟩
  simp only [GetTxDepthInMainChain, confirmed, NodeView.Deref, found, HeightStake, tipIs]
  rfl

/-- A transaction confirmed in a block on the active chain has depth at
least one. -/
theorem GetTxDepthInMainChain_pos (linked : HeightsLinked node.chain.vChain.reverse)
    (confirmed : wtx.state = .Confirmed hash) (found : node.LookupBlockIndex hash = some pindex)
    (active : pindex ∈ node.chain.vChain) :
    ∃ depth, GetTxDepthInMainChain node wtx = .ok depth ∧ 1 ≤ depth := by
  obtain ⟨tip, above, -, depth, -, below, -⟩ := GetTxDepthInMainChain_active linked confirmed found active
  exact ⟨_, depth, by omega⟩

/-- A coinbase or coinstake that the wallet calls mature, in a block on the
active chain, passes the maturity test of `CheckTxInputs` in the next block:
each block adds at most one to the stake height, so the stake depth the
wallet counts is at most the depth in blocks. -/
theorem mature_not_premature (nCoinbaseMaturity : Nat) (linked : HeightsLinked node.chain.vChain.reverse)
    (generated : (wtx.tx.IsCoinBase || wtx.tx.IsCoinStake) = true)
    (confirmed : wtx.state = .Confirmed hash) (found : node.LookupBlockIndex hash = some pindex)
    (active : pindex ∈ node.chain.vChain) (mature : GetTxBlocksToMaturity nCoinbaseMaturity node wtx = .ok 0) :
    ∃ tip, node.chain.vChain.getLast? = some tip ∧
      ¬ (((tip.nHeight + 1 : Nat) : Int) - pindex.nHeight < nCoinbaseMaturity) := by
  obtain ⟨tip, above, tipIs, depth, heights, -, stakes⟩ :=
    GetTxDepthInMainChain_active linked confirmed found active
  refine ⟨tip, tipIs, ?_⟩
  unfold GetTxBlocksToMaturity at mature
  rw [depth, if_neg (by simp [generated])] at mature
  dsimp only at mature
  split at mature
  · cases mature
  · -- no blocks to go: the stake depth is past the maturity
    injection mature with wallet
    omega

end ActiveChain

/-! ## A reorganisation the wallet has not caught up with -/

/-- `GetBlockTrust` (chain.cpp): a staked block's trust grows as its target
shrinks; a mined block's is one. -/
def GetBlockTrust (block : CBlockIndex) : Nat :=
  let (bnTarget, fNegative, fOverflow) := Arith.SetCompact block.nBits
  if fNegative || fOverflow || bnTarget == 0 then 0
  else if block.IsProofOfStake then (2 ^ 256 - 1 - bnTarget) / (bnTarget + 1) + 1 else 1

/-- The `nChainTrust` of a chain's tip: the trust of all its blocks. -/
def ChainTrust (chain : List CBlockIndex) : Nat := (chain.map GetBlockTrust).sum

/-- An entry of the fixtures, with `hash` as its hash and the easiest target. -/
def fixtureEntry (hash height stakeHeight : Nat) (stake : Bool) : CBlockIndex :=
  { CBlockIndex.ofHeader ⟨5, uint256.ZERO, uint256.ZERO, 0, 0x2100ffff, 0, if stake then 1 else 0⟩ with
    phashBlock := uint256.ofLowByte (UInt8.ofNat hash)
    nHeight := height
    nHeightStake := stakeHeight }

/-- Genesis, two staked blocks and a mined one whose coinbase pays the wallet. -/
def oldChain : List CBlockIndex :=
  [fixtureEntry 0 0 0 false, fixtureEntry 1 1 1 true, fixtureEntry 2 2 2 true,
    fixtureEntry 3 3 2 false]

/-- Genesis and four mined blocks, with more trust than `oldChain`. -/
def newChain : List CBlockIndex :=
  [fixtureEntry 0 0 0 false, fixtureEntry 11 1 0 false, fixtureEntry 12 2 0 false,
    fixtureEntry 13 3 0 false, fixtureEntry 14 4 0 false]

/-- The wallet's coinbase, mined in the last block of `oldChain`. -/
def minedCoinbase : CTransaction := ⟨[default], [⟨50, [0x51]⟩], 1, 0, 0⟩

/-- The node after switching to `newChain`, with every entry in its index. -/
def reorgNode : NodeView where
  LookupBlockIndex hash := (oldChain ++ newChain).find? fun entry => entry.phashBlock == hash
  chain := ⟨newChain⟩

/-- The wallet's coinbase after the notifications of `oldChain`'s blocks. -/
def syncedCoinbase : List CWalletTx :=
  SyncNotifications [⟨minedCoinbase, .Inactive⟩]
    (oldChain.map fun entry => .blockConnected entry.phashBlock
      (if entry.phashBlock = (fixtureEntry 3 3 2 false).phashBlock then [minedCoinbase] else []))

/-- The notifications of the switch, still queued: the old blocks
disconnected, the new ones connected. -/
def reorgQueue : List ChainNotification :=
  .blockDisconnected [minedCoinbase] :: .blockDisconnected [] :: .blockDisconnected [] ::
    (newChain.drop 1).map fun entry => .blockConnected entry.phashBlock []

/-- Both chains are linked and the node prefers `newChain` for its trust.
It has switched to it while the wallet still has the coinbase confirmed in
the old block: its depth is `-1`, and `GetTxBlocksToMaturity` fails its
assertion.  Once the queue is handled the coinbase is inactive and the call
answers. -/
theorem staleCoinbase_fails_maturity_assertion :
    HeightsLinked oldChain.reverse ∧ HeightsLinked newChain.reverse ∧
      ChainTrust oldChain < ChainTrust newChain ∧
      syncedCoinbase = [⟨minedCoinbase, .Confirmed (fixtureEntry 3 3 2 false).phashBlock⟩] ∧
      GetTxDepthInMainChain reorgNode
        ⟨minedCoinbase, .Confirmed (fixtureEntry 3 3 2 false).phashBlock⟩ = .ok (-1) ∧
      GetTxBlocksToMaturity 500 reorgNode
        ⟨minedCoinbase, .Confirmed (fixtureEntry 3 3 2 false).phashBlock⟩ =
          .error "assertion failed: chain_depth >= 0" ∧
      (SyncNotifications syncedCoinbase reorgQueue).map (GetTxBlocksToMaturity 500 reorgNode) =
        [.ok 501] := by
  refine ⟨?_, ?_, ?_, ?_, ?_, ?_, ?_⟩ <;> decide

end Peercoin.Wallet
