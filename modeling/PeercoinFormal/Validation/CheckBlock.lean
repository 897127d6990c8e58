import PeercoinFormal.Validation.TxVerify

/-!
# validation.cpp: CheckBlock

The context-free checks of a block, in the source's order, with each failure
under its reject reason.  Proof of work, the merkle root, the block
signature, sigop counting and the proof-of-work reward are the `Context`'s;
the block's place of the coinbase and coinstake, its timestamps, its
coinbase reward and the checks of every transaction are modelled.
-/

set_option autoImplicit false

namespace Peercoin.Validation

open Peercoin.Primitives Peercoin.Coins Ledger

def MAX_FUTURE_BLOCK_TIME_PREV9 : Nat := 2 * 60 * 60

def MAX_FUTURE_BLOCK_TIME : Nat := 15 * 60

def MAX_BLOCK_SIGOPS_COST : Nat := 80000

/-- `CheckCoinStakeTimestamp`. -/
def CheckCoinStakeTimestamp (ctx : Context) (nTimeBlock nTimeTx : UInt32) : Bool :=
  if ctx.IsProtocolV03 nTimeTx then nTimeBlock == nTimeTx
  else nTimeTx ≤ nTimeBlock && nTimeBlock.toNat ≤ nTimeTx.toNat + MAX_FUTURE_BLOCK_TIME_PREV9

/-- `tx.nTime ? tx.nTime : block.nTime`, the time the checks give a
transaction whose own time is zero. -/
def timeOr (nTimeTx nTimeBlock : UInt32) : UInt32 := if nTimeTx ≠ 0 then nTimeTx else nTimeBlock

/-- The checks of `CheckBlock` that read the coinbase `vtx[0]` and the
transactions after it. -/
def CheckCoinbase (ctx : Context) (block : CBlock) (coinbase : CTransaction)
    (rest : List CTransaction) : Except String Unit := do
  rejectIf (!coinbase.IsCoinBase) "bad-cb-missing"
  rejectIf (rest.any CTransaction.IsCoinBase) "bad-cb-multiple"
  rejectIf ((rest.drop 1).any CTransaction.IsCoinStake) "bad-cs-missing"
  rejectIf (block.IsProofOfStake && (coinbase.vout.head?.map CTxOut.IsEmpty) != some true)
    "bad-cb-notempty"
  let nMaxFuture := if ctx.IsProtocolV09 block.nTime then MAX_FUTURE_BLOCK_TIME
    else MAX_FUTURE_BLOCK_TIME_PREV9
  rejectIf (block.nTime.toNat > (timeOr coinbase.nTime block.nTime).toNat + nMaxFuture)
    "bad-cb-time"
  rejectIf (block.IsProofOfStake &&
      !CheckCoinStakeTimestamp ctx block.nTime
        (timeOr ((rest.head?.map CTransaction.nTime).getD 0) block.nTime))
    "bad-cs-time"
  let nMinFee := GetMinFee ctx.IsProtocolV07 coinbase block.nTime
  let nCoinbaseCost : Int :=
    if block.IsProofOfWork then
      if nMinFee < PERKB_TX_FEE.toInt then 0 else nMinFee - PERKB_TX_FEE.toInt
    else 0
  let nReward : Int :=
    if block.IsProofOfWork then ctx.GetProofOfWorkReward block.nBits block.nTime - nCoinbaseCost
    else 0
  rejectIf ((← coinbase.GetValueOut) > nReward) "bad-cb-amount"

/-- The checks of `CheckBlock` on the coinbase, `vtx[0]`, and the place of
the other transactions. -/
def CheckBlockTransactions (ctx : Context) (block : CBlock) : Except String Unit :=
  match block.vtx with
  | [] => throw "bad-cb-missing"
  | coinbase :: rest => CheckCoinbase ctx block coinbase rest

/-- `CheckBlock` on a block whose `fChecked` is clear; the flag, which the
calls on one block object share, is `BlockObject.CheckBlock`'s. -/
def CheckBlock (ctx : Context) (sha256 : List UInt8 → uint256) (block : CBlock)
    (fCheckPOW fCheckMerkleRoot fCheckSignature : Bool) : Except String Unit := do
  -- CheckBlockHeader, with the proof of work asked for only of proof-of-work blocks
  rejectIf (fCheckPOW && !block.IsProofOfStake &&
      !ctx.CheckProofOfWork (block.GetHash sha256) block.nBits) "high-hash"
  rejectIf (fCheckMerkleRoot && !ctx.CheckMerkleRoot block) "bad-txnmrklroot"
  rejectIf (block.vtx.isEmpty || block.vtx.length * WITNESS_SCALE_FACTOR > MAX_BLOCK_WEIGHT ||
      (SerializeBlock false false block).length * WITNESS_SCALE_FACTOR > MAX_BLOCK_WEIGHT)
    "bad-blk-length"
  CheckBlockTransactions ctx block
  -- the block-time check the source writes after the loop's early return never runs
  block.vtx.forM CheckTransaction
  rejectIf ((block.vtx.map ctx.GetLegacySigOpCount).sum * WITNESS_SCALE_FACTOR >
      MAX_BLOCK_SIGOPS_COST) "bad-blk-sigops"
  rejectIf (fCheckMerkleRoot && fCheckSignature &&
      (block.IsProofOfStake || !ctx.IsBTC16BIPsEnabled block.nTime) &&
      !ctx.CheckBlockSignature block) "bad-blk-sign"

/-! ## What a block that passes has -/

/-- The shape `CheckBlock` asks of a block's transactions: a coinbase first
and only there, each transaction well formed. -/
structure WellFormedTransactions (vtx : List CTransaction) : Prop where
  coinbase_first : ∃ coinbase rest, vtx = coinbase :: rest ∧ coinbase.IsCoinBase = true ∧
    ∀ tx ∈ rest, tx.IsCoinBase = false
  checked : ∀ tx ∈ vtx, CheckTransaction tx = .ok ()

theorem CheckCoinbase_ok {ctx : Context} {block : CBlock} {coinbase : CTransaction}
    {rest : List CTransaction} (checked : CheckCoinbase ctx block coinbase rest = .ok ()) :
    coinbase.IsCoinBase = true ∧ ∀ tx ∈ rest, tx.IsCoinBase = false := by
  unfold CheckCoinbase at checked
  obtain ⟨⟨⟩, isCoinBase, checked⟩ := bind_eq_ok.mp checked
  obtain ⟨⟨⟩, noOther, -⟩ := bind_eq_ok.mp checked
  refine ⟨by simpa using rejectIf_eq_ok.mp isCoinBase, fun tx member => ?_⟩
  have none := rejectIf_eq_ok.mp noOther
  simp only [List.any_eq_false] at none
  simpa using none tx member

theorem CheckBlock_ok {ctx : Context} {sha256 : List UInt8 → uint256} {block : CBlock}
    {fCheckPOW fCheckMerkleRoot fCheckSignature : Bool}
    (checked : CheckBlock ctx sha256 block fCheckPOW fCheckMerkleRoot fCheckSignature = .ok ()) :
    WellFormedTransactions block.vtx := by
  unfold CheckBlock at checked
  obtain ⟨⟨⟩, -, checked⟩ := bind_eq_ok.mp checked
  obtain ⟨⟨⟩, -, checked⟩ := bind_eq_ok.mp checked
  obtain ⟨⟨⟩, -, checked⟩ := bind_eq_ok.mp checked
  obtain ⟨⟨⟩, shape, checked⟩ := bind_eq_ok.mp checked
  obtain ⟨⟨⟩, each, -⟩ := bind_eq_ok.mp checked
  refine ⟨?_, forM_eq_ok.mp each⟩
  unfold CheckBlockTransactions at shape
  split at shape
  · cases shape
  · rename_i coinbase rest vtx
    obtain ⟨isCoinBase, others⟩ := CheckCoinbase_ok shape
    exact ⟨coinbase, rest, vtx, isCoinBase, others⟩

end Peercoin.Validation
