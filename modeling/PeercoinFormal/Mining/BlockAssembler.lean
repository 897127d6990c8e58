import PeercoinFormal.Validation.HeaderTime

/-!
# miner.cpp: the timestamps of a proof-of-stake template

`CreateNewBlock` with a wallet puts the coinstake the wallet found after the
coinbase, fills the block from the mempool with transactions no later than
the adjusted time, and sets the header time three times: to the coinstake's
time, then to at least one past the parent's median time and every
transaction's time, then to at least the parent's time less the drift.  The
second assignment overwrites the first, so a mempool transaction later than
the coinstake takes the block past it, and only `TestBlockValidity`, on in
the options the minter runs with, keeps such a template from being returned:
`CreateNewBlock` throws instead.  A template it returns has the coinstake's
time under protocol v0.3, is later than the parent's median time, within the
drift of the parent, and no earlier than any of its transactions.
-/

set_option autoImplicit false

namespace Peercoin.Mining

open Peercoin.Primitives Peercoin.Chain Peercoin.Validation Peercoin.Pow Ledger

/-- `BlockAssembler::Options`, the field the model reads. -/
structure Options where
  test_block_validity : Bool

/-- The options of `BlockAssembler(chainstate, mempool)`: `ApplyArgsManOptions`
reads only `-blockmaxweight`, and `test_block_validity` keeps its default. -/
def ConfiguredOptions : Options where
  test_block_validity := true

/-- What `CreateNewBlock` reads to assemble a template on `pindexPrev`. -/
structure BlockAssembler where
  ctx : Context
  sha256 : List UInt8 → uint256
  network : ChainType
  pindexPrev : CBlockIndex
  ancestors : List CBlockIndex
  m_options : Options
  /-- `GetAdjustedTime()` once the coinstake search is over. -/
  nAdjustedTime : UInt32
  /-- `IsFinalTx` at the new height and the parent's median time. -/
  IsFinalTx : CTransaction → Bool
  /-- The checks of `TestBlockValidity` that read no timestamp: the header's
  target and version, `ContextualCheckBlock` and `ConnectBlock`. -/
  OtherChecks : CBlock → Except String Unit

/-- `CBlock::GetMaxTransactionTime`. -/
def GetMaxTransactionTime (vtx : List CTransaction) : Int :=
  vtx.foldl (fun maxTransactionTime tx => max maxTransactionTime tx.nTime.toNat) 0

/-- `CTxOut::SetEmpty` on the first output. -/
def SetFirstEmpty : List CTxOut → List CTxOut
  | [] => []
  | _ :: vout => ⟨0, []⟩ :: vout

/-- The coinbase of a proof-of-stake block: its output emptied, its time the
coinstake's. -/
def StakeCoinbase (coinbaseTx : CTransaction) (nTime : UInt32) : CTransaction :=
  { coinbaseTx with vout := SetFirstEmpty coinbaseTx.vout, nTime := nTime }

namespace BlockAssembler

variable (assembler : BlockAssembler)

/-- The drift a block may lag its parent, by the protocol in force at `nTime`. -/
def MaxFutureBlockTime (nTime : UInt32) : Nat :=
  if IsProtocolV09 assembler.network nTime then MAX_FUTURE_BLOCK_TIME else MAX_FUTURE_BLOCK_TIME_PREV9

/-- The test `CreateNewBlock` puts the coinstake to: "make sure coinstake
would meet timestamp protocol as it would be the same as the block timestamp". -/
def CoinStakeTimely (nTime : UInt32) : Bool :=
  decide (max (GetMedianTimePast (assembler.pindexPrev :: assembler.ancestors) + 1)
    (assembler.pindexPrev.GetBlockTime - assembler.MaxFutureBlockTime assembler.pindexPrev.nTime) ≤
      nTime.toNat)

/-- `TestPackageTransactions` for one transaction, against the block time `nTime`. -/
def TestPackageTransaction (nTime : UInt32) (tx : CTransaction) : Bool :=
  assembler.IsFinalTx tx && !(tx.nTime > assembler.nAdjustedTime || (nTime != 0 && tx.nTime > nTime))

/-- The header time of the filled template: at least one past the parent's
median time and every transaction's time, stored in 32 bits, then at least
the parent's time less the drift.  The coinstake's time it is set to first
is overwritten before it is read. -/
def FillHeaderTime (vtx : List CTransaction) : UInt32 :=
  let nTime := UInt32.ofNat (max (GetMedianTimePast (assembler.pindexPrev :: assembler.ancestors) + 1)
    (GetMaxTransactionTime vtx)).toNat
  UInt32.ofNat (max (nTime.toNat : Int)
    (assembler.pindexPrev.GetBlockTime - assembler.MaxFutureBlockTime assembler.pindexPrev.nTime)).toNat

/-- `TestBlockValidity` of the template with its timestamp checks modelled:
the header's against the parent and the adjusted time, then `CheckBlock`
without proof of work and merkle root. -/
def TestBlockValidity (block : CBlock) : Except String Unit := do
  CheckHeaderTime assembler.network block.nTime assembler.pindexPrev assembler.ancestors
  rejectIf (block.nTime.toNat > assembler.nAdjustedTime.toNat + assembler.MaxFutureBlockTime block.nTime)
    "time-too-new"
  CheckBlock assembler.ctx assembler.sha256 block false false true
  assembler.OtherChecks block

/-- `BlockAssembler::CreateNewBlock` with a wallet, from the block and
coinbase it starts with, the coinstake the wallet's search built (`none` when
the search did not run or found none) and the mempool.  `.ok none` is the
`nullptr` of a cancelled proof-of-stake attempt, `.error` the
`runtime_error` of a failed `TestBlockValidity`.  Package selection is not
modelled: every mempool transaction that passes `TestPackageTransactions` is
taken. -/
def CreateNewBlock (block : CBlock) (coinbaseTx : CTransaction) (coinStake : Option CTransaction)
    (mempool : List CTransaction) : Except String (Option CBlock) :=
  match coinStake with
  | none => .ok none
  | some txCoinStake =>
    if !assembler.CoinStakeTimely txCoinStake.nTime then .ok none
    else
      let coinbaseTx := StakeCoinbase coinbaseTx txCoinStake.nTime
      let nTime := assembler.nAdjustedTime
      let vtx := coinbaseTx :: txCoinStake :: mempool.filter (assembler.TestPackageTransaction nTime)
      let block := { block with
        vtx := vtx
        nFlags := CBlockIndex.BLOCK_PROOF_OF_STAKE
        hashPrevBlock := assembler.pindexPrev.phashBlock
        nTime := assembler.FillHeaderTime vtx
        nNonce := 0 }
      if assembler.m_options.test_block_validity then
        match assembler.TestBlockValidity block with
        | .ok () => .ok (some block)
        | .error e => .error ("CreateNewBlock: TestBlockValidity failed: " ++ e)
      else .ok (some block)

end BlockAssembler

/-! ## The largest transaction time -/

theorem foldl_max_ge_init (vtx : List CTransaction) (init : Int) :
    init ≤ vtx.foldl (fun maxTransactionTime tx => max maxTransactionTime tx.nTime.toNat) init := by
  induction vtx generalizing init with
  | nil => exact le_refl init
  | cons tx vtx ih => exact le_trans (le_max_left _ _) (ih _)

theorem le_GetMaxTransactionTime {vtx : List CTransaction} {tx : CTransaction} (member : tx ∈ vtx) :
    (tx.nTime.toNat : Int) ≤ GetMaxTransactionTime vtx := by
  unfold GetMaxTransactionTime
  generalize (0 : Int) = init
  induction vtx generalizing init with
  | nil => cases member
  | cons head vtx ih =>
    rcases List.mem_cons.mp member with rfl | later
    · exact le_trans (le_max_right _ _) (foldl_max_ge_init vtx _)
    · exact ih later _

theorem GetMaxTransactionTime_bounds (vtx : List CTransaction) :
    0 ≤ GetMaxTransactionTime vtx ∧ GetMaxTransactionTime vtx < 2 ^ 32 := by
  unfold GetMaxTransactionTime
  refine ⟨foldl_max_ge_init vtx 0, ?_⟩
  generalize zero : (0 : Int) = init
  have start : init < 2 ^ 32 := by omega
  clear zero
  induction vtx generalizing init with
  | nil => exact start
  | cons tx vtx ih =>
    apply ih
    dsimp only
    have small := tx.nTime.toNat_lt
    omega

namespace BlockAssembler

variable (assembler : BlockAssembler)

/-- A header time later than the parent's median time did not wrap when it
was stored, so it is no earlier than any transaction. -/
theorem FillHeaderTime_covers {vtx : List CTransaction}
    (later : GetMedianTimePast (assembler.pindexPrev :: assembler.ancestors) <
      (assembler.FillHeaderTime vtx).toNat)
    {tx : CTransaction} (member : tx ∈ vtx) :
    tx.nTime.toNat ≤ (assembler.FillHeaderTime vtx).toNat := by
  have txLe := le_GetMaxTransactionTime member
  obtain ⟨maxNonneg, maxLt⟩ := GetMaxTransactionTime_bounds vtx
  have prevLt := assembler.pindexPrev.nTime.toNat_lt
  unfold FillHeaderTime CBlockIndex.GetBlockTime at later ⊢
  generalize GetMedianTimePast (assembler.pindexPrev :: assembler.ancestors) = median at later ⊢
  generalize GetMaxTransactionTime vtx = largest at txLe maxNonneg maxLt later ⊢
  generalize assembler.MaxFutureBlockTime assembler.pindexPrev.nTime = drift at later ⊢
  -- both stores into 32 bits: the first wraps only if the median time is the largest time
  rw [UInt32.toNat_ofNat', UInt32.toNat_ofNat'] at later ⊢
  omega

/-- What a template that passed `TestBlockValidity` has: the header's
timestamp rules and `CheckBlock`. -/
theorem TestBlockValidity_ok {block : CBlock} (tested : assembler.TestBlockValidity block = .ok ()) :
    GetMedianTimePast (assembler.pindexPrev :: assembler.ancestors) < block.nTime.toNat ∧
      assembler.pindexPrev.GetBlockTime ≤ block.nTime.toNat + assembler.MaxFutureBlockTime block.nTime ∧
      CheckBlock assembler.ctx assembler.sha256 block false false true = .ok () := by
  unfold TestBlockValidity at tested
  obtain ⟨⟨⟩, header, tested⟩ := bind_eq_ok.mp tested
  obtain ⟨⟨⟩, -, tested⟩ := bind_eq_ok.mp tested
  obtain ⟨⟨⟩, checked, -⟩ := bind_eq_ok.mp tested
  unfold CheckHeaderTime at header
  rw [rejectIf_eq_ok] at header
  simp only [Bool.or_eq_false_iff, decide_eq_false_iff_not, Int.not_le, Int.not_lt] at header
  refine ⟨header.1, ?_, checked⟩
  unfold MaxFutureBlockTime
  omega

/-- Every way `CreateNewBlock` returns a template: from a timely coinstake,
after the coinbase given it, with the header time filled in, and past
`TestBlockValidity` when the options ask for it. -/
theorem CreateNewBlock_eq_some {start : CBlock} {coinbaseTx : CTransaction}
    {coinStake : Option CTransaction} {mempool : List CTransaction} {block : CBlock}
    (made : assembler.CreateNewBlock start coinbaseTx coinStake mempool = .ok (some block)) :
    ∃ txCoinStake, coinStake = some txCoinStake ∧ assembler.CoinStakeTimely txCoinStake.nTime = true ∧
      (∃ selected, block.vtx = StakeCoinbase coinbaseTx txCoinStake.nTime :: txCoinStake :: selected) ∧
      block.nTime = assembler.FillHeaderTime block.vtx ∧
      (assembler.m_options.test_block_validity = true → assembler.TestBlockValidity block = .ok ()) := by
  unfold CreateNewBlock at made
  cases coinStake with
  | none => cases made
  | some txCoinStake =>
    dsimp only at made
    by_cases timely : assembler.CoinStakeTimely txCoinStake.nTime = true
    · rw [if_neg (by simp [timely])] at made
      refine ⟨txCoinStake, rfl, timely, ?_⟩
      by_cases validity : assembler.m_options.test_block_validity = true
      · rw [if_pos validity] at made
        split at made
        · rename_i tested
          cases made
          exact ⟨⟨_, rfl⟩, rfl, fun _ => tested⟩
        · cases made
      · rw [if_neg validity] at made
        cases made
        exact ⟨⟨_, rfl⟩, rfl, fun on => absurd on validity⟩
    · rw [if_pos (by simpa using timely)] at made
      cases made

/-- A timely coinstake is later than the parent's median time, so its time
is not zero. -/
theorem CoinStakeTimely_pos {nTime : UInt32} (timely : assembler.CoinStakeTimely nTime = true) :
    0 < nTime.toNat := by
  have median := GetMedianTimePast_mem (List.cons_ne_nil assembler.pindexPrev assembler.ancestors)
  obtain ⟨entry, -, medianIs⟩ := List.mem_map.mp median
  have nonneg : 0 ≤ GetMedianTimePast (assembler.pindexPrev :: assembler.ancestors) := by
    rw [← medianIs, CBlockIndex.GetBlockTime]
    exact Int.natCast_nonneg _
  simp only [CoinStakeTimely, decide_eq_true_eq, max_le_iff] at timely
  omega

end BlockAssembler

/-- `CheckBlock` holds a proof-of-stake block to its coinstake's timestamp. -/
theorem CheckBlock_coinstake_time {ctx : Context} {sha256 : List UInt8 → uint256} {block : CBlock}
    {fCheckPOW fCheckMerkleRoot fCheckSignature : Bool}
    (checked : CheckBlock ctx sha256 block fCheckPOW fCheckMerkleRoot fCheckSignature = .ok ())
    {coinbase coinstake : CTransaction} {rest : List CTransaction}
    (vtxIs : block.vtx = coinbase :: coinstake :: rest) (stake : block.IsProofOfStake = true) :
    CheckCoinStakeTimestamp ctx block.nTime (timeOr coinstake.nTime block.nTime) = true := by
  unfold CheckBlock at checked
  obtain ⟨⟨⟩, -, checked⟩ := bind_eq_ok.mp checked
  obtain ⟨⟨⟩, -, checked⟩ := bind_eq_ok.mp checked
  obtain ⟨⟨⟩, -, checked⟩ := bind_eq_ok.mp checked
  obtain ⟨⟨⟩, shape, -⟩ := bind_eq_ok.mp checked
  simp only [CheckBlockTransactions, vtxIs, CheckCoinbase] at shape
  obtain ⟨⟨⟩, -, shape⟩ := bind_eq_ok.mp shape
  obtain ⟨⟨⟩, -, shape⟩ := bind_eq_ok.mp shape
  obtain ⟨⟨⟩, -, shape⟩ := bind_eq_ok.mp shape
  obtain ⟨⟨⟩, -, shape⟩ := bind_eq_ok.mp shape
  obtain ⟨⟨⟩, -, shape⟩ := bind_eq_ok.mp shape
  obtain ⟨⟨⟩, timely, -⟩ := bind_eq_ok.mp shape
  simpa [stake] using rejectIf_eq_ok.mp timely

namespace BlockAssembler

variable (assembler : BlockAssembler)

/-- Past `CheckBlock`, a template holds its coinstake's time under v0.3: the
coinstake's time is not zero, so it is the time `CheckBlock` tests. -/
theorem TestBlockValidity_coinstake_time {block : CBlock} {coinbase txCoinStake : CTransaction}
    {selected : List CTransaction} (tested : assembler.TestBlockValidity block = .ok ())
    (vtxIs : block.vtx = coinbase :: txCoinStake :: selected) (stake : block.IsProofOfStake = true)
    (timely : assembler.CoinStakeTimely txCoinStake.nTime = true)
    (v03 : assembler.ctx.IsProtocolV03 txCoinStake.nTime = true) : block.nTime = txCoinStake.nTime := by
  have agrees := CheckBlock_coinstake_time (assembler.TestBlockValidity_ok tested).2.2 vtxIs stake
  have nonzero : txCoinStake.nTime ≠ 0 := by
    intro zero
    have positive := assembler.CoinStakeTimely_pos timely
    rw [zero] at positive
    exact absurd positive (by decide)
  rw [timeOr, if_pos nonzero, CheckCoinStakeTimestamp, if_pos v03] at agrees
  exact beq_iff_eq.mp agrees

/-- A mempool transaction that passes the package test but is later than a
v0.3 coinstake takes the header time past the coinstake's, and with the
validity test on `CreateNewBlock` throws. -/
theorem CreateNewBlock_newer_tx_throws (validity : assembler.m_options.test_block_validity = true)
    (start : CBlock) (coinbaseTx : CTransaction) {txCoinStake : CTransaction}
    (timely : assembler.CoinStakeTimely txCoinStake.nTime = true)
    (stake : txCoinStake.IsCoinStake = true) (v03 : assembler.ctx.IsProtocolV03 txCoinStake.nTime = true)
    {mempool : List CTransaction} {tx : CTransaction} (member : tx ∈ mempool)
    (passes : assembler.TestPackageTransaction assembler.nAdjustedTime tx = true)
    (newer : txCoinStake.nTime < tx.nTime) :
    ∃ e, assembler.CreateNewBlock start coinbaseTx (some txCoinStake) mempool = .error e := by
  unfold CreateNewBlock
  dsimp only
  rw [if_neg (by simp [timely]), if_pos validity]
  split
  · -- a template that passed would be timed both at and after the coinstake
    rename_i tested
    exfalso
    have later := (assembler.TestBlockValidity_ok tested).1
    have atStake := assembler.TestBlockValidity_coinstake_time tested rfl
      (by simp [CBlock.IsProofOfStake, stake]) timely v03
    have covered := assembler.FillHeaderTime_covers later
      (List.mem_cons_of_mem _ (List.mem_cons_of_mem _ (List.mem_filter.mpr ⟨member, passes⟩)))
    dsimp only at atStake covered
    rw [atStake] at covered
    have below := UInt32.lt_iff_toNat_lt.mp newer
    omega
  · exact ⟨_, rfl⟩

end BlockAssembler

end Peercoin.Mining
