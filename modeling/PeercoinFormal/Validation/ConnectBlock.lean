import PeercoinFormal.Validation.CheckBlock
import PeercoinFormal.Validation.ContextualChecks

/-!
# validation.cpp: UpdateCoins and ConnectBlock

`UpdateCoins` moves the coins a transaction spends into its undo record and
adds its outputs; `ConnectBlock` runs the block's checks and then, for each
transaction in order, the value tallies, the input checks and
`UpdateCoins`, and finally writes the money supply, the mint and the stake
height into the block's index entry.

The model's `ConnectBlock` returns the view, the undo data written for the
block, the updated entry and `setStakeSeen`.  Writing the undo data to disk
is taken to succeed; the benchmark timers, log lines and the script-check
queue are left out, the queue's verdict being that of `CheckInputScripts`.
-/

set_option autoImplicit false

namespace Peercoin.Validation

open Peercoin.Primitives Peercoin.Coins Peercoin.Chain Ledger

structure CTxUndo where
  vprevout : List Coin

structure CBlockUndo where
  vtxundo : List CTxUndo

/-! ## UpdateCoins -/

/-- The input loop of `UpdateCoins`: each input's coin moves into the undo
record, in order; a `SpendCoin` that finds nothing trips `assert(is_spent)`. -/
def SpendInputs (inputs : CCoinsViewCache) : List CTxIn → Except String (List Coin × CCoinsViewCache)
  | [] => .ok ([], inputs)
  | txin :: vin =>
    match inputs.SpendCoin txin.prevout with
    | none => .error "assertion failed: is_spent"
    | some (coin, inputs) => do
      let (vprevout, inputs) ← SpendInputs inputs vin
      pure (coin :: vprevout, inputs)

/-- The first half of `UpdateCoins`: a coinbase spends nothing. -/
def SpendTransactionInputs (tx : CTransaction) (inputs : CCoinsViewCache) :
    Except String (List Coin × CCoinsViewCache) :=
  if tx.IsCoinBase then .ok ([], inputs) else SpendInputs inputs tx.vin

def UpdateCoins (sha256 : List UInt8 → uint256) (tx : CTransaction) (inputs : CCoinsViewCache)
    (nHeight : Nat) (skipZeroValue : Bool) : Except String (CTxUndo × CCoinsViewCache) := do
  let (vprevout, inputs) ← SpendTransactionInputs tx inputs
  let inputs ← AddCoins sha256 inputs tx nHeight false skipZeroValue
  pure (⟨vprevout⟩, inputs)

/-- The outpoints `UpdateCoins` spends: none for a coinbase. -/
def spentOutpoints (tx : CTransaction) : List COutPoint :=
  if tx.IsCoinBase then [] else tx.vin.map CTxIn.prevout

/-- The coins `UpdateCoins` adds for `tx` at height `nHeight`. -/
def txOutputEntries (sha256 : List UInt8 → uint256) (tx : CTransaction) (nHeight : Nat)
    (skipZeroValue : Bool) : List (COutPoint × Coin) :=
  outputEntries (tx.GetHash sha256) (coinOfOutput tx nHeight) skipZeroValue 0 tx.vout

theorem SpendInputs_ok {inputs inputs' : CCoinsViewCache} {vin : List CTxIn}
    {vprevout : List Coin} (run : SpendInputs inputs vin = .ok (vprevout, inputs')) :
    takeAll inputs.cacheCoins (vin.map CTxIn.prevout) = some (vprevout, inputs'.cacheCoins) ∧
      inputs'.hashBlock = inputs.hashBlock := by
  induction vin generalizing inputs vprevout with
  | nil =>
      cases run
      exact ⟨rfl, rfl⟩
  | cons txin vin ih =>
      unfold SpendInputs at run
      split at run
      · cases run
      · rename_i coin mid spent
        obtain ⟨found, erased, sameBlock⟩ := SpendCoin_eq_some spent
        obtain ⟨⟨rest, final⟩, restRun, done⟩ := bind_eq_ok.mp run
        cases done
        obtain ⟨taken, finalBlock⟩ := ih restRun
        refine ⟨?_, finalBlock.trans sameBlock⟩
        rw [erased] at taken
        simp only [List.map_cons, takeAll, found, taken, Option.map_some]

/-- Everything a successful `UpdateCoins` does to the coins: it takes out
the coins its inputs spend, returning them as the undo record, and puts in
its kept outputs, which for a transaction other than a coinbase found their
outpoints free. -/
theorem UpdateCoins_ok {sha256 : List UInt8 → uint256} {tx : CTransaction}
    {inputs inputs' : CCoinsViewCache} {nHeight : Nat} {skipZeroValue : Bool} {txundo : CTxUndo}
    (run : UpdateCoins sha256 tx inputs nHeight skipZeroValue = .ok (txundo, inputs')) :
    ∃ spent : Store COutPoint Coin,
      takeAll inputs.cacheCoins (spentOutpoints tx) = some (txundo.vprevout, spent) ∧
      inputs'.cacheCoins = insertAll spent (txOutputEntries sha256 tx nHeight skipZeroValue) ∧
      inputs'.hashBlock = inputs.hashBlock ∧
      (tx.IsCoinBase = false →
        (∀ entry ∈ txOutputEntries sha256 tx nHeight skipZeroValue, spent.lookup entry.1 = none) ∧
        ((txOutputEntries sha256 tx nHeight skipZeroValue).map Prod.fst).Nodup) := by
  unfold UpdateCoins at run
  obtain ⟨⟨vprevout, mid⟩, spendRun, run⟩ := bind_eq_ok.mp run
  obtain ⟨final, addRun, done⟩ := bind_eq_ok.mp run
  cases done
  obtain ⟨inserted, sameBlock, fresh⟩ := AddCoinsLoop_ok addRun
  unfold SpendTransactionInputs at spendRun
  by_cases coinbase : tx.IsCoinBase = true
  · rw [if_pos coinbase] at spendRun
    cases spendRun
    refine ⟨inputs.cacheCoins, by simp [spentOutpoints, coinbase, takeAll], inserted, sameBlock, ?_⟩
    intro notCoinbase
    rw [coinbase] at notCoinbase
    cases notCoinbase
  · rw [if_neg coinbase] at spendRun
    obtain ⟨taken, midBlock⟩ := SpendInputs_ok spendRun
    have notCoinbase : tx.IsCoinBase = false := by simpa using coinbase
    refine ⟨mid.cacheCoins, by simpa [spentOutpoints, notCoinbase] using taken, inserted,
      sameBlock.trans midBlock, fun _ => fresh notCoinbase⟩

/-! ## ConnectBlock -/

/-- The running state of the transaction loop of `ConnectBlock`. -/
structure ConnectState where
  view : CCoinsViewCache
  vtxundo : List CTxUndo
  nFees : Int
  nValueIn : Int
  nValueOut : Int
  nSigOpsCost : Nat

/-- The value of the coins a transaction's inputs spend, read from the view
as `ConnectBlock` does before `UpdateCoins`. -/
def ValueIn (view : CCoinsViewCache) (tx : CTransaction) : Int :=
  (tx.vin.map fun txin => (view.AccessCoin txin.prevout).out.value).sum

/-- The tallies and checks of the loop for a transaction other than a
coinbase. -/
def TallyTransaction (ctx : Context) (block : CBlock) (pindex : CBlockIndex)
    (nMoneySupplyPrev : Int) (state : ConnectState) (tx : CTransaction) :
    Except String ConnectState := do
  let txfee ← CheckTxInputs ctx tx state.view pindex.nHeight (timeOr tx.nTime block.nTime)
    nMoneySupplyPrev
  let nValueIn := state.nValueIn + ValueIn state.view tx
  let nValueOut := state.nValueOut + (← tx.GetValueOut)
  let nFees := if tx.IsCoinStake then state.nFees else state.nFees + txfee
  rejectIf (!MoneyRangeAmount nFees) "bad-txns-accumulated-fee-outofrange"
  let prevheights := tx.vin.map fun txin => (state.view.AccessCoin txin.prevout).nHeight
  rejectIf (!ctx.SequenceLocks tx prevheights) "bad-txns-nonfinal"
  pure { state with nFees, nValueIn, nValueOut }

/-- The tallies for a coinbase: only its outputs count. -/
def TallyCoinBase (state : ConnectState) (tx : CTransaction) : Except String ConnectState := do
  let nValueOut := state.nValueOut + (← tx.GetValueOut)
  pure { state with nValueOut }

/-- The tallies of one transaction, by its kind. -/
def Tally (ctx : Context) (block : CBlock) (pindex : CBlockIndex) (nMoneySupplyPrev : Int)
    (state : ConnectState) (tx : CTransaction) : Except String ConnectState :=
  if tx.IsCoinBase then TallyCoinBase state tx
  else TallyTransaction ctx block pindex nMoneySupplyPrev state tx

/-- The script checks, which a coinbase skips. -/
def CheckScripts (ctx : Context) (tx : CTransaction) (view : CCoinsViewCache) :
    Except String Unit :=
  if tx.IsCoinBase then .ok () else ctx.CheckInputScripts tx view

/-- One pass of the loop of `ConnectBlock`; `first` is `i == 0`, whose undo
record goes to `undoDummy`. -/
def ConnectTransaction (ctx : Context) (sha256 : List UInt8 → uint256) (block : CBlock)
    (pindex : CBlockIndex) (nMoneySupplyPrev : Int) (first : Bool) (state : ConnectState)
    (tx : CTransaction) : Except String ConnectState := do
  let state ← Tally ctx block pindex nMoneySupplyPrev state tx
  let nSigOpsCost := state.nSigOpsCost + ctx.GetTransactionSigOpCost tx state.view
  rejectIf (nSigOpsCost > MAX_BLOCK_SIGOPS_COST) "bad-blk-sigops"
  CheckScripts ctx tx state.view
  let (txundo, view) ← UpdateCoins sha256 tx state.view pindex.nHeight (ctx.IsProtocolV12 pindex.nTime)
  pure { state with
    view, nSigOpsCost
    vtxundo := if first then state.vtxundo else state.vtxundo ++ [txundo] }

def ConnectTransactions (ctx : Context) (sha256 : List UInt8 → uint256) (block : CBlock)
    (pindex : CBlockIndex) (nMoneySupplyPrev : Int) :
    Bool → ConnectState → List CTransaction → Except String ConnectState
  | _, state, [] => .ok state
  | first, state, tx :: vtx => do
    let state ← ConnectTransaction ctx sha256 block pindex nMoneySupplyPrev first state tx
    ConnectTransactions ctx sha256 block pindex nMoneySupplyPrev false state vtx

/-- What `ConnectBlock` does after the checks, for a block other than the
genesis block. -/
def ConnectBlockTransactions (ctx : Context) (sha256 : List UInt8 → uint256) (block : CBlock)
    (pindex : CBlockIndex) (pprev : Option CBlockIndex) (view : CCoinsViewCache)
    (fJustCheck : Bool) : Except String (CCoinsViewCache × CBlockUndo × CBlockIndex) := do
  let nMoneySupplyPrev := (pprev.map CBlockIndex.nMoneySupply).getD 0
  let final ← ConnectTransactions ctx sha256 block pindex nMoneySupplyPrev true
    ⟨view, [], 0, 0, 0, 0⟩ block.vtx
  if fJustCheck then pure (final.view, ⟨final.vtxundo⟩, pindex)
  else
    pure (final.view.SetBestBlock pindex.phashBlock, ⟨final.vtxundo⟩,
      { pindex with
        nMint := final.nValueOut - final.nValueIn + final.nFees
        nMoneySupply := nMoneySupplyPrev + final.nValueOut - final.nValueIn
        nHeightStake := (pprev.map CBlockIndex.nHeightStake).getD 0 + block.IsProofOfStake.toNat })

/-- The call of `PeercoinContextualBlockChecks` at the head of
`ConnectBlock`, made only for an entry without a stake modifier yet. -/
def ContextualChecksIfUnset (ctx : Context) (block : CBlock) (pindex : CBlockIndex)
    (pprev : Option CBlockIndex) (fJustCheck : Bool) (setStakeSeen : StakeSeen) :
    Except String (CBlockIndex × StakeSeen) :=
  if pindex.nStakeModifier == 0 && pindex.nStakeModifierChecksum == 0 then
    PeercoinContextualBlockChecks ctx block pindex pprev fJustCheck setStakeSeen
  else .ok (pindex, setStakeSeen)

/-- `Chainstate::ConnectBlock` on the entry `pindex` whose parent entry is
`pprev`. -/
def ConnectBlock (ctx : Context) (sha256 : List UInt8 → uint256) (block : CBlock)
    (pindex : CBlockIndex) (pprev : Option CBlockIndex) (view : CCoinsViewCache)
    (fJustCheck : Bool) (setStakeSeen : StakeSeen) :
    Except String (CCoinsViewCache × CBlockUndo × CBlockIndex × StakeSeen) := do
  let (pindex, setStakeSeen) ←
    ContextualChecksIfUnset ctx block pindex pprev fJustCheck setStakeSeen
  CheckBlock ctx sha256 block (!fJustCheck) (!fJustCheck) true
  let hashPrevBlock := (pprev.map CBlockIndex.phashBlock).getD uint256.ZERO
  rejectIf (hashPrevBlock != view.GetBestBlock)
    "assertion failed: hashPrevBlock == view.GetBestBlock()"
  -- the genesis block's transactions are not connected
  if block.GetHash sha256 = ctx.hashGenesisBlock then
    pure (if fJustCheck then view else view.SetBestBlock pindex.phashBlock, ⟨[]⟩, pindex,
      setStakeSeen)
  else
    let (view, blockundo, pindex) ←
      ConnectBlockTransactions ctx sha256 block pindex pprev view fJustCheck
    pure (view, blockundo, pindex, setStakeSeen)

/-! ## What a successful connection did -/

section Spec

variable {ctx : Context} {sha256 : List UInt8 → uint256} {block : CBlock}
  {pindex : CBlockIndex} {nMoneySupplyPrev : Int}

theorem Tally_ok {state tallied : ConnectState} {tx : CTransaction}
    (run : Tally ctx block pindex nMoneySupplyPrev state tx = .ok tallied) :
    tallied.view = state.view ∧ tallied.vtxundo = state.vtxundo := by
  unfold Tally at run
  split at run
  · unfold TallyCoinBase at run
    obtain ⟨nValueOut, -, done⟩ := bind_eq_ok.mp run
    cases done
    exact ⟨rfl, rfl⟩
  · unfold TallyTransaction at run
    obtain ⟨txfee, -, run⟩ := bind_eq_ok.mp run
    obtain ⟨nValueOut, -, run⟩ := bind_eq_ok.mp run
    obtain ⟨⟨⟩, -, run⟩ := bind_eq_ok.mp run
    obtain ⟨⟨⟩, -, done⟩ := bind_eq_ok.mp run
    cases done
    exact ⟨rfl, rfl⟩

/-- One pass of the loop: the tallies, then `UpdateCoins` on the view as it
was, its undo record kept unless the transaction is the first. -/
theorem ConnectTransaction_ok {first : Bool} {state state' : ConnectState} {tx : CTransaction}
    (run : ConnectTransaction ctx sha256 block pindex nMoneySupplyPrev first state tx = .ok state') :
    ∃ tallied txundo, Tally ctx block pindex nMoneySupplyPrev state tx = .ok tallied ∧
      UpdateCoins sha256 tx state.view pindex.nHeight (ctx.IsProtocolV12 pindex.nTime) =
        .ok (txundo, state'.view) ∧
      state'.vtxundo = (if first then state.vtxundo else state.vtxundo ++ [txundo]) ∧
      state'.nValueIn = tallied.nValueIn ∧ state'.nValueOut = tallied.nValueOut ∧
      state'.nFees = tallied.nFees := by
  unfold ConnectTransaction at run
  obtain ⟨tallied, tally, run⟩ := bind_eq_ok.mp run
  obtain ⟨sameView, sameUndo⟩ := Tally_ok tally
  obtain ⟨⟨⟩, -, run⟩ := bind_eq_ok.mp run
  obtain ⟨⟨⟩, -, run⟩ := bind_eq_ok.mp run
  obtain ⟨⟨txundo, view⟩, update, done⟩ := bind_eq_ok.mp run
  cases done
  rw [sameView] at update
  exact ⟨tallied, txundo, tally, update, by rw [sameUndo], rfl, rfl, rfl⟩

theorem ContextualChecksIfUnset_keeps {pprev : Option CBlockIndex} {fJustCheck : Bool}
    {setStakeSeen setStakeSeen' : StakeSeen} {checked : CBlockIndex}
    (run : ContextualChecksIfUnset ctx block pindex pprev fJustCheck setStakeSeen =
      .ok (checked, setStakeSeen')) :
    checked.nHeight = pindex.nHeight ∧ checked.nTime = pindex.nTime ∧
      checked.phashBlock = pindex.phashBlock := by
  unfold ContextualChecksIfUnset at run
  split at run
  · exact PeercoinContextualBlockChecks_keeps run
  · cases run
    exact ⟨rfl, rfl, rfl⟩

/-- Everything a successful `ConnectBlock` of a block other than the genesis
block does: the checks pass, the view is at the parent, the loop runs over
the transactions from the view, and the entry gets the block's mint, the
money supply and the stake height. -/
theorem ConnectBlock_ok {pprev : Option CBlockIndex} {view view' : CCoinsViewCache}
    {setStakeSeen setStakeSeen' : StakeSeen} {blockundo : CBlockUndo} {pindex' : CBlockIndex}
    (run : ConnectBlock ctx sha256 block pindex pprev view false setStakeSeen =
      .ok (view', blockundo, pindex', setStakeSeen'))
    (notGenesis : block.GetHash sha256 ≠ ctx.hashGenesisBlock) :
    ∃ checked final,
      ContextualChecksIfUnset ctx block pindex pprev false setStakeSeen = .ok (checked, setStakeSeen') ∧
      CheckBlock ctx sha256 block true true true = .ok () ∧
      (pprev.map CBlockIndex.phashBlock).getD uint256.ZERO = view.hashBlock ∧
      ConnectTransactions ctx sha256 block checked ((pprev.map CBlockIndex.nMoneySupply).getD 0) true
        ⟨view, [], 0, 0, 0, 0⟩ block.vtx = .ok final ∧
      view' = final.view.SetBestBlock checked.phashBlock ∧ blockundo = ⟨final.vtxundo⟩ ∧
      pindex' = { checked with
        nMint := final.nValueOut - final.nValueIn + final.nFees
        nMoneySupply := (pprev.map CBlockIndex.nMoneySupply).getD 0 + final.nValueOut -
          final.nValueIn
        nHeightStake := (pprev.map CBlockIndex.nHeightStake).getD 0 +
          block.IsProofOfStake.toNat } := by
  unfold ConnectBlock at run
  obtain ⟨⟨checked, seenChecked⟩, contextual, run⟩ := bind_eq_ok.mp run
  obtain ⟨⟨⟩, blockChecked, run⟩ := bind_eq_ok.mp run
  obtain ⟨⟨⟩, atParent, run⟩ := bind_eq_ok.mp run
  rw [if_neg notGenesis] at run
  obtain ⟨⟨view'', blockundo'', pindex''⟩, connected, done⟩ := bind_eq_ok.mp run
  cases done
  unfold ConnectBlockTransactions at connected
  obtain ⟨final, loop, done⟩ := bind_eq_ok.mp connected
  cases done
  refine ⟨checked, final, contextual, blockChecked, ?_, loop, rfl, rfl, rfl⟩
  simpa [CCoinsViewCache.GetBestBlock] using rejectIf_eq_ok.mp atParent

/-- `ContextualChecksIfUnset` never clears a flag of the entry. -/
theorem ContextualChecksIfUnset_FlagsGrow {pprev : Option CBlockIndex} {fJustCheck : Bool}
    {setStakeSeen setStakeSeen' : StakeSeen} {checked : CBlockIndex}
    (run : ContextualChecksIfUnset ctx block pindex pprev fJustCheck setStakeSeen =
      .ok (checked, setStakeSeen')) :
    CBlockIndex.FlagsGrow pindex checked := by
  unfold ContextualChecksIfUnset at run
  split at run
  · exact PeercoinContextualBlockChecks_FlagsGrow run
  · cases run
    exact CBlockIndex.FlagsGrow.refl _

/-- `ConnectBlock` keeps every flag of the entry it is given. -/
theorem ConnectBlock_FlagsGrow {pprev : Option CBlockIndex} {view view' : CCoinsViewCache}
    {setStakeSeen setStakeSeen' : StakeSeen} {blockundo : CBlockUndo} {pindex' : CBlockIndex}
    (run : ConnectBlock ctx sha256 block pindex pprev view false setStakeSeen =
      .ok (view', blockundo, pindex', setStakeSeen'))
    (notGenesis : block.GetHash sha256 ≠ ctx.hashGenesisBlock) :
    CBlockIndex.FlagsGrow pindex pindex' := by
  obtain ⟨checked, final, contextual, -, -, -, -, -, rfl⟩ := ConnectBlock_ok run notGenesis
  -- the entry's flags are those the checks left
  obtain ⟨bits, flags⟩ := ContextualChecksIfUnset_FlagsGrow contextual
  exact ⟨bits, flags⟩

end Spec

/-- An entry `AddToBlockIndex` makes from a header with the stake flag is a
proof-of-stake entry, and stays one through `ConnectBlock`, whatever the
block's transactions are. -/
theorem ConnectBlock_header_stake_flag {ctx : Context} {sha256 : List UInt8 → uint256}
    {block : CBlock} {pprev : Option CBlockIndex} {view view' : CCoinsViewCache}
    {setStakeSeen setStakeSeen' : StakeSeen} {blockundo : CBlockUndo} {pindex' : CBlockIndex}
    (run : ConnectBlock ctx sha256 block (AddToBlockIndex sha256 block.toCBlockHeader pprev) pprev
      view false setStakeSeen = .ok (view', blockundo, pindex', setStakeSeen'))
    (notGenesis : block.GetHash sha256 ≠ ctx.hashGenesisBlock)
    (flagged : block.nFlags &&& CBlockIndex.BLOCK_PROOF_OF_STAKE ≠ 0) :
    pindex'.IsProofOfStake = true :=
  (ConnectBlock_FlagsGrow run notGenesis).IsProofOfStake
    (AddToBlockIndex_IsProofOfStake sha256 block.toCBlockHeader pprev flagged)

/-! ## Connecting fixed blocks

Blocks built on the entry `exampleParent` at height 5 under a `Context` that
accepts every proof, signature and script, hashed by `sumHash`. -/

/-- A hash for fixed blocks: the byte sum, then zeros. -/
def sumHash (bytes : List UInt8) : uint256 := ⟨bytes.foldl (· + ·) 0 :: List.replicate 31 0, by simp⟩

/-- A context that accepts every block and every script, with every protocol
switch on. -/
def acceptingContext : Context where
  hashGenesisBlock := ⟨0 :: 1 :: List.replicate 30 0, by simp⟩
  nCoinbaseMaturity := 0
  IsProtocolV03 := fun _ => true
  IsProtocolV07 := fun _ => true
  IsProtocolV09 := fun _ => true
  IsProtocolV12 := fun _ => true
  IsBTC16BIPsEnabled := fun _ => true
  CheckProofOfWork := fun _ _ => true
  CheckMerkleRoot := fun _ => true
  CheckBlockSignature := fun _ => true
  GetLegacySigOpCount := fun _ => 0
  GetProofOfWorkReward := fun _ _ => 5000000
  CheckProofOfStake := fun _ _ _ _ => some uint256.ZERO
  GetStakeEntropyBit := fun _ => 0
  ComputeNextStakeModifier := fun _ => some (0, false)
  GetStakeModifierChecksum := fun _ => 0
  CheckStakeModifierCheckpoints := fun _ _ => true
  GetCoinAge := fun _ _ _ => some 0
  GetProofOfStakeReward := fun _ _ _ => 0
  SequenceLocks := fun _ _ => true
  GetTransactionSigOpCost := fun _ _ => 0
  CheckInputScripts := fun _ _ => .ok ()

def exampleParent : CBlockIndex :=
  { CBlockIndex.ofHeader ⟨1, uint256.ZERO, uint256.ZERO, 900, 0, 0, 0⟩ with
    phashBlock := ⟨0 :: 3 :: List.replicate 30 0, by simp⟩
    nHeight := 5 }

def exampleCoinbase : CTransaction :=
  ⟨[⟨⟨uint256.ZERO, COutPoint.NULL_INDEX⟩, [1, 2], 0xFFFFFFFF, ⟨[]⟩⟩], [⟨1000000, [0x51]⟩], 1, 1000, 0⟩

def emptyView : CCoinsViewCache where
  cacheCoins := ∅
  hashBlock := exampleParent.phashBlock
  unspent := fun _ _ found => by
    rw [Finmap.lookup_empty] at found
    cases found

/-- A proof-of-work block, its coinbase alone, whose header sets the stake,
entropy and stake-modifier flags. -/
def flaggedBlock : CBlock :=
  ⟨⟨1, exampleParent.phashBlock, uint256.ZERO, 1000, 0, 0, 7⟩, [exampleCoinbase], []⟩

set_option maxRecDepth 20000 in
theorem flaggedBlock_index_flags :
    ∃ connected, ConnectBlock acceptingContext sumHash flaggedBlock
        (AddToBlockIndex sumHash flaggedBlock.toCBlockHeader (some exampleParent)) (some exampleParent)
        emptyView false [] = .ok connected ∧
      flaggedBlock.IsProofOfStake = false ∧ connected.2.2.1.IsProofOfStake = true ∧
      acceptingContext.GetStakeEntropyBit flaggedBlock = 0 ∧ connected.2.2.1.GetStakeEntropyBit = 1 ∧
      acceptingContext.ComputeNextStakeModifier exampleParent = some (0, false) ∧
      connected.2.2.1.GeneratedStakeModifier = true ∧
      (AddToBlockIndex sumHash flaggedBlock.toCBlockHeader (some exampleParent)).nHeightStake =
        exampleParent.nHeightStake + 1 ∧
      connected.2.2.1.nHeightStake = exampleParent.nHeightStake :=
  ⟨_, rfl, rfl, rfl, rfl, rfl, rfl, rfl, rfl, rfl⟩

/-- A coinbase of version 3, whose `nTime` is not on the wire. -/
def untimedCoinbase : CTransaction := { exampleCoinbase with nVersion := 3, nTime := 0 }

/-- A block with the version-3 coinbase as it reads back from the wire. -/
def untimedBlock : CBlock :=
  ⟨⟨1, exampleParent.phashBlock, uint256.ZERO, 1000, 0, 0, 0⟩, [untimedCoinbase], []⟩

/-- The same block with the coinbase's in-memory `nTime` set. -/
def timedBlock : CBlock := { untimedBlock with vtx := [{ untimedCoinbase with nTime := 1 }] }

/-- The block of `exampleCoinbase` with the coinbase stamped an hour and a
half after the block. -/
def futureCoinbaseBlock : CBlock :=
  ⟨⟨1, exampleParent.phashBlock, uint256.ZERO, 1000, 0, 0, 0⟩, [{ exampleCoinbase with nTime := 6400 }], []⟩

set_option maxRecDepth 20000 in
theorem futureCoinbaseBlock_passes_CheckBlock :
    CheckBlock acceptingContext sumHash futureCoinbaseBlock true true true = .ok () ∧
      ∃ tx ∈ futureCoinbaseBlock.vtx, futureCoinbaseBlock.nTime < tx.nTime :=
  ⟨rfl, _, List.mem_singleton_self _, by decide⟩

/-- A version-3 coinstake as it reads back from the wire, its `nTime` zero,
spending output 0 of a transaction whose hash starts with byte 5. -/
def untimedCoinstake : CTransaction :=
  ⟨[⟨⟨⟨5 :: List.replicate 31 0, by simp⟩, 0⟩, [], 0xFFFFFFFF, ⟨[]⟩⟩],
    [⟨0, []⟩, ⟨1000000, [0x51]⟩], 3, 0, 0⟩

/-- Proof-of-stake blocks on `exampleParent` at time 1000 with the coinstake
`untimedCoinstake`, told apart by their nonce. -/
def untimedStakeBlock (nNonce : UInt32) : CBlock :=
  ⟨⟨1, exampleParent.phashBlock, uint256.ZERO, 1000, 0, nNonce, 1⟩,
    [{ exampleCoinbase with vout := [⟨0, []⟩] }, untimedCoinstake], []⟩

set_option maxRecDepth 20000 in
theorem untimedStake_passes_guard_twice :
    ∃ first second,
      PeercoinContextualBlockChecks acceptingContext (untimedStakeBlock 0)
          (AddToBlockIndex sumHash (untimedStakeBlock 0).toCBlockHeader (some exampleParent))
          (some exampleParent) false [] = .ok first ∧
        PeercoinContextualBlockChecks acceptingContext (untimedStakeBlock 1)
          (AddToBlockIndex sumHash (untimedStakeBlock 1).toCBlockHeader (some exampleParent))
          (some exampleParent) false first.2 = .ok second ∧
        (untimedStakeBlock 0).IsProofOfStake = true ∧
        (untimedStakeBlock 1).GetProofOfStake = (untimedStakeBlock 0).GetProofOfStake ∧
        (untimedStakeBlock 1).toCBlockHeader.GetHash sumHash ≠
          (untimedStakeBlock 0).toCBlockHeader.GetHash sumHash :=
  ⟨_, _, rfl, rfl, rfl, rfl, by decide⟩

end Peercoin.Validation
