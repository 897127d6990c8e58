import PeercoinFormal.Validation.Context

/-!
# consensus/tx_check.cpp and consensus/tx_verify.cpp: transaction checks

`CheckTransaction` (context-free) and `Consensus::CheckTxInputs` (against
the coins view), with `GetMinFee` which they call.

Amounts are `CAmount`, a signed 64-bit integer; the model counts them in
`Int`.  Every sum these functions form is checked against `MAX_MONEY` right
after each addition, so no sum they keep leaves the 64-bit range.
-/

set_option autoImplicit false

namespace Peercoin.Validation

open Peercoin.Primitives Peercoin.Coins Peercoin.Serialize Codec Ledger

def CENT : Int64 := 10000

def MIN_TX_FEE : Int64 := CENT / 10

def PERKB_TX_FEE : Int64 := CENT

def MIN_TXOUT_AMOUNT : Int64 := CENT

/-! ## CheckTransaction -/

/-- `IsZeroAllowed`: the crude time test `tx_check.cpp` uses in place of a
protocol switch. -/
def IsZeroAllowed (nTimeTx : UInt32) : Bool := nTimeTx ≥ 1447700000

/-- The output loop of `CheckTransaction`. -/
def CheckTransactionOutputs (tx : CTransaction) : Int → List CTxOut → Except String Unit
  | _, [] => .ok ()
  | nValueOut, txout :: vout =>
    if txout.nValue < 0 then .error "bad-txns-vout-negative"
    else if txout.nValue > MAX_MONEY then .error "bad-txns-vout-toolarge"
    else if !MoneyRangeAmount (nValueOut + txout.value) then
      .error "bad-txns-txouttotal-toolarge"
    else if !txout.IsEmpty && txout.nValue < MIN_TXOUT_AMOUNT &&
        (tx.nVersion < 3 && !(IsZeroAllowed tx.nTime && txout.nValue == 0)) then
      .error "bad-txns-txoutvalue-belowminimum"
    else CheckTransactionOutputs tx (nValueOut + txout.value) vout

/-- `GetSerializeSize(tx, PROTOCOL_VERSION | SERIALIZE_TRANSACTION_NO_WITNESS)`. -/
def GetSerializeSizeNoWitness (tx : CTransaction) : Nat :=
  (SerializeTransaction false tx).length

def CheckTransaction (tx : CTransaction) : Except String Unit := do
  rejectIf tx.vin.isEmpty "bad-txns-vin-empty"
  rejectIf tx.vout.isEmpty "bad-txns-vout-empty"
  rejectIf (GetSerializeSizeNoWitness tx * WITNESS_SCALE_FACTOR > MAX_BLOCK_WEIGHT)
    "bad-txns-oversize"
  CheckTransactionOutputs tx 0 tx.vout
  -- the set of outpoints seen so far, as in the source
  rejectIf (!(tx.vin.map CTxIn.prevout).Nodup) "bad-txns-inputs-duplicate"
  if tx.IsCoinBase then
    let scriptSigSize := (tx.vin.head?.map fun txin => txin.scriptSig.length).getD 0
    rejectIf (scriptSigSize < 2 || scriptSigSize > 100) "bad-cb-length"
  else rejectIf (tx.vin.any fun txin => txin.prevout.IsNull) "bad-txns-prevout-null"

theorem CheckTransactionOutputs_nonneg {tx : CTransaction} {nValueOut : Int} {vout : List CTxOut}
    (checked : CheckTransactionOutputs tx nValueOut vout = .ok ()) :
    ∀ out ∈ vout, 0 ≤ out.value := by
  induction vout generalizing nValueOut with
  | nil => simp
  | cons txout vout ih =>
      simp only [CheckTransactionOutputs] at checked
      split at checked
      · cases checked
      rename_i notNegative
      split at checked
      · cases checked
      split at checked
      · cases checked
      split at checked
      · cases checked
      intro out member
      rcases List.mem_cons.mp member with rfl | later
      · have := Int64.le_iff_toInt_le.mp (Int64.not_lt.mp notNegative)
        simpa [CTxOut.value] using this
      · exact ih checked out later

/-- A transaction that passes `CheckTransaction` has outputs of
non-negative value, and spends each outpoint once. -/
theorem CheckTransaction_ok {tx : CTransaction} (checked : CheckTransaction tx = .ok ()) :
    (∀ out ∈ tx.vout, 0 ≤ out.value) ∧ (tx.vin.map CTxIn.prevout).Nodup ∧
      GetSerializeSizeNoWitness tx * WITNESS_SCALE_FACTOR ≤ MAX_BLOCK_WEIGHT := by
  simp only [CheckTransaction] at checked
  obtain ⟨⟨⟩, -, checked⟩ := bind_eq_ok.mp checked
  obtain ⟨⟨⟩, -, checked⟩ := bind_eq_ok.mp checked
  obtain ⟨⟨⟩, fits, checked⟩ := bind_eq_ok.mp checked
  obtain ⟨⟨⟩, outputs, checked⟩ := bind_eq_ok.mp checked
  obtain ⟨⟨⟩, distinct, -⟩ := bind_eq_ok.mp checked
  have fits := rejectIf_eq_ok.mp fits
  have distinct := rejectIf_eq_ok.mp distinct
  refine ⟨CheckTransactionOutputs_nonneg outputs, by simpa using distinct, ?_⟩
  simpa using fits

/-- Each output takes at least a byte on the wire, so a transaction has no
more outputs than bytes. -/
theorem vout_length_le_size (tx : CTransaction) : tx.vout.length ≤ GetSerializeSizeNoWitness tx := by
  have outputs : ∀ vout : List CTxOut, vout.length ≤ (vout.flatMap serializeCTxOut).length := by
    intro vout
    induction vout with
    | nil => simp
    | cons out vout ih =>
        simp only [List.flatMap_cons, List.length_append, List.length_cons, serializeCTxOut,
          serializeInt64, ser_writedata64, leBytes_length]
        omega
  have within := outputs tx.vout
  simp only [GetSerializeSizeNoWitness, SerializeTransaction, serializeVector, List.length_append]
  omega

/-- A checked transaction has fewer outputs than output indices. -/
theorem CheckTransaction_vout_length {tx : CTransaction} (checked : CheckTransaction tx = .ok ()) :
    tx.vout.length ≤ 2 ^ 32 := by
  have fits := (CheckTransaction_ok checked).2.2
  have outputs := vout_length_le_size tx
  unfold MAX_BLOCK_WEIGHT WITNESS_SCALE_FACTOR at fits
  omega

/-! ## CheckTxInputs -/

/-- `GetMinFee(nBytes, nTime)`. -/
def GetMinFeeBytes (IsProtocolV07 : UInt32 → Bool) (nBytes : Nat) (nTime : UInt32) : Int :=
  let nMinFee : Int :=
    if IsProtocolV07 nTime || nTime == 0 then
      if nBytes < 100 then MIN_TX_FEE.toInt else nBytes * (PERKB_TX_FEE.toInt / 1000)
    else (1 + nBytes / 1000) * PERKB_TX_FEE.toInt
  if !MoneyRangeAmount nMinFee then MAX_MONEY.toInt else nMinFee

/-- `GetMinFee(tx, nTimeTx)`: the fee by the network-serialized size. -/
def GetMinFee (IsProtocolV07 : UInt32 → Bool) (tx : CTransaction) (nTimeTx : UInt32) : Int :=
  GetMinFeeBytes IsProtocolV07 (SerializeTransaction true tx).length nTimeTx

/-- The input loop of `CheckTxInputs`, from the running `nValueIn`. -/
def CheckTxInputsLoop (ctx : Context) (inputs : CCoinsViewCache) (nSpendHeight : Nat)
    (nTimeTx : UInt32) : Int → List CTxIn → Except String Int
  | nValueIn, [] => .ok nValueIn
  | nValueIn, txin :: vin =>
    let coin := inputs.AccessCoin txin.prevout
    if (coin.fCoinBase || coin.fCoinStake) && (nSpendHeight : Int) - coin.nHeight < ctx.nCoinbaseMaturity then
      .error "bad-txns-premature-spend-of-coinbase/coinstake"
    else if coin.nTime > nTimeTx then .error "bad-txns-spent-too-early"
    else if !MoneyRange coin.out.nValue || !MoneyRangeAmount (nValueIn + coin.out.value) then
      .error "bad-txns-inputvalues-outofrange"
    else CheckTxInputsLoop ctx inputs nSpendHeight nTimeTx (nValueIn + coin.out.value) vin

/-- `Consensus::CheckTxInputs`; it returns `txfee`, which it leaves at the
caller's `0` for a coinstake. -/
def CheckTxInputs (ctx : Context) (tx : CTransaction) (inputs : CCoinsViewCache)
    (nSpendHeight : Nat) (nTimeTx : UInt32) (nMoneySupply : Int) : Except String Int := do
  rejectIf (!inputs.HaveInputs tx) "bad-txns-inputs-missingorspent"
  let nValueIn ← CheckTxInputsLoop ctx inputs nSpendHeight nTimeTx 0 tx.vin
  let nMinFee := GetMinFee ctx.IsProtocolV07 tx nTimeTx
  if tx.IsCoinStake then
    match ctx.GetCoinAge tx inputs nTimeTx with
    | none => throw "unable to get coin age for coinstake"
    | some nCoinAge =>
      let nStakeReward := (← tx.GetValueOut) - nValueIn
      let nCoinstakeCost := if nMinFee < PERKB_TX_FEE.toInt then 0 else nMinFee - PERKB_TX_FEE.toInt
      rejectIf (nMoneySupply ≠ 0 &&
          nStakeReward > ctx.GetProofOfStakeReward nCoinAge nTimeTx nMoneySupply - nCoinstakeCost)
        "bad-txns-coinstake-too-large"
      pure 0
  else
    let value_out ← tx.GetValueOut
    rejectIf (nValueIn < value_out) "bad-txns-in-belowout"
    let txfee_aux := nValueIn - value_out
    rejectIf (!MoneyRangeAmount txfee_aux) "bad-txns-fee-outofrange"
    rejectIf (txfee_aux < nMinFee) "bad-txns-fee-not-enough"
    pure txfee_aux

/-- What `CheckTxInputs` needs of the view: every input is there. -/
theorem CheckTxInputs_HaveInputs {ctx : Context} {tx : CTransaction} {inputs : CCoinsViewCache}
    {nSpendHeight : Nat} {nTimeTx : UInt32} {nMoneySupply txfee : Int}
    (checked : CheckTxInputs ctx tx inputs nSpendHeight nTimeTx nMoneySupply = .ok txfee) :
    inputs.HaveInputs tx = true := by
  simp only [CheckTxInputs] at checked
  obtain ⟨⟨⟩, present, -⟩ := bind_eq_ok.mp checked
  simpa using rejectIf_eq_ok.mp present

end Peercoin.Validation
