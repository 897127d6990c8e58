import PeercoinFormal.Serialize.VarInt

/-!
# primitives/transaction.h: transactions and their wire format

The transaction record and the field codecs of `SerializeTransaction` and
`UnserializeTransaction`.  Peercoin's `nTime` stands between `nVersion` and
the inputs exactly when `nVersion < 3`, compared as a signed 32-bit number
by both the writer and the reader; the reader sets it to `0` otherwise.
`CTransaction` and `CMutableTransaction` carry the same fields (the former
also caches its hashes, which are functions of the fields), so both are
modelled by the one record `CTransaction`.
-/

set_option autoImplicit false

namespace Peercoin.Primitives

open Codec Peercoin.Serialize

/-- `uint256`: the 32 bytes `m_data[0..31]`. -/
structure uint256 where
  data : List UInt8
  size_eq : data.length = 32
  deriving DecidableEq

/-- `uint256::ZERO`. -/
def uint256.ZERO : uint256 := ⟨List.replicate 32 0, by simp⟩

/-- `uint256::ONE`: the number one, whose low byte `m_data[0]` is first. -/
def uint256.ONE : uint256 := ⟨1 :: List.replicate 31 0, by simp⟩

/-- A hash told apart from others by its low byte `m_data[0]` alone. -/
def uint256.ofLowByte (b : UInt8) : uint256 := ⟨b :: List.replicate 31 0, by simp⟩

structure COutPoint where
  hash : uint256
  n : UInt32
  deriving DecidableEq

/-- `CScript`: the script bytes. -/
abbrev CScript := List UInt8

structure CScriptWitness where
  stack : List (List UInt8)
  deriving DecidableEq

structure CTxIn where
  prevout : COutPoint
  scriptSig : CScript
  nSequence : UInt32
  scriptWitness : CScriptWitness
  deriving DecidableEq

/-- `CTxOut`; `nValue` is a `CAmount`, a signed 64-bit number. -/
structure CTxOut where
  nValue : Int64
  scriptPubKey : CScript
  deriving DecidableEq

/-- `CTxIn()`: the null prevout and `SEQUENCE_FINAL`. -/
instance : Inhabited CTxIn := ⟨⟨⟨uint256.ZERO, 0xFFFFFFFF⟩, [], 0xFFFFFFFF, ⟨[]⟩⟩⟩

/-- `CTxOut()`, which calls `SetNull`. -/
instance : Inhabited CTxOut := ⟨⟨-1, []⟩⟩

structure CTransaction where
  vin : List CTxIn
  vout : List CTxOut
  nVersion : Int32
  nTime : UInt32
  nLockTime : UInt32
  deriving DecidableEq

/-! ## Constants of consensus/amount.h and script/script.h -/

def COIN : Int64 := 1000000

def MAX_MONEY : Int64 := 21000000 * COIN

def MoneyRange (nValue : Int64) : Bool := nValue ≥ 0 && nValue ≤ MAX_MONEY

def MAX_SCRIPT_SIZE : Nat := 10000

def OP_0 : UInt8 := 0x00
def OP_PUSHDATA1 : UInt8 := 0x4c
def OP_PUSHDATA2 : UInt8 := 0x4d
def OP_PUSHDATA4 : UInt8 := 0x4e
def OP_1 : UInt8 := 0x51
def OP_RETURN : UInt8 := 0x6a
def OP_DUP : UInt8 := 0x76
def OP_EQUAL : UInt8 := 0x87
def OP_EQUALVERIFY : UInt8 := 0x88
def OP_HASH160 : UInt8 := 0xa9
def OP_CODESEPARATOR : UInt8 := 0xab
def OP_CHECKSIG : UInt8 := 0xac
def OP_INVALIDOPCODE : UInt8 := 0xff

/-- `CScript::IsUnspendable`: an `OP_RETURN` script or one too long to run. -/
def IsUnspendable (script : CScript) : Bool :=
  (script.length > 0 && script.head? == some OP_RETURN) || script.length > MAX_SCRIPT_SIZE

theorem MAX_MONEY_toNatClampNeg : MAX_MONEY.toNatClampNeg = 21000000000000 := by decide

/-- An amount in `MoneyRange` is, as a `uint64_t`, at most `MAX_MONEY`. -/
theorem MoneyRange.toUInt64_le {nValue : Int64} (inRange : MoneyRange nValue = true) :
    nValue.toUInt64.toNat ≤ MAX_MONEY.toNatClampNeg := by
  simp only [MoneyRange, Bool.and_eq_true, decide_eq_true_eq] at inRange
  obtain ⟨nonneg, bounded⟩ := inRange
  rw [Int64.toNat_toUInt64_of_le nonneg]
  rw [Int64.le_iff_toInt_le] at bounded
  simp only [Int64.toNatClampNeg]
  omega

/-- `MoneyRange` on an amount counted in `Int`, as the tallies of the
validation model count them. -/
def MoneyRangeAmount (nValue : Int) : Bool := 0 ≤ nValue && nValue ≤ MAX_MONEY.toInt

theorem MoneyRangeAmount_toInt (nValue : Int64) :
    MoneyRangeAmount nValue.toInt = MoneyRange nValue := by
  simp only [MoneyRangeAmount, MoneyRange, ge_iff_le, Int64.le_iff_toInt_le]
  rfl

/-- The value of an output, as the tallies count it. -/
def CTxOut.value (out : CTxOut) : Int := out.nValue.toInt

/-- `CTxOut::IsNull`: the null output `SetNull` leaves, which marks a spent
coin. -/
def CTxOut.IsNull (out : CTxOut) : Bool := out.nValue == -1

def COutPoint.NULL_INDEX : UInt32 := 0xFFFFFFFF

def COutPoint.IsNull (prevout : COutPoint) : Bool :=
  prevout.hash == uint256.ZERO && prevout.n == COutPoint.NULL_INDEX

def CTxOut.IsEmpty (out : CTxOut) : Bool := out.nValue == 0 && out.scriptPubKey.isEmpty

def CTransaction.IsCoinBase (tx : CTransaction) : Bool :=
  tx.vin.length == 1 && (tx.vin.head?.map fun txin => txin.prevout.IsNull) == some true &&
    tx.vout.length ≥ 1

/-- `CTransaction::IsCoinStake`: Peercoin marks the coinstake by an empty
first output. -/
def CTransaction.IsCoinStake (tx : CTransaction) : Bool :=
  tx.vin.length > 0 && (tx.vin.head?.map fun txin => !txin.prevout.IsNull) == some true &&
    tx.vout.length ≥ 2 && (tx.vout.head?.map CTxOut.IsEmpty) == some true

/-- The loop of `CTransaction::GetValueOut`; an `.error` is its
`runtime_error`.  The closing `assert(MoneyRange(nValueOut))` cannot fail
after the loop's checks and is left out. -/
def GetValueOutLoop : Int → List CTxOut → Except String Int
  | nValueOut, [] => .ok nValueOut
  | nValueOut, tx_out :: vout =>
    if !MoneyRange tx_out.nValue || !MoneyRangeAmount (nValueOut + tx_out.value) then
      .error "GetValueOut: value out of range"
    else GetValueOutLoop (nValueOut + tx_out.value) vout

def CTransaction.GetValueOut (tx : CTransaction) : Except String Int :=
  GetValueOutLoop 0 tx.vout

theorem GetValueOutLoop_ok {nValueOut total : Int} {vout : List CTxOut}
    (run : GetValueOutLoop nValueOut vout = .ok total) :
    total = nValueOut + (vout.map CTxOut.value).sum := by
  induction vout generalizing nValueOut with
  | nil =>
      cases run
      simp
  | cons tx_out vout ih =>
      simp only [GetValueOutLoop] at run
      split at run
      · cases run
      · rw [ih run, List.map_cons, List.sum_cons, Int.add_assoc]

theorem GetValueOut_ok {tx : CTransaction} {nValueOut : Int}
    (run : tx.GetValueOut = .ok nValueOut) : nValueOut = (tx.vout.map CTxOut.value).sum := by
  rw [GetValueOutLoop_ok run, Int.zero_add]

def CScriptWitness.IsNull (witness : CScriptWitness) : Bool := witness.stack.isEmpty

/-- The input as `CTxIn`'s own serialization sees it: without witness. -/
def CTxIn.withoutWitness (txin : CTxIn) : CTxIn := { txin with scriptWitness := ⟨[]⟩ }

/-- The transaction with every witness stack emptied. -/
def CTransaction.withoutWitness (tx : CTransaction) : CTransaction :=
  { tx with vin := tx.vin.map CTxIn.withoutWitness }

def CTransaction.HasWitness (tx : CTransaction) : Bool :=
  tx.vin.any fun txin => !txin.scriptWitness.IsNull

/-! ## Field codecs -/

def serializeUint256 (hash : uint256) : List UInt8 := hash.data

/-- Reads the 32 bytes of a `uint256`; `takeBytes` returns exactly 32 bytes
whenever it succeeds, so the second exception is never raised. -/
def unserializeUint256 : Decoder uint256 := do
  let bytes ← takeBytes endOfData 32
  if size : bytes.length = 32 then pure ⟨bytes, size⟩ else raise endOfData

def serializeUInt32 (value : UInt32) : List UInt8 := ser_writedata32 value.toNat

def unserializeUInt32 : Decoder UInt32 := UInt32.ofNat <$> ser_readdata32

/-- A signed 32-bit number travels as its two's-complement `uint32_t`. -/
def serializeInt32 (value : Int32) : List UInt8 := ser_writedata32 value.toUInt32.toNat

def unserializeInt32 : Decoder Int32 := (fun raw => (UInt32.ofNat raw).toInt32) <$> ser_readdata32

def serializeInt64 (value : Int64) : List UInt8 := ser_writedata64 value.toUInt64.toNat

def unserializeInt64 : Decoder Int64 := (fun raw => (UInt64.ofNat raw).toInt64) <$> ser_readdata64

def serializeCOutPoint (prevout : COutPoint) : List UInt8 :=
  serializeUint256 prevout.hash ++ serializeUInt32 prevout.n

def unserializeCOutPoint : Decoder COutPoint := do
  let hash ← unserializeUint256
  let n ← unserializeUInt32
  pure ⟨hash, n⟩

/-- `CTxIn` serializes `prevout`, `scriptSig` and `nSequence`; the witness is
written only by the transaction. -/
def serializeCTxIn (txin : CTxIn) : List UInt8 :=
  serializeCOutPoint txin.prevout ++ serializeBytes txin.scriptSig ++
    serializeUInt32 txin.nSequence

def unserializeCTxIn : Decoder CTxIn := do
  let prevout ← unserializeCOutPoint
  let scriptSig ← unserializeBytes
  let nSequence ← unserializeUInt32
  pure ⟨prevout, scriptSig, nSequence, ⟨[]⟩⟩

def serializeCTxOut (txout : CTxOut) : List UInt8 :=
  serializeInt64 txout.nValue ++ serializeBytes txout.scriptPubKey

def unserializeCTxOut : Decoder CTxOut := do
  let nValue ← unserializeInt64
  let scriptPubKey ← unserializeBytes
  pure ⟨nValue, scriptPubKey⟩

def serializeWitnessStack (stack : List (List UInt8)) : List UInt8 :=
  serializeVector serializeBytes stack

def unserializeWitnessStack : Decoder (List (List UInt8)) := unserializeVector unserializeBytes

/-! ## Round trips of the fields -/

theorem decodes_unserializeUint256 (hash : uint256) :
    Decodes unserializeUint256 (serializeUint256 hash) hash := by
  have taken := decodes_takeBytes endOfData hash.data
  rw [hash.size_eq] at taken
  unfold unserializeUint256
  exact Decodes.congr_bytes (Decodes.bind taken
    (by simpa [hash.size_eq] using decodes_pure hash)) (by simp [serializeUint256])

theorem decodes_unserializeUInt32 (value : UInt32) :
    Decodes unserializeUInt32 (serializeUInt32 value) value := by
  have run := (decodes_readLE endOfData 4 value.toNat
    (by simpa using value.toNat_lt)).map UInt32.ofNat
  simpa [unserializeUInt32, serializeUInt32, ser_readdata32, ser_writedata32] using run

theorem decodes_unserializeInt32 (value : Int32) :
    Decodes unserializeInt32 (serializeInt32 value) value := by
  have run := (decodes_readLE endOfData 4 value.toUInt32.toNat
    (by simpa using value.toUInt32.toNat_lt)).map (fun raw => (UInt32.ofNat raw).toInt32)
  simpa [unserializeInt32, serializeInt32, ser_readdata32, ser_writedata32] using run

theorem decodes_unserializeInt64 (value : Int64) :
    Decodes unserializeInt64 (serializeInt64 value) value := by
  have run := (decodes_readLE endOfData 8 value.toUInt64.toNat
    (by simpa using value.toUInt64.toNat_lt)).map (fun raw => (UInt64.ofNat raw).toInt64)
  simpa [unserializeInt64, serializeInt64, ser_readdata64, ser_writedata64] using run

theorem decodes_unserializeCOutPoint (prevout : COutPoint) :
    Decodes unserializeCOutPoint (serializeCOutPoint prevout) prevout := by
  unfold unserializeCOutPoint
  exact Decodes.congr_bytes (Decodes.bind (decodes_unserializeUint256 prevout.hash)
    (Decodes.bind (decodes_unserializeUInt32 prevout.n) (decodes_pure _)))
    (by simp [serializeCOutPoint])

@[simp] theorem serializeCTxIn_withoutWitness (txin : CTxIn) :
    serializeCTxIn txin.withoutWitness = serializeCTxIn txin := rfl

/-- An input with a script `ReadCompactSize` accepts reads back without its
witness, which `CTxIn` does not serialize. -/
theorem decodes_unserializeCTxIn (txin : CTxIn) (scriptFits : txin.scriptSig.length ≤ MAX_SIZE) :
    Decodes unserializeCTxIn (serializeCTxIn txin) txin.withoutWitness := by
  obtain ⟨prevout, scriptSig, nSequence, scriptWitness⟩ := txin
  unfold unserializeCTxIn
  exact Decodes.congr_bytes (Decodes.bind (decodes_unserializeCOutPoint prevout)
    (Decodes.bind (decodes_unserializeBytes scriptSig scriptFits)
      (Decodes.bind (decodes_unserializeUInt32 nSequence) (decodes_pure _))))
    (by simp [serializeCTxIn])

theorem decodes_unserializeCTxOut (txout : CTxOut)
    (scriptFits : txout.scriptPubKey.length ≤ MAX_SIZE) :
    Decodes unserializeCTxOut (serializeCTxOut txout) txout := by
  unfold unserializeCTxOut
  exact Decodes.congr_bytes (Decodes.bind (decodes_unserializeInt64 txout.nValue)
    (Decodes.bind (decodes_unserializeBytes txout.scriptPubKey scriptFits) (decodes_pure _)))
    (by simp [serializeCTxOut])

theorem decodes_unserializeWitnessStack (stack : List (List UInt8))
    (stackFits : stack.length ≤ MAX_SIZE) (itemsFit : ∀ item ∈ stack, item.length ≤ MAX_SIZE) :
    Decodes unserializeWitnessStack (serializeWitnessStack stack) stack :=
  decodes_unserializeVector serializeBytes unserializeBytes stack stackFits
    (fun item member => decodes_unserializeBytes item (itemsFit item member))

end Peercoin.Primitives
