import PeercoinFormal.Coins.Compressor

/-!
# coins.h and undo.h: the stored coin and its undo record

A `Coin` is written to the chainstate by `Coin::Serialize` and to the undo
files by `TxInUndoFormatter::Ser`.  Both pack the height and the flags into
one `uint32_t` VARINT, but differently: the chainstate as
`nHeight * 2 + fCoinBase`, with Peercoin's `fCoinStake` and `nTime` as two
more VARINTs after the output, and the undo record as
`nHeight * 4 + fCoinBase + 2 * fCoinStake`, followed by `nTime` and, for a
positive height, the dummy byte older readers expect.

`nHeight` is a 31-bit bit-field, so the record carries that bound; every
assignment to it in the source truncates, which the readers model by
`% 2^31`.
-/

set_option autoImplicit false

namespace Peercoin.Coins

open Codec Peercoin.Serialize Peercoin.Primitives

@[ext] structure Coin where
  out : CTxOut
  fCoinBase : Bool
  nHeight : Nat
  fCoinStake : Bool
  nTime : UInt32
  nHeight_lt : nHeight < 2 ^ 31
  deriving DecidableEq

def Coin.IsSpent (coin : Coin) : Bool := coin.out.IsNull

section Formats

variable (IsFullyValid : List UInt8 → Bool) (Decompress : List UInt8 → Option (List UInt8))

/-- `Coin::Serialize`; `none` is its `assert(!IsSpent())` failing. -/
def Coin.Serialize (coin : Coin) : Option (List UInt8) :=
  if coin.IsSpent then none
  else
    let code := (coin.nHeight * 2 + coin.fCoinBase.toNat) % 2 ^ 32
    let nFlag := if coin.fCoinStake then 1 else 0
    some (WriteVarInt code ++ TxOutCompression.Ser IsFullyValid coin.out ++ WriteVarInt nFlag ++
      WriteVarInt coin.nTime.toNat)

/-- `Coin::Unserialize` into `coin`, whose output script is where the
script reader starts. -/
def Coin.Unserialize (coin : Coin) : Decoder Coin := do
  let code ← ReadVarInt UINT_MAX
  let out ← TxOutCompression.Unser Decompress coin.out
  let nFlag ← ReadVarInt UINT_MAX
  let nTime ← ReadVarInt UINT_MAX
  pure
    { out, fCoinBase := code &&& 1 != 0, nHeight := (code >>> 1) % 2 ^ 31,
      fCoinStake := nFlag &&& 1 != 0, nTime := UInt32.ofNat nTime,
      nHeight_lt := Nat.mod_lt _ (by decide) }

def TxInUndoFormatter.Ser (txout : Coin) : List UInt8 :=
  let nCode := (txout.nHeight * 4 + txout.fCoinBase.toNat + (if txout.fCoinStake then 2 else 0))
    % 2 ^ 32
  WriteVarInt nCode ++ WriteVarInt txout.nTime.toNat ++
    -- required to maintain compatibility with older undo format
    (if txout.nHeight > 0 then ser_writedata8 0 else []) ++
    TxOutCompression.Ser IsFullyValid txout.out

def TxInUndoFormatter.Unser (txout : Coin) : Decoder Coin := do
  let nCode ← ReadVarInt UINT_MAX
  let nHeight := (nCode >>> 2) % 2 ^ 31
  let nTime ← ReadVarInt UINT_MAX
  -- old versions stored the version of the last spend here
  let _nVersionDummy ← (if nHeight > 0 then ReadVarInt UINT_MAX else pure 0)
  let out ← TxOutCompression.Unser Decompress txout.out
  pure
    { out, fCoinBase := nCode &&& 1 != 0, nHeight, fCoinStake := nCode &&& 2 != 0,
      nTime := UInt32.ofNat nTime, nHeight_lt := Nat.mod_lt _ (by decide) }

end Formats

/-! ## The packed headers -/

theorem MoneyRange_not_IsSpent {coin : Coin} (inRange : MoneyRange coin.out.nValue = true) :
    coin.IsSpent = false := by
  simp only [MoneyRange, Bool.and_eq_true, decide_eq_true_eq] at inRange
  obtain ⟨nonneg, -⟩ := inRange
  have notNull : coin.out.nValue ≠ -1 := by
    intro null
    rw [null] at nonneg
    exact absurd nonneg (by decide)
  simpa [Coin.IsSpent, CTxOut.IsNull] using notNull

private theorem and_two_eq (x : Nat) : x &&& 2 = x % 4 &&& 2 := by
  rw [← Nat.and_two_pow_sub_one_eq_mod x 2, Nat.and_assoc]
  simp

/-- The chainstate header `nHeight * 2 + fCoinBase` gives back both parts. -/
theorem coin_code_bits (nHeight : Nat) (fCoinBase : Bool) :
    (nHeight * 2 + fCoinBase.toNat) >>> 1 = nHeight ∧
      ((nHeight * 2 + fCoinBase.toNat) &&& 1 != 0) = fCoinBase := by
  have flagBit := Bool.toNat_le fCoinBase
  refine ⟨by rw [Nat.shiftRight_eq_div_pow]; omega, ?_⟩
  rw [Nat.and_one_is_mod, show (nHeight * 2 + fCoinBase.toNat) % 2 = fCoinBase.toNat by omega]
  cases fCoinBase <;> rfl

/-- The undo header `nHeight * 4 + fCoinBase + 2 * fCoinStake` gives back all
three parts. -/
theorem undo_code_bits (nHeight : Nat) (fCoinBase fCoinStake : Bool) :
    (nHeight * 4 + fCoinBase.toNat + (if fCoinStake then 2 else 0)) >>> 2 = nHeight ∧
      ((nHeight * 4 + fCoinBase.toNat + (if fCoinStake then 2 else 0)) &&& 1 != 0) =
        fCoinBase ∧
      ((nHeight * 4 + fCoinBase.toNat + (if fCoinStake then 2 else 0)) &&& 2 != 0) =
        fCoinStake := by
  have flagBit := Bool.toNat_le fCoinBase
  have high : (nHeight * 4 + fCoinBase.toNat + (if fCoinStake then 2 else 0)) / 2 ^ 2 =
      nHeight := by split <;> omega
  have lowTwo : (nHeight * 4 + fCoinBase.toNat + (if fCoinStake then 2 else 0)) % 2 =
      fCoinBase.toNat := by split <;> omega
  have lowFour : (nHeight * 4 + fCoinBase.toNat + (if fCoinStake then 2 else 0)) % 4 =
      fCoinBase.toNat + (if fCoinStake then 2 else 0) := by split <;> omega
  rw [Nat.shiftRight_eq_div_pow, Nat.and_one_is_mod, and_two_eq, high, lowTwo, lowFour]
  refine ⟨rfl, ?_, ?_⟩ <;> cases fCoinBase <;> cases fCoinStake <;> decide

/-! ## Round trips -/

section RoundTrip

variable {IsFullyValid : List UInt8 → Bool} {Decompress : List UInt8 → Option (List UInt8)}

theorem decodes_Coin (inverts : DecompressInverts IsFullyValid Decompress) (prior coin : Coin)
    (inRange : MoneyRange coin.out.nValue = true)
    (fits : coin.out.scriptPubKey.length ≤ MAX_SCRIPT_SIZE) :
    ∃ bytes, Coin.Serialize IsFullyValid coin = some bytes ∧
      Decodes (Coin.Unserialize Decompress prior) bytes coin := by
  have unspent := MoneyRange_not_IsSpent inRange
  refine ⟨_, by unfold Coin.Serialize; rw [if_neg (by simp [unspent])], ?_⟩
  have flagBit := Bool.toNat_le coin.fCoinBase
  have codeFits : (coin.nHeight * 2 + coin.fCoinBase.toNat) % 2 ^ 32 =
      coin.nHeight * 2 + coin.fCoinBase.toNat := Nat.mod_eq_of_lt (by have := coin.nHeight_lt; omega)
  obtain ⟨heightBack, coinBaseBack⟩ := coin_code_bits coin.nHeight coin.fCoinBase
  have codeRead := decodes_ReadVarInt UINT_MAX ((coin.nHeight * 2 + coin.fCoinBase.toNat) % 2 ^ 32)
    (by rw [codeFits]; have := coin.nHeight_lt; unfold UINT_MAX; omega)
  have flagRead := decodes_ReadVarInt UINT_MAX (if coin.fCoinStake then 1 else 0)
    (by unfold UINT_MAX; split <;> omega)
  have timeRead := decodes_ReadVarInt UINT_MAX coin.nTime.toNat
    (by have := coin.nTime.toNat_lt; unfold UINT_MAX; omega)
  have outRead := decodes_TxOutCompression inverts prior.out coin.out inRange fits
  unfold Coin.Unserialize
  refine Decodes.congr_bytes (Decodes.bind codeRead (Decodes.bind outRead (Decodes.bind flagRead
    (Decodes.bind timeRead (Decodes.congr_value (decodes_pure _) ?_))))) (by simp)
  apply Coin.ext <;> dsimp only
  · rw [codeFits, coinBaseBack]
  · rw [codeFits, heightBack, Nat.mod_eq_of_lt coin.nHeight_lt]
  · cases coin.fCoinStake <;> rfl
  · exact UInt32.ofNat_toNat

/-- The dummy byte written for a positive height reads as a VARINT of zero,
and nothing is read for height zero. -/
theorem decodes_version_dummy (nHeight : Nat) :
    Decodes (if nHeight > 0 then ReadVarInt UINT_MAX else pure 0)
      (if nHeight > 0 then ser_writedata8 0 else []) 0 := by
  by_cases positive : nHeight > 0
  · rw [if_pos positive, if_pos positive]
    have zeroByte : ser_writedata8 0 = WriteVarInt 0 := by
      rw [WriteVarInt_small 0 (by decide)]; rfl
    rw [zeroByte]
    exact decodes_ReadVarInt UINT_MAX 0 (Nat.zero_le _)
  · rw [if_neg positive, if_neg positive]
    exact decodes_pure 0

theorem decodes_TxInUndo (inverts : DecompressInverts IsFullyValid Decompress) (prior txout : Coin)
    (inRange : MoneyRange txout.out.nValue = true)
    (fits : txout.out.scriptPubKey.length ≤ MAX_SCRIPT_SIZE) (lowHeight : txout.nHeight < 2 ^ 30) :
    Decodes (TxInUndoFormatter.Unser Decompress prior) (TxInUndoFormatter.Ser IsFullyValid txout)
      txout := by
  have flagBit := Bool.toNat_le txout.fCoinBase
  have codeFits : (txout.nHeight * 4 + txout.fCoinBase.toNat +
      (if txout.fCoinStake then 2 else 0)) % 2 ^ 32 =
      txout.nHeight * 4 + txout.fCoinBase.toNat + (if txout.fCoinStake then 2 else 0) :=
    Nat.mod_eq_of_lt (by split <;> omega)
  obtain ⟨heightBack, coinBaseBack, coinStakeBack⟩ :=
    undo_code_bits txout.nHeight txout.fCoinBase txout.fCoinStake
  have heightRead : (((txout.nHeight * 4 + txout.fCoinBase.toNat +
      (if txout.fCoinStake then 2 else 0)) % 2 ^ 32) >>> 2) % 2 ^ 31 = txout.nHeight := by
    rw [codeFits, heightBack, Nat.mod_eq_of_lt txout.nHeight_lt]
  have dummyRead : Decodes (if (((txout.nHeight * 4 + txout.fCoinBase.toNat +
      (if txout.fCoinStake then 2 else 0)) % 2 ^ 32) >>> 2) % 2 ^ 31 > 0
      then ReadVarInt UINT_MAX else pure 0) (if txout.nHeight > 0 then ser_writedata8 0 else []) 0 := by
    rw [heightRead]
    exact decodes_version_dummy txout.nHeight
  have codeRead := decodes_ReadVarInt UINT_MAX ((txout.nHeight * 4 + txout.fCoinBase.toNat +
      (if txout.fCoinStake then 2 else 0)) % 2 ^ 32)
    (by unfold UINT_MAX; omega)
  have timeRead := decodes_ReadVarInt UINT_MAX txout.nTime.toNat
    (by have := txout.nTime.toNat_lt; unfold UINT_MAX; omega)
  have outRead := decodes_TxOutCompression inverts prior.out txout.out inRange fits
  unfold TxInUndoFormatter.Unser
  refine Decodes.congr_bytes (Decodes.bind codeRead (Decodes.bind timeRead (Decodes.bind
    dummyRead (Decodes.bind outRead
      (Decodes.congr_value (decodes_pure _) ?_))))) (by simp [TxInUndoFormatter.Ser])
  apply Coin.ext <;> dsimp only
  · rw [codeFits, coinBaseBack]
  · exact heightRead
  · rw [codeFits, coinStakeBack]
  · exact UInt32.ofNat_toNat

end RoundTrip

end Peercoin.Coins
