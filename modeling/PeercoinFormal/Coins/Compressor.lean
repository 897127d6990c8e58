import PeercoinFormal.Primitives.Transaction

/-!
# compressor.h / compressor.cpp: the compact amount and script formats

The chainstate and the undo files store outputs through `TxOutCompression`:
the amount as a VARINT of `CompressAmount`, the script either as one of six
special forms (a tag byte below `nSpecialScripts` and 20 or 32 bytes) or as
a VARINT of its size plus six, then its bytes.

`CompressAmount` works on `uint64_t`; the model computes on `Nat` and takes
its two results mod `2^64`, which is the only place a `uint64_t` operation of
either function can wrap.  The two secp256k1 calls the script compressor
makes (`CPubKey::IsFullyValid` and `CPubKey::Decompress`, both a parse of the
library) are the parameters `IsFullyValid` and `Decompress`; the one property
the round trip needs of them is `DecompressInverts`.
-/

set_option autoImplicit false

namespace Peercoin.Coins

open Codec Peercoin.Serialize Peercoin.Primitives

/-! ## Amounts -/

/-- The loop of `CompressAmount` that strips at most nine trailing zeros. -/
def CompressAmountLoop (n e : Nat) : Nat × Nat :=
  if n % 10 = 0 ∧ e < 9 then CompressAmountLoop (n / 10) (e + 1) else (n, e)
termination_by 9 - e

def CompressAmount (n : Nat) : Nat :=
  if n = 0 then 0
  else
    let stripped := CompressAmountLoop n 0
    let n := stripped.1
    let e := stripped.2
    if e < 9 then
      let d := n % 10
      (1 + (n / 10 * 9 + d - 1) * 10 + e) % 2 ^ 64
    else (1 + (n - 1) * 10 + 9) % 2 ^ 64

/-- The final loop of `DecompressAmount`, `n *= 10` in `uint64_t`. -/
def DecompressAmountLoop (n : Nat) : Nat → Nat
  | 0 => n
  | e + 1 => DecompressAmountLoop (n * 10 % 2 ^ 64) e

/-- `DecompressAmount`; before the final loop nothing can wrap on an input
below `2^64`. -/
def DecompressAmount (x : Nat) : Nat :=
  if x = 0 then 0
  else
    let x := x - 1
    let e := x % 10
    let x := x / 10
    let n := if e < 9 then x / 9 * 10 + (x % 9 + 1) else x + 1
    DecompressAmountLoop n e

/-- What the stripping loop returns, started at exponent `e`: the digits `m`
and exponent `e'` with `m * 10^(e' - e) = n`, and a last digit that is not
zero unless all nine zeros were taken. -/
structure StrippedAmount (n e : Nat) (stripped : Nat × Nat) : Prop where
  digits : stripped.1 * 10 ^ (stripped.2 - e) = n
  exponentFrom : e ≤ stripped.2
  exponentBound : stripped.2 ≤ 9
  positive : 0 < stripped.1
  lastDigit : stripped.2 < 9 → stripped.1 % 10 ≠ 0

theorem CompressAmountLoop_stripped (n e : Nat) (positive : 0 < n) (bounded : e ≤ 9) :
    StrippedAmount n e (CompressAmountLoop n e) := by
  induction n, e using CompressAmountLoop.induct with
  | case1 n e strip ih =>
      have tenth : StrippedAmount (n / 10) (e + 1) (CompressAmountLoop (n / 10) (e + 1)) :=
        ih (by omega) (by omega)
      rw [CompressAmountLoop, if_pos strip]
      obtain ⟨digits, exponentFrom, exponentBound, tenthPositive, lastDigit⟩ := tenth
      refine ⟨?_, by omega, exponentBound, tenthPositive, lastDigit⟩
      have split : (CompressAmountLoop (n / 10) (e + 1)).2 - e =
          (CompressAmountLoop (n / 10) (e + 1)).2 - (e + 1) + 1 := by omega
      rw [split, Nat.pow_succ, ← Nat.mul_assoc, digits]
      omega
  | case2 n e keep =>
      rw [CompressAmountLoop, if_neg keep]
      exact ⟨by simp, Nat.le_refl e, bounded, positive, fun small => by omega⟩

theorem DecompressAmountLoop_eq (n e : Nat) (small : n < 2 ^ 64) :
    DecompressAmountLoop n e = n * 10 ^ e % 2 ^ 64 := by
  induction e generalizing n with
  | zero => rw [DecompressAmountLoop, Nat.pow_zero, Nat.mul_one, Nat.mod_eq_of_lt small]
  | succ e ih =>
      rw [DecompressAmountLoop, ih _ (Nat.mod_lt _ (by decide)), Nat.mod_mul_mod]
      congr 1
      rw [Nat.pow_succ, Nat.mul_comm (10 ^ e) 10, Nat.mul_assoc]

/-- The packing `1 + 10*(9*n + d - 1) + e` of digits whose last one `d` is
not zero is undone by `DecompressAmount` up to its final loop. -/
theorem DecompressAmount_packed (m e : Nat) (exponent : e < 9) (lastDigit : m % 10 ≠ 0) :
    DecompressAmount (1 + (m / 10 * 9 + m % 10 - 1) * 10 + e) = DecompressAmountLoop m e := by
  have low : (1 + (m / 10 * 9 + m % 10 - 1) * 10 + e - 1) % 10 = e := by omega
  have high : (1 + (m / 10 * 9 + m % 10 - 1) * 10 + e - 1) / 10 = m / 10 * 9 + m % 10 - 1 := by
    omega
  have digits : (m / 10 * 9 + m % 10 - 1) / 9 * 10 + ((m / 10 * 9 + m % 10 - 1) % 9 + 1) = m := by
    omega
  simp only [DecompressAmount, low, high, if_pos exponent, digits]
  rw [if_neg (by omega)]

/-- With all nine zeros stripped the packing is `1 + 10*(n - 1) + 9`. -/
theorem DecompressAmount_packed_nine (m : Nat) (positive : 0 < m) :
    DecompressAmount (1 + (m - 1) * 10 + 9) = DecompressAmountLoop m 9 := by
  have low : (1 + (m - 1) * 10 + 9 - 1) % 10 = 9 := by omega
  have high : (1 + (m - 1) * 10 + 9 - 1) / 10 + 1 = m := by omega
  simp only [DecompressAmount, low, Nat.lt_irrefl, if_false, high]
  rw [if_neg (by omega)]

theorem CompressAmount_lt (n : Nat) : CompressAmount n < 2 ^ 64 := by
  unfold CompressAmount
  split
  · decide
  · dsimp only
    split <;> exact Nat.mod_lt _ (by decide)

theorem DecompressAmount_CompressAmount (n : Nat) (inRange : n ≤ MAX_MONEY.toNatClampNeg) :
    DecompressAmount (CompressAmount n) = n := by
  rw [MAX_MONEY_toNatClampNeg] at inRange
  by_cases zero : n = 0
  · simp [zero, CompressAmount, DecompressAmount]
  · have stripped := CompressAmountLoop_stripped n 0 (Nat.pos_of_ne_zero zero) (Nat.zero_le 9)
    simp only [CompressAmount, if_neg zero]
    generalize CompressAmountLoop n 0 = pair at stripped ⊢
    obtain ⟨m, e⟩ := pair
    obtain ⟨digits, -, exponentBound, positive, lastDigit⟩ := stripped
    simp only [Nat.sub_zero] at digits lastDigit
    dsimp only at exponentBound positive ⊢
    have mLe : m ≤ n := digits ▸ Nat.le_mul_of_pos_right m (Nat.pow_pos (by decide))
    have unpacked : DecompressAmountLoop m e = n := by
      rw [DecompressAmountLoop_eq m e (by omega), digits, Nat.mod_eq_of_lt (by omega)]
    by_cases trailing : e < 9
    · rw [if_pos trailing, Nat.mod_eq_of_lt (by omega),
        DecompressAmount_packed m e trailing (lastDigit trailing), unpacked]
    · have nine : e = 9 := by omega
      subst nine
      have tenM : 1 + (m - 1) * 10 + 9 < 2 ^ 64 := by
        have : m * 10 ≤ n := by rw [← digits]; exact Nat.mul_le_mul_left m (by decide)
        omega
      rw [if_neg trailing, Nat.mod_eq_of_lt tenM, DecompressAmount_packed_nine m positive, unpacked]

/-! ## Scripts -/

abbrev CompressedScript := List UInt8

def nSpecialScripts : Nat := 6

/-- `IsToKeyID`: the byte tests at positions 0..2 and 23..24 are the prefix
and suffix of a 25-byte script; the key hash is the 20 bytes between. -/
def IsToKeyID (script : CScript) : Option (List UInt8) :=
  if script.length = 25 ∧ script.take 3 = [OP_DUP, OP_HASH160, 20] ∧
      script.drop 23 = [OP_EQUALVERIFY, OP_CHECKSIG] then
    some ((script.drop 3).take 20)
  else none

def IsToScriptID (script : CScript) : Option (List UInt8) :=
  if script.length = 23 ∧ script.take 2 = [OP_HASH160, 20] ∧ script.drop 22 = [OP_EQUAL] then
    some ((script.drop 2).take 20)
  else none

def GetSpecialScriptSize (nSize : Nat) : Nat :=
  if nSize = 0 ∨ nSize = 1 then 20
  else if nSize = 2 ∨ nSize = 3 ∨ nSize = 4 ∨ nSize = 5 then 32
  else 0

section PubKey

variable (IsFullyValid : List UInt8 → Bool) (Decompress : List UInt8 → Option (List UInt8))

/-- `IsToPubKey`, returning the key `CPubKey::Set` copies; `Set` accepts both
byte ranges, since their lengths are those of their first bytes. -/
def IsToPubKey (script : CScript) : Option (List UInt8) :=
  if script.length = 35 ∧ script.take 1 = [33] ∧ script.drop 34 = [OP_CHECKSIG] ∧
      (script[1]! = 0x02 ∨ script[1]! = 0x03) then
    some ((script.drop 1).take 33)
  else if script.length = 67 ∧ script.take 1 = [65] ∧ script.drop 66 = [OP_CHECKSIG] ∧
      script[1]! = 0x04 then
    let pubkey := (script.drop 1).take 65
    -- a key that is not fully valid could not be represented compressed
    if IsFullyValid pubkey then some pubkey else none
  else none

def CompressScript (script : CScript) : Option CompressedScript :=
  match IsToKeyID script with
  | some keyID => some (0x00 :: keyID)
  | none =>
    match IsToScriptID script with
    | some scriptID => some (0x01 :: scriptID)
    | none =>
      match IsToPubKey IsFullyValid script with
      | some pubkey =>
        if pubkey[0]! = 0x02 ∨ pubkey[0]! = 0x03 then
          some (pubkey[0]! :: (pubkey.drop 1).take 32)
        else if pubkey[0]! = 0x04 then
          some (((0x04 : UInt8) ||| (pubkey[64]! &&& 0x01)) :: (pubkey.drop 1).take 32)
        else none
      | none => none

/-- `DecompressScript`; `none` is its `false`, which leaves the script as it
was.  `Decompress` yields the 65 bytes the source asserts. -/
def DecompressScript (nSize : Nat) (input : CompressedScript) : Option CScript :=
  match nSize with
  | 0x00 => some ([OP_DUP, OP_HASH160, 20] ++ input.take 20 ++ [OP_EQUALVERIFY, OP_CHECKSIG])
  | 0x01 => some ([OP_HASH160, 20] ++ input.take 20 ++ [OP_EQUAL])
  | 0x02 | 0x03 => some ([33, UInt8.ofNat nSize] ++ input.take 32 ++ [OP_CHECKSIG])
  | 0x04 | 0x05 =>
    match Decompress (UInt8.ofNat (nSize - 2) :: input.take 32) with
    | some pubkey => some ([65] ++ pubkey ++ [OP_CHECKSIG])
    | none => none
  | _ => none

/-- What the model assumes of secp256k1: a fully valid uncompressed key
`04 ‖ x ‖ y` is recovered from its compressed form `(02 | parity y) ‖ x`. -/
def DecompressInverts : Prop :=
  ∀ pubkey : List UInt8, pubkey.length = 65 → pubkey[0]! = 0x04 → IsFullyValid pubkey = true →
    Decompress (((0x02 : UInt8) ||| (pubkey[64]! &&& 0x01)) :: (pubkey.drop 1).take 32) =
      some pubkey

end PubKey

/-! ## Each special form decompresses to its script -/

private theorem frame_eq {α : Type} {s p q : List α} {a m : Nat} (front : s.take a = p)
    (back : s.drop (a + m) = q) : p ++ (s.drop a).take m ++ q = s := by
  rw [← front, ← back, ← List.take_add, List.take_append_drop]

private theorem parity_cases (b : UInt8) : b &&& 0x01 = 0 ∨ b &&& 0x01 = 1 := by
  have small : (b &&& 0x01).toNat < 2 := by
    rw [UInt8.toNat_and]; exact Nat.lt_of_le_of_lt Nat.and_le_right (by decide)
  rcases Nat.lt_succ_iff_lt_or_eq.mp small with zero | one
  · left; apply UInt8.toNat_inj.mp; simp only [UInt8.toNat_zero]; omega
  · right; apply UInt8.toNat_inj.mp; simp only [UInt8.toNat_one]; omega

/-- The tag of an uncompressed key is 4 or 5, and two less is the prefix
byte of the compressed key. -/
theorem uncompressed_tag (b : UInt8) :
    UInt8.ofNat (((0x04 : UInt8) ||| (b &&& 0x01)).toNat - 2) = 0x02 ||| (b &&& 0x01) ∧
      4 ≤ ((0x04 : UInt8) ||| (b &&& 0x01)).toNat ∧
      ((0x04 : UInt8) ||| (b &&& 0x01)).toNat ≤ 5 := by
  rcases parity_cases b with parity | parity <;> rw [parity] <;> decide

theorem IsToKeyID_some {script keyID : List UInt8} (Decompress : List UInt8 → Option (List UInt8))
    (found : IsToKeyID script = some keyID) :
    keyID.length = 20 ∧ DecompressScript Decompress 0 keyID = some script := by
  unfold IsToKeyID at found
  split at found
  · rename_i shape
    obtain ⟨length, front, back⟩ := shape
    cases found
    refine ⟨by simp [length], ?_⟩
    simp only [DecompressScript, List.take_take, Nat.min_self]
    exact congrArg some (frame_eq front back)
  · cases found

theorem IsToScriptID_some {script scriptID : List UInt8}
    (Decompress : List UInt8 → Option (List UInt8))
    (found : IsToScriptID script = some scriptID) :
    scriptID.length = 20 ∧ DecompressScript Decompress 1 scriptID = some script := by
  unfold IsToScriptID at found
  split at found
  · rename_i shape
    obtain ⟨length, front, back⟩ := shape
    cases found
    refine ⟨by simp [length], ?_⟩
    simp only [DecompressScript, List.take_take, Nat.min_self]
    exact congrArg some (frame_eq front back)
  · cases found

/-- The two pay-to-pubkey forms `IsToPubKey` recognises, each with its key. -/
theorem IsToPubKey_some {IsFullyValid : List UInt8 → Bool} {script pubkey : List UInt8}
    (found : IsToPubKey IsFullyValid script = some pubkey) :
    ((pubkey[0]! = 0x02 ∨ pubkey[0]! = 0x03) ∧ pubkey.length = 33 ∧
        [33] ++ pubkey ++ [OP_CHECKSIG] = script) ∨
      (pubkey[0]! = 0x04 ∧ IsFullyValid pubkey = true ∧ pubkey.length = 65 ∧
        [65] ++ pubkey ++ [OP_CHECKSIG] = script) := by
  unfold IsToPubKey at found
  split at found
  · rename_i shape
    obtain ⟨length, front, back, prefixByte⟩ := shape
    cases found
    exact Or.inl ⟨by simpa using prefixByte, by simp [length], frame_eq front back⟩
  · split at found
    · rename_i shape
      obtain ⟨length, front, back, prefixByte⟩ := shape
      simp only [Option.ite_none_right_eq_some, Option.some.injEq] at found
      obtain ⟨valid, rfl⟩ := found
      exact Or.inr ⟨by simpa using prefixByte, valid, by simp [length], frame_eq front back⟩
    · cases found

theorem DecompressScript_compressed (Decompress : List UInt8 → Option (List UInt8))
    (pubkey : List UInt8) (tag : pubkey[0]! = 0x02 ∨ pubkey[0]! = 0x03)
    (length : pubkey.length = 33) :
    (pubkey[0]!).toNat < nSpecialScripts ∧
      ((pubkey.drop 1).take 32).length = GetSpecialScriptSize (pubkey[0]!).toNat ∧
      DecompressScript Decompress (pubkey[0]!).toNat ((pubkey.drop 1).take 32) =
        some ([33] ++ pubkey ++ [OP_CHECKSIG]) := by
  obtain _ | ⟨first, key⟩ := pubkey
  · cases length
  · have keyLength : key.length = 32 := by simpa using length
    simp only [List.getElem!_cons_zero] at tag ⊢
    rcases tag with rfl | rfl <;>
      simp [nSpecialScripts, GetSpecialScriptSize, DecompressScript, keyLength,
        List.take_of_length_le]

theorem DecompressScript_uncompressed {IsFullyValid : List UInt8 → Bool}
    {Decompress : List UInt8 → Option (List UInt8)}
    (inverts : DecompressInverts IsFullyValid Decompress) (pubkey : List UInt8)
    (tag : pubkey[0]! = 0x04) (valid : IsFullyValid pubkey = true) (length : pubkey.length = 65) :
    ((0x04 : UInt8) ||| (pubkey[64]! &&& 0x01)).toNat < nSpecialScripts ∧
      ((pubkey.drop 1).take 32).length =
        GetSpecialScriptSize ((0x04 : UInt8) ||| (pubkey[64]! &&& 0x01)).toNat ∧
      DecompressScript Decompress ((0x04 : UInt8) ||| (pubkey[64]! &&& 0x01)).toNat
        ((pubkey.drop 1).take 32) = some ([65] ++ pubkey ++ [OP_CHECKSIG]) := by
  obtain ⟨retag, low, high⟩ := uncompressed_tag pubkey[64]!
  have recovered := inverts pubkey length tag valid
  have inputLength : ((pubkey.drop 1).take 32).length = 32 := by simp [length]
  have input : ((pubkey.drop 1).take 32).take 32 = (pubkey.drop 1).take 32 := by
    rw [List.take_take, Nat.min_self]
  generalize ((0x04 : UInt8) ||| (pubkey[64]! &&& 0x01)).toNat = t at retag low high ⊢
  refine ⟨by unfold nSpecialScripts; omega, ?_, ?_⟩
  · rw [inputLength]
    unfold GetSpecialScriptSize
    split_ifs <;> omega
  · -- the tag selects the `0x04 | 0x05` case whichever parity the key has
    rcases (show t = 4 ∨ t = 5 by omega) with rfl | rfl <;>
    · simp only [DecompressScript]
      rw [input, retag, recovered]

/-- Every special form `CompressScript` emits is a tag below
`nSpecialScripts` and `GetSpecialScriptSize tag` bytes, from which
`DecompressScript` rebuilds the script. -/
theorem CompressScript_special {IsFullyValid : List UInt8 → Bool}
    {Decompress : List UInt8 → Option (List UInt8)}
    (inverts : DecompressInverts IsFullyValid Decompress) {script compr : List UInt8}
    (compressed : CompressScript IsFullyValid script = some compr) :
    ∃ tag payload, compr = tag :: payload ∧ tag.toNat < nSpecialScripts ∧
      payload.length = GetSpecialScriptSize tag.toNat ∧
      DecompressScript Decompress tag.toNat payload = some script := by
  unfold CompressScript at compressed
  split at compressed
  · rename_i keyID found
    cases compressed
    obtain ⟨length, decompressed⟩ := IsToKeyID_some Decompress found
    exact ⟨0x00, keyID, rfl, by decide, by simp [GetSpecialScriptSize, length], decompressed⟩
  · split at compressed
    · rename_i scriptID found
      cases compressed
      obtain ⟨length, decompressed⟩ := IsToScriptID_some Decompress found
      exact ⟨0x01, scriptID, rfl, by decide, by simp [GetSpecialScriptSize, length], decompressed⟩
    · split at compressed
      · rename_i pubkey found
        rcases IsToPubKey_some found with ⟨tag, length, shape⟩ | ⟨tag, valid, length, shape⟩
        · rw [if_pos tag] at compressed
          cases compressed
          obtain ⟨small, payloadLength, decompressed⟩ :=
            DecompressScript_compressed Decompress pubkey tag length
          exact ⟨_, _, rfl, small, payloadLength, shape ▸ decompressed⟩
        · have notCompressed : ¬ (pubkey[0]! = 0x02 ∨ pubkey[0]! = 0x03) := by
            rw [tag]; decide
          rw [if_neg notCompressed, if_pos tag] at compressed
          cases compressed
          obtain ⟨small, payloadLength, decompressed⟩ :=
            DecompressScript_uncompressed inverts pubkey tag valid length
          exact ⟨_, _, rfl, small, payloadLength, shape ▸ decompressed⟩
      · cases compressed

/-! ## The formatters -/

def UINT_MAX : Nat := 0xFFFFFFFF

def UINT64_MAX : Nat := 0xFFFFFFFFFFFFFFFF

/-- The exception text of `DataStream::ignore` past the end. -/
def ignoreEndOfData : String := "DataStream::ignore(): end of data"

section Formatters

variable (IsFullyValid : List UInt8 → Bool) (Decompress : List UInt8 → Option (List UInt8))

/-- `ScriptCompression::Ser`: a special form goes out as raw bytes, whose tag
byte the reader takes for a one-byte VARINT. -/
def ScriptCompression.Ser (script : CScript) : List UInt8 :=
  match CompressScript IsFullyValid script with
  | some compr => compr
  | none => WriteVarInt ((script.length + nSpecialScripts) % 2 ^ 32) ++ script

/-- The rest of `ScriptCompression::Unser` once `nSize` is read; `script` is
what the field held before. -/
def readScriptPayload (script : CScript) (nSize : Nat) : Decoder CScript :=
  if nSize < nSpecialScripts then do
    let vch ← takeBytes endOfData (GetSpecialScriptSize nSize)
    pure ((DecompressScript Decompress nSize vch).getD script)
  else if nSize - nSpecialScripts > MAX_SCRIPT_SIZE then do
    -- an overly long script is replaced by a short invalid one and skipped
    let _ ← takeBytes ignoreEndOfData (nSize - nSpecialScripts)
    pure (script ++ [OP_RETURN])
  else takeBytes endOfData (nSize - nSpecialScripts)

def ScriptCompression.Unser (script : CScript) : Decoder CScript := do
  let nSize ← ReadVarInt UINT_MAX
  readScriptPayload Decompress script nSize

/-- `AmountCompression::Ser` at `I = CAmount`: the amount is passed on as a
`uint64_t`. -/
def AmountCompression.Ser (val : Int64) : List UInt8 :=
  WriteVarInt (CompressAmount val.toUInt64.toNat)

def AmountCompression.Unser : Decoder Int64 := do
  let v ← ReadVarInt UINT64_MAX
  pure (UInt64.ofNat (DecompressAmount v)).toInt64

def TxOutCompression.Ser (out : CTxOut) : List UInt8 :=
  AmountCompression.Ser out.nValue ++ ScriptCompression.Ser IsFullyValid out.scriptPubKey

def TxOutCompression.Unser (out : CTxOut) : Decoder CTxOut := do
  let nValue ← AmountCompression.Unser
  let scriptPubKey ← ScriptCompression.Unser Decompress out.scriptPubKey
  pure ⟨nValue, scriptPubKey⟩

end Formatters

/-! ## Round trips -/

/-- A script the reader does not cut short reads back whatever the field
held before. -/
theorem decodes_ScriptCompression {IsFullyValid : List UInt8 → Bool}
    {Decompress : List UInt8 → Option (List UInt8)}
    (inverts : DecompressInverts IsFullyValid Decompress) (prior script : CScript)
    (fits : script.length ≤ MAX_SCRIPT_SIZE) :
    Decodes (ScriptCompression.Unser Decompress prior) (ScriptCompression.Ser IsFullyValid script)
      script := by
  unfold ScriptCompression.Ser ScriptCompression.Unser
  split
  · rename_i compr compressed
    obtain ⟨tag, payload, rfl, small, payloadLength, decompressed⟩ :=
      CompressScript_special inverts compressed
    have tagByte : WriteVarInt tag.toNat = [tag] := by
      rw [WriteVarInt_small _ (by unfold nSpecialScripts at small; omega), UInt8.ofNat_toNat]
    have tagRead := decodes_ReadVarInt UINT_MAX tag.toNat
      (by unfold UINT_MAX nSpecialScripts at *; omega)
    rw [tagByte] at tagRead
    have payloadRead : Decodes (readScriptPayload Decompress prior tag.toNat) payload script := by
      have taken := decodes_takeBytes endOfData payload
      rw [payloadLength] at taken
      refine Decodes.ite_pos small (Decodes.congr_bytes (taken.bind ?_) (List.append_nil _))
      simpa [decompressed] using decodes_pure script
    exact tagRead.bind payloadRead
  · have sizeFits :
        (script.length + nSpecialScripts) % 2 ^ 32 = script.length + nSpecialScripts := by
      unfold nSpecialScripts MAX_SCRIPT_SIZE at *; omega
    rw [sizeFits]
    have sizeRead := decodes_ReadVarInt UINT_MAX (script.length + nSpecialScripts)
      (by unfold UINT_MAX nSpecialScripts MAX_SCRIPT_SIZE at *; omega)
    have payloadRead :
        Decodes (readScriptPayload Decompress prior (script.length + nSpecialScripts)) script
          script := by
      unfold readScriptPayload
      refine Decodes.ite_neg (by omega) (Decodes.ite_neg (by omega) ?_)
      simpa using decodes_takeBytes endOfData script
    exact sizeRead.bind payloadRead

theorem decodes_AmountCompression (val : Int64) (inRange : MoneyRange val = true) :
    Decodes AmountCompression.Unser (AmountCompression.Ser val) val := by
  have bounded := MoneyRange.toUInt64_le inRange
  have compressedRead := decodes_ReadVarInt UINT64_MAX (CompressAmount val.toUInt64.toNat)
    (by have := CompressAmount_lt val.toUInt64.toNat; unfold UINT64_MAX; omega)
  have restored : (UInt64.ofNat (DecompressAmount (CompressAmount val.toUInt64.toNat))).toInt64 =
      val := by
    rw [DecompressAmount_CompressAmount _ bounded, UInt64.ofNat_toNat, Int64.toInt64_toUInt64]
  unfold AmountCompression.Unser
  exact Decodes.congr_bytes
    (Decodes.bind compressedRead (by rw [restored]; exact decodes_pure val)) (List.append_nil _)

theorem decodes_TxOutCompression {IsFullyValid : List UInt8 → Bool}
    {Decompress : List UInt8 → Option (List UInt8)}
    (inverts : DecompressInverts IsFullyValid Decompress) (prior out : CTxOut)
    (inRange : MoneyRange out.nValue = true) (fits : out.scriptPubKey.length ≤ MAX_SCRIPT_SIZE) :
    Decodes (TxOutCompression.Unser Decompress prior) (TxOutCompression.Ser IsFullyValid out)
      out := by
  unfold TxOutCompression.Unser
  exact Decodes.congr_bytes (Decodes.bind (decodes_AmountCompression out.nValue inRange)
    (Decodes.bind (decodes_ScriptCompression inverts prior.scriptPubKey out.scriptPubKey fits)
      (decodes_pure _))) (by simp [TxOutCompression.Ser])

end Peercoin.Coins
