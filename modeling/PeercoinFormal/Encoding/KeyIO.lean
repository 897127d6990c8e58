import PeercoinFormal.Encoding.Base58
import PeercoinFormal.Encoding.Bech32
import PeercoinFormal.Pow.AsertAnchor

/-!
# key_io.cpp: addresses

`EncodeDestination` writes a key hash or a script hash in Base58Check after
the network's one-byte prefix, and a witness program in Bech32 (version 0)
or Bech32m (later versions) after the network's hrp, the program regrouped
into five-bit symbols behind the version symbol.  `DecodeDestination`
guesses the format first: a string that starts with the hrp in any case and
then `1`, and is longer than 13 characters, is decoded as Bech32, and only
if that fails as Base58Check.

Every destination that `EncodeDestination` writes is read back by
`DecodeDestination` (`DecodeDestination_EncodeDestination`), with two
exceptions: a Base58Check string that also passes for a Bech32 one, and an
unknown witness program of version 1 and 32 bytes, which is read back as a
taproot output (`WitnessUnknown_taproot_decodes_as_taproot`).  A string
read as a witness address is, in lower case, the encoding of what it was
read as.
-/

set_option autoImplicit false

namespace Peercoin.KeyIO

open Peercoin.Primitives Peercoin.Base58 Peercoin.Bech32 Peercoin.Pow Util

/-- `uint160`: 20 bytes. -/
structure uint160 where
  data : List UInt8
  size_eq : data.length = 20
  deriving DecidableEq

/-- `CTxDestination`.  A `WitnessUnknown`'s program is its `length` bytes
of `program`. -/
inductive CTxDestination
  | CNoDestination
  | PKHash (hash : uint160)
  | ScriptHash (hash : uint160)
  | WitnessV0ScriptHash (hash : uint256)
  | WitnessV0KeyHash (hash : uint160)
  | WitnessV1Taproot (xonly : uint256)
  | WitnessUnknown (version : Nat) (program : List UInt8)
  deriving DecidableEq

/-- The fields of `CChainParams` that addresses read. -/
structure CChainParams where
  PUBKEY_ADDRESS : List UInt8
  SCRIPT_ADDRESS : List UInt8
  bech32_hrp : List UInt8

/-- The address fields of each network's `CChainParams`; the hrps are "pc",
"tpc", "tb" and "pcrt". -/
def ChainParams : ChainType → CChainParams
  | .MAIN => ⟨[55], [117], [0x70, 0x63]⟩
  | .TESTNET => ⟨[111], [196], [0x74, 0x70, 0x63]⟩
  | .SIGNET => ⟨[111], [196], [0x74, 0x62]⟩
  | .REGTEST => ⟨[111], [196], [0x70, 0x63, 0x72, 0x74]⟩

/-- The `DestinationEncoder` operators of the witness destinations: the
version symbol, then the program regrouped into five-bit symbols, written
under the encoding.  The padded `ConvertBits` always succeeds, and the
source ignores its result. -/
def WitnessEncoder (params : CChainParams) (encoding : Encoding) (version : UInt8)
    (program : List UInt8) : Option (List UInt8) :=
  Encode encoding params.bech32_hrp (version :: (ConvertBits 8 5 true program).getD [])

/-- `DestinationEncoder`; `none` is `bech32::Encode`'s assertion failing,
and `{}` is the empty string. -/
def DestinationEncoder (sha256 : List UInt8 → uint256) (params : CChainParams) :
    CTxDestination → Option (List UInt8)
  | .PKHash id => some (EncodeBase58Check sha256 (params.PUBKEY_ADDRESS ++ id.data))
  | .ScriptHash id => some (EncodeBase58Check sha256 (params.SCRIPT_ADDRESS ++ id.data))
  | .WitnessV0KeyHash id => WitnessEncoder params .BECH32 0 id.data
  | .WitnessV0ScriptHash id => WitnessEncoder params .BECH32 0 id.data
  | .WitnessV1Taproot tap => WitnessEncoder params .BECH32M 1 tap.data
  | .WitnessUnknown version program =>
    if version < 1 ∨ version > 16 ∨ program.length < 2 ∨ program.length > 40 then some []
    else WitnessEncoder params .BECH32M version.toUInt8 program
  | .CNoDestination => some []

def EncodeDestination (sha256 : List UInt8 → uint256) (params : CChainParams)
    (dest : CTxDestination) : Option (List UInt8) :=
  DestinationEncoder sha256 params dest

/-- A string's bytes as the text `strprintf` puts in an error. -/
def text (str : List UInt8) : String := String.ofList (str.map fun c => Char.ofNat c.toNat)

/-- The Base58Check branch of `DecodeDestination`, from the decoded data on. -/
def DecodeBase58Destination (params : CChainParams) (data : List UInt8) : CTxDestination × String :=
  let pubkeyPrefix := params.PUBKEY_ADDRESS
  let scriptPrefix := params.SCRIPT_ADDRESS
  if pubkeyHash : data.length = 20 + pubkeyPrefix.length ∧ pubkeyPrefix.isPrefixOf data then
    (.PKHash ⟨data.drop pubkeyPrefix.length, by simp [pubkeyHash.1]⟩, "")
  else if scriptHash : data.length = 20 + scriptPrefix.length ∧ scriptPrefix.isPrefixOf data then
    (.ScriptHash ⟨data.drop scriptPrefix.length, by simp [scriptHash.1]⟩, "")
  -- a known prefix with the wrong length
  else if (scriptPrefix.length ≤ data.length ∧ scriptPrefix.isPrefixOf data) ∨
      (pubkeyPrefix.length ≤ data.length ∧ pubkeyPrefix.isPrefixOf data) then
    (.CNoDestination, "Invalid length for Base58 address (P2PKH or P2SH)")
  else (.CNoDestination, "Invalid or unsupported Base58-encoded address.")

/-- The end of the Bech32 branch of `DecodeDestination`: the destination of
a witness program of a version, by the program's size. -/
def WitnessProgramDestination (version : Nat) (data : List UInt8) : CTxDestination × String :=
  if version = 0 then
    if keyid : data.length = 20 then (.WitnessV0KeyHash ⟨data, keyid⟩, "")
    else if scriptid : data.length = 32 then (.WitnessV0ScriptHash ⟨data, scriptid⟩, "")
    else (.CNoDestination, "Invalid Bech32 v0 address program size (" ++
      toString data.length ++ " byte), per BIP141")
  else if tap : version = 1 ∧ data.length = 32 then (.WitnessV1Taproot ⟨data, tap.2⟩, "")
  else if version > 16 then (.CNoDestination, "Invalid Bech32 address witness version")
  else if data.length < 2 ∨ data.length > 40 then
    (.CNoDestination, "Invalid Bech32 address program size (" ++ toString data.length ++ " byte)")
  else (.WitnessUnknown version data, "")

/-- The Bech32 branch of `DecodeDestination`, from the decoded string on.
The version is `int version = dec.data[0]`. -/
def DecodeWitness (params : CChainParams) (dec : DecodeResult) : CTxDestination × String :=
  match dec.data with
  | [] => (.CNoDestination, "Empty Bech32 data section")
  | first :: symbols =>
    let version := first.toNat
    if dec.hrp ≠ params.bech32_hrp then
      (.CNoDestination, "Invalid or unsupported prefix for Segwit (Bech32) address (expected " ++
        text params.bech32_hrp ++ ", got " ++ text dec.hrp ++ ").")
    else if version = 0 ∧ dec.encoding ≠ .BECH32 then
      (.CNoDestination, "Version 0 witness address must use Bech32 checksum")
    else if version ≠ 0 ∧ dec.encoding ≠ .BECH32M then
      (.CNoDestination, "Version 1+ witness address must use Bech32m checksum")
    else
      match ConvertBits 5 8 false symbols with
      | none => (.CNoDestination, "Invalid padding in Bech32 data section")
      | some data => WitnessProgramDestination version data

/-- The guess of `DecodeDestination` that a string is a Bech32 one: it
starts with the hrp in any case, then `1`, and is longer than 13
characters. -/
def LooksBech32 (params : CChainParams) (str : List UInt8) : Bool :=
  (str.take params.bech32_hrp.length).map ToLower == params.bech32_hrp && decide (str.length > 13) &&
    str.getD params.bech32_hrp.length 0 == 49

/-- `DecodeDestination`: the destination and `error_str`.  Its last lines,
the error location of a string that decoded with neither encoding, are not
reached: a string that decodes has one of the two. -/
def DecodeDestination (sha256 : List UInt8 → uint256) (str : List UInt8) (params : CChainParams) :
    CTxDestination × String :=
  let dec := if LooksBech32 params str then Decode str else none
  match dec with
  | some dec => DecodeWitness params dec
  | none =>
    match DecodeBase58Check sha256 str 21 with
    | some data => DecodeBase58Destination params data
    | none =>
      if (DecodeBase58 str 100).isNone then
        (.CNoDestination, "Invalid or unsupported Segwit (Bech32) or Base58 encoding.")
      else (.CNoDestination, "Invalid checksum or length of Base58 address (P2PKH or P2SH)")

/-! ## The networks -/

/-- What the address code needs of a network's parameters: an hrp of two to
four printable characters with no upper-case letter, and two distinct
one-byte Base58 prefixes. -/
structure CChainParams.Valid (params : CChainParams) : Prop where
  hrp_long : 2 ≤ params.bech32_hrp.length
  hrp_short : params.bech32_hrp.length ≤ 4
  hrp_lower : ∀ c ∈ params.bech32_hrp, LowerPrintable c = true
  pubkey_length : params.PUBKEY_ADDRESS.length = 1
  script_length : params.SCRIPT_ADDRESS.length = 1
  prefixes_differ : params.PUBKEY_ADDRESS ≠ params.SCRIPT_ADDRESS

theorem ChainParams_valid (chain : ChainType) : (ChainParams chain).Valid := by
  have lower : (ChainParams chain).bech32_hrp.all LowerPrintable = true := by
    cases chain <;> rfl
  cases chain <;> exact ⟨by decide, by decide, List.all_eq_true.mp lower, rfl, rfl, by decide⟩

section Valid

variable {params : CChainParams} (valid : params.Valid)
include valid

theorem CChainParams.Valid.hrp_ne_nil : params.bech32_hrp ≠ [] := by
  intro empty
  have long := valid.hrp_long
  rw [empty] at long
  simp at long

theorem CChainParams.Valid.hrp_not_upper : ∀ c ∈ params.bech32_hrp, ¬(65 ≤ c ∧ c ≤ 90) := by
  intro c member
  have printable := valid.hrp_lower c member
  simp only [LowerPrintable, Bool.and_eq_true, decide_eq_true_eq, Bool.not_eq_true',
    decide_eq_false_iff_not] at printable
  exact printable.2

theorem CChainParams.Valid.hrp_ToLower : params.bech32_hrp.map ToLower = params.bech32_hrp := by
  conv => rhs; rw [← List.map_id params.bech32_hrp]
  rw [← LowerCase_eq_ToLower]
  exact List.map_congr_left fun c member => LowerCase_of_LowerPrintable (valid.hrp_lower c member)

/-! ## Witness addresses -/

/-- What a witness encoder writes, for a symbol as version and a program of
2 to 40 bytes: a string that passes for a Bech32 one and decodes to the
version and the program's symbols, which regroup into the program. -/
theorem WitnessEncoder_spec (encoding : Encoding) {version : UInt8} (symbol : version.toNat < 32)
    {program : List UInt8} (long : 2 ≤ program.length) (short : program.length ≤ 40) :
    ∃ str symbols, WitnessEncoder params encoding version program = some str ∧
      LooksBech32 params str = true ∧
      Decode str = some ⟨encoding, params.bech32_hrp, version :: symbols⟩ ∧
      ConvertBits 5 8 false symbols = some program := by
  obtain ⟨symbols, padding, padded, padShort, spelled, symbolsSmall, -⟩ :=
    @ConvertBits_pad 8 5 (by decide) (by decide) program (fun v _ => UInt8.toNat_lt v)
  obtain ⟨symbols', padded', back⟩ := ConvertBits_bytes_round_trip program
  rw [padded] at padded'
  obtain rfl := Option.some.inj padded'
  have values : ∀ v ∈ version :: symbols, v.toNat < 32 := by
    intro v member
    rcases List.mem_cons.mp member with rfl | later
    · exact symbol
    · simpa using symbolsSmall v later
  have hrpShort := valid.hrp_short
  obtain ⟨str, encoded, decoded⟩ := Decode_Encode encoding valid.hrp_ne_nil valid.hrp_lower values
    (by simp only [List.length_cons]; omega)
  have written : WitnessEncoder params encoding version program = some str := by
    rw [WitnessEncoder, padded]
    exact encoded
  refine ⟨str, symbols, written, ?_, decoded, back⟩
  -- the string is the hrp, the separator, and a version, at least four symbols and a checksum
  rw [Encode_eq _ _ valid.hrp_not_upper] at encoded
  obtain rfl := Option.some.inj encoded
  have hrpLong := valid.hrp_long
  simp only [LooksBech32, List.take_left', valid.hrp_ToLower, beq_self_eq_true, Bool.true_and,
    Bool.and_eq_true, decide_eq_true_eq, beq_iff_eq]
  constructor
  · simp only [List.length_append, List.length_cons, List.length_map, CreateChecksum_length]
    omega
  · simp

end Valid

theorem DecodeDestination_of_Decode (sha256 : List UInt8 → uint256) {params : CChainParams} {str : List UInt8}
    {dec : DecodeResult} (looks : LooksBech32 params str = true) (decoded : Decode str = some dec) :
    DecodeDestination sha256 str params = DecodeWitness params dec := by
  simp only [DecodeDestination, looks, if_true, decoded]

/-- A witness string of the network's hrp whose version symbol fits its
encoding, and whose other symbols regroup into a program, decodes as the
version and the program's size say. -/
theorem DecodeWitness_eq (params : CChainParams) {encoding : Encoding} (first : UInt8)
    {symbols program : List UInt8} (back : ConvertBits 5 8 false symbols = some program)
    (fits : if first.toNat = 0 then encoding = .BECH32 else encoding = .BECH32M) :
    DecodeWitness params ⟨encoding, params.bech32_hrp, first :: symbols⟩ =
      WitnessProgramDestination first.toNat program := by
  have checks : ¬(first.toNat = 0 ∧ encoding ≠ .BECH32) ∧ ¬(first.toNat ≠ 0 ∧ encoding ≠ .BECH32M) := by
    split at fits <;> simp_all
  simp only [DecodeWitness, ne_eq, not_true_eq_false, if_false, checks.1, checks.2, back]

/-- What a witness string accepted as a destination is made of. -/
theorem DecodeWitness_accepted {params : CChainParams} {dec : DecodeResult}
    (accepted : (DecodeWitness params dec).1 ≠ .CNoDestination) :
    ∃ first symbols program, dec.data = first :: symbols ∧ dec.hrp = params.bech32_hrp ∧
      (if first.toNat = 0 then dec.encoding = .BECH32 else dec.encoding = .BECH32M) ∧
      ConvertBits 5 8 false symbols = some program ∧
      DecodeWitness params dec = WitnessProgramDestination first.toNat program := by
  obtain ⟨encoding, hrp, data⟩ := dec
  rcases data with _ | ⟨first, symbols⟩
  · simp [DecodeWitness] at accepted
  by_cases sameHrp : hrp = params.bech32_hrp
  swap
  · simp [DecodeWitness, sameHrp] at accepted
  subst sameHrp
  have fits : if first.toNat = 0 then encoding = .BECH32 else encoding = .BECH32M := by
    by_cases zero : first.toNat = 0
    · rw [if_pos zero]
      by_contra wrong
      simp [DecodeWitness, zero, wrong] at accepted
    · rw [if_neg zero]
      by_contra wrong
      simp [DecodeWitness, zero, wrong] at accepted
  cases converted : ConvertBits 5 8 false symbols with
  | none =>
      have checks : ¬(first.toNat = 0 ∧ encoding ≠ .BECH32) ∧
          ¬(first.toNat ≠ 0 ∧ encoding ≠ .BECH32M) := by
        split at fits <;> simp_all
      simp [DecodeWitness, checks.1, checks.2, converted] at accepted
  | some program =>
      exact ⟨first, symbols, program, rfl, rfl, fits, converted, DecodeWitness_eq params first converted fits⟩

/-- A witness program accepted as a destination is written back by the
witness encoder of its version. -/
theorem DestinationEncoder_WitnessProgramDestination (sha256 : List UInt8 → uint256)
    (params : CChainParams) {version : Nat} {program : List UInt8}
    (accepted : (WitnessProgramDestination version program).1 ≠ .CNoDestination) :
    DestinationEncoder sha256 params (WitnessProgramDestination version program).1 =
      WitnessEncoder params (if version = 0 then .BECH32 else .BECH32M) version.toUInt8 program := by
  unfold WitnessProgramDestination at accepted ⊢
  by_cases zero : version = 0
  · subst zero
    by_cases keyid : program.length = 20
    · simp only [if_true, dif_pos keyid, DestinationEncoder]
      rfl
    by_cases scriptid : program.length = 32
    · simp only [if_true, dif_neg keyid, dif_pos scriptid, DestinationEncoder]
      rfl
    · simp [keyid, scriptid] at accepted
  by_cases tap : version = 1 ∧ program.length = 32
  · simp only [zero, if_false, dif_pos tap, DestinationEncoder]
    rw [tap.1]
    rfl
  by_cases unknownVersion : version > 16
  · rw [if_neg zero, dif_neg tap, if_pos unknownVersion] at accepted
    exact absurd rfl accepted
  by_cases badLength : program.length < 2 ∨ program.length > 40
  · rw [if_neg zero, dif_neg tap, if_neg unknownVersion, if_pos badLength] at accepted
    exact absurd rfl accepted
  -- an unknown version in range, with a program of 2 to 40 bytes
  have inRange : ¬(version < 1 ∨ version > 16 ∨ program.length < 2 ∨ program.length > 40) := by
    omega
  rw [if_neg zero, dif_neg tap, if_neg unknownVersion, if_neg badLength]
  simp only [DestinationEncoder, inRange, if_false, zero]

/-! ## Base58Check addresses -/

theorem DecodeBase58Destination_pubkey (params : CChainParams) (id : uint160) :
    DecodeBase58Destination params (params.PUBKEY_ADDRESS ++ id.data) = (.PKHash id, "") := by
  have pubkeyHash : (params.PUBKEY_ADDRESS ++ id.data).length = 20 + params.PUBKEY_ADDRESS.length ∧
      params.PUBKEY_ADDRESS.isPrefixOf (params.PUBKEY_ADDRESS ++ id.data) := by
    simp [id.size_eq, Nat.add_comm]
  simp only [DecodeBase58Destination, dif_pos pubkeyHash, List.drop_left]

theorem DecodeBase58Destination_script {params : CChainParams} (valid : params.Valid) (id : uint160) :
    DecodeBase58Destination params (params.SCRIPT_ADDRESS ++ id.data) = (.ScriptHash id, "") := by
  -- the two prefixes are single, different bytes: the script prefix is not the key prefix
  have notPubkey : ¬params.PUBKEY_ADDRESS.isPrefixOf (params.SCRIPT_ADDRESS ++ id.data) := by
    intro isPrefix
    have sameLength : params.PUBKEY_ADDRESS.length = params.SCRIPT_ADDRESS.length := by
      rw [valid.pubkey_length, valid.script_length]
    have pubkeyPrefix := List.isPrefixOf_iff_prefix.mp isPrefix
    exact valid.prefixes_differ
      ((List.prefix_of_prefix_length_le pubkeyPrefix (List.prefix_append _ _) sameLength.le).eq_of_length
        sameLength)
  have scriptHash : (params.SCRIPT_ADDRESS ++ id.data).length = 20 + params.SCRIPT_ADDRESS.length ∧
      params.SCRIPT_ADDRESS.isPrefixOf (params.SCRIPT_ADDRESS ++ id.data) := by
    simp [id.size_eq, Nat.add_comm]
  simp only [DecodeBase58Destination]
  rw [dif_neg (fun pubkeyHash => notPubkey pubkeyHash.2), dif_pos scriptHash]
  simp

/-- A Base58Check string that does not pass for a Bech32 one decodes as
Base58Check. -/
theorem DecodeDestination_EncodeBase58Check (sha256 : List UInt8 → uint256) {params : CChainParams}
    {data : List UInt8} (fits : data.length ≤ 21)
    (notBech32 : ¬(LooksBech32 params (EncodeBase58Check sha256 data) = true ∧
      (Decode (EncodeBase58Check sha256 data)).isSome = true)) :
    DecodeDestination sha256 (EncodeBase58Check sha256 data) params =
      DecodeBase58Destination params data := by
  have noBech32 : (if LooksBech32 params (EncodeBase58Check sha256 data) = true then
      Decode (EncodeBase58Check sha256 data) else none) = none := by
    split
    · rename_i looks
      simpa [looks] using notBech32
    · rfl
  simp only [DecodeDestination, noBech32, DecodeBase58Check_EncodeBase58Check sha256 data fits (by omega)]

/-! ## Round trips -/

/-- The destinations `DestinationEncoder` writes a string for. -/
def Encodable : CTxDestination → Bool
  | .CNoDestination => false
  | .WitnessUnknown version program =>
    decide (1 ≤ version ∧ version ≤ 16 ∧ 2 ≤ program.length ∧ program.length ≤ 40)
  | _ => true

/-- The destinations written in Base58Check. -/
def IsBase58 : CTxDestination → Bool
  | .PKHash _ | .ScriptHash _ => true
  | _ => false

/-- A witness program written under its version's encoding decodes as its
version and size say. -/
theorem DecodeDestination_WitnessEncoder (sha256 : List UInt8 → uint256) {params : CChainParams}
    (valid : params.Valid) (encoding : Encoding) {version : Nat} (small : version < 32)
    (fits : if version = 0 then encoding = .BECH32 else encoding = .BECH32M) {program : List UInt8}
    (long : 2 ≤ program.length) (short : program.length ≤ 40) :
    ∃ str, WitnessEncoder params encoding version.toUInt8 program = some str ∧
      DecodeDestination sha256 str params = WitnessProgramDestination version program := by
  have symbol : version.toUInt8.toNat = version := by
    simp only [Nat.toUInt8, UInt8.toNat_ofNat']
    omega
  obtain ⟨str, symbols, written, looks, decoded, back⟩ :=
    WitnessEncoder_spec valid encoding (by rw [symbol]; exact small) long short
  refine ⟨str, written, ?_⟩
  rw [DecodeDestination_of_Decode sha256 looks decoded,
    DecodeWitness_eq params _ back (by rw [symbol]; exact fits), symbol]

/-- Every destination `EncodeDestination` writes, but an unknown witness
program of version 1 and 32 bytes, is read back, unless it is a Base58Check
string that also passes for a Bech32 one. -/
theorem DecodeDestination_EncodeDestination_of_valid (sha256 : List UInt8 → uint256)
    {params : CChainParams} (valid : params.Valid) (dest : CTxDestination)
    (encodable : Encodable dest = true)
    (notTaproot : ∀ program, dest = .WitnessUnknown 1 program → program.length ≠ 32) :
    ∃ str, EncodeDestination sha256 params dest = some str ∧
      (DecodeDestination sha256 str params = (dest, "") ∨
        IsBase58 dest = true ∧ LooksBech32 params str = true ∧ (Decode str).isSome = true) := by
  cases dest with
  | CNoDestination => simp [Encodable] at encodable
  | PKHash id =>
      refine ⟨_, rfl, ?_⟩
      by_cases bech32 : LooksBech32 params (EncodeBase58Check sha256 (params.PUBKEY_ADDRESS ++ id.data)) = true ∧
          (Decode (EncodeBase58Check sha256 (params.PUBKEY_ADDRESS ++ id.data))).isSome = true
      · exact .inr ⟨rfl, bech32⟩
      · left
        rw [DecodeDestination_EncodeBase58Check sha256 (by simp [id.size_eq, valid.pubkey_length]) bech32,
          DecodeBase58Destination_pubkey]
  | ScriptHash id =>
      refine ⟨_, rfl, ?_⟩
      by_cases bech32 : LooksBech32 params (EncodeBase58Check sha256 (params.SCRIPT_ADDRESS ++ id.data)) = true ∧
          (Decode (EncodeBase58Check sha256 (params.SCRIPT_ADDRESS ++ id.data))).isSome = true
      · exact .inr ⟨rfl, bech32⟩
      · left
        rw [DecodeDestination_EncodeBase58Check sha256 (by simp [id.size_eq, valid.script_length]) bech32,
          DecodeBase58Destination_script valid]
  | WitnessV0KeyHash id =>
      obtain ⟨str, written, decoded⟩ := DecodeDestination_WitnessEncoder sha256 valid .BECH32
        (show 0 < 32 by decide) (by simp) (show 2 ≤ id.data.length by simp [id.size_eq])
        (show id.data.length ≤ 40 by simp [id.size_eq])
      refine ⟨str, written, .inl ?_⟩
      rw [decoded]
      simp [WitnessProgramDestination, id.size_eq]
  | WitnessV0ScriptHash id =>
      obtain ⟨str, written, decoded⟩ := DecodeDestination_WitnessEncoder sha256 valid .BECH32
        (show 0 < 32 by decide) (by simp) (show 2 ≤ id.data.length by simp [id.size_eq])
        (show id.data.length ≤ 40 by simp [id.size_eq])
      refine ⟨str, written, .inl ?_⟩
      rw [decoded]
      simp [WitnessProgramDestination, id.size_eq]
  | WitnessV1Taproot tap =>
      obtain ⟨str, written, decoded⟩ := DecodeDestination_WitnessEncoder sha256 valid .BECH32M
        (show 1 < 32 by decide) (by simp) (show 2 ≤ tap.data.length by simp [tap.size_eq])
        (show tap.data.length ≤ 40 by simp [tap.size_eq])
      refine ⟨str, written, .inl ?_⟩
      rw [decoded]
      simp [WitnessProgramDestination, tap.size_eq]
  | WitnessUnknown version program =>
      have inRange : 1 ≤ version ∧ version ≤ 16 ∧ 2 ≤ program.length ∧ program.length ≤ 40 := by
        simpa [Encodable] using encodable
      have notTap : ¬(version = 1 ∧ program.length = 32) :=
        fun both => notTaproot program (by rw [both.1]) both.2
      obtain ⟨str, written, decoded⟩ := DecodeDestination_WitnessEncoder sha256 valid .BECH32M
        (show version < 32 by omega) (by simp only [if_neg (show version ≠ 0 by omega)])
        inRange.2.2.1 inRange.2.2.2
      have encoded : EncodeDestination sha256 params (.WitnessUnknown version program) = some str := by
        have accepted : ¬(version < 1 ∨ version > 16 ∨ program.length < 2 ∨ program.length > 40) := by
          omega
        simp only [EncodeDestination, DestinationEncoder, accepted, if_false]
        exact written
      refine ⟨str, encoded, .inl ?_⟩
      rw [decoded, WitnessProgramDestination, if_neg (show version ≠ 0 by omega), dif_neg notTap,
        if_neg (show ¬version > 16 by omega), if_neg (show ¬(program.length < 2 ∨ program.length > 40) by omega)]

/-- A string read as a witness address is, in lower case, the encoding of
the destination it is read as. -/
theorem EncodeDestination_DecodeDestination (sha256 : List UInt8 → uint256) (params : CChainParams)
    {str : List UInt8} {dec : DecodeResult} (looks : LooksBech32 params str = true)
    (decoded : Decode str = some dec) (accepted : (DecodeDestination sha256 str params).1 ≠ .CNoDestination) :
    EncodeDestination sha256 params (DecodeDestination sha256 str params).1 = some (str.map ToLower) := by
  rw [DecodeDestination_of_Decode sha256 looks decoded] at accepted ⊢
  obtain ⟨first, symbols, program, data, hrp, fits, back, read⟩ := DecodeWitness_accepted accepted
  rw [read] at accepted ⊢
  have symbolsSmall : ∀ v ∈ symbols, v.toNat < 2 ^ 5 := by
    intro v member
    have small := Decode_data_small decoded v (by rw [data]; exact List.mem_cons_of_mem _ member)
    simpa using small
  have encoding : (if first.toNat = 0 then Encoding.BECH32 else Encoding.BECH32M) = dec.encoding := by
    split at fits <;> simp_all
  unfold EncodeDestination
  rw [DestinationEncoder_WitnessProgramDestination sha256 params accepted, toNat_toUInt8, encoding,
    WitnessEncoder, ConvertBits_symbols_round_trip symbolsSmall back, Option.getD_some, ← hrp, ← data,
    Encode_Decode decoded, LowerCase_eq_ToLower]

/-- The round trips of the address codecs on every network. -/
theorem DecodeDestination_EncodeDestination (sha256 : List UInt8 → uint256) (chain : ChainType) :
    (∀ dest, Encodable dest = true → (∀ program, dest = .WitnessUnknown 1 program → program.length ≠ 32) →
      ∃ str, EncodeDestination sha256 (ChainParams chain) dest = some str ∧
        (DecodeDestination sha256 str (ChainParams chain) = (dest, "") ∨
          IsBase58 dest = true ∧ LooksBech32 (ChainParams chain) str = true ∧ (Decode str).isSome = true)) ∧
    ∀ str dec, LooksBech32 (ChainParams chain) str = true → Decode str = some dec →
      (DecodeDestination sha256 str (ChainParams chain)).1 ≠ .CNoDestination →
      EncodeDestination sha256 (ChainParams chain) (DecodeDestination sha256 str (ChainParams chain)).1 =
        some (str.map ToLower) :=
  ⟨fun dest => DecodeDestination_EncodeDestination_of_valid sha256 (ChainParams_valid chain) dest,
    fun _ _ looks decoded accepted =>
      EncodeDestination_DecodeDestination sha256 (ChainParams chain) looks decoded accepted⟩

/-- The all-zero hash, standing for `sha256` in a fixed case. -/
def zeroHash (_ : List UInt8) : uint256 := uint256.ZERO

def zeroKeyHash : uint160 := ⟨List.replicate 20 0, rfl⟩

theorem mainKeyHash_round_trip :
    ∃ str, EncodeDestination zeroHash (ChainParams .MAIN) (.WitnessV0KeyHash zeroKeyHash) = some str ∧
      (DecodeDestination zeroHash str (ChainParams .MAIN) = (.WitnessV0KeyHash zeroKeyHash, "") ∨
        IsBase58 (.WitnessV0KeyHash zeroKeyHash) = true ∧ LooksBech32 (ChainParams .MAIN) str = true ∧
          (Decode str).isSome = true) :=
  (DecodeDestination_EncodeDestination zeroHash .MAIN).1 _ rfl (fun _ same => by cases same)

/-- An unknown witness program of version 1 and 32 bytes is written as a
taproot output is, and read back as one. -/
theorem WitnessUnknown_taproot_decodes_as_taproot (sha256 : List UInt8 → uint256) (chain : ChainType)
    (tap : uint256) :
    ∃ str, EncodeDestination sha256 (ChainParams chain) (.WitnessUnknown 1 tap.data) = some str ∧
      DecodeDestination sha256 str (ChainParams chain) = (.WitnessV1Taproot tap, "") := by
  obtain ⟨str, written, decoded⟩ := DecodeDestination_WitnessEncoder sha256 (ChainParams_valid chain)
    .BECH32M (show 1 < 32 by decide) (by simp) (show 2 ≤ tap.data.length by simp [tap.size_eq])
        (show tap.data.length ≤ 40 by simp [tap.size_eq])
  have encoded : EncodeDestination sha256 (ChainParams chain) (.WitnessUnknown 1 tap.data) = some str := by
    simp only [EncodeDestination, DestinationEncoder, tap.size_eq]
    exact written
  refine ⟨str, encoded, ?_⟩
  rw [decoded]
  simp [WitnessProgramDestination, tap.size_eq]

theorem zeroTaprootUnknown_decodes_as_taproot :
    ∃ str, EncodeDestination zeroHash (ChainParams .MAIN) (.WitnessUnknown 1 uint256.ZERO.data) = some str ∧
      DecodeDestination zeroHash str (ChainParams .MAIN) = (.WitnessV1Taproot uint256.ZERO, "") :=
  WitnessUnknown_taproot_decodes_as_taproot zeroHash .MAIN uint256.ZERO

end Peercoin.KeyIO
