import PeercoinFormal.Primitives.TransactionFormat

/-!
# script/interpreter.cpp: the signature hashes

The three byte strings a signature commits to: the legacy one written by
`CTransactionSignatureSerializer`, the BIP143 one of witness v0, and the
BIP341/342 one of `SignatureHashSchnorr`.  The model computes each preimage,
the bytes handed to the hash; SHA-256 itself is the parameter `sha256`
(`CSHA256` over a byte string), so that every result holds for the real hash
function as well as for any other.

Peercoin writes `nTime` after `nVersion` in the first two preimages when
`nVersion < 3`.  `SignatureHashSchnorr` reads no `nTime`, and neither does
the precomputed data it hashes.

An `assert` of the source and a `false` return both leave the caller without
a hash; both are `none` here.
-/

set_option autoImplicit false

namespace Peercoin.Script

open Codec Peercoin.Serialize Peercoin.Primitives

/-! ## Reading operations -/

/-- The size of an immediate operand of `opcode` (at most `OP_PUSHDATA4`)
and the position after the size, read from `pc`. -/
def readOperandSize (script : CScript) (opcode : UInt8) (pc : Nat) : Option (Nat × Nat) :=
  if opcode < OP_PUSHDATA1 then some (opcode.toNat, pc)
  else if opcode = OP_PUSHDATA1 then
    if script.length - pc < 1 then none else some (script[pc]!.toNat, pc + 1)
  else if opcode = OP_PUSHDATA2 then
    if script.length - pc < 2 then none else some (leValue ((script.drop pc).take 2), pc + 2)
  else
    if script.length - pc < 4 then none else some (leValue ((script.drop pc).take 4), pc + 4)

/-- `GetScriptOp` from position `pc`: whether an operation was read, the
position it leaves (also when it fails), and the opcode, `OP_INVALIDOPCODE`
when none was read. -/
def GetScriptOp (script : CScript) (pc : Nat) : Bool × Nat × UInt8 :=
  if script.length ≤ pc then (false, pc, OP_INVALIDOPCODE)
  else
    let opcode := script[pc]!
    let pc := pc + 1
    if opcode ≤ OP_PUSHDATA4 then
      match readOperandSize script opcode pc with
      | none => (false, pc, OP_INVALIDOPCODE)
      | some (nSize, pc) =>
        if script.length - pc < nSize then (false, pc, OP_INVALIDOPCODE)
        else (true, pc + nSize, opcode)
    else (true, pc, opcode)

theorem readOperandSize_after {script : CScript} {opcode : UInt8} {pc nSize next : Nat}
    (inside : pc ≤ script.length) (sized : readOperandSize script opcode pc = some (nSize, next)) :
    pc ≤ next ∧ next ≤ script.length := by
  unfold readOperandSize at sized
  split_ifs at sized <;> cases sized <;> omega

/-- A successful read moves forward and stays inside the script. -/
theorem GetScriptOp_advances {script : CScript} {pc next : Nat} {opcode : UInt8}
    (read : GetScriptOp script pc = (true, next, opcode)) : pc < next ∧ next ≤ script.length := by
  unfold GetScriptOp at read
  split at read
  · cases read
  · rename_i inside
    dsimp only at read
    split at read
    · -- an operand: the size comes after the opcode, the bytes after the size
      split at read
      · cases read
      · rename_i nSize sizeEnd sized
        have sizeAfter := readOperandSize_after (by omega) sized
        split at read
        · cases read
        · cases read
          omega
    · cases read
      omega

/-- `GetOp` repeated from `pc` until it fails: each opcode with the position
after it, and the position the failing call leaves. -/
def GetOpLoop (script : CScript) (pc : Nat) : List (UInt8 × Nat) × Nat :=
  match _read : GetScriptOp script pc with
  | (true, next, opcode) =>
    let rest := GetOpLoop script next
    ((opcode, next) :: rest.1, rest.2)
  | (false, next, _) => ([], next)
termination_by script.length - pc
decreasing_by
  have := GetScriptOp_advances _read
  omega

/-! ## Hash types, signature versions and the data they read -/

def SIGHASH_ALL : Nat := 1
def SIGHASH_NONE : Nat := 2
def SIGHASH_SINGLE : Nat := 3
def SIGHASH_ANYONECANPAY : Nat := 0x80
def SIGHASH_DEFAULT : Nat := 0
def SIGHASH_OUTPUT_MASK : Nat := 3
def SIGHASH_INPUT_MASK : Nat := 0x80

def WITNESS_V1_TAPROOT_SIZE : Nat := 32

inductive SigVersion where
  | BASE
  | WITNESS_V0
  | TAPROOT
  | TAPSCRIPT
  deriving DecidableEq, Repr

/-- The bits of an `int` hash type, as the `&` of the source sees them. -/
def hashTypeBits (nHashType : Int32) : Nat := nHashType.toUInt32.toNat

/-- The fields of `ScriptExecutionData` the hashes read; the validation
weight is only read by the interpreter. -/
structure ScriptExecutionData where
  m_tapleaf_hash_init : Bool
  m_tapleaf_hash : uint256
  m_codeseparator_pos_init : Bool
  m_codeseparator_pos : UInt32
  m_annex_init : Bool
  m_annex_present : Bool
  m_annex_hash : uint256
  m_output_hash : Option uint256

structure PrecomputedTransactionData where
  m_prevouts_single_hash : uint256
  m_sequences_single_hash : uint256
  m_outputs_single_hash : uint256
  m_spent_amounts_single_hash : uint256
  m_spent_scripts_single_hash : uint256
  hashPrevouts : uint256
  hashSequence : uint256
  hashOutputs : uint256
  m_bip341_taproot_ready : Bool
  m_bip143_segwit_ready : Bool
  m_spent_outputs : List CTxOut
  m_spent_outputs_ready : Bool

section Hashes

variable (sha256 : List UInt8 → uint256)

def SHA256Uint256 (input : uint256) : uint256 := sha256 input.data

def GetPrevoutsSHA256 (txTo : CTransaction) : uint256 :=
  sha256 (txTo.vin.flatMap fun txin => serializeCOutPoint txin.prevout)

def GetSequencesSHA256 (txTo : CTransaction) : uint256 :=
  sha256 (txTo.vin.flatMap fun txin => serializeUInt32 txin.nSequence)

def GetOutputsSHA256 (txTo : CTransaction) : uint256 :=
  sha256 (txTo.vout.flatMap serializeCTxOut)

def GetSpentAmountsSHA256 (outputs_spent : List CTxOut) : uint256 :=
  sha256 (outputs_spent.flatMap fun txout => serializeInt64 txout.nValue)

def GetSpentScriptsSHA256 (outputs_spent : List CTxOut) : uint256 :=
  sha256 (outputs_spent.flatMap fun txout => serializeBytes txout.scriptPubKey)

/-- `HashWriter{TaggedHash(tag)}`: the hash of the tag, twice. -/
def TaggedHash (tag : List UInt8) : List UInt8 :=
  (sha256 tag).data ++ (sha256 tag).data

/-- The bytes of "TapSighash". -/
def TapSighashTag : List UInt8 := [84, 97, 112, 83, 105, 103, 104, 97, 115, 104]

/-- `PrecomputedTransactionData::Init` on a fresh object.  The source's scan
over the inputs stops once both flags are set, which changes neither. -/
def PrecomputedTransactionData.Init (txTo : CTransaction) (spent_outputs : List CTxOut)
    (force : Bool) : PrecomputedTransactionData :=
  let m_spent_outputs_ready := !spent_outputs.isEmpty
  let witnessInputs := (List.range txTo.vin.length).filter fun inpos =>
    !(txTo.vin[inpos]!).scriptWitness.IsNull
  -- a witness spend of a 34-byte script starting with `OP_1` counts as Taproot
  let taprootSpend := fun inpos =>
    m_spent_outputs_ready &&
      (spent_outputs[inpos]!).scriptPubKey.length == 2 + WITNESS_V1_TAPROOT_SIZE &&
      (spent_outputs[inpos]!).scriptPubKey[0]! == OP_1
  let uses_bip143_segwit := force || witnessInputs.any fun inpos => !taprootSpend inpos
  let uses_bip341_taproot := force || witnessInputs.any taprootSpend
  let shared := uses_bip143_segwit || uses_bip341_taproot
  let taproot := uses_bip341_taproot && m_spent_outputs_ready
  { m_prevouts_single_hash := if shared then GetPrevoutsSHA256 sha256 txTo else uint256.ZERO
    m_sequences_single_hash := if shared then GetSequencesSHA256 sha256 txTo else uint256.ZERO
    m_outputs_single_hash := if shared then GetOutputsSHA256 sha256 txTo else uint256.ZERO
    hashPrevouts := if uses_bip143_segwit then
      SHA256Uint256 sha256 (GetPrevoutsSHA256 sha256 txTo) else uint256.ZERO
    hashSequence := if uses_bip143_segwit then
      SHA256Uint256 sha256 (GetSequencesSHA256 sha256 txTo) else uint256.ZERO
    hashOutputs := if uses_bip143_segwit then
      SHA256Uint256 sha256 (GetOutputsSHA256 sha256 txTo) else uint256.ZERO
    m_bip143_segwit_ready := uses_bip143_segwit
    m_spent_amounts_single_hash := if taproot then
      GetSpentAmountsSHA256 sha256 spent_outputs else uint256.ZERO
    m_spent_scripts_single_hash := if taproot then
      GetSpentScriptsSHA256 sha256 spent_outputs else uint256.ZERO
    m_bip341_taproot_ready := taproot
    m_spent_outputs := spent_outputs
    m_spent_outputs_ready }

end Hashes

/-! ## The legacy serializer -/

/-- `nVersion`, then Peercoin's `nTime` below version 3: how the legacy and
the BIP143 preimages begin. -/
def serializeVersionTime (tx : CTransaction) : List UInt8 :=
  serializeInt32 tx.nVersion ++ (if tx.nVersion < 3 then serializeUInt32 tx.nTime else [])

/-- `SerializeScriptCode`: the script code with every `OP_CODESEPARATOR`
left out, after its length so reduced. -/
def SerializeScriptCode (scriptCode : CScript) : List UInt8 :=
  let (ops, stop) := GetOpLoop scriptCode 0
  let nCodeSeparators := (ops.filter fun op => op.1 = OP_CODESEPARATOR).length
  -- a separator ends the piece since the last one, without its own byte
  let (pieces, itBegin) := ops.foldl (fun (acc : List UInt8 × Nat) op =>
      if op.1 = OP_CODESEPARATOR then (acc.1 ++ (scriptCode.drop acc.2).take (op.2 - acc.2 - 1), op.2)
      else acc) ([], 0)
  WriteCompactSize (scriptCode.length - nCodeSeparators) ++ pieces ++
    (if itBegin ≠ scriptCode.length then (scriptCode.drop itBegin).take (stop - itBegin) else [])

structure CTransactionSignatureSerializer where
  txTo : CTransaction
  scriptCode : CScript
  nIn : Nat
  fAnyoneCanPay : Bool
  fHashSingle : Bool
  fHashNone : Bool

namespace CTransactionSignatureSerializer

def new (txTo : CTransaction) (scriptCode : CScript) (nIn : Nat) (nHashType : Int32) :
    CTransactionSignatureSerializer :=
  { txTo, scriptCode, nIn
    fAnyoneCanPay := hashTypeBits nHashType &&& SIGHASH_ANYONECANPAY != 0
    fHashSingle := hashTypeBits nHashType &&& 0x1f == SIGHASH_SINGLE
    fHashNone := hashTypeBits nHashType &&& 0x1f == SIGHASH_NONE }

variable (self : CTransactionSignatureSerializer)

def SerializeInput (nInput : Nat) : List UInt8 :=
  -- with SIGHASH_ANYONECANPAY only the input being signed is serialized
  let nInput := if self.fAnyoneCanPay then self.nIn else nInput
  let txin := self.txTo.vin[nInput]!
  serializeCOutPoint txin.prevout ++
    (if nInput ≠ self.nIn then serializeBytes [] else SerializeScriptCode self.scriptCode) ++
    (if nInput ≠ self.nIn ∧ (self.fHashSingle ∨ self.fHashNone) then serializeInt32 0
      else serializeUInt32 txin.nSequence)

def SerializeOutput (nOutput : Nat) : List UInt8 :=
  if self.fHashSingle ∧ nOutput ≠ self.nIn then serializeCTxOut default
  else serializeCTxOut self.txTo.vout[nOutput]!

def Serialize : List UInt8 :=
  let nInputs := if self.fAnyoneCanPay then 1 else self.txTo.vin.length
  let nOutputs := if self.fHashNone then 0
    else if self.fHashSingle then self.nIn + 1 else self.txTo.vout.length
  serializeVersionTime self.txTo ++
    (WriteCompactSize nInputs ++ (List.range nInputs).flatMap self.SerializeInput ++
      WriteCompactSize nOutputs ++ (List.range nOutputs).flatMap self.SerializeOutput ++
      serializeUInt32 self.txTo.nLockTime)

end CTransactionSignatureSerializer

section Hashes

variable (sha256 : List UInt8 → uint256)

/-! ## `SignatureHash` -/

/-- The BIP143 preimage of `SignatureHash` at `SigVersion::WITNESS_V0`; a
ready cache holds the hashes the branch would compute. -/
def bip143Preimage (scriptCode : CScript) (txTo : CTransaction) (nIn : Nat) (nHashType : Int32)
    (amount : Int64) (cache : Option PrecomputedTransactionData) : List UInt8 :=
  let bits := hashTypeBits nHashType
  let cacheready := match cache with
    | some data => data.m_bip143_segwit_ready
    | none => false
  let anyoneCanPay := bits &&& SIGHASH_ANYONECANPAY ≠ 0
  let single := bits &&& 0x1f = SIGHASH_SINGLE
  let none_ := bits &&& 0x1f = SIGHASH_NONE
  let hashPrevouts :=
    if ¬ anyoneCanPay then
      match cache, cacheready with
      | some data, true => data.hashPrevouts
      | _, _ => SHA256Uint256 sha256 (GetPrevoutsSHA256 sha256 txTo)
    else uint256.ZERO
  let hashSequence :=
    if ¬ anyoneCanPay ∧ ¬ single ∧ ¬ none_ then
      match cache, cacheready with
      | some data, true => data.hashSequence
      | _, _ => SHA256Uint256 sha256 (GetSequencesSHA256 sha256 txTo)
    else uint256.ZERO
  let hashOutputs :=
    if ¬ single ∧ ¬ none_ then
      match cache, cacheready with
      | some data, true => data.hashOutputs
      | _, _ => SHA256Uint256 sha256 (GetOutputsSHA256 sha256 txTo)
    else if single ∧ nIn < txTo.vout.length then GetHash sha256 (serializeCTxOut txTo.vout[nIn]!)
    else uint256.ZERO
  serializeVersionTime txTo ++
    (serializeUint256 hashPrevouts ++ serializeUint256 hashSequence ++
      serializeCOutPoint txTo.vin[nIn]!.prevout ++ serializeBytes scriptCode ++
      serializeInt64 amount ++ serializeUInt32 txTo.vin[nIn]!.nSequence ++
      serializeUint256 hashOutputs ++ serializeUInt32 txTo.nLockTime ++ serializeInt32 nHashType)

/-- The bytes `SignatureHash` hashes, or `none` where it returns the
constant `uint256::ONE` (legacy SIGHASH_SINGLE without a matching output).
The source asserts `nIn < txTo.vin.size()`. -/
def SignatureHashPreimage (scriptCode : CScript) (txTo : CTransaction) (nIn : Nat)
    (nHashType : Int32) (amount : Int64) (sigversion : SigVersion)
    (cache : Option PrecomputedTransactionData) : Option (List UInt8) :=
  if sigversion = .WITNESS_V0 then
    some (bip143Preimage sha256 scriptCode txTo nIn nHashType amount cache)
  else if hashTypeBits nHashType &&& 0x1f = SIGHASH_SINGLE ∧ txTo.vout.length ≤ nIn then none
  else
    some ((CTransactionSignatureSerializer.new txTo scriptCode nIn nHashType).Serialize ++
      serializeInt32 nHashType)

def SignatureHash (scriptCode : CScript) (txTo : CTransaction) (nIn : Nat) (nHashType : Int32)
    (amount : Int64) (sigversion : SigVersion) (cache : Option PrecomputedTransactionData) :
    uint256 :=
  match SignatureHashPreimage sha256 scriptCode txTo nIn nHashType amount sigversion cache with
  | some preimage => GetHash sha256 preimage
  | none => uint256.ONE

/-! ## `SignatureHashSchnorr` -/

/-- The bytes `SignatureHashSchnorr` hashes with the execution data it
leaves (it caches the hash of the single output), or `none` where it returns
`false`, lacks data or fails an assertion. -/
def SignatureHashSchnorrPreimage (execdata : ScriptExecutionData) (tx_to : CTransaction)
    (in_pos : Nat) (hash_type : UInt8) (sigversion : SigVersion)
    (cache : PrecomputedTransactionData) : Option (List UInt8 × ScriptExecutionData) :=
  let ext_flag : Option Nat := match sigversion with
    | .TAPROOT => some 0
    | .TAPSCRIPT => some 1
    | _ => none
  match ext_flag with
  | none => none
  | some ext_flag =>
  if ¬ (in_pos < tx_to.vin.length ∧ cache.m_bip341_taproot_ready ∧ cache.m_spent_outputs_ready)
  then none
  else
  -- the default hash type, no sighash byte, is SIGHASH_ALL
  let output_type := if hash_type.toNat = SIGHASH_DEFAULT then SIGHASH_ALL
    else hash_type.toNat &&& SIGHASH_OUTPUT_MASK
  let input_type := hash_type.toNat &&& SIGHASH_INPUT_MASK
  if ¬ (hash_type ≤ 0x03 ∨ (0x81 ≤ hash_type ∧ hash_type ≤ 0x83)) then none
  else if ¬ execdata.m_annex_init then none
  else
  let have_annex := execdata.m_annex_present
  let spend_type := ext_flag * 2 + (if have_annex then 1 else 0)
  let txin := tx_to.vin[in_pos]!
  let header :=
    TaggedHash sha256 TapSighashTag ++ ser_writedata8 0 ++ ser_writedata8 hash_type.toNat ++
      serializeInt32 tx_to.nVersion ++ serializeUInt32 tx_to.nLockTime ++
      (if input_type ≠ SIGHASH_ANYONECANPAY then
        serializeUint256 cache.m_prevouts_single_hash ++
          serializeUint256 cache.m_spent_amounts_single_hash ++
          serializeUint256 cache.m_spent_scripts_single_hash ++
          serializeUint256 cache.m_sequences_single_hash
      else []) ++
      (if output_type = SIGHASH_ALL then serializeUint256 cache.m_outputs_single_hash else []) ++
      ser_writedata8 spend_type ++
      (if input_type = SIGHASH_ANYONECANPAY then
        serializeCOutPoint txin.prevout ++ serializeCTxOut cache.m_spent_outputs[in_pos]! ++
          serializeUInt32 txin.nSequence
      else ser_writedata32 in_pos) ++
      (if have_annex then serializeUint256 execdata.m_annex_hash else [])
  -- the hash of the single output is computed once and kept in `execdata`
  let single : Option (List UInt8 × ScriptExecutionData) :=
    if output_type = SIGHASH_SINGLE then
      if tx_to.vout.length ≤ in_pos then none
      else
        let output_hash := execdata.m_output_hash.getD
          (sha256 (serializeCTxOut tx_to.vout[in_pos]!))
        some (serializeUint256 output_hash, { execdata with m_output_hash := some output_hash })
    else some ([], execdata)
  match single with
  | none => none
  | some (outputPart, execdata) =>
  if sigversion = .TAPSCRIPT ∧ ¬ (execdata.m_tapleaf_hash_init ∧ execdata.m_codeseparator_pos_init)
  then none
  else
  let scriptPart :=
    if sigversion = .TAPSCRIPT then
      serializeUint256 execdata.m_tapleaf_hash ++ ser_writedata8 0 ++
        serializeUInt32 execdata.m_codeseparator_pos
    else []
  some (header ++ outputPart ++ scriptPart, execdata)

def SignatureHashSchnorr (execdata : ScriptExecutionData) (tx_to : CTransaction) (in_pos : Nat)
    (hash_type : UInt8) (sigversion : SigVersion) (cache : PrecomputedTransactionData) :
    Option (uint256 × ScriptExecutionData) :=
  (SignatureHashSchnorrPreimage sha256 execdata tx_to in_pos hash_type sigversion cache).map
    fun (preimage, execdata) => (sha256 preimage, execdata)

end Hashes

/-! ## Which preimages commit to `nTime` -/

section Commitment

variable (sha256 : List UInt8 → uint256)

theorem serializeUInt32_inj {a b : UInt32} (same : serializeUInt32 a = serializeUInt32 b) :
    a = b := by
  have lt := a.toNat_lt
  have lt' := b.toNat_lt
  exact UInt32.toNat_inj.mp
    (leBytes_inj (by simpa using lt) (by simpa using lt') same)

/-- Below version 3 both `SignatureHash` preimages start with `nVersion`
and then `nTime`. -/
theorem SignatureHashPreimage_nTime_field (scriptCode : CScript) (tx : CTransaction)
    (nIn : Nat) (nHashType : Int32) (amount : Int64) (sigversion : SigVersion)
    (cache : Option PrecomputedTransactionData) (old : tx.nVersion < 3) {preimage : List UInt8}
    (hashed : SignatureHashPreimage sha256 scriptCode tx nIn nHashType amount sigversion cache =
      some preimage) :
    ∃ rest, preimage = serializeInt32 tx.nVersion ++ (serializeUInt32 tx.nTime ++ rest) := by
  have versionTime : serializeVersionTime tx = serializeInt32 tx.nVersion ++ serializeUInt32 tx.nTime := by
    simp [serializeVersionTime, old]
  -- both preimages are `serializeVersionTime tx ++ _` by definition
  have leading : ∃ rest, preimage = serializeVersionTime tx ++ rest := by
    unfold SignatureHashPreimage at hashed
    split_ifs at hashed
    · cases hashed
      exact ⟨_, rfl⟩
    · cases hashed
      exact ⟨_, List.append_assoc _ _ _⟩
  obtain ⟨rest, leading⟩ := leading
  exact ⟨rest, by rw [leading, versionTime, List.append_assoc]⟩

/-- The legacy and BIP143 preimages of a version-1 or version-2 transaction
change with its `nTime`. -/
theorem SignatureHashPreimage_commits_nTime (scriptCode : CScript) (tx : CTransaction)
    (nIn : Nat) (nHashType : Int32) (amount : Int64) (sigversion : SigVersion)
    (cache : Option PrecomputedTransactionData) (old : tx.nVersion < 3) (nTime : UInt32)
    (moved : nTime ≠ tx.nTime) {preimage preimage' : List UInt8}
    (hashed : SignatureHashPreimage sha256 scriptCode tx nIn nHashType amount sigversion cache =
      some preimage)
    (hashed' : SignatureHashPreimage sha256 scriptCode { tx with nTime } nIn nHashType amount
      sigversion cache = some preimage') :
    preimage ≠ preimage' := by
  intro same
  obtain ⟨rest, split⟩ := SignatureHashPreimage_nTime_field sha256 scriptCode tx nIn nHashType
    amount sigversion cache old hashed
  obtain ⟨rest', split'⟩ := SignatureHashPreimage_nTime_field sha256 scriptCode { tx with nTime }
    nIn nHashType amount sigversion cache old hashed'
  rw [split, split', List.append_cancel_left_eq] at same
  have timeBytes := (List.append_inj same (by simp [serializeUInt32, ser_writedata32])).1
  exact moved (serializeUInt32_inj timeBytes).symm

/-- `PrecomputedTransactionData::Init` reads no `nTime`. -/
theorem PrecomputedTransactionData.Init_nTime (tx : CTransaction) (nTime : UInt32)
    (spent_outputs : List CTxOut) (force : Bool) :
    PrecomputedTransactionData.Init sha256 { tx with nTime } spent_outputs force =
      PrecomputedTransactionData.Init sha256 tx spent_outputs force := rfl

/-- `SignatureHashSchnorr` reads no `nTime`: the preimage of a transaction
and of the same transaction with another timestamp are one byte string. -/
theorem SignatureHashSchnorrPreimage_nTime (execdata : ScriptExecutionData) (tx : CTransaction)
    (nTime : UInt32) (in_pos : Nat) (hash_type : UInt8) (sigversion : SigVersion)
    (cache : PrecomputedTransactionData) :
    SignatureHashSchnorrPreimage sha256 execdata { tx with nTime } in_pos hash_type sigversion
        cache =
      SignatureHashSchnorrPreimage sha256 execdata tx in_pos hash_type sigversion cache := rfl

end Commitment

/-- A version-1 transaction spending a Taproot output by its key path. -/
def taprootKeySpend : CTransaction :=
  ⟨[⟨⟨uint256.ONE, 0⟩, [], 0xFFFFFFFF, ⟨[List.replicate 64 1]⟩⟩],
    [⟨4000, [OP_1, 0x20] ++ List.replicate 32 2⟩], 1, 1700000000, 0⟩

def taprootSpentOutputs : List CTxOut := [⟨5000, [OP_1, 0x20] ++ List.replicate 32 3⟩]

/-- The execution data of a key-path spend without annex. -/
def keyPathExecution : ScriptExecutionData :=
  ⟨false, uint256.ZERO, false, 0xFFFFFFFF, true, false, uint256.ZERO, none⟩

/-- The Taproot signature hash of `taprootKeySpend` is computed, and moving
its `nTime` one second leaves the hashed bytes as they were: the signature
stays valid for the altered transaction. -/
theorem taproot_sighash_ignores_nTime (sha256 : List UInt8 → uint256) :
    taprootKeySpend.nVersion < 3 ∧
      ∃ preimage execdata,
        SignatureHashSchnorrPreimage sha256 keyPathExecution taprootKeySpend 0 0 .TAPROOT
            (PrecomputedTransactionData.Init sha256 taprootKeySpend taprootSpentOutputs false) =
          some (preimage, execdata) ∧
        SignatureHashSchnorrPreimage sha256 keyPathExecution
            { taprootKeySpend with nTime := taprootKeySpend.nTime + 1 } 0 0 .TAPROOT
            (PrecomputedTransactionData.Init sha256
              { taprootKeySpend with nTime := taprootKeySpend.nTime + 1 } taprootSpentOutputs
              false) =
          some (preimage, execdata) := by
  refine ⟨by decide, ?_⟩
  -- the second run is the first one, as neither the cache nor the hash reads `nTime`
  simp only [PrecomputedTransactionData.Init_nTime, SignatureHashSchnorrPreimage_nTime, and_self]
  simp [SignatureHashSchnorrPreimage, PrecomputedTransactionData.Init, taprootKeySpend,
    taprootSpentOutputs, keyPathExecution, CScriptWitness.IsNull, WITNESS_V1_TAPROOT_SIZE, OP_1,
    SIGHASH_DEFAULT, SIGHASH_ALL, SIGHASH_SINGLE, SIGHASH_INPUT_MASK, SIGHASH_ANYONECANPAY]

end Peercoin.Script
