import PeercoinFormal.Primitives.Transaction

/-!
# SerializeTransaction and UnserializeTransaction

The writer puts `nVersion`, then `nTime` when `nVersion < 3`, then, when it
writes witnesses, the extended-format marker (an empty input vector and the
flags byte), the inputs and outputs, the witness stacks and `nLockTime`.
The reader takes an empty input vector as the marker when witnesses are
allowed.  A transaction with inputs therefore reads back as itself, with its
witnesses dropped when they are not allowed, as long as every vector fits
the `MAX_SIZE` range check of `ReadCompactSize`.
-/

set_option autoImplicit false

namespace Peercoin.Primitives

open Codec Peercoin.Serialize

def SerializeTransaction (fAllowWitness : Bool) (tx : CTransaction) : List UInt8 :=
  let flags : UInt8 := if fAllowWitness && tx.HasWitness then 1 else 0
  serializeInt32 tx.nVersion ++
    (if tx.nVersion < 3 then serializeUInt32 tx.nTime else []) ++
    (if flags ≠ 0 then serializeVector serializeCTxIn [] ++ ser_writedata8 flags.toNat else []) ++
    serializeVector serializeCTxIn tx.vin ++ serializeVector serializeCTxOut tx.vout ++
    (if flags &&& 1 ≠ 0 then
      tx.vin.flatMap fun txin => serializeWitnessStack txin.scriptWitness.stack
    else []) ++
    serializeUInt32 tx.nLockTime

/-- `s >> tx.vin[i].scriptWitness.stack` for every input in turn. -/
def unserializeWitnesses : List CTxIn → Decoder (List CTxIn)
  | [] => pure []
  | txin :: rest => do
      let stack ← unserializeWitnessStack
      let rest' ← unserializeWitnesses rest
      pure ({ txin with scriptWitness := ⟨stack⟩ } :: rest')

/-- The vectors after the first read of `vin`: when that read found nothing
and witnesses are allowed, it was the marker, and the flags byte and the
real vectors follow. -/
def unserializeVectors (fAllowWitness : Bool) (vin : List CTxIn) :
    Decoder (UInt8 × List CTxIn × List CTxOut) :=
  if vin.length = 0 && fAllowWitness then do
    let flags ← UInt8.ofNat <$> ser_readdata8
    if flags ≠ 0 then do
      let vin ← unserializeVector unserializeCTxIn
      let vout ← unserializeVector unserializeCTxOut
      pure (flags, vin, vout)
    else pure (flags, vin, [])
  else do
    let vout ← unserializeVector unserializeCTxOut
    pure (0, vin, vout)

/-- The witness record, when the flags announce one: it must not be
all-empty. -/
def unserializeWitnessRecord (fAllowWitness : Bool) (nVersion : Int32) (nTime : UInt32)
    (flags : UInt8) (vin : List CTxIn) (vout : List CTxOut) : Decoder (UInt8 × List CTxIn) :=
  if flags &&& 1 ≠ 0 && fAllowWitness then do
    let vin ← unserializeWitnesses vin
    if !(CTransaction.HasWitness ⟨vin, vout, nVersion, nTime, 0⟩) then
      raise "Superfluous witness record"
    else pure (flags ^^^ 1, vin)
  else pure (flags, vin)

/-- The reader of `nVersion` and, before version 3, `nTime`. -/
def unserializeVersionTime : Decoder (Int32 × UInt32) := do
  let nVersion ← unserializeInt32
  let nTime ← (if nVersion < 3 then unserializeUInt32 else pure 0)
  pure (nVersion, nTime)

def UnserializeTransaction (fAllowWitness : Bool) : Decoder CTransaction := do
  let (nVersion, nTime) ← unserializeVersionTime
  let vin ← unserializeVector unserializeCTxIn
  let (flags, vin, vout) ← unserializeVectors fAllowWitness vin
  let (flags, vin) ← unserializeWitnessRecord fAllowWitness nVersion nTime flags vin vout
  if flags ≠ 0 then raise "Unknown transaction optional data"
  else do
    let nLockTime ← unserializeUInt32
    pure ⟨vin, vout, nVersion, nTime, nLockTime⟩

/-- Every vector of the transaction passes the `MAX_SIZE` check of
`ReadCompactSize`. -/
def CTransaction.FitsMaxSize (tx : CTransaction) : Prop :=
  tx.vin.length ≤ MAX_SIZE ∧ tx.vout.length ≤ MAX_SIZE ∧
    (∀ txin ∈ tx.vin, txin.scriptSig.length ≤ MAX_SIZE ∧
      txin.scriptWitness.stack.length ≤ MAX_SIZE ∧
      ∀ item ∈ txin.scriptWitness.stack, item.length ≤ MAX_SIZE) ∧
    ∀ txout ∈ tx.vout, txout.scriptPubKey.length ≤ MAX_SIZE

/-! ## Transaction ids -/

/-- `HashWriter::GetHash`: SHA-256 applied twice, where `sha256` is
`CSHA256` over a byte string. -/
def GetHash (sha256 : List UInt8 → uint256) (bytes : List UInt8) : uint256 :=
  sha256 (sha256 bytes).data

/-- `CTransaction::GetHash`, the txid: the hash of the serialization
without witnesses. -/
def CTransaction.GetHash (sha256 : List UInt8 → uint256) (tx : CTransaction) : uint256 :=
  Peercoin.Primitives.GetHash sha256 (SerializeTransaction false tx)

/-- From version 3 on the wire form carries no `nTime`: two transactions
that differ only there serialize alike. -/
theorem SerializeTransaction_withTime (tx : CTransaction) (v3 : ¬ tx.nVersion < 3)
    (fAllowWitness : Bool) (nTime : UInt32) :
    SerializeTransaction fAllowWitness { tx with nTime } = SerializeTransaction fAllowWitness tx := by
  simp [SerializeTransaction, v3, CTransaction.HasWitness]

/-! ## Pieces of the round trip -/

theorem decodes_inputs (vin : List CTxIn)
    (fits : vin.length ≤ MAX_SIZE) (scriptsFit : ∀ txin ∈ vin, txin.scriptSig.length ≤ MAX_SIZE) :
    Decodes (unserializeVector unserializeCTxIn) (serializeVector serializeCTxIn vin)
      (vin.map CTxIn.withoutWitness) := by
  have stripped := decodes_unserializeVector serializeCTxIn unserializeCTxIn
    (vin.map CTxIn.withoutWitness) (by simpa using fits) (by
      intro txin member
      obtain ⟨original, originalMember, rfl⟩ := List.mem_map.mp member
      simpa using decodes_unserializeCTxIn original (scriptsFit original originalMember))
  simpa [serializeVector, List.flatMap_map] using stripped

theorem decodes_outputs (vout : List CTxOut)
    (fits : vout.length ≤ MAX_SIZE)
    (scriptsFit : ∀ txout ∈ vout, txout.scriptPubKey.length ≤ MAX_SIZE) :
    Decodes (unserializeVector unserializeCTxOut) (serializeVector serializeCTxOut vout) vout :=
  decodes_unserializeVector serializeCTxOut unserializeCTxOut vout fits
    (fun txout member => decodes_unserializeCTxOut txout (scriptsFit txout member))

/-- The witness loop puts every stack back on the input it was read for. -/
theorem decodes_unserializeWitnesses (vin : List CTxIn)
    (stacksFit : ∀ txin ∈ vin, txin.scriptWitness.stack.length ≤ MAX_SIZE ∧
      ∀ item ∈ txin.scriptWitness.stack, item.length ≤ MAX_SIZE) :
    Decodes (unserializeWitnesses (vin.map CTxIn.withoutWitness))
      (vin.flatMap fun txin => serializeWitnessStack txin.scriptWitness.stack) vin := by
  induction vin with
  | nil => exact decodes_pure []
  | cons txin rest restDecodes =>
      obtain ⟨stackFits, itemsFit⟩ := stacksFit txin (by simp)
      have restRun := restDecodes (fun other member => stacksFit other (by simp [member]))
      have whole := Decodes.bind
        (f := fun stack => do
          let rest' ← unserializeWitnesses (rest.map CTxIn.withoutWitness)
          pure ({ txin.withoutWitness with scriptWitness := ⟨stack⟩ } :: rest'))
        (decodes_unserializeWitnessStack txin.scriptWitness.stack stackFits itemsFit)
        (Decodes.bind restRun (decodes_pure _))
      simpa [unserializeWitnesses, CTxIn.withoutWitness] using whole

/-- The version and, before version 3, the timestamp read back; from version
3 on the reader's zero is the transaction's own `nTime` only when that is
zero. -/
theorem decodes_version_time (tx : CTransaction) (timeWritten : tx.nVersion < 3 ∨ tx.nTime = 0) :
    Decodes unserializeVersionTime
      (serializeInt32 tx.nVersion ++ (if tx.nVersion < 3 then serializeUInt32 tx.nTime else []))
      (tx.nVersion, tx.nTime) := by
  have timeRun : Decodes ((if tx.nVersion < 3 then unserializeUInt32 else pure 0) >>=
      fun nTime => pure (tx.nVersion, nTime))
      ((if tx.nVersion < 3 then serializeUInt32 tx.nTime else []) ++ []) (tx.nVersion, tx.nTime) := by
    by_cases old : tx.nVersion < 3
    · rw [if_pos old, if_pos old]
      exact Decodes.bind (decodes_unserializeUInt32 tx.nTime) (decodes_pure _)
    · rw [if_neg old, if_neg old, timeWritten.resolve_left old]
      exact Decodes.bind (decodes_pure (0 : UInt32)) (decodes_pure _)
  unfold unserializeVersionTime
  exact Decodes.congr_bytes (Decodes.bind (decodes_unserializeInt32 tx.nVersion) timeRun)
    (by simp)

/-- With the marker read and the flags byte set, the real vectors follow. -/
theorem decodes_vectors_extended (vin : List CTxIn) (vout : List CTxOut)
    (fits : vin.length ≤ MAX_SIZE ∧ vout.length ≤ MAX_SIZE)
    (scriptsFit : (∀ txin ∈ vin, txin.scriptSig.length ≤ MAX_SIZE) ∧
      ∀ txout ∈ vout, txout.scriptPubKey.length ≤ MAX_SIZE) :
    Decodes (unserializeVectors true [])
      (ser_writedata8 1 ++ (serializeVector serializeCTxIn vin ++
        (serializeVector serializeCTxOut vout ++ [])))
      (1, vin.map CTxIn.withoutWitness, vout) := by
  have flagsRun : Decodes (UInt8.ofNat <$> ser_readdata8) (ser_writedata8 1) 1 :=
    (decodes_readLE endOfData 1 1 (by decide)).map UInt8.ofNat
  unfold unserializeVectors
  exact Decodes.ite_pos (by simp) (Decodes.congr_bytes (Decodes.bind flagsRun
    (Decodes.ite_pos (by decide) (Decodes.bind (decodes_inputs vin fits.1 scriptsFit.1)
      (Decodes.bind (decodes_outputs vout fits.2 scriptsFit.2) (decodes_pure _))))) rfl)

/-- Without the marker, the inputs just read are kept and the outputs follow. -/
theorem decodes_vectors_plain (fAllowWitness : Bool) (vin : List CTxIn) (vout : List CTxOut)
    (hasInputs : vin ≠ []) (fits : vout.length ≤ MAX_SIZE)
    (scriptsFit : ∀ txout ∈ vout, txout.scriptPubKey.length ≤ MAX_SIZE) :
    Decodes (unserializeVectors fAllowWitness vin) (serializeVector serializeCTxOut vout ++ [])
      (0, vin, vout) := by
  unfold unserializeVectors
  rw [if_neg (by simp [hasInputs])]
  exact Decodes.bind (decodes_outputs vout fits scriptsFit) (decodes_pure _)

/-- A transaction whose inputs all have empty witness stacks is its own
witness-free form. -/
theorem withoutWitness_of_not_HasWitness (tx : CTransaction) (bare : tx.HasWitness = false) :
    tx.withoutWitness = tx := by
  have stacksEmpty : ∀ txin ∈ tx.vin, txin.withoutWitness = txin := by
    intro txin member
    have empty : txin.scriptWitness.stack = [] := by
      simpa [CTransaction.HasWitness, CScriptWitness.IsNull] using
        List.any_eq_false.mp bare txin member
    obtain ⟨prevout, scriptSig, nSequence, ⟨stack⟩⟩ := txin
    simp only at empty
    simp [CTxIn.withoutWitness, empty]
  obtain ⟨vin, vout, nVersion, nTime, nLockTime⟩ := tx
  simp only [CTransaction.withoutWitness, CTransaction.mk.injEq, and_true]
  exact List.map_congr_left stacksEmpty |>.trans (List.map_id' vin)

theorem decodes_witnessRecord_present (nVersion : Int32) (nTime : UInt32) (vin : List CTxIn)
    (vout : List CTxOut) (witnessed : CTransaction.HasWitness ⟨vin, vout, nVersion, nTime, 0⟩)
    (stacksFit : ∀ txin ∈ vin, txin.scriptWitness.stack.length ≤ MAX_SIZE ∧
      ∀ item ∈ txin.scriptWitness.stack, item.length ≤ MAX_SIZE) :
    Decodes (unserializeWitnessRecord true nVersion nTime 1 (vin.map CTxIn.withoutWitness) vout)
      ((vin.flatMap fun txin => serializeWitnessStack txin.scriptWitness.stack) ++ [])
      (0, vin) := by
  unfold unserializeWitnessRecord
  rw [if_pos (by decide)]
  exact Decodes.bind (decodes_unserializeWitnesses vin stacksFit)
    (by simpa [witnessed] using decodes_pure ((0 : UInt8), vin))

theorem decodes_witnessRecord_absent (fAllowWitness : Bool) (nVersion : Int32) (nTime : UInt32)
    (vin : List CTxIn) (vout : List CTxOut) :
    Decodes (unserializeWitnessRecord fAllowWitness nVersion nTime 0 vin vout) [] (0, vin) := by
  unfold unserializeWitnessRecord
  exact Decodes.ite_neg (by simp) (decodes_pure _)

/-- The last field, once the flags are used up. -/
theorem decodes_lockTime (tx : CTransaction) :
    Decodes (if (0 : UInt8) ≠ 0 then raise "Unknown transaction optional data" else do
        let nLockTime ← unserializeUInt32
        pure (CTransaction.mk tx.vin tx.vout tx.nVersion tx.nTime nLockTime))
      (serializeUInt32 tx.nLockTime ++ []) tx := by
  rw [if_neg (by decide)]
  exact Decodes.bind (decodes_unserializeUInt32 tx.nLockTime) (decodes_pure _)

/-! ## The round trip -/

/-- A transaction with inputs, whose `nTime` is either serialized or zero and
whose vectors all pass the `MAX_SIZE` check, reads back as itself, without its
witnesses when they are not allowed. -/
theorem UnserializeTransaction_SerializeTransaction (fAllowWitness : Bool) (tx : CTransaction)
    (hasInputs : tx.vin ≠ []) (timeWritten : tx.nVersion < 3 ∨ tx.nTime = 0)
    (fits : tx.FitsMaxSize) :
    Decodes (UnserializeTransaction fAllowWitness) (SerializeTransaction fAllowWitness tx)
      (if fAllowWitness then tx else tx.withoutWitness) := by
  obtain ⟨vinFits, voutFits, inputsFit, outputsFit⟩ := fits
  have scriptsFit : ∀ txin ∈ tx.vin, txin.scriptSig.length ≤ MAX_SIZE :=
    fun txin member => (inputsFit txin member).1
  have stacksFit := fun txin member => (inputsFit txin member).2
  have versionRun := decodes_version_time tx timeWritten
  unfold UnserializeTransaction
  by_cases withWitness : (fAllowWitness && tx.HasWitness) = true
  · -- extended format: marker, flags byte 1, vectors, witness stacks
    obtain ⟨allowed, witnessed⟩ := Bool.and_eq_true_iff.mp withWitness
    subst allowed
    have markerRun := decodes_inputs [] (by decide) (by simp)
    have witnessRun := decodes_witnessRecord_present tx.nVersion tx.nTime tx.vin tx.vout
      witnessed stacksFit
    have vectorsRun := decodes_vectors_extended tx.vin tx.vout ⟨vinFits, voutFits⟩
      ⟨scriptsFit, outputsFit⟩
    refine Decodes.congr_bytes (Decodes.bind versionRun (Decodes.bind markerRun
      (Decodes.bind vectorsRun (Decodes.bind witnessRun (decodes_lockTime tx))))) ?_
    simp [SerializeTransaction, withWitness]
  · -- plain format: the inputs are read at once and no witness follows
    have plainFlags : (fAllowWitness && tx.HasWitness) = false := by simpa using withWitness
    have inputsRun := decodes_inputs tx.vin vinFits scriptsFit
    have vectorsRun := decodes_vectors_plain fAllowWitness (tx.vin.map CTxIn.withoutWitness)
      tx.vout (by simpa using hasInputs) voutFits outputsFit
    have witnessRun := decodes_witnessRecord_absent fAllowWitness tx.nVersion tx.nTime
      (tx.vin.map CTxIn.withoutWitness) tx.vout
    have expected : (if fAllowWitness then tx else tx.withoutWitness) = tx.withoutWitness := by
      cases allowed : fAllowWitness with
      | false => rfl
      | true =>
          rw [allowed, Bool.true_and] at plainFlags
          exact (withoutWitness_of_not_HasWitness tx plainFlags).symm
    rw [expected]
    refine Decodes.congr_bytes (Decodes.bind versionRun (Decodes.bind inputsRun
      (Decodes.bind vectorsRun (Decodes.bind witnessRun
        (decodes_lockTime tx.withoutWitness))))) ?_
    simp [SerializeTransaction, plainFlags, CTransaction.withoutWitness]

/-- A version-1 spend with a timestamp and a one-item witness. -/
def witnessSpendTransaction : CTransaction :=
  ⟨[⟨⟨uint256.ONE, 1⟩, [0x51], 0xFFFFFFFF, ⟨[[0x01, 0x02]]⟩⟩], [⟨5000, [0x6a]⟩], 1, 1700000000, 0⟩

theorem witnessSpendTransaction_reads_back :
    (witnessSpendTransaction.vin ≠ [] ∧
      (witnessSpendTransaction.nVersion < 3 ∨ witnessSpendTransaction.nTime = 0) ∧
      witnessSpendTransaction.FitsMaxSize) ∧
    Decodes (UnserializeTransaction true) (SerializeTransaction true witnessSpendTransaction)
      witnessSpendTransaction := by
  have hasInputs : witnessSpendTransaction.vin ≠ [] := by simp [witnessSpendTransaction]
  have timeWritten : witnessSpendTransaction.nVersion < 3 ∨ witnessSpendTransaction.nTime = 0 :=
    Or.inl (by decide)
  have fits : witnessSpendTransaction.FitsMaxSize := by
    unfold CTransaction.FitsMaxSize
    decide
  exact ⟨⟨hasInputs, timeWritten, fits⟩,
    UnserializeTransaction_SerializeTransaction true witnessSpendTransaction hasInputs
      timeWritten fits⟩

/-- One input more than `ReadCompactSize` accepts: the version-1
transaction with `MAX_SIZE + 1` null inputs and nothing else. -/
def oversizedTransaction : CTransaction :=
  ⟨List.replicate (MAX_SIZE + 1) ⟨⟨uint256.ZERO, 0⟩, [], 0, ⟨[]⟩⟩, [], 1, 0, 0⟩

/-- The reader stops at the input count of `oversizedTransaction`. -/
theorem UnserializeTransaction_oversized :
    (UnserializeTransaction false).run (SerializeTransaction false oversizedTransaction) =
      .error "ReadCompactSize(): size too large" := by
  have versionRun := decodes_version_time oversizedTransaction (Or.inl (by decide))
  have written : SerializeTransaction false oversizedTransaction =
      (serializeInt32 oversizedTransaction.nVersion ++
        (if oversizedTransaction.nVersion < 3 then serializeUInt32 oversizedTransaction.nTime
          else [])) ++
      (WriteCompactSize (MAX_SIZE + 1) ++
        ((List.replicate (MAX_SIZE + 1) (⟨⟨uint256.ZERO, 0⟩, [], 0, ⟨[]⟩⟩ : CTxIn)).flatMap
          serializeCTxIn ++ serializeVector serializeCTxOut [] ++ serializeUInt32 0)) := by
    simp [SerializeTransaction, oversizedTransaction, serializeVector]
  have tooLarge := ReadCompactSize_too_large (MAX_SIZE + 1) (by unfold MAX_SIZE; omega)
    (by omega)
  rw [written, UnserializeTransaction, versionRun.run_bind]
  simp only [unserializeVector, bind_assoc]
  exact run_bind_of_error (tooLarge _) _

/-- The round trip as first stated, for every transaction with inputs and a
serialized or zero `nTime`, fails at `oversizedTransaction`. -/
theorem transaction_round_trip_fails_above_MAX_SIZE :
    ¬ ∀ (fAllowWitness : Bool) (tx : CTransaction), tx.vin ≠ [] →
        (tx.nVersion < 3 ∨ tx.nTime = 0) →
        (UnserializeTransaction fAllowWitness).run (SerializeTransaction fAllowWitness tx) =
          .ok (if fAllowWitness then tx else tx.withoutWitness, []) := by
  intro roundTrip
  have claimed := roundTrip false oversizedTransaction (by simp [oversizedTransaction])
    (Or.inl (by decide))
  rw [UnserializeTransaction_oversized] at claimed
  cases claimed

end Peercoin.Primitives
