import PeercoinFormal.Codec.Decoder

/-!
# serialize.h: fixed-width integers, CompactSize and byte vectors

`ser_writedata8/16/32/64` write little-endian words and `ser_readdata*` read
them back from a `DataStream`, whose reads past the end raise
"DataStream::read(): end of data".  CompactSize is the length prefix of
every vector; its reader rejects non-canonical encodings and, with
`range_check`, every length above `MAX_SIZE`.
-/

set_option autoImplicit false

namespace Peercoin.Serialize

open Codec

/-- The exception text of a read past the end of a `DataStream`. -/
def endOfData : String := "DataStream::read(): end of data"

/-- `MAX_SIZE`: the largest vector length `ReadCompactSize` accepts. -/
def MAX_SIZE : Nat := 0x02000000

def ser_writedata8 (value : Nat) : List UInt8 := leBytes 1 value
def ser_writedata16 (value : Nat) : List UInt8 := leBytes 2 value
def ser_writedata32 (value : Nat) : List UInt8 := leBytes 4 value
def ser_writedata64 (value : Nat) : List UInt8 := leBytes 8 value

def ser_readdata8 : Decoder Nat := readLE endOfData 1
def ser_readdata16 : Decoder Nat := readLE endOfData 2
def ser_readdata32 : Decoder Nat := readLE endOfData 4
def ser_readdata64 : Decoder Nat := readLE endOfData 8

def WriteCompactSize (nSize : Nat) : List UInt8 :=
  if nSize < 253 then ser_writedata8 nSize
  else if nSize ≤ 0xFFFF then ser_writedata8 253 ++ ser_writedata16 nSize
  else if nSize ≤ 0xFFFFFFFF then ser_writedata8 254 ++ ser_writedata32 nSize
  else ser_writedata8 255 ++ ser_writedata64 nSize

def GetSizeOfCompactSize (nSize : Nat) : Nat :=
  if nSize < 253 then 1
  else if nSize ≤ 0xFFFF then 1 + 2
  else if nSize ≤ 0xFFFFFFFF then 1 + 4
  else 1 + 8

/-- The payload after a CompactSize marker, rejected when a shorter form
would have held it. -/
def readCanonical (payload : Decoder Nat) (least : Nat) : Decoder Nat := do
  let nSizeRet ← payload
  if nSizeRet < least then raise "non-canonical ReadCompactSize()" else pure nSizeRet

/-- The value after the marker byte `chSize`. -/
def readCompactPayload (chSize : Nat) : Decoder Nat :=
  if chSize < 253 then pure chSize
  else if chSize = 253 then readCanonical ser_readdata16 253
  else if chSize = 254 then readCanonical ser_readdata32 0x10000
  else readCanonical ser_readdata64 0x100000000

/-- The final range check of `ReadCompactSize`. -/
def checkCompactRange (range_check : Bool) (nSizeRet : Nat) : Decoder Nat :=
  if range_check && nSizeRet > MAX_SIZE then raise "ReadCompactSize(): size too large"
  else pure nSizeRet

def ReadCompactSize (range_check : Bool) : Decoder Nat := do
  let chSize ← ser_readdata8
  let nSizeRet ← readCompactPayload chSize
  checkCompactRange range_check nSizeRet

theorem decodes_readCanonical {payload : Decoder Nat} {bytes : List UInt8} {value least : Nat}
    (run : Decodes payload bytes value) (large : least ≤ value) :
    Decodes (readCanonical payload least) bytes value := by
  have whole := run.bind (f := fun v =>
    if v < least then raise "non-canonical ReadCompactSize()" else pure v)
    (by simpa [Nat.not_lt.mpr large] using decodes_pure value)
  simpa [readCanonical] using whole

/-- The marker byte and payload of a CompactSize read back as the length.
The four forms are one argument: the marker selects the payload width and
the payload is canonical because the writer chose the shortest form. -/
theorem decodes_compactSize_payload (nSize : Nat) (small : nSize < 2 ^ 64) :
    ∃ marker payload,
      WriteCompactSize nSize = ser_writedata8 marker ++ payload ∧ marker < 256 ∧
      Decodes (readCompactPayload marker) payload nSize := by
  unfold WriteCompactSize
  by_cases oneByte : nSize < 253
  · refine ⟨nSize, [], by simp [oneByte], by omega, ?_⟩
    simpa [readCompactPayload, oneByte] using decodes_pure nSize
  · by_cases twoBytes : nSize ≤ 0xFFFF
    · refine ⟨253, ser_writedata16 nSize, by simp [oneByte, twoBytes], by omega, ?_⟩
      rw [readCompactPayload, if_neg (by omega), if_pos rfl]
      exact decodes_readCanonical
        (decodes_readLE endOfData 2 nSize (by simp only [Nat.reducePow]; omega)) (by omega)
    · by_cases fourBytes : nSize ≤ 0xFFFFFFFF
      · refine ⟨254, ser_writedata32 nSize, by simp [oneByte, twoBytes, fourBytes],
          by omega, ?_⟩
        rw [readCompactPayload, if_neg (by omega), if_neg (by omega), if_pos rfl]
        exact decodes_readCanonical
          (decodes_readLE endOfData 4 nSize (by simp only [Nat.reducePow]; omega)) (by omega)
      · refine ⟨255, ser_writedata64 nSize, by simp [oneByte, twoBytes, fourBytes],
          by omega, ?_⟩
        rw [readCompactPayload, if_neg (by omega), if_neg (by omega), if_neg (by omega)]
        exact decodes_readCanonical
          (decodes_readLE endOfData 8 nSize (by simp only [Nat.reducePow]; omega)) (by omega)

/-- `ReadCompactSize` inverts `WriteCompactSize` on every length the range
check lets through. -/
theorem decodes_ReadCompactSize (range_check : Bool) (nSize : Nat) (small : nSize < 2 ^ 64)
    (inRange : range_check = true → nSize ≤ MAX_SIZE) :
    Decodes (ReadCompactSize range_check) (WriteCompactSize nSize) nSize := by
  obtain ⟨marker, payload, written, markerSmall, payloadRun⟩ :=
    decodes_compactSize_payload nSize small
  have markerRun : Decodes ser_readdata8 (ser_writedata8 marker) marker :=
    decodes_readLE endOfData 1 marker (by simp only [Nat.reducePow]; omega)
  have accepted : Decodes (checkCompactRange range_check nSize) [] nSize := by
    cases range_check with
    | false => simpa [checkCompactRange] using decodes_pure nSize
    | true => simpa [checkCompactRange, Nat.not_lt.mpr (inRange rfl)] using decodes_pure nSize
  have whole := markerRun.bind (f := fun chSize =>
    readCompactPayload chSize >>= checkCompactRange range_check)
    (payloadRun.bind accepted)
  rw [written]
  simpa [ReadCompactSize] using whole

/-- A length above `MAX_SIZE` is refused by the range-checked reader, whatever
follows it. -/
theorem ReadCompactSize_too_large (nSize : Nat) (small : nSize < 2 ^ 64)
    (large : MAX_SIZE < nSize) (rest : List UInt8) :
    (ReadCompactSize true).run (WriteCompactSize nSize ++ rest) =
      .error "ReadCompactSize(): size too large" := by
  obtain ⟨marker, payload, written, markerSmall, payloadRun⟩ :=
    decodes_compactSize_payload nSize small
  have markerRun : Decodes ser_readdata8 (ser_writedata8 marker) marker :=
    decodes_readLE endOfData 1 marker (by simp only [Nat.reducePow]; omega)
  rw [written, List.append_assoc, ReadCompactSize, markerRun.run_bind,
    payloadRun.run_bind]
  simp [checkCompactRange, large, raise, StateT.run]

/-- A canonical payload accepted by `readCanonical` is at least the bound and
is the little-endian form of its value. -/
theorem readCanonical_canonical {width least nSizeRet : Nat} {stream rest : List UInt8}
    (read : (readCanonical (readLE endOfData width) least).run stream = .ok (nSizeRet, rest)) :
    least ≤ nSizeRet ∧ nSizeRet < 256 ^ width ∧ stream = leBytes width nSizeRet ++ rest := by
  obtain ⟨payload, afterPayload, payloadRead, checked⟩ := run_bind_eq_ok read
  by_cases short : payload < least
  · rw [if_pos short] at checked
    cases checked
  · rw [if_neg short] at checked
    cases checked
    obtain ⟨small, written⟩ := readLE_canonical payloadRead
    exact ⟨Nat.le_of_not_lt short, small, written⟩

/-- After the marker `chSize`, `readCompactPayload` accepts only the shortest
form: marker and payload are what `WriteCompactSize` writes. -/
theorem readCompactPayload_canonical {chSize nSizeRet : Nat} {stream rest : List UInt8}
    (marker : chSize < 256)
    (read : (readCompactPayload chSize).run stream = .ok (nSizeRet, rest)) :
    ser_writedata8 chSize ++ stream = WriteCompactSize nSizeRet ++ rest := by
  unfold readCompactPayload at read
  by_cases oneByte : chSize < 253
  · rw [if_pos oneByte] at read
    cases read
    simp [WriteCompactSize, oneByte]
  rw [if_neg oneByte] at read
  by_cases twoBytes : chSize = 253
  · rw [if_pos twoBytes] at read
    obtain ⟨least, small, written⟩ := readCanonical_canonical read
    have fits : nSizeRet ≤ 0xFFFF := by omega
    rw [written, WriteCompactSize, if_neg (Nat.not_lt.mpr least), if_pos fits, twoBytes]
    simp [ser_writedata16]
  rw [if_neg twoBytes] at read
  by_cases fourBytes : chSize = 254
  · rw [if_pos fourBytes] at read
    obtain ⟨least, small, written⟩ := readCanonical_canonical read
    have above : ¬nSizeRet < 253 := by omega
    have wide : ¬nSizeRet ≤ 0xFFFF := by omega
    have fits : nSizeRet ≤ 0xFFFFFFFF := by omega
    rw [written, WriteCompactSize, if_neg above, if_neg wide, if_pos fits, fourBytes]
    simp [ser_writedata32]
  · rw [if_neg fourBytes] at read
    obtain ⟨least, small, written⟩ := readCanonical_canonical read
    have above : ¬nSizeRet < 253 := by omega
    have wide : ¬nSizeRet ≤ 0xFFFF := by omega
    have wider : ¬nSizeRet ≤ 0xFFFFFFFF := by omega
    have full : chSize = 255 := by omega
    rw [written, WriteCompactSize, if_neg above, if_neg wide, if_neg wider, full]
    simp [ser_writedata64]

/-- What `ReadCompactSize` accepts is the shortest form of the value it
returns: every non-canonical encoding is refused. -/
theorem ReadCompactSize_canonical {range_check : Bool} {stream rest : List UInt8} {nSize : Nat}
    (read : (ReadCompactSize range_check).run stream = .ok (nSize, rest)) :
    stream = WriteCompactSize nSize ++ rest := by
  unfold ReadCompactSize at read
  obtain ⟨chSize, afterMarker, markerRead, payloadRead⟩ := run_bind_eq_ok read
  obtain ⟨nSizeRet, afterPayload, payloadRun, checked⟩ := run_bind_eq_ok payloadRead
  have passed : nSizeRet = nSize ∧ afterPayload = rest := by
    unfold checkCompactRange at checked
    split at checked
    · cases checked
    · cases checked
      exact ⟨rfl, rfl⟩
  obtain ⟨rfl, rfl⟩ := passed
  obtain ⟨markerSmall, markerBytes⟩ := readLE_canonical markerRead
  rw [markerBytes]
  exact readCompactPayload_canonical (by simpa using markerSmall) payloadRun

/-! ## Byte vectors -/

/-- A `std::vector<unsigned char>` or `prevector` of bytes: its CompactSize
length, then the bytes. -/
def serializeBytes (bytes : List UInt8) : List UInt8 :=
  WriteCompactSize bytes.length ++ bytes

def unserializeBytes : Decoder (List UInt8) := do
  let nSize ← ReadCompactSize true
  takeBytes endOfData nSize

theorem decodes_unserializeBytes (bytes : List UInt8) (inRange : bytes.length ≤ MAX_SIZE) :
    Decodes unserializeBytes (serializeBytes bytes) bytes := by
  have small : bytes.length < 2 ^ 64 := by unfold MAX_SIZE at inRange; omega
  exact (decodes_ReadCompactSize true bytes.length small (fun _ => inRange)).bind
    (decodes_takeBytes endOfData bytes)

/-- A vector of items written with `serializeItem`: CompactSize count, then
each item. -/
def serializeVector {α : Type} (serializeItem : α → List UInt8) (items : List α) :
    List UInt8 :=
  WriteCompactSize items.length ++ items.flatMap serializeItem

def unserializeVector {α : Type} (unserializeItem : Decoder α) : Decoder (List α) := do
  let size ← ReadCompactSize true
  repeatDecoder unserializeItem size

theorem decodes_unserializeVector {α : Type} (serializeItem : α → List UInt8)
    (unserializeItem : Decoder α) (items : List α) (inRange : items.length ≤ MAX_SIZE)
    (each : ∀ a ∈ items, Decodes unserializeItem (serializeItem a) a) :
    Decodes (unserializeVector unserializeItem) (serializeVector serializeItem items) items := by
  have small : items.length < 2 ^ 64 := by unfold MAX_SIZE at inRange; omega
  exact (decodes_ReadCompactSize true items.length small (fun _ => inRange)).bind
    (decodes_repeatDecoder unserializeItem serializeItem items each)

end Peercoin.Serialize
