import PeercoinFormal.Serialize.CompactSize

/-!
# serialize.h: VARINT

`WriteVarInt` emits the base-128 digits of a number, most significant
first, with one subtracted from every digit but the last and the high bit
set on every byte but the last.  `ReadVarInt<I>` undoes this and raises
"ReadVarInt(): size too large" before the value would pass
`std::numeric_limits<I>::max()`, which is the parameter `maxValue` here.
-/

set_option autoImplicit false

namespace Peercoin.Serialize

open Codec

/-- The loop of `WriteVarInt`: `tmp` holds the bytes already produced, in
output order, so the byte for `tmp[len]` is put in front. -/
def WriteVarIntLoop (n len : Nat) (tmp : List UInt8) : List UInt8 :=
  let byte := UInt8.ofNat ((n &&& 0x7F) ||| (if len ≠ 0 then 0x80 else 0x00))
  if small : n ≤ 0x7F then byte :: tmp
  else WriteVarIntLoop ((n >>> 7) - 1) (len + 1) (byte :: tmp)
termination_by n
decreasing_by
  rw [Nat.shiftRight_eq_div_pow]
  omega

def WriteVarInt (n : Nat) : List UInt8 := WriteVarIntLoop n 0 []

/-- The loop of `ReadVarInt`, with the accumulated value `n`. -/
def ReadVarIntLoop (maxValue n : Nat) : List UInt8 → Except String (Nat × List UInt8)
  | [] => .error endOfData
  | chData :: rest =>
      if n > maxValue >>> 7 then .error "ReadVarInt(): size too large"
      else
        let n' := (n <<< 7) ||| (chData &&& 0x7F).toNat
        if chData &&& 0x80 ≠ 0 then
          if n' = maxValue then .error "ReadVarInt(): size too large"
          else ReadVarIntLoop maxValue (n' + 1) rest
        else .ok (n', rest)

def ReadVarInt (maxValue : Nat) : Decoder Nat :=
  fun stream => ReadVarIntLoop maxValue 0 stream

/-- The loop of `GetSizeOfVarInt`, with `nRet` bytes counted. -/
def GetSizeOfVarIntLoop (n nRet : Nat) : Nat :=
  if n ≤ 0x7F then nRet + 1
  else GetSizeOfVarIntLoop ((n >>> 7) - 1) (nRet + 1)
termination_by n
decreasing_by
  rw [Nat.shiftRight_eq_div_pow]
  omega

def GetSizeOfVarInt (n : Nat) : Nat := GetSizeOfVarIntLoop n 0

/-! ## The digit bytes -/

private theorem digitByteTable : ∀ digit : Fin 128,
    ((UInt8.ofNat (digit.val ||| 0x80) &&& 0x7F).toNat = digit.val ∧
      (UInt8.ofNat (digit.val ||| 0x80) &&& 0x80) ≠ 0) ∧
    ((UInt8.ofNat (digit.val ||| 0x00) &&& 0x7F).toNat = digit.val ∧
      (UInt8.ofNat (digit.val ||| 0x00) &&& 0x80) = 0) := by
  decide

theorem low_seven_bits (n : Nat) : n &&& 0x7F = n % 128 :=
  Nat.and_two_pow_sub_one_eq_mod n 7

theorem marked_digit (n : Nat) :
    (UInt8.ofNat ((n &&& 0x7F) ||| 0x80) &&& 0x7F).toNat = n % 128 ∧
      (UInt8.ofNat ((n &&& 0x7F) ||| 0x80) &&& 0x80) ≠ 0 := by
  rw [low_seven_bits]
  exact (digitByteTable ⟨n % 128, Nat.mod_lt n (by omega)⟩).1

theorem last_digit (n : Nat) :
    (UInt8.ofNat ((n &&& 0x7F) ||| 0x00) &&& 0x7F).toNat = n % 128 ∧
      (UInt8.ofNat ((n &&& 0x7F) ||| 0x00) &&& 0x80) = 0 := by
  rw [low_seven_bits]
  exact (digitByteTable ⟨n % 128, Nat.mod_lt n (by omega)⟩).2

/-- Appending a digit below 128 to a shifted accumulator is arithmetic. -/
theorem shift_or_digit (n digit : Nat) (small : digit < 128) :
    (n <<< 7) ||| digit = n * 128 + digit := by
  rw [← Nat.shiftLeft_add_eq_or_of_lt (i := 7) small, Nat.shiftLeft_eq]

theorem shiftRight_seven (n : Nat) : n >>> 7 = n / 128 := by
  rw [Nat.shiftRight_eq_div_pow]

/-- One pass of the read loop over a byte with the high bit set. -/
theorem ReadVarIntLoop_marked_step (maxValue n : Nat) (chData : UInt8) (rest : List UInt8)
    (fits : n ≤ maxValue >>> 7) (marked : chData &&& 0x80 ≠ 0)
    (notMax : n * 128 + (chData &&& 0x7F).toNat ≠ maxValue) :
    ReadVarIntLoop maxValue n (chData :: rest) =
      ReadVarIntLoop maxValue (n * 128 + (chData &&& 0x7F).toNat + 1) rest := by
  have lowSmall : (chData &&& 0x7F).toNat < 128 := by
    rw [UInt8.toNat_and]; exact Nat.lt_of_le_of_lt Nat.and_le_right (by decide)
  simp only [ReadVarIntLoop, Nat.not_lt.mpr fits, if_false, marked, ne_eq, not_false_eq_true,
    if_true, shift_or_digit n _ lowSmall, notMax]

/-- The pass over the last byte, whose high bit is clear, returns the value. -/
theorem ReadVarIntLoop_last_step (maxValue n : Nat) (chData : UInt8) (rest : List UInt8)
    (fits : n ≤ maxValue >>> 7) (last : chData &&& 0x80 = 0) :
    ReadVarIntLoop maxValue n (chData :: rest) =
      .ok (n * 128 + (chData &&& 0x7F).toNat, rest) := by
  have lowSmall : (chData &&& 0x7F).toNat < 128 := by
    rw [UInt8.toNat_and]; exact Nat.lt_of_le_of_lt Nat.and_le_right (by decide)
  simp only [ReadVarIntLoop, Nat.not_lt.mpr fits, if_false, last, ne_eq, not_true_eq_false,
    shift_or_digit n _ lowSmall]

/-! ## Round trip -/

/-- Once one byte is out, every later byte of the loop carries the high bit,
so the loop's output does not depend on `len` any more. -/
theorem WriteVarIntLoop_marked (n len : Nat) (tmp : List UInt8) :
    WriteVarIntLoop n (len + 1) tmp = WriteVarIntLoop n 1 [] ++ tmp := by
  induction n using Nat.strongRecOn generalizing len tmp with
  | ind n ih =>
      unfold WriteVarIntLoop
      by_cases small : n ≤ 0x7F
      · simp only [dif_pos small, ne_eq, Nat.add_one_ne_zero, not_false_eq_true, if_true,
          List.singleton_append]
      · have shorter : (n >>> 7) - 1 < n := by rw [shiftRight_seven]; omega
        simp only [dif_neg small, ne_eq, Nat.add_one_ne_zero, not_false_eq_true, if_true]
        rw [ih _ shorter (len + 1), ih _ shorter 1, List.append_assoc, List.singleton_append]

/-- Reading the marked digits of `m` from an empty accumulator leaves
`m + 1`, the value the final digit is added to. -/
theorem ReadVarIntLoop_marked (maxValue m : Nat) (fits : m + 1 ≤ maxValue >>> 7)
    (rest : List UInt8) :
    ReadVarIntLoop maxValue 0 (WriteVarIntLoop m 1 [] ++ rest) =
      ReadVarIntLoop maxValue (m + 1) rest := by
  induction m using Nat.strongRecOn generalizing rest with
  | ind m ih =>
      have bound : m < maxValue := by rw [shiftRight_seven] at fits; omega
      obtain ⟨digitValue, digitMarked⟩ := marked_digit m
      rw [WriteVarIntLoop]
      by_cases small : m ≤ 0x7F
      · simp only [dif_pos small, ne_eq, Nat.one_ne_zero, not_false_eq_true, if_true,
          List.singleton_append]
        rw [ReadVarIntLoop_marked_step _ _ _ _ (Nat.zero_le _) digitMarked
          (by rw [digitValue]; omega), digitValue]
        congr 1
        omega
      · have shorter : (m >>> 7) - 1 < m := by rw [shiftRight_seven]; omega
        have highPart : (m >>> 7) - 1 + 1 = m >>> 7 := by rw [shiftRight_seven]; omega
        have highFits : (m >>> 7) - 1 + 1 ≤ maxValue >>> 7 := by
          rw [highPart, shiftRight_seven]; rw [shiftRight_seven] at fits; omega
        have digits : m >>> 7 * 128 + m % 128 = m := by rw [shiftRight_seven]; omega
        simp only [dif_neg small, ne_eq, Nat.one_ne_zero, not_false_eq_true, if_true]
        rw [WriteVarIntLoop_marked, List.append_assoc, ih _ shorter highFits, highPart,
          List.singleton_append,
          ReadVarIntLoop_marked_step _ _ _ _ (by rw [shiftRight_seven] at fits ⊢; omega)
            digitMarked (by rw [digitValue, digits]; omega), digitValue, digits]

/-- A value below 128 is the one byte it is. -/
theorem WriteVarInt_small (n : Nat) (small : n ≤ 0x7F) : WriteVarInt n = [UInt8.ofNat n] := by
  unfold WriteVarInt WriteVarIntLoop
  simp only [dif_pos small, ne_eq, not_true_eq_false, if_false, Nat.or_zero, low_seven_bits,
    Nat.mod_eq_of_lt (Nat.lt_succ_of_le small)]

/-- `ReadVarInt<I>` inverts `WriteVarInt` on every value of `I`. -/
theorem decodes_ReadVarInt (maxValue n : Nat) (inRange : n ≤ maxValue) :
    Decodes (ReadVarInt maxValue) (WriteVarInt n) n := by
  intro rest
  obtain ⟨digitValue, digitUnmarked⟩ := last_digit n
  show ReadVarIntLoop maxValue 0 (WriteVarInt n ++ rest) = .ok (n, rest)
  rw [WriteVarInt, WriteVarIntLoop]
  by_cases small : n ≤ 0x7F
  · simp only [dif_pos small, ne_eq, not_true_eq_false, if_false, List.singleton_append]
    rw [ReadVarIntLoop_last_step _ _ _ _ (Nat.zero_le _) digitUnmarked, digitValue]
    congr 2
    omega
  · have shorter : (n >>> 7) - 1 < n := by rw [shiftRight_seven]; omega
    have highPart : (n >>> 7) - 1 + 1 = n >>> 7 := by rw [shiftRight_seven]; omega
    have highFits : (n >>> 7) - 1 + 1 ≤ maxValue >>> 7 := by
      rw [highPart, shiftRight_seven, shiftRight_seven]; omega
    have digits : n >>> 7 * 128 + n % 128 = n := by rw [shiftRight_seven]; omega
    simp only [dif_neg small, ne_eq, not_true_eq_false, if_false]
    rw [WriteVarIntLoop_marked, List.append_assoc, ReadVarIntLoop_marked _ _ highFits,
      highPart, List.singleton_append,
      ReadVarIntLoop_last_step _ _ _ _ (by rw [shiftRight_seven, shiftRight_seven]; omega)
        digitUnmarked, digitValue, digits]

/-! ## The size, and what the reader accepts -/

/-- Each pass of the writer's loop puts one byte out and the size loop counts
one. -/
theorem length_WriteVarIntLoop (n len : Nat) (tmp : List UInt8) :
    (WriteVarIntLoop n len tmp).length = GetSizeOfVarIntLoop n tmp.length := by
  induction n using Nat.strongRecOn generalizing len tmp with
  | ind n ih =>
    unfold WriteVarIntLoop GetSizeOfVarIntLoop
    by_cases small : n ≤ 0x7F
    · simp only [dif_pos small, if_pos small, List.length_cons]
    · have shorter : (n >>> 7) - 1 < n := by rw [shiftRight_seven]; omega
      simp only [dif_neg small, if_neg small]
      rw [ih _ shorter, List.length_cons]

theorem length_WriteVarInt (n : Nat) : (WriteVarInt n).length = GetSizeOfVarInt n :=
  length_WriteVarIntLoop n 0 []

set_option maxRecDepth 10000 in
/-- A byte is its high bit and its seven low bits. -/
private theorem byteOfDigits : ∀ k : Fin 256,
    (UInt8.ofNat k.val &&& 0x80 ≠ 0 →
      UInt8.ofNat ((UInt8.ofNat k.val &&& 0x7F).toNat ||| 0x80) = UInt8.ofNat k.val) ∧
    (UInt8.ofNat k.val &&& 0x80 = 0 →
      UInt8.ofNat ((UInt8.ofNat k.val &&& 0x7F).toNat ||| 0x00) = UInt8.ofNat k.val) := by
  decide

theorem marked_byte {chData : UInt8} (marked : chData &&& 0x80 ≠ 0) :
    UInt8.ofNat ((chData &&& 0x7F).toNat ||| 0x80) = chData := by
  have table := (byteOfDigits ⟨chData.toNat, chData.toNat_lt⟩).1
  simp only [UInt8.ofNat_toNat] at table
  exact table marked

theorem last_byte {chData : UInt8} (last : chData &&& 0x80 = 0) :
    UInt8.ofNat ((chData &&& 0x7F).toNat ||| 0x00) = chData := by
  have table := (byteOfDigits ⟨chData.toNat, chData.toNat_lt⟩).2
  simp only [UInt8.ofNat_toNat] at table
  exact table last

theorem low_bits_lt (chData : UInt8) : (chData &&& 0x7F).toNat < 128 := by
  rw [UInt8.toNat_and]
  exact Nat.lt_of_le_of_lt Nat.and_le_right (by decide)

/-- The bytes the writer puts before the last once the reader's accumulator
holds `acc`: none at the start, the marked digits of `m` once it is `m + 1`. -/
def markedPrefix : Nat → List UInt8
  | 0 => []
  | m + 1 => WriteVarIntLoop m 1 []

/-- The writer's last byte, whose high bit is clear, comes after the marked
digits of the value's high part. -/
theorem WriteVarInt_eq_markedPrefix (acc digit : Nat) (small : digit < 128) :
    WriteVarInt (acc * 128 + digit) =
      markedPrefix acc ++ [UInt8.ofNat (((acc * 128 + digit) &&& 0x7F) ||| 0x00)] := by
  unfold WriteVarInt
  cases acc with
  | zero =>
    rw [WriteVarIntLoop, dif_pos (by omega)]
    simp [markedPrefix]
  | succ m =>
    have large : ¬m.succ * 128 + digit ≤ 0x7F := by omega
    have high : (m.succ * 128 + digit) >>> 7 - 1 = m := by rw [shiftRight_seven]; omega
    rw [WriteVarIntLoop, dif_neg large]
    simp only [ne_eq, not_true_eq_false, if_false, high]
    rw [WriteVarIntLoop_marked m 0, markedPrefix]

/-- A marked byte read onto `acc` continues the marked digits. -/
theorem markedPrefix_marked (acc : Nat) {chData : UInt8} (marked : chData &&& 0x80 ≠ 0) :
    markedPrefix acc ++ [chData] = markedPrefix (acc * 128 + (chData &&& 0x7F).toNat + 1) := by
  have digitSmall := low_bits_lt chData
  have digit : (acc * 128 + (chData &&& 0x7F).toNat) &&& 0x7F = (chData &&& 0x7F).toNat := by
    rw [low_seven_bits]
    omega
  rw [markedPrefix]
  cases acc with
  | zero =>
    rw [WriteVarIntLoop, dif_pos (by omega)]
    simp only [ne_eq, Nat.one_ne_zero, not_false_eq_true, if_true, digit, marked_byte marked]
    rfl
  | succ m =>
    have large : ¬m.succ * 128 + (chData &&& 0x7F).toNat ≤ 0x7F := by omega
    have high : (m.succ * 128 + (chData &&& 0x7F).toNat) >>> 7 - 1 = m := by
      rw [shiftRight_seven]; omega
    rw [WriteVarIntLoop, dif_neg large]
    simp only [ne_eq, Nat.one_ne_zero, not_false_eq_true, if_true, high, digit, marked_byte marked]
    rw [WriteVarIntLoop_marked m 1, markedPrefix]

/-- What the reader accepts from accumulator `acc` completes the writer's
bytes for the value it returns, which fits when `maxValue` is all ones in its
low seven bits, as `std::numeric_limits<I>::max()` is. -/
theorem ReadVarIntLoop_canonical (maxValue : Nat) (ones : maxValue % 128 = 127)
    (bytes : List UInt8) :
    ∀ acc n rest, ReadVarIntLoop maxValue acc bytes = .ok (n, rest) →
      n ≤ maxValue ∧ markedPrefix acc ++ bytes = WriteVarInt n ++ rest := by
  induction bytes with
  | nil =>
    intro acc n rest read
    cases read
  | cons chData bytes ih =>
    intro acc n rest read
    have digitSmall := low_bits_lt chData
    unfold ReadVarIntLoop at read
    by_cases tooBig : acc > maxValue >>> 7
    · rw [if_pos tooBig] at read
      cases read
    rw [if_neg tooBig, shift_or_digit acc _ digitSmall] at read
    have fits : acc * 128 + (chData &&& 0x7F).toNat ≤ maxValue := by
      rw [shiftRight_seven] at tooBig
      omega
    by_cases marked : chData &&& 0x80 ≠ 0
    · -- a marked byte: the accumulator moves on to the next digit
      rw [if_pos marked] at read
      by_cases atMax : acc * 128 + (chData &&& 0x7F).toNat = maxValue
      · rw [if_pos atMax] at read
        cases read
      rw [if_neg atMax] at read
      obtain ⟨bounded, written⟩ := ih _ n rest read
      refine ⟨bounded, ?_⟩
      rw [← List.singleton_append, ← List.append_assoc, markedPrefix_marked acc marked]
      exact written
    · -- the last byte: the value is complete
      rw [if_neg marked] at read
      cases read
      have last : chData &&& 0x80 = 0 := Decidable.of_not_not marked
      have digit : (acc * 128 + (chData &&& 0x7F).toNat) &&& 0x7F = (chData &&& 0x7F).toNat := by
        rw [low_seven_bits]
        omega
      refine ⟨fits, ?_⟩
      rw [WriteVarInt_eq_markedPrefix acc _ digitSmall, digit, last_byte last, List.append_assoc,
        List.singleton_append]

theorem ReadVarInt_canonical (maxValue : Nat) (ones : maxValue % 128 = 127)
    {stream rest : List UInt8} {n : Nat} (read : (ReadVarInt maxValue).run stream = .ok (n, rest)) :
    n ≤ maxValue ∧ stream = WriteVarInt n ++ rest :=
  ReadVarIntLoop_canonical maxValue ones stream 0 n rest read

/-- The reader stops with one of its two exceptions. -/
theorem ReadVarIntLoop_error (maxValue : Nat) (bytes : List UInt8) :
    ∀ acc message, ReadVarIntLoop maxValue acc bytes = .error message →
      message = endOfData ∨ message = "ReadVarInt(): size too large" := by
  induction bytes with
  | nil =>
    intro acc message read
    cases read
    exact .inl rfl
  | cons chData bytes ih =>
    intro acc message read
    unfold ReadVarIntLoop at read
    split at read
    · cases read
      exact .inr rfl
    · dsimp only at read
      split at read
      · split at read
        · cases read
          exact .inr rfl
        · exact ih _ message read
      · cases read

theorem tooLarge_ne_endOfData : "ReadVarInt(): size too large" ≠ endOfData := by
  unfold endOfData
  decide

/-- A reader that meets a byte with a clear high bit does not run out of data
before it. -/
theorem ReadVarIntLoop_ne_endOfData (maxValue : Nat) (bytes : List UInt8)
    (ends : ∃ chData ∈ bytes, chData &&& 0x80 = 0) :
    ∀ acc, ReadVarIntLoop maxValue acc bytes ≠ .error endOfData := by
  induction bytes with
  | nil =>
    obtain ⟨chData, mem, _⟩ := ends
    cases mem
  | cons head bytes ih =>
    intro acc read
    unfold ReadVarIntLoop at read
    split at read
    · exact tooLarge_ne_endOfData (Except.error.inj read)
    · dsimp only at read
      split at read
      · rename_i marked
        split at read
        · exact tooLarge_ne_endOfData (Except.error.inj read)
        · obtain ⟨chData, mem, last⟩ := ends
          rcases List.mem_cons.mp mem with rfl | later
          · exact marked last
          · exact ih ⟨chData, later, last⟩ _ read
      · cases read

/-- `ReadVarInt<I>` throws, rather than wrapping, on the encoding of a value
above the type's maximum. -/
theorem ReadVarInt_too_large (maxValue : Nat) (ones : maxValue % 128 = 127) (n : Nat)
    (large : maxValue < n) (rest : List UInt8) :
    (ReadVarInt maxValue).run (WriteVarInt n ++ rest) = .error "ReadVarInt(): size too large" := by
  cases read : (ReadVarInt maxValue).run (WriteVarInt n ++ rest) with
  | ok result =>
    obtain ⟨v, rest'⟩ := result
    obtain ⟨bounded, written⟩ := ReadVarInt_canonical maxValue ones read
    -- a reader without the bound reads both encodings, so they are of one value
    have both := decodes_ReadVarInt (n + v) n (by omega) rest
    rw [written, decodes_ReadVarInt (n + v) v (by omega) rest'] at both
    cases both
    omega
  | error message =>
    have lastByte : ∃ chData ∈ WriteVarInt n ++ rest, chData &&& 0x80 = 0 := by
      have split := WriteVarInt_eq_markedPrefix (n / 128) (n % 128) (Nat.mod_lt n (by omega))
      rw [Nat.div_add_mod'] at split
      refine ⟨_, List.mem_append_left rest (split ▸ List.mem_append_right _ (List.mem_singleton_self _)),
        (last_digit n).2⟩
    rcases ReadVarIntLoop_error maxValue _ 0 message read with outOfData | tooLarge
    · exact absurd (outOfData ▸ read) (ReadVarIntLoop_ne_endOfData maxValue _ lastByte 0)
    · rw [tooLarge]

/-- The maximum of a type of at least seven bits is all ones in its low seven
bits. -/
theorem all_ones_mod (k : Nat) (wide : 7 ≤ k) : (2 ^ k - 1) % 128 = 127 := by
  obtain ⟨j, rfl⟩ := Nat.exists_eq_add_of_le wide
  have pos : 0 < 2 ^ j := Nat.two_pow_pos j
  rw [Nat.pow_add]
  generalize 2 ^ j = high at pos ⊢
  omega

/-- The integer codecs: for a type whose maximum is `2 ^ k - 1`,
`ReadVarInt` inverts `WriteVarInt` on every value and `GetSizeOfVarInt` is
the written length; what `ReadVarInt` accepts is the writer's encoding of a
value of the type, and the encoding of a larger value makes it throw.
`ReadCompactSize` inverts `WriteCompactSize` up to `MAX_SIZE` and accepts
only shortest forms. -/
theorem integer_codecs_bijective :
    (∀ k n, 7 ≤ k → n ≤ 2 ^ k - 1 →
      Decodes (ReadVarInt (2 ^ k - 1)) (WriteVarInt n) n ∧
        (WriteVarInt n).length = GetSizeOfVarInt n) ∧
    (∀ k stream n rest, 7 ≤ k → (ReadVarInt (2 ^ k - 1)).run stream = .ok (n, rest) →
      n ≤ 2 ^ k - 1 ∧ stream = WriteVarInt n ++ rest) ∧
    (∀ k n rest, 7 ≤ k → 2 ^ k - 1 < n →
      (ReadVarInt (2 ^ k - 1)).run (WriteVarInt n ++ rest) =
        .error "ReadVarInt(): size too large") ∧
    (∀ range_check n, n ≤ MAX_SIZE →
      Decodes (ReadCompactSize range_check) (WriteCompactSize n) n) ∧
    (∀ range_check stream n rest, (ReadCompactSize range_check).run stream = .ok (n, rest) →
      stream = WriteCompactSize n ++ rest) := by
  refine ⟨fun k n _ inRange => ⟨decodes_ReadVarInt _ n inRange, length_WriteVarInt n⟩,
    fun k _ _ _ wide read => ReadVarInt_canonical _ (all_ones_mod k wide) read,
    fun k n rest wide large => ReadVarInt_too_large _ (all_ones_mod k wide) n large rest,
    fun range_check n inRange => ?_, fun _ _ _ _ read => ReadCompactSize_canonical read⟩
  have small : n < 2 ^ 64 := by
    unfold MAX_SIZE at inRange
    omega
  exact decodes_ReadCompactSize range_check n small (fun _ => inRange)

end Peercoin.Serialize
