import Mathlib
import PeercoinFormal.Util.StrEncodings
import PeercoinFormal.Primitives.TransactionFormat

/-!
# base58.cpp: Base58 and Base58Check

`EncodeBase58` writes the bytes after their leading zeros as one big-endian
number in base 58, in a buffer of digits it multiplies by 256 and adds each
byte to; each leading zero byte becomes a '1'.  `DecodeBase58` runs the same
loop the other way, multiplying a buffer of bytes by 58, and keeps the
buffer's digits in use.  Base58Check appends the first four bytes of the
double SHA-256 of the data, and checks them on the way back.

The buffers are sized from `log(256) / log(58) < 138 / 100` and
`log(58) / log(256) < 733 / 1000`, so the carry the inner loops `assert` to
be zero always is (`encode_buffer_fits`, `decode_buffer_fits`), and the
decoder's count of digits in use has no leading zero, so it gives back
exactly the bytes that were encoded (`DecodeBase58Psz_EncodeBase58`).
-/

set_option autoImplicit false

namespace Peercoin.Base58

open Peercoin.Primitives Peercoin.Util Radix

/-- `pszBase58`: the alphanumeric characters but 0, I, O and l. -/
def pszBase58 : List UInt8 :=
  ['1', '2', '3', '4', '5', '6', '7', '8', '9', 'A', 'B', 'C', 'D', 'E', 'F', 'G', 'H', 'J', 'K',
    'L', 'M', 'N', 'P', 'Q', 'R', 'S', 'T', 'U', 'V', 'W', 'X', 'Y', 'Z', 'a', 'b', 'c', 'd', 'e',
    'f', 'g', 'h', 'i', 'j', 'k', 'm', 'n', 'o', 'p', 'q', 'r', 's', 't', 'u', 'v', 'w', 'x', 'y',
    'z'].map Char.toUInt8

/-- `mapBase58`: the digit of each character, or -1. -/
def mapBase58 : List Int := [
  -1, -1, -1, -1, -1, -1, -1, -1,  -1, -1, -1, -1, -1, -1, -1, -1,
  -1, -1, -1, -1, -1, -1, -1, -1,  -1, -1, -1, -1, -1, -1, -1, -1,
  -1, -1, -1, -1, -1, -1, -1, -1,  -1, -1, -1, -1, -1, -1, -1, -1,
  -1, 0, 1, 2, 3, 4, 5, 6,  7, 8, -1, -1, -1, -1, -1, -1,
  -1, 9, 10, 11, 12, 13, 14, 15,  16, -1, 17, 18, 19, 20, 21, -1,
  22, 23, 24, 25, 26, 27, 28, 29,  30, 31, 32, -1, -1, -1, -1, -1,
  -1, 33, 34, 35, 36, 37, 38, 39,  40, 41, 42, 43, -1, 44, 45, 46,
  47, 48, 49, 50, 51, 52, 53, 54,  55, 56, 57, -1, -1, -1, -1, -1,
  -1, -1, -1, -1, -1, -1, -1, -1,  -1, -1, -1, -1, -1, -1, -1, -1,
  -1, -1, -1, -1, -1, -1, -1, -1,  -1, -1, -1, -1, -1, -1, -1, -1,
  -1, -1, -1, -1, -1, -1, -1, -1,  -1, -1, -1, -1, -1, -1, -1, -1,
  -1, -1, -1, -1, -1, -1, -1, -1,  -1, -1, -1, -1, -1, -1, -1, -1,
  -1, -1, -1, -1, -1, -1, -1, -1,  -1, -1, -1, -1, -1, -1, -1, -1,
  -1, -1, -1, -1, -1, -1, -1, -1,  -1, -1, -1, -1, -1, -1, -1, -1,
  -1, -1, -1, -1, -1, -1, -1, -1,  -1, -1, -1, -1, -1, -1, -1, -1,
  -1, -1, -1, -1, -1, -1, -1, -1,  -1, -1, -1, -1, -1, -1, -1, -1]

/-- The `while (input.size() > 0)` loop of `EncodeBase58`: each byte is
folded into `b58`, held least significant digit first, with `length`
digits in use.  The inner loop's carry is `assert`ed zero and dropped. -/
def EncodeBase58Loop : (b58 : List Nat) → (length : Nat) → List UInt8 → List Nat × Nat
  | b58, length, [] => (b58, length)
  | b58, length, byte :: input =>
    match mulAddLoop 256 58 length byte.toNat 0 b58 with
    | (b58, _, i) => EncodeBase58Loop b58 i input

def EncodeBase58 (input : List UInt8) : List UInt8 :=
  -- skip and count the leading zeros
  let zeroes := (input.takeWhile (· == 0)).length
  let input := input.dropWhile (· == 0)
  let size := input.length * 138 / 100 + 1
  match EncodeBase58Loop (List.replicate size 0) 0 input with
  | (b58, length) =>
    -- the digits in use, most significant first, less their leading zeros
    let digits := ((b58.take length).reverse).dropWhile (· == 0)
    List.replicate zeroes '1'.toUInt8 ++ digits.map fun digit => pszBase58.getD digit 0

/-- The leading-'1's loop of `DecodeBase58`: their count, or none once it
passes `max_ret_len`. -/
def DecodeBase58Ones (max_ret_len : Nat) : (zeroes : Nat) → List UInt8 → Option (Nat × List UInt8)
  | zeroes, [] => some (zeroes, [])
  | zeroes, c :: psz =>
    if c = '1'.toUInt8 then
      if zeroes + 1 > max_ret_len then none else DecodeBase58Ones max_ret_len (zeroes + 1) psz
    else some (zeroes, c :: psz)

/-- The `while (*psz && !IsSpace(*psz))` loop of `DecodeBase58`: each digit
is folded into `b256`, held least significant byte first, with `length`
bytes in use; none on a character that is not a digit, or once the result
would pass `max_ret_len`.  The inner loop's carry is `assert`ed zero and
dropped. -/
def DecodeBase58Loop (max_ret_len zeroes : Nat) :
    (b256 : List Nat) → (length : Nat) → List UInt8 → Option (List Nat × Nat × List UInt8)
  | b256, length, [] => some (b256, length, [])
  | b256, length, c :: psz =>
    if IsSpace c then some (b256, length, c :: psz)
    else
      let carry := mapBase58.getD c.toNat (-1)
      if carry = -1 then none
      else
        match mulAddLoop 58 256 length carry.toNat 0 b256 with
        | (b256, _, i) =>
          if i + zeroes > max_ret_len then none
          else DecodeBase58Loop max_ret_len zeroes b256 i psz

/-- `DecodeBase58(const char* psz, vch, max_ret_len)`, on a string without
NUL: the bytes, or none where it returns false. -/
def DecodeBase58Psz (psz : List UInt8) (max_ret_len : Nat) : Option (List UInt8) :=
  match DecodeBase58Ones max_ret_len 0 (psz.dropWhile IsSpace) with
  | none => none
  | some (zeroes, psz) =>
    let size := psz.length * 733 / 1000 + 1
    match DecodeBase58Loop max_ret_len zeroes (List.replicate size 0) 0 psz with
    | none => none
    | some (b256, length, psz) =>
      -- only spaces may follow
      if psz.dropWhile IsSpace ≠ [] then none
      else some (List.replicate zeroes 0 ++ (b256.take length).reverse.map Nat.toUInt8)

def DecodeBase58 (str : List UInt8) (max_ret_len : Nat) : Option (List UInt8) :=
  if !ContainsNoNUL str then none else DecodeBase58Psz str max_ret_len

/-- `EncodeBase58Check`: the data and the first four bytes of its hash. -/
def EncodeBase58Check (sha256 : List UInt8 → uint256) (input : List UInt8) : List UInt8 :=
  EncodeBase58 (input ++ (GetHash sha256 input).data.take 4)

/-- `DecodeBase58Check(const char* psz, vchRet, max_ret_len)`. -/
def DecodeBase58CheckPsz (sha256 : List UInt8 → uint256) (psz : List UInt8) (max_ret_len : Nat) :
    Option (List UInt8) :=
  match DecodeBase58Psz psz
      (if max_ret_len > 2147483647 - 4 then 2147483647 else max_ret_len + 4) with
  | none => none
  | some vchRet =>
    if vchRet.length < 4 then none
    -- the checksum of the data must match the last four bytes
    else if (GetHash sha256 (vchRet.take (vchRet.length - 4))).data.take 4 ≠
        vchRet.drop (vchRet.length - 4) then none
    else some (vchRet.take (vchRet.length - 4))

def DecodeBase58Check (sha256 : List UInt8 → uint256) (str : List UInt8) (max_ret : Nat) :
    Option (List UInt8) :=
  if !ContainsNoNUL str then none else DecodeBase58CheckPsz sha256 str max_ret

/-! ## The alphabet -/

theorem mapBase58_pszBase58 : ∀ digit < 58, mapBase58.getD (pszBase58.getD digit 0).toNat (-1) = digit := by
  decide

theorem pszBase58_eq_one : ∀ digit < 58, pszBase58.getD digit 0 = '1'.toUInt8 → digit = 0 := by
  decide

theorem pszBase58_not_space : ∀ digit < 58, IsSpace (pszBase58.getD digit 0) = false := by
  decide

theorem pszBase58_ne_zero : ∀ digit < 58, pszBase58.getD digit 0 ≠ 0 := by
  decide

/-! ## Buffer sizes -/

/-- `EncodeBase58`'s buffer holds any number of `n` bytes. -/
theorem encode_buffer_fits (n : Nat) : 256 ^ n ≤ 58 ^ (n * 138 / 100 + 1) := by
  rw [Nat.mul_comm n]
  exact pow_le_pow_div_add_one (by decide) (by decide +kernel) (by decide +kernel) n

/-- `DecodeBase58`'s buffer holds any number of `m` base-58 digits. -/
theorem decode_buffer_fits (m : Nat) : 58 ^ m ≤ 256 ^ (m * 733 / 1000 + 1) := by
  rw [Nat.mul_comm m]
  exact pow_le_pow_div_add_one (by decide) (by decide +kernel) (by decide +kernel) m

/-! ## What the loops compute -/

theorem EncodeBase58Loop_buffer {size : Nat} : ∀ (input : List UInt8) (value : Nat),
    (input.map UInt8.toNat).foldl (fun v d => v * 256 + d) value < 58 ^ size →
    EncodeBase58Loop (buffer 58 size value) (Nat.digits 58 value).length input =
      (buffer 58 size ((input.map UInt8.toNat).foldl (fun v d => v * 256 + d) value),
        (Nat.digits 58 ((input.map UInt8.toNat).foldl (fun v d => v * 256 + d) value)).length)
  | [], _, _ => rfl
  | byte :: input, value, fits => by
    have stepFits : value * 256 + byte.toNat < 58 ^ size :=
      lt_of_le_of_lt (le_foldl_mulAdd (by decide) _ _) fits
    rw [EncodeBase58Loop, mulAddLoop_buffer (by decide) (by decide) _ size value byte.toNat 0
      (Nat.sub_zero _) stepFits]
    simp only [Nat.zero_add, List.map_cons, List.foldl_cons] at fits ⊢
    exact EncodeBase58Loop_buffer input _ fits

/-- A list of digits whose last is not zero, read most significant first,
has no leading zero. -/
theorem dropWhile_reverse_digits (base value : Nat) :
    (Nat.digits base value).reverse.dropWhile (· == 0) = (Nat.digits base value).reverse := by
  rcases Nat.eq_zero_or_pos value with rfl | positive
  · simp
  · have nonempty : Nat.digits base value ≠ [] := Nat.digits_ne_nil_iff_ne_zero.mpr positive.ne'
    have top := Nat.getLast_digit_ne_zero base positive.ne'
    rw [← List.dropLast_append_getLast nonempty, List.reverse_append, List.reverse_singleton,
      List.singleton_append, List.dropWhile_cons_of_neg (by simpa using top)]

/-- `EncodeBase58` writes a '1' for each leading zero byte and then the
base-58 digits of the rest, most significant first. -/
theorem EncodeBase58_eq (bytes : List UInt8) :
    EncodeBase58 bytes =
      List.replicate (bytes.takeWhile (· == 0)).length '1'.toUInt8 ++
        (Nat.digits 58 (bigEndianValue 256 ((bytes.dropWhile (· == 0)).map UInt8.toNat))).reverse.map
          fun digit => pszBase58.getD digit 0 := by
  set rest := bytes.dropWhile (· == 0)
  have fits : bigEndianValue 256 (rest.map UInt8.toNat) < 58 ^ (rest.length * 138 / 100 + 1) :=
    calc bigEndianValue 256 (rest.map UInt8.toNat) < 256 ^ (rest.map UInt8.toNat).length :=
          bigEndianValue_lt (by decide) (by simpa using fun b _ => UInt8.toNat_lt b)
      _ ≤ 58 ^ (rest.length * 138 / 100 + 1) := by
          rw [List.length_map]
          exact encode_buffer_fits _
  have loop := EncodeBase58Loop_buffer rest 0 fits
  rw [Nat.digits_zero, List.length_nil, buffer_zero] at loop
  unfold EncodeBase58
  simp only
  rw [loop]
  simp only [buffer_take_length, dropWhile_reverse_digits]
  rfl

/-- The decoder's loop reads the digits into a buffer of bytes, as long as
the number fits and its bytes with the leading zeros stay within
`max_ret_len`. -/
theorem DecodeBase58Loop_digits {max_ret_len zeroes size : Nat} : ∀ (digits : List Nat) (value : Nat),
    (∀ d ∈ digits, d < 58) →
    digits.foldl (fun v d => v * 58 + d) value < 256 ^ size →
    (Nat.digits 256 (digits.foldl (fun v d => v * 58 + d) value)).length + zeroes ≤ max_ret_len →
    DecodeBase58Loop max_ret_len zeroes (buffer 256 size value) (Nat.digits 256 value).length
        (digits.map fun d => pszBase58.getD d 0) =
      some (buffer 256 size (digits.foldl (fun v d => v * 58 + d) value),
        (Nat.digits 256 (digits.foldl (fun v d => v * 58 + d) value)).length, [])
  | [], _, _, _, _ => rfl
  | digit :: digits, value, small, fits, within => by
    have isDigit := small digit List.mem_cons_self
    have stepFits : value * 58 + digit < 256 ^ size :=
      lt_of_le_of_lt (le_foldl_mulAdd (by decide) _ _) fits
    -- the count in use only grows towards the final one, which is within the bound
    have stepWithin : (Nat.digits 256 (value * 58 + digit)).length + zeroes ≤ max_ret_len :=
      le_trans (Nat.add_le_add_right
        (Nat.le_length_digits_le _ _ _ (le_foldl_mulAdd (by decide) digits _)) _) within
    have read : mapBase58.getD (pszBase58.getD digit 0).toNat (-1) = digit :=
      mapBase58_pszBase58 digit isDigit
    have notSpace : ¬IsSpace (pszBase58.getD digit 0) = true := by
      rw [pszBase58_not_space digit isDigit]
      exact Bool.false_ne_true
    rw [List.map_cons, DecodeBase58Loop, if_neg notSpace, read, if_neg (by omega), Int.toNat_natCast,
      mulAddLoop_buffer (by decide) (by decide) _ size value digit 0 (Nat.sub_zero _) stepFits]
    simp only [Nat.zero_add]
    rw [if_neg (by omega)]
    simp only [List.foldl_cons] at fits within ⊢
    exact DecodeBase58Loop_digits digits _ (fun d member => small d (List.mem_cons_of_mem _ member))
      fits within

theorem DecodeBase58Ones_ones (max_ret_len : Nat) {rest : List UInt8}
    (notOne : rest.head? ≠ some '1'.toUInt8) :
    ∀ zeroes start, start + zeroes ≤ max_ret_len →
      DecodeBase58Ones max_ret_len start (List.replicate zeroes '1'.toUInt8 ++ rest) =
        some (start + zeroes, rest) := by
  intro zeroes
  induction zeroes with
  | zero =>
    intro start _
    cases rest with
    | nil => rfl
    | cons c rest =>
      rw [List.replicate_zero, List.nil_append, DecodeBase58Ones, if_neg (by simpa using notOne)]
      rfl
  | succ zeroes ih =>
    intro start within
    rw [List.replicate_succ, List.cons_append, DecodeBase58Ones, if_pos rfl, if_neg (by omega),
      ih (start + 1) (by omega), Nat.add_right_comm, Nat.add_assoc]

/-- `DecodeBase58` of ones and base-58 digits: zero bytes and the bytes of
the digits' number. -/
theorem DecodeBase58Psz_digits (zeroes value : Nat) {max_ret_len : Nat}
    (within : zeroes + (Nat.digits 256 value).length ≤ max_ret_len) :
    DecodeBase58Psz (List.replicate zeroes '1'.toUInt8 ++
        (Nat.digits 58 value).reverse.map fun digit => pszBase58.getD digit 0) max_ret_len =
      some (List.replicate zeroes 0 ++ (Nat.digits 256 value).reverse.map Nat.toUInt8) := by
  set digits := (Nat.digits 58 value).reverse
  have small : ∀ d ∈ digits, d < 58 := fun d member =>
    Nat.digits_lt_base (by decide) (List.mem_reverse.mp member)
  have noSpace : (List.replicate zeroes '1'.toUInt8 ++ digits.map fun d => pszBase58.getD d 0).dropWhile
      IsSpace = List.replicate zeroes '1'.toUInt8 ++ digits.map fun d => pszBase58.getD d 0 := by
    rw [List.dropWhile_eq_self_iff]
    intro nonempty
    rcases zeroes with _ | zeroes
    · -- no ones: the string starts with the top digit
      simp only [List.replicate_zero, List.nil_append, List.getElem_map] at nonempty ⊢
      rw [pszBase58_not_space _ (small _ (List.getElem_mem _))]
      exact Bool.false_ne_true
    · simp only [List.replicate_succ, List.cons_append, List.getElem_cons_zero]
      decide
  -- the most significant digit is not zero, so it is not a '1'
  have notOne : (digits.map fun d => pszBase58.getD d 0).head? ≠ some '1'.toUInt8 := by
    rcases Nat.eq_zero_or_pos value with rfl | positive
    · simp [digits]
    · have nonempty : Nat.digits 58 value ≠ [] := Nat.digits_ne_nil_iff_ne_zero.mpr positive.ne'
      have top := Nat.getLast_digit_ne_zero 58 positive.ne'
      rw [List.head?_map, List.head?_reverse, List.getLast?_eq_some_getLast nonempty]
      intro isOne
      exact top (pszBase58_eq_one _ (Nat.digits_lt_base (by decide) (List.getLast_mem nonempty))
        (Option.some.inj isOne))
  have readBack : digits.foldl (fun v d => v * 58 + d) 0 = value := by
    rw [foldl_mulAdd, Nat.zero_mul, Nat.zero_add, List.reverse_reverse, Nat.ofDigits_digits]
  have fits : value < 256 ^ ((digits.map fun d => pszBase58.getD d 0).length * 733 / 1000 + 1) :=
    calc value < 58 ^ (Nat.digits 58 value).length := Nat.lt_base_pow_length_digits (by decide)
      _ ≤ 256 ^ ((digits.map fun d => pszBase58.getD d 0).length * 733 / 1000 + 1) := by
          rw [List.length_map, List.length_reverse]
          exact decode_buffer_fits _
  have loop := @DecodeBase58Loop_digits max_ret_len zeroes _ digits 0
    small (by rw [readBack]; exact fits) (by rw [readBack]; omega)
  rw [Nat.digits_zero, List.length_nil, buffer_zero, readBack] at loop
  unfold DecodeBase58Psz
  rw [noSpace, DecodeBase58Ones_ones max_ret_len notOne zeroes 0 (by omega), Nat.zero_add]
  simp only
  rw [loop]
  simp [buffer_take_length]

/-- `DecodeBase58` gives back the bytes `EncodeBase58` wrote, when there are
no more than `max_ret_len` of them. -/
theorem DecodeBase58Psz_EncodeBase58 (bytes : List UInt8) {max_ret_len : Nat}
    (within : bytes.length ≤ max_ret_len) :
    DecodeBase58Psz (EncodeBase58 bytes) max_ret_len = some bytes := by
  set rest := bytes.dropWhile (· == 0)
  have whole : bytes.takeWhile (· == 0) ++ rest = bytes := List.takeWhile_append_dropWhile
  have allZero : bytes.takeWhile (· == 0) = List.replicate (bytes.takeWhile (· == 0)).length 0 :=
    List.eq_replicate_iff.mpr ⟨rfl, fun b member => by simpa using List.mem_takeWhile_imp member⟩
  -- the first byte after the zeros is not zero, so the rest is its own digits
  have restDigits : Nat.digits 256 (bigEndianValue 256 (rest.map UInt8.toNat)) =
      (rest.map UInt8.toNat).reverse := by
    rw [bigEndianValue_eq]
    apply Nat.digits_ofDigits _ (by decide)
    · intro d member
      obtain ⟨b, _, rfl⟩ := List.mem_map.mp (List.mem_reverse.mp member)
      exact UInt8.toNat_lt b
    · intro nonempty
      have restNonempty : rest ≠ [] := by simpa using nonempty
      have first : (rest.head restNonempty == 0) = false := List.head_dropWhile_not _ restNonempty
      rw [List.getLast_reverse, List.head_map]
      intro zero
      have isZero : rest.head restNonempty = 0 := UInt8.toNat_inj.mp (by simpa using zero)
      simp [isZero] at first
  have lengths : (bytes.takeWhile (· == 0)).length + rest.length = bytes.length := by
    rw [← List.length_append, whole]
  rw [EncodeBase58_eq, DecodeBase58Psz_digits _ _ (by rw [restDigits]; simp; omega), restDigits,
    List.reverse_reverse, map_toUInt8_toNat, ← allZero, whole]

theorem ContainsNoNUL_EncodeBase58 (bytes : List UInt8) : ContainsNoNUL (EncodeBase58 bytes) = true := by
  rw [EncodeBase58_eq]
  simp only [ContainsNoNUL, List.all_append, List.all_replicate, List.all_map, Bool.and_eq_true,
    List.all_eq_true]
  refine ⟨by split <;> decide, fun digit member => ?_⟩
  have isDigit := Nat.digits_lt_base (by decide) (List.mem_reverse.mp member)
  simpa using pszBase58_ne_zero digit isDigit

/-- Base58Check gives back the data it encoded. -/
theorem DecodeBase58Check_EncodeBase58Check (sha256 : List UInt8 → uint256) (data : List UInt8)
    {max_ret_len : Nat} (within : data.length ≤ max_ret_len) (small : max_ret_len ≤ 2147483647 - 4) :
    DecodeBase58Check sha256 (EncodeBase58Check sha256 data) max_ret_len = some data := by
  have checksumLength : ((GetHash sha256 data).data.take 4).length = 4 := by
    simp [(GetHash sha256 data).size_eq]
  unfold DecodeBase58Check DecodeBase58CheckPsz EncodeBase58Check
  rw [ContainsNoNUL_EncodeBase58, if_neg (show ¬max_ret_len > 2147483647 - 4 by omega),
    DecodeBase58Psz_EncodeBase58 _ (by rw [List.length_append, checksumLength]; omega)]
  simp [checksumLength]

end Peercoin.Base58
