import Mathlib

/-!
# Digit buffers multiplied in place

Base conversion as a codec without a big-number library does it: the number
is held in a buffer of digits of the target radix, least significant first
and padded with zeros, and each digit of the source is folded in by
multiplying the buffer by the source radix and adding the digit, with a
carry running up the buffer.  The loop walks only the digits in use and
stops where the carry runs out.

`mulAddLoop_buffer` is what one pass computes: on a buffer holding a
number's digits (`Nat.digits`) and zeros, the digits of the new number and
zeros, the carry used up, and the count of digits now in use, as long as the
new number fits.  `pow_le_pow_div_add_one` sizes such a buffer from a
rational bound on the ratio of the radices' logarithms.
-/

set_option autoImplicit false

namespace Radix

/-- One pass "number := number * inRadix + carry" over a buffer of
`outRadix` digits from position `i` on, least significant first, with
`length` digits in use: it goes on while there is a carry or digits in use
are left, and stops at the buffer's end.  The buffer, the carry left over
and the position where it stopped. -/
def mulAddLoop (inRadix outRadix length : Nat) : (carry i : Nat) → List Nat → List Nat × Nat × Nat
  | carry, i, [] => ([], carry, i)
  | carry, i, digit :: digits =>
    if carry ≠ 0 ∨ i < length then
      let carry := carry + inRadix * digit
      match mulAddLoop inRadix outRadix length (carry / outRadix) (i + 1) digits with
      | (digits', carry', i') => (carry % outRadix :: digits', carry', i')
    else (digit :: digits, carry, i)

/-- A buffer of `size` digits holding `value`, least significant first. -/
def buffer (radix size value : Nat) : List Nat :=
  Nat.digits radix value ++ List.replicate (size - (Nat.digits radix value).length) 0

/-- The number a big-endian digit string stands for, read one digit at a
time. -/
def bigEndianValue (radix : Nat) (digits : List Nat) : Nat :=
  digits.foldl (fun value digit => value * radix + digit) 0

variable {radix : Nat}

theorem buffer_zero (size : Nat) : buffer radix size 0 = List.replicate size 0 := by
  simp [buffer]

theorem buffer_succ_of_pos (large : 1 < radix) (size : Nat) {value : Nat} (positive : 0 < value) :
    buffer radix (size + 1) value = value % radix :: buffer radix size (value / radix) := by
  unfold buffer
  rw [Nat.digits_def' large positive, List.length_cons, List.cons_append, Nat.add_sub_add_right]

theorem length_buffer {size value : Nat} (fits : (Nat.digits radix value).length ≤ size) :
    (buffer radix size value).length = size := by
  simp [buffer]
  omega

theorem length_digits_le_of_lt (large : 1 < radix) {size value : Nat} (fits : value < radix ^ size) :
    (Nat.digits radix value).length ≤ size :=
  (Nat.digits_length_le_iff large value).mpr fits

/-- The buffer's first `length` digits, when it holds `value` in that many. -/
theorem buffer_take_length (size value : Nat) :
    (buffer radix size value).take (Nat.digits radix value).length = Nat.digits radix value := by
  simp [buffer]

/-- Folding a digit into a number whose last digit is `rest`: the carry
splits into the new last digit and the carry up. -/
theorem mulAdd_div_mod {outRadix : Nat} (large : 1 < outRadix) (inRadix value carry : Nat) :
    (value * inRadix + carry) % outRadix = (carry + inRadix * (value % outRadix)) % outRadix ∧
      (value * inRadix + carry) / outRadix =
        value / outRadix * inRadix + (carry + inRadix * (value % outRadix)) / outRadix := by
  set sum := carry + inRadix * (value % outRadix)
  have split : value * inRadix + carry = sum % outRadix + outRadix * (value / outRadix * inRadix + sum / outRadix) := by
    calc value * inRadix + carry
        = (outRadix * (value / outRadix) + value % outRadix) * inRadix + carry := by
          rw [Nat.div_add_mod]
      _ = outRadix * (value / outRadix * inRadix) + sum := by ring
      _ = outRadix * (value / outRadix * inRadix) + (sum % outRadix + outRadix * (sum / outRadix)) := by
          rw [Nat.mod_add_div]
      _ = sum % outRadix + outRadix * (value / outRadix * inRadix + sum / outRadix) := by ring
  have positive : 0 < outRadix := by omega
  rw [split, Nat.add_mul_mod_self_left, Nat.mod_mod, Nat.add_mul_div_left _ _ positive,
    Nat.div_eq_of_lt (Nat.mod_lt _ positive), Nat.zero_add]
  exact ⟨rfl, rfl⟩

/-- A pass over a buffer of `size` digits holding `value` in the digits in
use (`length - i` of them from position `i`) leaves `value * inRadix +
carry` in it, in use as far as the pass went, as long as that fits. -/
theorem mulAddLoop_buffer {inRadix outRadix : Nat} (unit : 0 < inRadix) (large : 1 < outRadix)
    (length size : Nat) :
    ∀ value carry i, length - i = (Nat.digits outRadix value).length →
      value * inRadix + carry < outRadix ^ size →
      mulAddLoop inRadix outRadix length carry i (buffer outRadix size value) =
        (buffer outRadix size (value * inRadix + carry), 0,
          i + (Nat.digits outRadix (value * inRadix + carry)).length) := by
  -- induction on the buffer's size; the buffer's first digit splits off the number
  induction size with
  | zero =>
    intro value carry i _ fits
    have nothing : value * inRadix + carry = 0 := by simpa using fits
    have empty : value = 0 := by
      rcases Nat.eq_zero_or_pos value with zero | pos
      · exact zero
      · have := Nat.mul_pos pos unit
        omega
    have noCarry : carry = 0 := by omega
    subst empty noCarry
    simp [buffer, mulAddLoop]
  | succ size ih =>
    intro value carry i inUse fits
    have fitsAbove : (value * inRadix + carry) / outRadix < outRadix ^ size := by
      rw [Nat.div_lt_iff_lt_mul (by omega), ← Nat.pow_succ]
      exact fits
    obtain ⟨lowDigit, highDigits⟩ := mulAdd_div_mod large inRadix value carry
    rcases Nat.eq_zero_or_pos value with empty | positive
    · subst empty
      rw [buffer_zero, List.replicate_succ]
      rcases Nat.eq_zero_or_pos carry with noCarry | hasCarry
      · -- nothing in use and nothing to add: the pass stops at once
        subst noCarry
        have stop : ¬(0 ≠ 0 ∨ i < length) := by simp at inUse ⊢; omega
        rw [mulAddLoop, if_neg stop]
        simp [buffer_zero, List.replicate_succ]
      · -- the carry alone runs up the zeros
        have go : carry ≠ 0 ∨ i < length := .inl (by omega)
        have above := ih 0 (carry / outRadix) (i + 1) (by simp at inUse ⊢; omega)
          (by simpa using fitsAbove)
        rw [← buffer_zero size, mulAddLoop, if_pos go]
        simp only [Nat.mul_zero, Nat.add_zero, Nat.zero_mul, Nat.zero_add] at above ⊢
        rw [above, buffer_succ_of_pos large size hasCarry, Nat.digits_def' large hasCarry,
          List.length_cons]
        simp only [Prod.mk.injEq, true_and]
        omega
    · -- the number's lowest digit is in use: the pass takes it and goes on
      have go : carry ≠ 0 ∨ i < length := by
        right
        rw [Nat.digits_def' large positive, List.length_cons] at inUse
        omega
      have inUseAbove : length - (i + 1) = (Nat.digits outRadix (value / outRadix)).length := by
        rw [Nat.digits_def' large positive, List.length_cons] at inUse
        omega
      have sumPositive : 0 < value * inRadix + carry := by
        have := Nat.mul_pos positive unit
        omega
      have above := ih (value / outRadix) ((carry + inRadix * (value % outRadix)) / outRadix) (i + 1)
        inUseAbove (by rw [← highDigits]; exact fitsAbove)
      rw [buffer_succ_of_pos large size positive, mulAddLoop, if_pos go]
      simp only
      rw [above, ← highDigits, ← lowDigit, buffer_succ_of_pos large size sumPositive,
        Nat.digits_def' large sumPositive, List.length_cons]
      simp only [Prod.mk.injEq, true_and]
      omega

/-- Reading a big-endian digit string is `Nat.ofDigits` of its reverse. -/
theorem foldl_mulAdd (digits : List Nat) (start : Nat) :
    digits.foldl (fun value digit => value * radix + digit) start =
      start * radix ^ digits.length + Nat.ofDigits radix digits.reverse := by
  induction digits generalizing start with
  | nil => simp
  | cons digit digits ih =>
    rw [List.foldl_cons, ih, List.reverse_cons, Nat.ofDigits_append, List.length_reverse,
      List.length_cons, Nat.ofDigits_singleton, pow_succ]
    ring

/-- Reading more digits never makes a number smaller. -/
theorem le_foldl_mulAdd (positive : 0 < radix) (digits : List Nat) (start : Nat) :
    start ≤ digits.foldl (fun value digit => value * radix + digit) start := by
  rw [foldl_mulAdd]
  calc start = start * 1 := (Nat.mul_one start).symm
    _ ≤ start * radix ^ digits.length := Nat.mul_le_mul_left _ (Nat.one_le_pow _ _ positive)
    _ ≤ start * radix ^ digits.length + Nat.ofDigits radix digits.reverse := Nat.le_add_right _ _

theorem bigEndianValue_eq (digits : List Nat) :
    bigEndianValue radix digits = Nat.ofDigits radix digits.reverse := by
  rw [bigEndianValue, foldl_mulAdd, Nat.zero_mul, Nat.zero_add]

theorem bigEndianValue_append (first second : List Nat) :
    bigEndianValue radix (first ++ second) =
      bigEndianValue radix first * radix ^ second.length + bigEndianValue radix second := by
  rw [bigEndianValue, List.foldl_append, ← bigEndianValue, foldl_mulAdd, bigEndianValue_eq,
    bigEndianValue_eq]

theorem bigEndianValue_cons (digit : Nat) (digits : List Nat) :
    bigEndianValue radix (digit :: digits) =
      digit * radix ^ digits.length + bigEndianValue radix digits := by
  have single : bigEndianValue radix [digit] = digit := by simp [bigEndianValue]
  rw [← List.singleton_append, bigEndianValue_append, single]

theorem bigEndianValue_lt (large : 1 < radix) {digits : List Nat} (small : ∀ d ∈ digits, d < radix) :
    bigEndianValue radix digits < radix ^ digits.length := by
  rw [bigEndianValue_eq, ← List.length_reverse]
  exact Nat.ofDigits_lt_base_pow_length large (by simpa using small)

/-- Digit strings of one length and one value are the same. -/
theorem bigEndianValue_inj (large : 1 < radix) {first second : List Nat}
    (sameLength : first.length = second.length) (smallFirst : ∀ d ∈ first, d < radix)
    (smallSecond : ∀ d ∈ second, d < radix)
    (sameValue : bigEndianValue radix first = bigEndianValue radix second) : first = second := by
  rw [bigEndianValue_eq, bigEndianValue_eq] at sameValue
  have reversed := Nat.ofDigits_inj_of_len_eq large (by simpa using sameLength)
    (by simpa using smallFirst) (by simpa using smallSecond) sameValue
  exact List.reverse_inj.mp reversed

/-- Sizing a buffer: `a ^ n ≤ b ^ (q * n / p + 1)` for every `n` follows from
one period `a ^ p ≤ b ^ q` and the remainders below it. -/
theorem pow_le_pow_div_add_one {a b p q : Nat} (positive : 0 < p) (period : a ^ p ≤ b ^ q)
    (remainders : ∀ r < p, a ^ r ≤ b ^ (q * r / p + 1)) (n : Nat) :
    a ^ n ≤ b ^ (q * n / p + 1) := by
  set k := n / p
  set r := n % p
  have split : n = p * k + r := (Nat.div_add_mod n p).symm
  have exponent : q * n / p = q * k + q * r / p := by
    have spread : q * n = q * r + p * (q * k) := by rw [split]; ring
    rw [spread, Nat.add_mul_div_left _ _ positive, Nat.add_comm]
  calc a ^ n = (a ^ p) ^ k * a ^ r := by rw [split, pow_add, pow_mul]
    _ ≤ (b ^ q) ^ k * b ^ (q * r / p + 1) :=
        Nat.mul_le_mul (Nat.pow_le_pow_left period k) (remainders r (Nat.mod_lt n positive))
    _ = b ^ (q * n / p + 1) := by rw [exponent, ← pow_mul, ← pow_add, Nat.add_assoc]

end Radix
