import Mathlib

/-!
# arith_uint256.cpp and bignum.h: the compact form of a target

A block header carries its target as `nBits`, a 32-bit compact form: the
size in bytes in the top byte, a sign bit, and a 23-bit mantissa holding the
top bytes of the value.  `arith_uint256` reads and writes this form for
unsigned 256-bit values, with flags for a negative or overflowing form.
`CBigNum`, OpenSSL's signed big numbers, reads and writes it with the sign.
Both encoders take the value's size in bytes and its top three bytes.  When
the top byte would read as the sign, they move the mantissa down a byte.
That common part is `compactMagnitude`.

`arith_uint256` values are numbers below `2 ^ 256`, and `CBigNum` values
are integers.  Read back, a compact form gives its value with every byte
below the top three cleared: never more than the value, and positive when
the value is.
-/

set_option autoImplicit false

namespace Peercoin.Arith

/-- The value that a compact size and mantissa stand for. -/
def compactValue (nSize nWord : Nat) : Nat :=
  if nSize ≤ 3 then nWord >>> (8 * (3 - nSize)) else nWord <<< (8 * (nSize - 3))

/-- `arith_uint256::SetCompact`: the value, `*pfNegative` and `*pfOverflow`. -/
def SetCompact (nCompact : UInt32) : Nat × Bool × Bool :=
  let nSize := nCompact.toNat >>> 24
  -- up to three bytes the source shifts `nWord` in place, and the flags read the shifted word
  let nWord := if nSize ≤ 3 then (nCompact.toNat &&& 0x007fffff) >>> (8 * (3 - nSize))
    else nCompact.toNat &&& 0x007fffff
  (compactValue nSize (nCompact.toNat &&& 0x007fffff) % 2 ^ 256,
    nWord != 0 && nCompact.toNat &&& 0x00800000 != 0,
    nWord != 0 && (decide (nSize > 34) || (decide (nWord > 0xff) && decide (nSize > 33)) ||
      (decide (nWord > 0xffff) && decide (nSize > 32))))

/-- `BN_num_bytes`, and `(bits() + 7) / 8` of an `arith_uint256`. -/
def numBytes (x : Nat) : Nat := (Nat.size x + 7) / 8

/-- The size in bytes and the mantissa of a magnitude, as both `GetCompact`s
compute them. -/
def compactMagnitude (x : Nat) : Nat × Nat :=
  let nSize := numBytes x
  let nCompact := if nSize ≤ 3 then x <<< (8 * (3 - nSize)) else x >>> (8 * (nSize - 3))
  if nCompact &&& 0x00800000 ≠ 0 then (nSize + 1, nCompact >>> 8) else (nSize, nCompact)

/-- The 32-bit word of a size and a mantissa. -/
def compactWord (nSize nCompact : Nat) : UInt32 :=
  UInt32.ofNat nCompact ||| (UInt32.ofNat nSize <<< 24)

/-- `arith_uint256::GetCompact`.  Its two assertions, that the mantissa has
no bit above the 23rd and that the size is below 256, hold for every value
below `2 ^ 256` (`compactMagnitude_mantissa_lt`, `compactMagnitude_size_le`). -/
def GetCompact (value : Nat) (fNegative : Bool) : UInt32 :=
  let nCompact := compactWord (compactMagnitude value).1 (compactMagnitude value).2
  nCompact ||| (if fNegative && nCompact &&& 0x007fffff != 0 then 0x00800000 else 0)

namespace CBigNum

/-- `CBigNum::SetCompact`; a negative zero is zero. -/
def SetCompact (nCompact : UInt32) : Int :=
  let nSize := nCompact.toNat >>> 24
  let magnitude := compactValue nSize (nCompact.toNat &&& 0x007fffff)
  if nCompact.toNat &&& 0x00800000 ≠ 0 then -(magnitude : Int) else magnitude

/-- `CBigNum::GetCompact`. -/
def GetCompact (bn : Int) : UInt32 :=
  compactWord (compactMagnitude bn.natAbs).1 (compactMagnitude bn.natAbs).2 |||
    (if bn < 0 then 0x00800000 else 0)

end CBigNum

/-! ## Bits and sizes -/

theorem and_two_pow_eq (x i : Nat) : x &&& 2 ^ i = (x / 2 ^ i % 2) * 2 ^ i := by
  apply Nat.eq_of_testBit_eq
  intro j
  rw [Nat.testBit_and, Nat.testBit_two_pow]
  rcases Nat.mod_two_eq_zero_or_one (x / 2 ^ i) with bit | bit
  · rw [bit, Nat.zero_mul, Nat.zero_testBit]
    by_cases same : i = j
    · subst same
      simp [Nat.testBit_eq_decide_div_mod_eq, bit]
    · simp [same]
  · rw [bit, Nat.one_mul, Nat.testBit_two_pow]
    by_cases same : i = j
    · subst same
      simp [Nat.testBit_eq_decide_div_mod_eq, bit]
    · simp [same]

theorem lt_two_pow_numBytes (x : Nat) : x < 2 ^ (8 * numBytes x) := by
  apply Nat.size_le.mp
  unfold numBytes
  omega

theorem two_pow_numBytes_le {x : Nat} (pos : 0 < x) : 2 ^ (8 * (numBytes x - 1)) ≤ x := by
  apply Nat.lt_size.mp
  have : 0 < Nat.size x := Nat.size_pos.mpr pos
  unfold numBytes
  omega

theorem numBytes_le {x n : Nat} (lt : x < 2 ^ (8 * n)) : numBytes x ≤ n := by
  have := Nat.size_le.mpr lt
  unfold numBytes
  omega

theorem numBytes_zero : numBytes 0 = 0 := by
  simp [numBytes]

/-! ## The mantissa -/

/-- The mantissa before the sign adjustment fits in three bytes. -/
theorem compactMantissa_lt (x : Nat) :
    (if numBytes x ≤ 3 then x <<< (8 * (3 - numBytes x))
      else x >>> (8 * (numBytes x - 3))) < 2 ^ 24 := by
  have below := lt_two_pow_numBytes x
  split
  · rename_i small
    rw [Nat.shiftLeft_eq]
    calc x * 2 ^ (8 * (3 - numBytes x))
        < 2 ^ (8 * numBytes x) * 2 ^ (8 * (3 - numBytes x)) :=
          Nat.mul_lt_mul_of_pos_right below (Nat.two_pow_pos _)
      _ = 2 ^ 24 := by rw [← Nat.pow_add]; congr 1; omega
  · rename_i large
    rw [Nat.shiftRight_eq_div_pow, Nat.div_lt_iff_lt_mul (Nat.two_pow_pos _), ← Nat.pow_add]
    calc x < 2 ^ (8 * numBytes x) := below
      _ = 2 ^ (24 + 8 * (numBytes x - 3)) := by congr 1; omega

theorem compactMagnitude_mantissa_lt (x : Nat) : (compactMagnitude x).2 < 2 ^ 23 := by
  have fits := compactMantissa_lt x
  unfold compactMagnitude
  simp only
  generalize (if numBytes x ≤ 3 then x <<< (8 * (3 - numBytes x))
    else x >>> (8 * (numBytes x - 3))) = nCompact at fits ⊢
  have bit := and_two_pow_eq nCompact 23
  rw [show (0x00800000 : Nat) = 2 ^ 23 from rfl]
  split
  · simp only [Nat.shiftRight_eq_div_pow]
    omega
  · rename_i clear
    simp only
    omega

theorem compactMagnitude_size_le (x : Nat) : (compactMagnitude x).1 ≤ numBytes x + 1 := by
  unfold compactMagnitude
  simp only
  split <;> split <;> simp

/-- A positive value's mantissa, before the sign adjustment, read back at its
size: no more than the value, and positive. -/
theorem compactValue_numBytes {x : Nat} (pos : 0 < x) :
    let nCompact := if numBytes x ≤ 3 then x <<< (8 * (3 - numBytes x))
      else x >>> (8 * (numBytes x - 3))
    compactValue (numBytes x) nCompact ≤ x ∧ 0 < compactValue (numBytes x) nCompact := by
  intro nCompact
  by_cases small : numBytes x ≤ 3
  · have exact : compactValue (numBytes x) nCompact = x := by
      simp only [compactValue, nCompact, if_pos small, Nat.shiftLeft_eq, Nat.shiftRight_eq_div_pow]
      exact Nat.mul_div_cancel x (Nat.two_pow_pos _)
    omega
  · have atLeast := two_pow_numBytes_le pos
    simp only [compactValue, nCompact, if_neg small, Nat.shiftLeft_eq, Nat.shiftRight_eq_div_pow]
    refine ⟨Nat.div_mul_le_self _ _, Nat.mul_pos (Nat.div_pos ?_ (Nat.two_pow_pos _))
      (Nat.two_pow_pos _)⟩
    calc 2 ^ (8 * (numBytes x - 3)) ≤ 2 ^ (8 * (numBytes x - 1)) :=
          Nat.pow_le_pow_right (by decide) (by omega)
      _ ≤ x := atLeast

theorem compactValue_of_three_le {nSize : Nat} (large : 3 ≤ nSize) (nWord : Nat) :
    compactValue nSize nWord = nWord * 2 ^ (8 * (nSize - 3)) := by
  unfold compactValue
  split
  · have three : nSize = 3 := by omega
    subst three
    simp
  · rw [Nat.shiftLeft_eq]

theorem compactValue_succ_shift {nSize : Nat} (small : nSize + 1 ≤ 3) (nWord : Nat) :
    compactValue (nSize + 1) (nWord >>> 8) = compactValue nSize nWord := by
  simp only [compactValue, if_pos small, if_pos (show nSize ≤ 3 by omega),
    Nat.shiftRight_eq_div_pow, Nat.div_div_eq_div_mul, ← Nat.pow_add]
  congr 2
  omega

/-- A positive value's compact form reads back as no more than the value,
and positive. -/
theorem compactValue_compactMagnitude {x : Nat} (pos : 0 < x) :
    compactValue (compactMagnitude x).1 (compactMagnitude x).2 ≤ x ∧
      0 < compactValue (compactMagnitude x).1 (compactMagnitude x).2 := by
  obtain ⟨atMost, positive⟩ := compactValue_numBytes pos
  unfold compactMagnitude
  simp only at atMost positive ⊢
  generalize (if numBytes x ≤ 3 then x <<< (8 * (3 - numBytes x))
    else x >>> (8 * (numBytes x - 3))) = nCompact at atMost positive ⊢
  generalize numBytes x = nSize at atMost positive ⊢
  split
  · rename_i sign
    dsimp only
    -- the sign bit is set: the mantissa is at least 2 ^ 23, and moves down a byte
    have bit := and_two_pow_eq nCompact 23
    have high : 2 ^ 23 ≤ nCompact := by
      rw [show (0x00800000 : Nat) = 2 ^ 23 from rfl] at sign
      rcases Nat.lt_or_ge nCompact (2 ^ 23) with low | high
      · have zero : nCompact / 2 ^ 23 = 0 := Nat.div_eq_of_lt low
        rw [zero] at bit
        exact absurd (by simpa using bit) sign
      · exact high
    by_cases small : nSize + 1 ≤ 3
    · rw [compactValue_succ_shift small]
      exact ⟨atMost, positive⟩
    · rw [compactValue_of_three_le (by omega)] at atMost ⊢
      have split : 2 ^ (8 * (nSize + 1 - 3)) = 2 ^ 8 * 2 ^ (8 * (nSize - 3)) := by
        rw [← Nat.pow_add]
        congr 1
        omega
      rw [split, ← Nat.mul_assoc, Nat.shiftRight_eq_div_pow]
      constructor
      · calc nCompact / 2 ^ 8 * 2 ^ 8 * 2 ^ (8 * (nSize - 3))
            ≤ nCompact * 2 ^ (8 * (nSize - 3)) :=
              Nat.mul_le_mul_right _ (Nat.div_mul_le_self _ _)
          _ ≤ x := atMost
      · have shifted : 0 < nCompact / 2 ^ 8 := Nat.div_pos (by omega) (by decide)
        exact Nat.mul_pos (Nat.mul_pos shifted (Nat.two_pow_pos _)) (Nat.two_pow_pos _)
  · dsimp only
    exact ⟨atMost, positive⟩

/-! ## Reading a compact form back -/

theorem compactWord_toNat {nSize nCompact : Nat} (size : nSize < 256)
    (mantissa : nCompact < 2 ^ 24) :
    (compactWord nSize nCompact).toNat = nSize * 2 ^ 24 + nCompact := by
  unfold compactWord
  rw [UInt32.toNat_or, UInt32.toNat_shiftLeft, UInt32.toNat_ofNat', UInt32.toNat_ofNat']
  have small : nCompact % 2 ^ 32 = nCompact := Nat.mod_eq_of_lt (by omega)
  have sizeSmall : nSize % 2 ^ 32 = nSize := Nat.mod_eq_of_lt (by omega)
  have shifted : nSize <<< (UInt32.toNat 24 % 32) % 2 ^ 32 = nSize <<< 24 := by
    rw [show UInt32.toNat 24 % 32 = 24 from rfl, Nat.shiftLeft_eq]
    exact Nat.mod_eq_of_lt (by omega)
  rw [small, sizeSmall, shifted, Nat.or_comm, ← Nat.shiftLeft_add_eq_or_of_lt mantissa,
    Nat.shiftLeft_eq]

/-- The size, the mantissa and the clear sign bit of a compact word. -/
theorem compactWord_fields {nSize nCompact : Nat} (size : nSize < 256)
    (mantissa : nCompact < 2 ^ 23) :
    (compactWord nSize nCompact).toNat >>> 24 = nSize ∧
      (compactWord nSize nCompact).toNat &&& 0x007fffff = nCompact ∧
      (compactWord nSize nCompact).toNat &&& 0x00800000 = 0 := by
  rw [compactWord_toNat size (by omega)]
  refine ⟨?_, ?_, ?_⟩
  · rw [Nat.shiftRight_eq_div_pow]
    omega
  · rw [show (0x007fffff : Nat) = 2 ^ 23 - 1 from rfl, Nat.and_two_pow_sub_one_eq_mod]
    omega
  · rw [show (0x00800000 : Nat) = 2 ^ 23 from rfl, and_two_pow_eq]
    have even : (nSize * 2 ^ 24 + nCompact) / 2 ^ 23 % 2 = 0 := by omega
    rw [even, Nat.zero_mul]

theorem CBigNum.GetCompact_natCast (x : Nat) :
    CBigNum.GetCompact x = compactWord (compactMagnitude x).1 (compactMagnitude x).2 := by
  have nonneg : ¬ (x : Int) < 0 := by omega
  simp [CBigNum.GetCompact, nonneg]

theorem GetCompact_false (x : Nat) : GetCompact x false = CBigNum.GetCompact x := by
  rw [CBigNum.GetCompact_natCast]
  simp [GetCompact]

/-- A value of fewer than 255 bytes written by `CBigNum::GetCompact` has no
sign bit, and reads back as its compact value. -/
theorem CBigNum.SetCompact_GetCompact {x : Nat} (fits : numBytes x < 255) :
    (CBigNum.GetCompact x).toNat &&& 0x00800000 = 0 ∧
      CBigNum.SetCompact (CBigNum.GetCompact x) =
        compactValue (compactMagnitude x).1 (compactMagnitude x).2 := by
  have size : (compactMagnitude x).1 < 256 := by
    have := compactMagnitude_size_le x
    omega
  obtain ⟨sizeField, mantissaField, signField⟩ :=
    compactWord_fields size (compactMagnitude_mantissa_lt x)
  rw [CBigNum.GetCompact_natCast]
  refine ⟨signField, ?_⟩
  simp only [CBigNum.SetCompact, sizeField, mantissaField, signField]
  simp

/-- A positive value below `2 ^ 256` written by `CBigNum::GetCompact` reads
back through `arith_uint256::SetCompact` as a value that is not negative,
positive, and no more than the value. -/
theorem SetCompact_CBigNum_GetCompact {x : Nat} (pos : 0 < x) (fits : x < 2 ^ 256) :
    (SetCompact (CBigNum.GetCompact x)).2.1 = false ∧ 0 < (SetCompact (CBigNum.GetCompact x)).1 ∧
      (SetCompact (CBigNum.GetCompact x)).1 ≤ x := by
  have bytes : numBytes x ≤ 32 := numBytes_le fits
  have size : (compactMagnitude x).1 < 256 := by
    have := compactMagnitude_size_le x
    omega
  obtain ⟨sizeField, mantissaField, signField⟩ :=
    compactWord_fields size (compactMagnitude_mantissa_lt x)
  obtain ⟨atMost, positive⟩ := compactValue_compactMagnitude pos
  rw [CBigNum.GetCompact_natCast]
  simp only [SetCompact, sizeField, mantissaField, signField, Nat.mod_eq_of_lt (show
    compactValue (compactMagnitude x).1 (compactMagnitude x).2 < 2 ^ 256 by omega)]
  exact ⟨by simp, positive, atMost⟩

end Peercoin.Arith
