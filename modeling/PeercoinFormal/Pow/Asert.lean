import PeercoinFormal.Arith.Compact
import PeercoinFormal.Numeric.Fixed
import PeercoinFormal.Chain.Params
import PeercoinFormal.Ledger.Result

/-!
# pow.cpp: the ASERT target

`CalculateASERT` moves a reference target by `2 ^ (x / nHalfLife)`, where
`x` is how far the block's time is ahead of the ideal schedule.  The
exponent is a fixed-point number in 1/65536ths.  Its fraction goes through
a cubic approximation of `2 ^ frac` in `uint64_t`, and its integer part
through a 256-bit shift with overflow detection.  The result is clamped to
`[1, powLimit]`.  `GetNextASERTWorkRequired` feeds it the anchor block's
target and the time and height differences to the anchor.

The `int64_t` arithmetic wraps (`int64`), and the shift counts are
converted to `unsigned int`, as the source computes them.  On inputs whose
arithmetic neither wraps nor truncates a shift count (`AsertInputs`), the
result is `asertValue` of the exponent: the reference target times the
factor, scaled by the integer part, clamped.  That value is monotone in the
exponent, because the factor at the top of a fraction (131071) is at most
twice the factor at its bottom (65536).  Outside those inputs, monotonicity
fails.
-/

set_option autoImplicit false

namespace Peercoin.Pow

open Peercoin.Chain Peercoin.Arith Numeric Ledger

/-- `int64_t` arithmetic: a result wraps as a two's complement word. -/
def int64 (x : Int) : Int := wrapSigned 64 x

def nDAAHalfLife : Int := 24 * 60 * 60

/-- `base_uint<256>::operator<<=`: bits shifted past the top are lost. -/
def shiftLeft256 (value shift : Nat) : Nat :=
  if shift < 256 then (value <<< shift) % 2 ^ 256 else 0

/-- `base_uint<256>::operator>>=`. -/
def shiftRight256 (value shift : Nat) : Nat := if shift < 256 then value >>> shift else 0

/-- The `unsigned int` an `int64_t` shift count converts to. -/
def toUnsigned32 (x : Int) : Nat := (x % 2 ^ 32).toNat

/-- The `uint32_t factor` of `CalculateASERT`: 65536 times a cubic
approximation of `2 ^ (frac / 65536)`, computed in `uint64_t`. -/
def asertFactor (frac : Nat) : Nat :=
  (65536 + (((195766423245049 * frac + 971821376 * frac * frac + 5127 * frac * frac * frac +
    2 ^ 47) % 2 ^ 64) >>> 48)) % 2 ^ 32

/-- The `exponent` of `CalculateASERT`, in 1/65536ths of a doubling. -/
def asertExponent (nPowTargetSpacing nTimeDiff nHeightDiff nHalfLife : Int) : Int :=
  int64 (Int.tdiv (int64 (int64 (nTimeDiff -
    int64 (nPowTargetSpacing * int64 (nHeightDiff + 1))) * 65536)) nHalfLife)

/-- `CalculateASERT`; an `.error` is a failed assertion. -/
def CalculateASERT (refTarget : Nat) (nPowTargetSpacing nTimeDiff nHeightDiff : Int)
    (powLimit : Nat) (nHalfLife : Int) : Except String Nat := do
  rejectIf (!(0 < refTarget && refTarget ≤ powLimit)) "refTarget > 0 && refTarget <= powLimit"
  rejectIf (powLimit >>> 228 != 0) "(powLimit >> 228) == 0"
  rejectIf (nHeightDiff < 0) "nHeightDiff >= 0"
  rejectIf (!((int64 (nTimeDiff - int64 (nPowTargetSpacing * nHeightDiff))).natAbs < 2 ^ 47))
    "llabs(nTimeDiff - nPowTargetSpacing * nHeightDiff) < (1ll << (63 - 16))"
  let exponent := asertExponent nPowTargetSpacing nTimeDiff nHeightDiff nHalfLife
  -- an arithmetic shift, rounding down, and the low 16 bits as `uint16_t`
  let shifts := exponent >>> (16 : Nat)
  let frac := (exponent % 65536).toNat
  rejectIf (exponent != shifts * 65536 + frac) "exponent == (shifts * 65536) + frac"
  let nextTarget := refTarget * asertFactor frac % 2 ^ 256
  let shifts := int64 (shifts - 16)
  let nextTarget :=
    if shifts ≤ 0 then shiftRight256 nextTarget (toUnsigned32 (-shifts))
    else
      let nextTargetShifted := shiftLeft256 nextTarget (toUnsigned32 shifts)
      -- a shift that loses high bits goes to the limit
      if shiftRight256 nextTargetShifted (toUnsigned32 shifts) != nextTarget then powLimit
      else nextTargetShifted
  -- `if (nextTarget == 0) nextTarget = 1; else if (nextTarget > powLimit) nextTarget = powLimit;`
  pure (clampTo 1 powLimit nextTarget)

/-! ## The factor -/

/-- The cubic of `asertFactor` before it is shifted down. -/
def asertCubic (frac : Nat) : Nat :=
  195766423245049 * frac + 971821376 * frac * frac + 5127 * frac * frac * frac + 2 ^ 47

theorem asertCubic_mono {frac frac' : Nat} (le : frac ≤ frac') : asertCubic frac ≤ asertCubic frac' := by
  unfold asertCubic
  have linear := Nat.mul_le_mul_left 195766423245049 le
  have square := Nat.mul_le_mul (Nat.mul_le_mul_left 971821376 le) le
  have cube := Nat.mul_le_mul (Nat.mul_le_mul (Nat.mul_le_mul_left 5127 le) le) le
  omega

/-- Below 65536 the cubic fits `uint64_t` and the factor `uint32_t`. -/
theorem asertFactor_eq {frac : Nat} (lt : frac < 65536) :
    asertFactor frac = 65536 + asertCubic frac / 2 ^ 48 := by
  have top : asertCubic frac ≤ asertCubic 65535 := asertCubic_mono (by omega)
  have fits : asertCubic 65535 < 2 ^ 64 := by decide
  have shifted : asertCubic frac / 2 ^ 48 < 2 ^ 16 := by
    rw [Nat.div_lt_iff_lt_mul (Nat.two_pow_pos _)]
    omega
  unfold asertFactor
  rw [← asertCubic, Nat.mod_eq_of_lt (by omega), Nat.shiftRight_eq_div_pow,
    Nat.mod_eq_of_lt (by omega)]

theorem asertFactor_mono {frac frac' : Nat} (le : frac ≤ frac') (lt : frac' < 65536) :
    asertFactor frac ≤ asertFactor frac' := by
  rw [asertFactor_eq (by omega), asertFactor_eq lt]
  exact Nat.add_le_add_left (Nat.div_le_div_right (asertCubic_mono le)) _

theorem asertFactor_bounds {frac : Nat} (lt : frac < 65536) :
    65536 ≤ asertFactor frac ∧ asertFactor frac ≤ 131072 := by
  have bottom : asertFactor 0 = 65536 := by decide
  have top : asertFactor 65535 = 131071 := by decide
  have lower := asertFactor_mono (Nat.zero_le frac) lt
  have upper := asertFactor_mono (show frac ≤ 65535 by omega) (by decide)
  omega

/-! ## The value on inputs that do not wrap -/

/-- What `CalculateASERT` computes from its exponent when no arithmetic
wraps: the reference target times the factor of the fraction, scaled by
`2 ^ (integer part - 16)` and clamped. -/
def asertValue (refTarget powLimit : Nat) (exponent : Int) : Nat :=
  clampTo 1 powLimit
    (scaleByPow2 (refTarget * asertFactor (exponent % 65536).toNat) (exponent / 65536 - 16))

theorem emod_toNat_lt (exponent : Int) : (exponent % 65536).toNat < 65536 := by
  omega

/-- The scaled product grows with the exponent: within one integer part by
the factor, and across one since the factor at the top of a fraction is at
most twice the factor at its bottom. -/
theorem scaled_mono (refTarget : Nat) {exponent exponent' : Int} (le : exponent ≤ exponent') :
    scaleByPow2 (refTarget * asertFactor (exponent % 65536).toNat) (exponent / 65536 - 16) ≤
      scaleByPow2 (refTarget * asertFactor (exponent' % 65536).toNat) (exponent' / 65536 - 16) := by
  have quotients : exponent / 65536 ≤ exponent' / 65536 := Int.ediv_le_ediv (by decide) le
  have low := asertFactor_bounds (emod_toNat_lt exponent)
  have low' := asertFactor_bounds (emod_toNat_lt exponent')
  rcases Int.lt_or_eq_of_le quotients with below | same
  · calc scaleByPow2 (refTarget * asertFactor (exponent % 65536).toNat) (exponent / 65536 - 16)
        ≤ scaleByPow2 (refTarget * 65536 * 2) (exponent / 65536 - 16) :=
          scaleByPow2_mono_left (by rw [Nat.mul_assoc]; exact Nat.mul_le_mul_left _ low.2) _
      _ = scaleByPow2 (refTarget * 65536) (exponent / 65536 - 16 + 1) := scaleByPow2_double _ _
      _ ≤ scaleByPow2 (refTarget * 65536) (exponent' / 65536 - 16) :=
          scaleByPow2_mono_right _ (by omega)
      _ ≤ scaleByPow2 (refTarget * asertFactor (exponent' % 65536).toNat) (exponent' / 65536 - 16) :=
          scaleByPow2_mono_left (Nat.mul_le_mul_left _ low'.1) _
  · -- the same integer part: the fractions are in order
    have fractions : (exponent % 65536).toNat ≤ (exponent' % 65536).toNat := by
      omega
    rw [same]
    exact scaleByPow2_mono_left
      (Nat.mul_le_mul_left _ (asertFactor_mono fractions (emod_toNat_lt exponent'))) _

theorem asertValue_mono {refTarget powLimit : Nat} (positive : 1 ≤ powLimit)
    {exponent exponent' : Int} (le : exponent ≤ exponent') :
    asertValue refTarget powLimit exponent ≤ asertValue refTarget powLimit exponent' :=
  clampTo_mono positive (scaled_mono refTarget le)

/-- Inputs on which the `int64_t` arithmetic of `CalculateASERT` does not
wrap and its shift counts fit an `unsigned int`: a spacing and a height
difference below `2 ^ 31`, a half life of at least `2 ^ 16`, and the time
within `2 ^ 47` of the schedule both at the height difference (the source's
assertion) and one block later (the exponent's). -/
structure AsertInputs (nPowTargetSpacing nHalfLife nTimeDiff nHeightDiff : Int) : Prop where
  spacing_nonneg : 0 ≤ nPowTargetSpacing
  spacing_lt : nPowTargetSpacing < 2 ^ 31
  halfLife_ge : 2 ^ 16 ≤ nHalfLife
  halfLife_lt : nHalfLife < 2 ^ 63
  heightDiff_nonneg : 0 ≤ nHeightDiff
  heightDiff_lt : nHeightDiff < 2 ^ 31
  schedule : (nTimeDiff - nPowTargetSpacing * nHeightDiff).natAbs < 2 ^ 47
  scheduleNext : (nTimeDiff - nPowTargetSpacing * (nHeightDiff + 1)).natAbs < 2 ^ 47

theorem int64_of_range {x : Int} (low : -2 ^ 63 ≤ x) (high : x < 2 ^ 63) : int64 x = x :=
  wrapSigned_of_range (by decide) low high

section Inputs

variable {nPowTargetSpacing nHalfLife nTimeDiff nHeightDiff : Int}
  (inputs : AsertInputs nPowTargetSpacing nHalfLife nTimeDiff nHeightDiff)
include inputs

theorem AsertInputs.product_bounds :
    0 ≤ nPowTargetSpacing * (nHeightDiff + 1) ∧ nPowTargetSpacing * (nHeightDiff + 1) ≤ 2 ^ 62 := by
  have spacing := inputs.spacing_nonneg
  have height := inputs.heightDiff_nonneg
  refine ⟨Int.mul_nonneg spacing (by omega), ?_⟩
  calc nPowTargetSpacing * (nHeightDiff + 1) ≤ 2 ^ 31 * 2 ^ 31 :=
        Int.mul_le_mul (by have := inputs.spacing_lt; omega)
          (by have := inputs.heightDiff_lt; omega) (by omega) (by decide)
    _ = 2 ^ 62 := by decide

/-- No step of the exponent wraps. -/
theorem AsertInputs.exponent_eq :
    asertExponent nPowTargetSpacing nTimeDiff nHeightDiff nHalfLife =
      Int.tdiv ((nTimeDiff - nPowTargetSpacing * (nHeightDiff + 1)) * 65536) nHalfLife := by
  obtain ⟨productLow, productHigh⟩ := inputs.product_bounds
  have heightLow := inputs.heightDiff_nonneg
  have heightHigh := inputs.heightDiff_lt
  have next := inputs.scheduleNext
  have quotient := Int.natAbs_tdiv_le_natAbs
    ((nTimeDiff - nPowTargetSpacing * (nHeightDiff + 1)) * 65536) nHalfLife
  have heightStep : int64 (nHeightDiff + 1) = nHeightDiff + 1 :=
    int64_of_range (by omega) (by omega)
  have productStep : int64 (nPowTargetSpacing * (nHeightDiff + 1)) =
      nPowTargetSpacing * (nHeightDiff + 1) := int64_of_range (by omega) (by omega)
  have differenceStep : int64 (nTimeDiff - nPowTargetSpacing * (nHeightDiff + 1)) =
      nTimeDiff - nPowTargetSpacing * (nHeightDiff + 1) := int64_of_range (by omega) (by omega)
  have scaledStep : int64 ((nTimeDiff - nPowTargetSpacing * (nHeightDiff + 1)) * 65536) =
      (nTimeDiff - nPowTargetSpacing * (nHeightDiff + 1)) * 65536 :=
    int64_of_range (by omega) (by omega)
  have divisionStep :
      int64 (Int.tdiv ((nTimeDiff - nPowTargetSpacing * (nHeightDiff + 1)) * 65536) nHalfLife) =
        Int.tdiv ((nTimeDiff - nPowTargetSpacing * (nHeightDiff + 1)) * 65536) nHalfLife :=
    int64_of_range (by omega) (by omega)
  unfold asertExponent
  rw [heightStep, productStep, differenceStep, scaledStep, divisionStep]

/-- The exponent stays below `2 ^ 47` in size, so its integer part fits an
`unsigned int` with room to spare. -/
theorem AsertInputs.exponent_natAbs_lt :
    (Int.tdiv ((nTimeDiff - nPowTargetSpacing * (nHeightDiff + 1)) * 65536) nHalfLife).natAbs <
      2 ^ 47 := by
  have next := inputs.scheduleNext
  have halfLife := inputs.halfLife_ge
  have bound : ((nTimeDiff - nPowTargetSpacing * (nHeightDiff + 1)) * 65536).natAbs <
      nHalfLife.natAbs * 2 ^ 47 := by
    calc ((nTimeDiff - nPowTargetSpacing * (nHeightDiff + 1)) * 65536).natAbs
        < 2 ^ 16 * 2 ^ 47 := by
          rw [Int.natAbs_mul, show (65536 : Int).natAbs = 2 ^ 16 from rfl]
          omega
      _ ≤ nHalfLife.natAbs * 2 ^ 47 := Nat.mul_le_mul_right _ (by omega)
  rw [Int.natAbs_tdiv]
  exact Nat.div_lt_of_lt_mul bound

end Inputs

theorem toUnsigned32_of_range {x : Int} (low : 0 ≤ x) (high : x < 2 ^ 32) :
    toUnsigned32 x = x.toNat := by
  unfold toUnsigned32
  rw [Int.emod_eq_of_lt low high]

theorem shiftRight256_of_lt {value : Nat} (fits : value < 2 ^ 256) (shift : Nat) :
    shiftRight256 value shift = value >>> shift := by
  unfold shiftRight256
  split
  · rfl
  · rename_i large
    rw [Nat.shiftRight_eq_div_pow, Nat.div_eq_of_lt]
    calc value < 2 ^ 256 := fits
      _ ≤ 2 ^ shift := Nat.pow_le_pow_right (by decide) (by omega)

/-- The checked left shift: a shift that loses high bits goes to the limit,
which is where clamping the unbounded product would put it too. -/
theorem clampTo_checked_shift {value shift powLimit : Nat} (positive : 0 < value)
    (limit : 1 ≤ powLimit ∧ powLimit < 2 ^ 256) :
    clampTo 1 powLimit (if shiftRight256 (shiftLeft256 value shift) shift != value then powLimit
      else shiftLeft256 value shift) = clampTo 1 powLimit (value <<< shift) := by
  have shifted : value <<< shift = value * 2 ^ shift := Nat.shiftLeft_eq _ _
  by_cases fits : value <<< shift < 2 ^ 256
  · have small : shift < 256 := by
      have : 2 ^ shift < 2 ^ 256 := by
        calc 2 ^ shift ≤ value * 2 ^ shift := Nat.le_mul_of_pos_left _ positive
          _ < 2 ^ 256 := by omega
      exact (Nat.pow_lt_pow_iff_right (by decide)).mp this
    have kept : shiftLeft256 value shift = value <<< shift := by
      rw [shiftLeft256, if_pos small, Nat.mod_eq_of_lt fits]
    have back : shiftRight256 (value <<< shift) shift = value := by
      rw [shiftRight256, if_pos small, Nat.shiftLeft_shiftRight]
    rw [kept, back]
    simp
  · have lost : shiftRight256 (shiftLeft256 value shift) shift ≠ value := by
      unfold shiftLeft256
      split
      · rename_i small
        rw [shiftRight256, if_pos small, Nat.shiftRight_eq_div_pow]
        have below : (value <<< shift) % 2 ^ 256 < value * 2 ^ shift := by
          have := Nat.mod_lt (value <<< shift) (Nat.two_pow_pos 256)
          omega
        have := (Nat.div_lt_iff_lt_mul (Nat.two_pow_pos shift)).mpr below
        omega
      · unfold shiftRight256
        split <;> simp [Nat.zero_shiftRight] <;> omega
    have atLimit : ∀ v, powLimit ≤ v → clampTo 1 powLimit v = powLimit := by
      intro v above
      unfold clampTo
      rw [if_neg (by omega)]
      split <;> omega
    rw [if_pos (by simpa using lost), atLimit _ (Nat.le_refl _), atLimit _ (by omega)]

/-- Both shifts of `CalculateASERT`, by a count that fits an `unsigned int`,
clamped: the clamped `scaleByPow2`. -/
theorem clampTo_asert_shift {value powLimit : Nat} {shifts : Int} (positive : 0 < value)
    (fits : value < 2 ^ 256) (limit : 1 ≤ powLimit ∧ powLimit < 2 ^ 256)
    (count : shifts.natAbs < 2 ^ 32) :
    clampTo 1 powLimit (if shifts ≤ 0 then shiftRight256 value (toUnsigned32 (-shifts))
      else if shiftRight256 (shiftLeft256 value (toUnsigned32 shifts)) (toUnsigned32 shifts) != value
        then powLimit else shiftLeft256 value (toUnsigned32 shifts)) =
      clampTo 1 powLimit (scaleByPow2 value shifts) := by
  unfold scaleByPow2
  split
  · rw [toUnsigned32_of_range (by omega) (by omega), shiftRight256_of_lt fits]
  · rw [toUnsigned32_of_range (by omega) (by omega)]
    exact clampTo_checked_shift positive limit

/-- On inputs that do not wrap, `CalculateASERT` passes its assertions and
answers `asertValue` of the exponent. -/
theorem CalculateASERT_eq {refTarget powLimit : Nat}
    {nPowTargetSpacing nHalfLife nTimeDiff nHeightDiff : Int}
    (ref : 0 < refTarget ∧ refTarget ≤ powLimit) (limit : powLimit < 2 ^ 228)
    (inputs : AsertInputs nPowTargetSpacing nHalfLife nTimeDiff nHeightDiff) :
    CalculateASERT refTarget nPowTargetSpacing nTimeDiff nHeightDiff powLimit nHalfLife =
      .ok (asertValue refTarget powLimit
        (Int.tdiv ((nTimeDiff - nPowTargetSpacing * (nHeightDiff + 1)) * 65536) nHalfLife)) := by
  obtain ⟨productLow, productHigh⟩ := inputs.product_bounds
  have spacing := inputs.spacing_nonneg
  have heightLow := inputs.heightDiff_nonneg
  have schedule := inputs.schedule
  have productAt : 0 ≤ nPowTargetSpacing * nHeightDiff ∧
      nPowTargetSpacing * nHeightDiff ≤ nPowTargetSpacing * (nHeightDiff + 1) :=
    ⟨Int.mul_nonneg spacing heightLow, Int.mul_le_mul_of_nonneg_left (by omega) spacing⟩
  have productStep : int64 (nPowTargetSpacing * nHeightDiff) = nPowTargetSpacing * nHeightDiff :=
    int64_of_range (by omega) (by omega)
  have scheduleStep : int64 (nTimeDiff - int64 (nPowTargetSpacing * nHeightDiff)) =
      nTimeDiff - nPowTargetSpacing * nHeightDiff := by
    rw [productStep, int64_of_range (by omega) (by omega)]
  have limitShift : powLimit >>> 228 = 0 := by
    rw [Nat.shiftRight_eq_div_pow]
    exact Nat.div_eq_of_lt limit
  have bound := inputs.exponent_natAbs_lt
  unfold CalculateASERT
  simp only [inputs.exponent_eq, scheduleStep, limitShift, ref.1, ref.2, schedule,
    decide_true, Bool.and_self, Bool.not_true, bne_self_eq_false, rejectIf_false, ok_bind,
    show decide (nHeightDiff < 0) = false by simpa using heightLow]
  generalize Int.tdiv ((nTimeDiff - nPowTargetSpacing * (nHeightDiff + 1)) * 65536) nHalfLife =
    exponent at bound ⊢
  -- the integer part and the fraction put back together give the exponent
  have whole : exponent >>> (16 : Nat) * 65536 + ((exponent % 65536).toNat : Int) = exponent := by
    rw [Int.shiftRight_eq_div_pow]
    omega
  have factor := asertFactor_bounds (emod_toNat_lt exponent)
  have product : refTarget * asertFactor (exponent % 65536).toNat < 2 ^ 256 := by
    have := Nat.mul_le_mul_left refTarget factor.2
    omega
  have shifts : int64 (exponent >>> (16 : Nat) - 16) = exponent / 65536 - 16 := by
    rw [Int.shiftRight_eq_div_pow, int64_of_range (by omega) (by omega)]
    omega
  rw [whole, bne_self_eq_false, rejectIf_false, ok_bind, Nat.mod_eq_of_lt product, shifts,
    clampTo_asert_shift (Nat.mul_pos ref.1 (by omega)) product ⟨by omega, by omega⟩ (by omega)]
  rfl

/-- On inputs that do not wrap, the target lies in `[1, powLimit]`, grows
with the time difference and shrinks with the height difference. -/
theorem CalculateASERT_in_range_monotone {refTarget powLimit : Nat}
    {nPowTargetSpacing nHalfLife nTimeDiff nHeightDiff nTimeDiff' nHeightDiff' : Int}
    (ref : 0 < refTarget ∧ refTarget ≤ powLimit) (limit : powLimit < 2 ^ 228)
    (inputs : AsertInputs nPowTargetSpacing nHalfLife nTimeDiff nHeightDiff)
    (inputs' : AsertInputs nPowTargetSpacing nHalfLife nTimeDiff' nHeightDiff')
    (later : nTimeDiff ≤ nTimeDiff') (lower : nHeightDiff' ≤ nHeightDiff) :
    ∃ next next',
      CalculateASERT refTarget nPowTargetSpacing nTimeDiff nHeightDiff powLimit nHalfLife = .ok next ∧
      CalculateASERT refTarget nPowTargetSpacing nTimeDiff' nHeightDiff' powLimit nHalfLife =
        .ok next' ∧
      1 ≤ next ∧ next ≤ next' ∧ next' ≤ powLimit := by
  have positive : 1 ≤ powLimit := by omega
  -- the time ahead of the schedule one block later, which the exponent divides
  have ahead : nTimeDiff - nPowTargetSpacing * (nHeightDiff + 1) ≤
      nTimeDiff' - nPowTargetSpacing * (nHeightDiff' + 1) := by
    have := Int.mul_le_mul_of_nonneg_left (show nHeightDiff' + 1 ≤ nHeightDiff + 1 by omega)
      inputs.spacing_nonneg
    omega
  have halfLife : 0 < nHalfLife := by
    have := inputs.halfLife_ge
    omega
  have exponents := Int.tdiv_le_tdiv halfLife
    (Int.mul_le_mul_of_nonneg_right ahead (by decide : (0 : Int) ≤ 65536))
  refine ⟨_, _, CalculateASERT_eq ref limit inputs, CalculateASERT_eq ref limit inputs', ?_, ?_, ?_⟩
  · exact (clampTo_bounds positive _).1
  · exact asertValue_mono positive exponents
  · exact (clampTo_bounds positive _).2

theorem CalculateASERT_in_range_monotone_daily :
    ∃ next next',
      CalculateASERT (2 ^ 200) 3600 3600 1 mainParams.powLimit nDAAHalfLife = .ok next ∧
      CalculateASERT (2 ^ 200) 3600 7200 0 mainParams.powLimit nDAAHalfLife = .ok next' ∧
      1 ≤ next ∧ next ≤ next' ∧ next' ≤ mainParams.powLimit :=
  CalculateASERT_in_range_monotone ⟨by decide, by decide⟩ (by decide)
    ⟨by decide, by decide, by decide, by decide, by decide, by decide, by decide, by decide⟩
    ⟨by decide, by decide, by decide, by decide, by decide, by decide, by decide, by decide⟩
    (by decide) (by decide)

/-- Within the source's assertion, a later time can give a smaller target.
At Peercoin's half life and spacing, `x * 65536` wraps `int64_t` for a time
`2 ^ 47 - 1` behind the schedule; at a half life of one second, the right
shift count `2 ^ 32` converts to an `unsigned int` of zero. -/
theorem CalculateASERT_not_monotone :
    CalculateASERT (2 ^ 200) 3600 (-(2 ^ 47 - 1)) 0 mainParams.powLimit nDAAHalfLife =
        .ok mainParams.powLimit ∧
      CalculateASERT (2 ^ 200) 3600 (-(2 ^ 47 - 1) + 3600) 0 mainParams.powLimit nDAAHalfLife =
        .ok 1 ∧
      CalculateASERT (2 ^ 200) 3600 (3600 + 16 - 2 ^ 32) 0 mainParams.powLimit 1 = .ok (2 ^ 216) ∧
      CalculateASERT (2 ^ 200) 3600 (3600 + 17 - 2 ^ 32) 0 mainParams.powLimit 1 = .ok 1 := by
  refine ⟨?_, ?_, ?_, ?_⟩ <;> decide

end Peercoin.Pow
