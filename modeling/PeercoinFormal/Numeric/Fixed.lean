import Mathlib

/-!
# Signed machine words, scaling by powers of two, clamping

Three pieces of fixed-point arithmetic as C++ code computes it:

* `wrapSigned w x`: the two's complement wrap of an integer result to a
  `w`-bit signed word, which is the integer itself when it is in range;
* `scaleByPow2 n s`: a natural number times `2 ^ s` for an integer `s`,
  rounded down, as a left shift for `s > 0` and a right shift otherwise;
  it is monotone in both arguments, and doubling `n` is one more step of `s`;
* `clampTo low high v`: `v` moved into `[low, high]`, monotone in `v`.
-/

set_option autoImplicit false

namespace Numeric

/-- Two's complement wrap of `x` to a `w`-bit signed word. -/
def wrapSigned (w : Nat) (x : Int) : Int := (x + 2 ^ (w - 1)) % 2 ^ w - 2 ^ (w - 1)

theorem wrapSigned_of_range {w : Nat} {x : Int} (pos : 0 < w) (low : -2 ^ (w - 1) ≤ x)
    (high : x < 2 ^ (w - 1)) : wrapSigned w x = x := by
  obtain ⟨k, rfl⟩ : ∃ k, w = k + 1 := ⟨w - 1, by omega⟩
  have double : (2 : Int) ^ (k + 1) = 2 ^ k * 2 := Int.pow_succ 2 k
  simp only [Nat.add_sub_cancel] at low high ⊢
  unfold wrapSigned
  simp only [Nat.add_sub_cancel]
  rw [Int.emod_eq_of_lt (by omega) (by omega)]
  omega

/-- `n * 2 ^ s`, rounded down: a left shift by `s` when `s > 0`, a right
shift by `-s` otherwise. -/
def scaleByPow2 (n : Nat) (s : Int) : Nat :=
  if s ≤ 0 then n >>> (-s).toNat else n <<< s.toNat

theorem scaleByPow2_mono_left {n n' : Nat} (le : n ≤ n') (s : Int) :
    scaleByPow2 n s ≤ scaleByPow2 n' s := by
  unfold scaleByPow2
  split
  · simp only [Nat.shiftRight_eq_div_pow]
    exact Nat.div_le_div_right le
  · simp only [Nat.shiftLeft_eq]
    exact Nat.mul_le_mul_right _ le

theorem scaleByPow2_mono_right (n : Nat) {s s' : Int} (le : s ≤ s') :
    scaleByPow2 n s ≤ scaleByPow2 n s' := by
  unfold scaleByPow2
  simp only [Nat.shiftRight_eq_div_pow, Nat.shiftLeft_eq]
  by_cases right : s' ≤ 0
  · rw [if_pos right, if_pos (by omega)]
    exact Nat.div_le_div_left (Nat.pow_le_pow_right (by decide) (by omega)) (Nat.two_pow_pos _)
  · rw [if_neg right]
    by_cases left : s ≤ 0
    · rw [if_pos left]
      calc n / 2 ^ (-s).toNat ≤ n := Nat.div_le_self _ _
        _ ≤ n * 2 ^ s'.toNat := Nat.le_mul_of_pos_right _ (Nat.two_pow_pos _)
    · rw [if_neg left]
      exact Nat.mul_le_mul_left _ (Nat.pow_le_pow_right (by decide) (by omega))

/-- Doubling the number is one more step of the exponent. -/
theorem scaleByPow2_double (n : Nat) (s : Int) : scaleByPow2 (n * 2) s = scaleByPow2 n (s + 1) := by
  unfold scaleByPow2
  simp only [Nat.shiftRight_eq_div_pow, Nat.shiftLeft_eq]
  by_cases below : s + 1 ≤ 0
  · rw [if_pos below, if_pos (by omega)]
    have steps : (-s).toNat = (-(s + 1)).toNat + 1 := by omega
    rw [steps, Nat.pow_succ, Nat.mul_div_mul_right _ _ (by decide)]
  · rw [if_neg below]
    by_cases zero : s ≤ 0
    · have sZero : s = 0 := by omega
      subst sZero
      simp
    · rw [if_neg zero]
      have steps : (s + 1).toNat = s.toNat + 1 := by omega
      rw [steps, Nat.pow_succ, Nat.mul_comm (2 ^ s.toNat) 2, Nat.mul_assoc]

/-- `v` moved into `[low, high]`, the lower bound tested first. -/
def clampTo (low high v : Nat) : Nat := if v < low then low else if v > high then high else v

theorem clampTo_mono {low high v v' : Nat} (ordered : low ≤ high) (le : v ≤ v') :
    clampTo low high v ≤ clampTo low high v' := by
  unfold clampTo
  split <;> split <;> (try split) <;> (try split) <;> omega

theorem clampTo_bounds {low high : Nat} (ordered : low ≤ high) (v : Nat) :
    low ≤ clampTo low high v ∧ clampTo low high v ≤ high := by
  unfold clampTo
  split <;> (try split) <;> omega

end Numeric
