import Mathlib

/-!
# Bisection on the integers

`bisect step wide tooHigh lower upper` narrows `[lower, upper]` while it is
at least `step` wide: the midpoint, rounded toward zero, becomes the upper
bound when `tooHigh` holds of it and the lower bound when it does not.  A
step of two or more makes the midpoint fall strictly inside, so the loop
stops.

* the bounds only move inward, stay ordered, and end less than `step` apart;
* each final bound is the one it started as, or a midpoint on its side of
  `tooHigh` (`bisect_upper_cases`, `bisect_lower_cases`);
* a stronger `tooHigh` ends at an upper bound that is no smaller
  (`bisect_upper_mono`): two runs take the same midpoints until they first
  disagree, and from there one stays below that midpoint and the other
  above it.
-/

set_option autoImplicit false

namespace Numeric

/-- The midpoint rounded toward zero is strictly inside an interval at least
two wide. -/
theorem tdiv_two_between {lower upper : Int} (wide : lower + 2 ≤ upper) :
    lower < (lower + upper).tdiv 2 ∧ (lower + upper).tdiv 2 < upper := by
  by_cases nonneg : 0 ≤ lower + upper
  · rw [Int.tdiv_eq_ediv_of_nonneg nonneg]
    omega
  · have flipped : (lower + upper).tdiv 2 = -((-(lower + upper)) / 2) := by
      rw [← Int.tdiv_eq_ediv_of_nonneg (by omega), Int.neg_tdiv, Int.neg_neg]
    rw [flipped]
    omega

def bisect (step : Int) (wide : 2 ≤ step) (tooHigh : Int → Bool) (lower upper : Int) :
    Int × Int :=
  if lower + step ≤ upper then
    let mid := (lower + upper).tdiv 2
    if tooHigh mid then bisect step wide tooHigh lower mid
    else bisect step wide tooHigh mid upper
  else (lower, upper)
termination_by (upper - lower).toNat
decreasing_by
  all_goals
    have between := tdiv_two_between (show lower + 2 ≤ upper by omega)
    omega

section

variable {step : Int} {wide : 2 ≤ step} {tooHigh : Int → Bool}

theorem bisect_running {lower upper : Int} (running : lower + step ≤ upper) :
    bisect step wide tooHigh lower upper =
      if tooHigh ((lower + upper).tdiv 2) then bisect step wide tooHigh lower ((lower + upper).tdiv 2)
      else bisect step wide tooHigh ((lower + upper).tdiv 2) upper :=
  (bisect.eq_1 step wide tooHigh lower upper).trans (if_pos running)

theorem bisect_stopped {lower upper : Int} (stopped : ¬lower + step ≤ upper) :
    bisect step wide tooHigh lower upper = (lower, upper) :=
  (bisect.eq_1 step wide tooHigh lower upper).trans (if_neg stopped)

/-- Induction over a run of `bisect`: what holds where the loop stops passes
back up through each halving, the result unchanged. -/
theorem bisect_run_induction (motive : Int → Int → Int × Int → Prop)
    (high : ∀ lower upper, lower + step ≤ upper → tooHigh ((lower + upper).tdiv 2) = true →
      motive lower ((lower + upper).tdiv 2) (bisect step wide tooHigh lower ((lower + upper).tdiv 2)) →
      motive lower upper (bisect step wide tooHigh lower ((lower + upper).tdiv 2)))
    (low : ∀ lower upper, lower + step ≤ upper → ¬tooHigh ((lower + upper).tdiv 2) = true →
      motive ((lower + upper).tdiv 2) upper (bisect step wide tooHigh ((lower + upper).tdiv 2) upper) →
      motive lower upper (bisect step wide tooHigh ((lower + upper).tdiv 2) upper))
    (stop : ∀ lower upper, ¬lower + step ≤ upper → motive lower upper (lower, upper))
    (lower upper : Int) : motive lower upper (bisect step wide tooHigh lower upper) :=
  bisect.induct_unfolding step wide tooHigh motive high low stop lower upper

theorem bisect_upper_le (lower upper : Int) :
    (bisect step wide tooHigh lower upper).2 ≤ upper := by
  fun_induction bisect step wide tooHigh lower upper with
  | case1 lower upper running mid high ih =>
    have between := tdiv_two_between (show lower + 2 ≤ upper by omega)
    omega
  | case2 lower upper running mid low ih => exact ih
  | case3 lower upper stopped => exact Int.le_refl _

theorem le_bisect_lower (lower upper : Int) :
    lower ≤ (bisect step wide tooHigh lower upper).1 := by
  fun_induction bisect step wide tooHigh lower upper with
  | case1 lower upper running mid high ih => exact ih
  | case2 lower upper running mid low ih =>
    have between := tdiv_two_between (show lower + 2 ≤ upper by omega)
    omega
  | case3 lower upper stopped => exact Int.le_refl _

theorem bisect_ordered {lower upper : Int} (ordered : lower ≤ upper) :
    (bisect step wide tooHigh lower upper).1 ≤ (bisect step wide tooHigh lower upper).2 := by
  fun_induction bisect step wide tooHigh lower upper with
  | case1 lower upper running mid high ih =>
    have between := tdiv_two_between (show lower + 2 ≤ upper by omega)
    exact ih (by omega)
  | case2 lower upper running mid low ih =>
    have between := tdiv_two_between (show lower + 2 ≤ upper by omega)
    exact ih (by omega)
  | case3 lower upper stopped => exact ordered

/-- The loop stops once the bounds are less than `step` apart. -/
theorem bisect_narrow (lower upper : Int) :
    (bisect step wide tooHigh lower upper).2 < (bisect step wide tooHigh lower upper).1 + step :=
  -- each halving hands the final interval up unchanged; only the stop needs the bound
  bisect_run_induction (fun _ _ result => result.2 < result.1 + step)
    (fun _ _ _ _ ih => ih) (fun _ _ _ _ ih => ih) (fun _ _ stopped => by dsimp only; omega) lower upper

theorem bisect_upper_cases (lower upper : Int) :
    (bisect step wide tooHigh lower upper).2 = upper ∨
      tooHigh (bisect step wide tooHigh lower upper).2 = true := by
  fun_induction bisect step wide tooHigh lower upper with
  | case1 lower upper running mid high ih =>
    rcases ih with same | found
    · rw [same]
      exact .inr high
    · exact .inr found
  | case2 lower upper running mid low ih => exact ih
  | case3 lower upper stopped => exact .inl rfl

theorem bisect_lower_cases (lower upper : Int) :
    (bisect step wide tooHigh lower upper).1 = lower ∨
      tooHigh (bisect step wide tooHigh lower upper).1 = false := by
  fun_induction bisect step wide tooHigh lower upper with
  | case1 lower upper running mid high ih => exact ih
  | case2 lower upper running mid low ih =>
    rcases ih with same | found
    · rw [same]
      exact .inr (Bool.eq_false_iff.mpr low)
    · exact .inr found
  | case3 lower upper stopped => exact .inl rfl

/-- A `tooHigh` that holds less often ends the search no lower.  Induction on
the run of the weaker test: where the two tests agree on the midpoint both
runs go on from the same interval, and where only the weaker one holds, its
run stays at or below the midpoint and the other's at or above it. -/
theorem bisect_upper_mono {stronger : Int → Bool}
    (implies : ∀ x, stronger x = true → tooHigh x = true) {lower upper : Int}
    (ordered : lower ≤ upper) :
    (bisect step wide tooHigh lower upper).2 ≤ (bisect step wide stronger lower upper).2 := by
  fun_induction bisect step wide tooHigh lower upper with
  | case1 lower upper running mid high ih =>
    have between := tdiv_two_between (show lower + 2 ≤ upper by omega)
    rw [@bisect_running step wide stronger lower upper running]
    by_cases strongHigh : stronger mid = true
    · rw [if_pos strongHigh]
      exact ih (by omega)
    · -- the runs part at `mid`: the weaker one to `[lower, mid]`, the other to `[mid, upper]`
      rw [if_neg strongHigh]
      calc (bisect step wide tooHigh lower mid).2
          ≤ mid := bisect_upper_le lower mid
        _ ≤ (bisect step wide stronger mid upper).1 := le_bisect_lower mid upper
        _ ≤ (bisect step wide stronger mid upper).2 := bisect_ordered (by omega)
  | case2 lower upper running mid low ih =>
    have between := tdiv_two_between (show lower + 2 ≤ upper by omega)
    have strongLow : ¬stronger mid = true := fun strongHigh => low (implies mid strongHigh)
    rw [@bisect_running step wide stronger lower upper running, if_neg strongLow]
    exact ih (by omega)
  | case3 lower upper stopped =>
    have strongerStopped := @bisect_stopped step wide stronger lower upper stopped
    exact Int.le_of_eq (congrArg Prod.snd strongerStopped).symm

end

end Numeric
