import Mathlib

/-!
# Scanning an ordered list for its least element before a cut-off

A scan through a list keeps the element of least score seen so far, passes
over the elements a test marks as skipped, and stops at the first element
past a cut-off once it holds a choice; the first element it does not skip
it takes wherever that element stands.  When being past the cut-off carries
over to every later element, as for times in a list sorted by time, the scan
takes the least element, the earliest among equals, of the first element it
does not skip and the later ones it does not skip before the cut-off.
-/

set_option autoImplicit false

namespace Sorting

variable {α : Type} (score : α → Nat)

/-- Keeps `best` unless `x` has a strictly smaller score. -/
def keepLeast (best x : α) : α := if score x < score best then x else best

/-- The element of least score in `first :: rest`, the earliest among equals. -/
def leastOf (first : α) (rest : List α) : α := rest.foldl (keepLeast score) first

variable (skip late : α → Bool)

/-- The scan, holding the choice so far. -/
def scanLeast : Option α → List α → Option α
  | best, [] => best
  | best, x :: xs =>
    if best.isSome && late x then best
    else if skip x then scanLeast best xs
    else scanLeast (some ((best.map fun b => keepLeast score b x).getD x)) xs

variable {score}

@[simp] theorem leastOf_nil (first : α) : leastOf score first [] = first := rfl

theorem leastOf_cons (first x : α) (rest : List α) :
    leastOf score first (x :: rest) = leastOf score (keepLeast score first x) rest := rfl

theorem leastOf_mem (first : α) (rest : List α) : leastOf score first rest ∈ first :: rest := by
  induction rest generalizing first with
  | nil => exact List.mem_cons_self
  | cons x rest ih =>
      rw [leastOf_cons]
      have kept : keepLeast score first x = x ∨ keepLeast score first x = first := by
        unfold keepLeast
        split
        · exact .inl rfl
        · exact .inr rfl
      rcases List.mem_cons.mp (ih (keepLeast score first x)) with here | later
      · rw [here]
        rcases kept with chosen | chosen <;> rw [chosen] <;> simp
      · exact List.mem_cons_of_mem _ (List.mem_cons_of_mem _ later)

variable {skip late}

/-- Once the scan holds a choice it ends with the least of that choice and
the elements it does not skip before the cut-off. -/
theorem scanLeast_some (best : α) (l : List α)
    (inherited : l.Pairwise fun x y => late x = true → late y = true) :
    scanLeast score skip late (some best) l =
      some (leastOf score best ((l.filter (!skip ·)).filter (!late ·))) := by
  induction l generalizing best with
  | nil => rfl
  | cons x xs ih =>
      have later := (List.pairwise_cons.mp inherited).1
      have rest := (List.pairwise_cons.mp inherited).2
      by_cases past : late x = true
      · -- every later element is past the cut-off as well
        have none : ((x :: xs).filter (!skip ·)).filter (!late ·) = [] := by
          rw [List.filter_eq_nil_iff]
          intro y member
          rcases List.mem_cons.mp (List.mem_filter.mp member).1 with rfl | inTail
          · simp [past]
          · simp [later y inTail past]
        rw [none, scanLeast, if_pos (by simp [past]), leastOf_nil]
      · have notPast : late x = false := by simpa using past
        rw [scanLeast, if_neg (by simp [notPast])]
        by_cases skipped : skip x = true
        · rw [if_pos skipped, ih best rest, List.filter_cons_of_neg (by simp [skipped])]
        · have kept : skip x = false := by simpa using skipped
          rw [if_neg (by simp [kept]), ih _ rest, List.filter_cons_of_pos (by simp [kept]),
            List.filter_cons_of_pos (by simp [notPast])]
          rfl

/-- A scan that starts with no choice takes the least of the first element
it does not skip and the later ones it does not skip before the cut-off. -/
theorem scanLeast_none (l : List α)
    (inherited : l.Pairwise fun x y => late x = true → late y = true) :
    scanLeast score skip late none l =
      match l.filter (!skip ·) with
      | [] => none
      | first :: rest => some (leastOf score first (rest.filter (!late ·))) := by
  induction l with
  | nil => rfl
  | cons x xs ih =>
      have rest := (List.pairwise_cons.mp inherited).2
      rw [scanLeast, if_neg (by simp)]
      by_cases skipped : skip x = true
      · rw [if_pos skipped, ih rest, List.filter_cons_of_neg (by simp [skipped])]
      · have kept : skip x = false := by simpa using skipped
        rw [if_neg (by simp [kept]), List.filter_cons_of_pos (by simp [kept])]
        exact scanLeast_some x xs rest

end Sorting
