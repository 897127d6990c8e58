import Mathlib

/-!
# Unstable sorting under a comparator

`std::sort(first, last, comp)` promises only that its output is a
permutation of its input in which no element compares less than an element
before it.  Where `comp` is a strict order that is total on the elements at
hand and those elements are distinct, that output is determined by the
elements alone: whatever order they arrive in, and however the sort treats
them, there is one list it can return.
-/

set_option autoImplicit false

namespace Sorting

variable {α : Type} (comp : α → α → Bool)

/-- The output condition of `std::sort` under `comp`. -/
def SortedBy (l : List α) : Prop := l.Pairwise fun a b => comp b a = false

/-- `comp` is irreflexive and transitive on the elements of `s`, and any two
different ones compare one way or the other. -/
structure StrictTotalOn (s : List α) : Prop where
  irrefl : ∀ a ∈ s, comp a a = false
  trans : ∀ a ∈ s, ∀ b ∈ s, ∀ c ∈ s, comp a b = true → comp b c = true → comp a c = true
  total : ∀ a ∈ s, ∀ b ∈ s, a ≠ b → comp a b = true ∨ comp b a = true

variable {comp}

/-- A list of distinct elements sorted in `std::sort`'s sense is strictly
increasing under a comparator that is total on them. -/
theorem SortedBy.pairwise {s l : List α} (order : StrictTotalOn comp s) (within : ∀ a ∈ l, a ∈ s)
    (distinct : l.Nodup) (sorted : SortedBy comp l) : l.Pairwise fun a b => comp a b = true := by
  refine (distinct.and sorted).imp_of_mem ?_
  rintro a b memA memB ⟨differ, notBack⟩
  rcases order.total a (within a memA) b (within b memB) differ with forward | back
  · exact forward
  · rw [notBack] at back
    cases back

/-- Two sorts of permutations of the same distinct elements give the same
list. -/
theorem eq_of_perm_of_sortedBy {s l₁ l₂ : List α} (order : StrictTotalOn comp s)
    (distinct : s.Nodup) (perm₁ : l₁.Perm s) (perm₂ : l₂.Perm s) (sorted₁ : SortedBy comp l₁)
    (sorted₂ : SortedBy comp l₂) : l₁ = l₂ := by
  have increasing₁ := sorted₁.pairwise order (fun a member => perm₁.subset member)
    (perm₁.nodup_iff.mpr distinct)
  have increasing₂ := sorted₂.pairwise order (fun a member => perm₂.subset member)
    (perm₂.nodup_iff.mpr distinct)
  refine List.Perm.eq_of_pairwise ?_ increasing₁ increasing₂ (perm₁.trans perm₂.symm)
  -- both ways round would make an element less than itself
  intro a b memA memB forward back
  have memA' := perm₁.subset memA
  have looped := order.trans a memA' b (perm₂.subset memB) a memA' forward back
  rw [order.irrefl a memA'] at looped
  cases looped

end Sorting
