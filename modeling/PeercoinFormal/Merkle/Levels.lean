import Mathlib

/-!
# One level of a Merkle tree that pairs its last node with itself

A level of `n` nodes gives the next one by hashing them two by two; when `n`
is odd the last node is paired with itself.  `HasEqualPair` tests for a
complete pair of two equal nodes.  Two levels with the same pairing are equal,
or one of them has an equal pair: this, with the fact that a map that is not
injective has a collision, is what ties equal roots back to equal leaves.
-/

set_option autoImplicit false

namespace MerkleLevels

variable {α β : Type}

/-- The pairs of a level, the last node paired with itself when the count is
odd. -/
def pairs : List α → List (α × α)
  | a :: b :: rest => (a, b) :: pairs rest
  | [a] => [(a, a)]
  | [] => []

/-- Some complete pair `(xs[2k], xs[2k+1])` holds two equal nodes. -/
def HasEqualPair [DecidableEq α] : List α → Bool
  | a :: b :: rest => decide (a = b) || HasEqualPair rest
  | _ => false

/-- Two different inputs with one image. -/
def Collision (f : α → β) : Prop := ∃ x y, x ≠ y ∧ f x = f y

theorem length_pairs : ∀ xs : List α, (pairs xs).length = (xs.length + 1) / 2
  | _ :: _ :: rest => by
      simp only [pairs, List.length_cons, length_pairs rest]
      omega
  | [_] => by simp [pairs]
  | [] => by simp [pairs]

@[simp] theorem pairs_eq_nil {xs : List α} : pairs xs = [] ↔ xs = [] := by
  match xs with
  | _ :: _ :: _ => simp [pairs]
  | [_] => simp [pairs]
  | [] => simp [pairs]

@[simp] theorem HasEqualPair_pair [DecidableEq α] (a : α) : HasEqualPair [a, a] = true := by
  simp [HasEqualPair]

/-- Equal pairings come from equal levels, or from a level of even count
whose last pair is the other's odd node doubled. -/
theorem eq_or_HasEqualPair_of_pairs_eq [DecidableEq α] :
    ∀ {xs ys : List α}, pairs xs = pairs ys →
      xs = ys ∨ HasEqualPair xs = true ∨ HasEqualPair ys = true
  | a :: b :: xs, c :: d :: ys, same => by
      simp only [pairs, List.cons.injEq, Prod.mk.injEq] at same
      obtain ⟨⟨rfl, rfl⟩, rest⟩ := same
      rcases eq_or_HasEqualPair_of_pairs_eq rest with rfl | flagged | flagged
      · exact .inl rfl
      · exact .inr (.inl (by simp [HasEqualPair, flagged]))
      · exact .inr (.inr (by simp [HasEqualPair, flagged]))
  | [a], [c], same => by
      simp only [pairs, List.cons.injEq, Prod.mk.injEq, and_true] at same
      exact .inl (by rw [same.1])
  | [a], c :: d :: ys, same => by
      -- the odd node doubled is the even level's last pair
      simp only [pairs, List.cons.injEq, Prod.mk.injEq] at same
      obtain ⟨⟨rfl, rfl⟩, rest⟩ := same
      rw [eq_comm, pairs_eq_nil] at rest
      subst rest
      exact .inr (.inr (HasEqualPair_pair a))
  | a :: b :: xs, [c], same => by
      simp only [pairs, List.cons.injEq, Prod.mk.injEq] at same
      obtain ⟨⟨rfl, rfl⟩, rest⟩ := same
      rw [pairs_eq_nil] at rest
      subst rest
      exact .inr (.inl (HasEqualPair_pair _))
  | [], [], _ => .inl rfl
  | [], _ :: _, same => by
      have empty := pairs_eq_nil.mp (same.symm.trans rfl)
      cases empty
  | _ :: _, [], same => by
      have empty := pairs_eq_nil.mp (same.trans rfl)
      cases empty

/-- Two lists with one image are equal, or the map has a collision. -/
theorem eq_or_Collision_of_map_eq (f : α → β) :
    ∀ {xs ys : List α}, xs.map f = ys.map f → xs = ys ∨ Collision f
  | [], [], _ => .inl rfl
  | x :: xs, y :: ys, same => by
      simp only [List.map_cons, List.cons.injEq] at same
      by_cases heads : x = y
      · rcases eq_or_Collision_of_map_eq f same.2 with rfl | collision
        · exact .inl (by rw [heads])
        · exact .inr collision
      · exact .inr ⟨x, y, heads, same.1⟩
  | [], _ :: _, same => by simp at same
  | _ :: _, [], same => by simp at same

/-- A non-empty level with no level above it is a single node. -/
theorem eq_singleton_of_clog_eq_zero :
    ∀ {xs : List α}, xs ≠ [] → Nat.clog 2 xs.length = 0 → ∃ x, xs = [x]
  | [x], _, _ => ⟨x, rfl⟩
  | a :: b :: rest, _, depth => by
      have positive : 0 < Nat.clog 2 (a :: b :: rest).length := Nat.clog_pos (by omega) (by simp)
      omega
  | [], nonempty, _ => absurd rfl nonempty

theorem one_lt_length_of_clog_eq_succ {xs : List α} {levels : Nat}
    (depth : Nat.clog 2 xs.length = levels + 1) : 1 < xs.length := by
  by_contra few
  rw [Nat.clog_of_right_le_one (by omega)] at depth
  omega

/-- Pairing a level takes one level off the tree above it. -/
theorem clog_length_pairs {xs : List α} {levels : Nat}
    (depth : Nat.clog 2 xs.length = levels + 1) : Nat.clog 2 (pairs xs).length = levels := by
  have twoLe : 2 ≤ xs.length := one_lt_length_of_clog_eq_succ depth
  rw [Nat.clog_of_two_le (by omega) twoLe] at depth
  rw [length_pairs]
  simpa using depth

/-- The last node of a level of odd count, repeated: the pairing is the same,
and the repeated node makes a complete pair of two equal nodes. -/
theorem pairs_append_last :
    ∀ {xs : List α} {x : α}, xs.length % 2 = 1 → xs.getLast? = some x → pairs (xs ++ [x]) = pairs xs
  | a :: b :: rest, x, odd, isLast => by
      have restOdd : rest.length % 2 = 1 := by
        simp only [List.length_cons] at odd
        omega
      simp only [List.cons_append, pairs, pairs_append_last restOdd (getLast?_of_cons_cons restOdd isLast)]
  | [a], x, _, isLast => by
      simp only [List.getLast?_singleton, Option.some.injEq] at isLast
      subst isLast
      rfl
  | [], _, odd, _ => by simp at odd
where
  getLast?_of_cons_cons {a b : α} {rest : List α} {x : α} (odd : rest.length % 2 = 1)
      (isLast : (a :: b :: rest).getLast? = some x) : rest.getLast? = some x := by
    cases rest with
    | nil => simp at odd
    | cons c rest => simpa only [List.getLast?_cons_cons] using isLast

section

variable [DecidableEq α]

theorem HasEqualPair_append_last :
    ∀ {xs : List α} {x : α}, xs.length % 2 = 1 → xs.getLast? = some x → HasEqualPair (xs ++ [x]) = true
  | a :: b :: rest, x, odd, isLast => by
      have restOdd : rest.length % 2 = 1 := by
        simp only [List.length_cons] at odd
        omega
      simp only [List.cons_append, HasEqualPair,
        HasEqualPair_append_last restOdd (pairs_append_last.getLast?_of_cons_cons restOdd isLast), Bool.or_true]
  | [a], x, _, isLast => by
      simp only [List.getLast?_singleton, Option.some.injEq] at isLast
      subst isLast
      exact HasEqualPair_pair a
  | [], _, odd, _ => by simp at odd

end

end MerkleLevels
