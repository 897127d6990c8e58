import Mathlib

/-!
# Steps that can fail

A ledger operation returns `Except`: an error carries its text and stops
the run.  A check is `rejectIf`, which fails with a reason exactly when its
condition holds.  These are the rules by which the proofs take a successful
run apart into its steps, and put one together from them.
-/

set_option autoImplicit false

namespace Ledger

variable {ε α β : Type}

/-- `if (condition) return error(reason);`: fails exactly when the
condition holds. -/
def rejectIf (condition : Bool) (reason : ε) : Except ε Unit :=
  if condition then .error reason else .ok ()

@[simp] theorem rejectIf_eq_ok {condition : Bool} {reason : ε} :
    rejectIf condition reason = .ok () ↔ condition = false := by
  cases condition <;> simp [rejectIf]

@[simp] theorem rejectIf_false {reason : ε} : rejectIf false reason = .ok () := rfl

/-- A value that may be missing, or the error `reason` in its place. -/
def getOrFail (reason : ε) : Option α → Except ε α
  | none => .error reason
  | some a => .ok a

@[simp] theorem getOrFail_eq_ok {reason : ε} {x : Option α} {a : α} :
    getOrFail reason x = .ok a ↔ x = some a := by
  cases x <;> simp [getOrFail]

theorem bind_eq_ok {x : Except ε α} {f : α → Except ε β} {b : β} :
    (x >>= f) = .ok b ↔ ∃ a, x = .ok a ∧ f a = .ok b := by
  cases x with
  | error e => simp [bind, Except.bind]
  | ok a => simp [bind, Except.bind]

theorem ok_bind {a : α} {f : α → Except ε β} : ((Except.ok a : Except ε α) >>= f) = f a := rfl

theorem error_bind {e : ε} {f : α → Except ε β} :
    ((Except.error e : Except ε α) >>= f) = .error e := rfl

/-- A run of checks over a list passes exactly when each check does. -/
theorem forM_eq_ok {xs : List α} {check : α → Except ε Unit} :
    xs.forM check = .ok () ↔ ∀ x ∈ xs, check x = .ok () := by
  induction xs with
  | nil => exact ⟨fun _ _ member => absurd member List.not_mem_nil, fun _ => rfl⟩
  | cons x xs ih =>
      change (check x >>= fun _ => xs.forM check) = .ok () ↔ _
      rw [bind_eq_ok]
      constructor
      · rintro ⟨⟨⟩, first, rest⟩
        intro y member
        rcases List.mem_cons.mp member with rfl | later
        · exact first
        · exact ih.mp rest y later
      · intro each
        exact ⟨(), each x List.mem_cons_self,
          ih.mpr fun y member => each y (List.mem_cons_of_mem _ member)⟩

end Ledger
