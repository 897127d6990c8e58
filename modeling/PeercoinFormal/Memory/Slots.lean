import Mathlib

/-!
# Blocks of slots and the C memory functions over them

An allocated block that holds values of one type is a list of slots, each
uninitialised (`none`) or holding a value.  `load` and `store` read and write
a run of slots and fail with "out of bounds" when the run reaches past the
block; `move` is `memmove` (every slot is read before any is written),
`alloc` is `malloc` and `realloc` keeps the first slots.

The two gap lemmas are what a vector built on such a block needs: moving the
tail up and writing into the hole inserts, moving it down erases.
-/

set_option autoImplicit false

namespace Slots

variable {α : Type}

/-- `buf` with the slots from `i` on replaced by `xs`. -/
def overwrite (buf : List α) (i : Nat) (xs : List α) : List α :=
  buf.take i ++ xs ++ buf.drop (i + xs.length)

/-- Reading the `n` slots from `src` on. -/
def load (buf : List α) (src n : Nat) : Except String (List α) :=
  if src + n ≤ buf.length then .ok ((buf.drop src).take n) else .error "out of bounds"

/-- Writing `xs` to the slots from `dst` on. -/
def store (buf : List α) (dst : Nat) (xs : List α) : Except String (List α) :=
  if dst + xs.length ≤ buf.length then .ok (overwrite buf dst xs) else .error "out of bounds"

/-- `memmove` inside one block: the `n` slots from `src` on are read, then
written from `dst` on. -/
def move (buf : List α) (dst src n : Nat) : Except String (List α) := do
  let moved ← load buf src n
  store buf dst moved

/-- `malloc`: a block of `n` uninitialised slots. -/
def alloc (n : Nat) : List (Option α) :=
  List.replicate n none

/-- `realloc` to `n` slots: the first slots keep their contents, the new ones
are uninitialised. -/
def realloc (buf : List (Option α)) (n : Nat) : List (Option α) :=
  buf.take n ++ List.replicate (n - buf.length) none

section

variable {buf : List α} {i : Nat} {xs : List α}

theorem length_overwrite (fits : i + xs.length ≤ buf.length) :
    (overwrite buf i xs).length = buf.length := by
  simp only [overwrite, List.length_append, List.length_take, List.length_drop]
  omega

theorem getElem?_overwrite (fits : i + xs.length ≤ buf.length) (k : Nat) :
    (overwrite buf i xs)[k]? =
      if k < i then buf[k]? else if k < i + xs.length then xs[k - i]? else buf[k]? := by
  simp only [overwrite, List.getElem?_append, List.length_append, List.length_take, List.getElem?_take,
    List.getElem?_drop]
  split_ifs <;> first | rfl | omega | (congr 1; omega)

theorem take_overwrite_of_le {j : Nat} (below : j ≤ i) (fits : i + xs.length ≤ buf.length) :
    (overwrite buf i xs).take j = buf.take j := by
  apply List.ext_getElem?
  intro k
  rw [List.getElem?_take, List.getElem?_take, getElem?_overwrite fits]
  split_ifs <;> first | rfl | omega

theorem take_overwrite_append (fits : i + xs.length ≤ buf.length) :
    (overwrite buf i xs).take (i + xs.length) = buf.take i ++ xs := by
  have written : (buf.take i ++ xs).length = i + xs.length := by
    simp only [List.length_append, List.length_take]
    omega
  rw [overwrite, ← written]
  exact List.take_left

theorem drop_overwrite_of_ge {j : Nat} (past : i + xs.length ≤ j) (fits : i + xs.length ≤ buf.length) :
    (overwrite buf i xs).drop j = buf.drop j := by
  have written : (buf.take i ++ xs).length = i + xs.length := by
    simp only [List.length_append, List.length_take]
    omega
  rw [overwrite, List.drop_append, List.drop_eq_nil_of_le (by omega), List.nil_append, List.drop_drop,
    written]
  congr 1
  omega

@[simp] theorem overwrite_nil : overwrite buf i [] = buf := by
  rw [overwrite, List.append_nil, List.length_nil, Nat.add_zero, List.take_append_drop]

/-- Writing one slot and then the run after it is writing the whole run. -/
theorem overwrite_cons {x : α} (fits : i + (x :: xs).length ≤ buf.length) :
    overwrite (overwrite buf i [x]) (i + 1) xs = overwrite buf i (x :: xs) := by
  have first : i + [x].length ≤ buf.length := by
    simp only [List.length_cons, List.length_nil] at fits ⊢
    omega
  have head := take_overwrite_append first
  have tail := drop_overwrite_of_ge (show i + [x].length ≤ i + 1 + xs.length by simp) first
  simp only [List.length_cons, List.length_nil, Nat.zero_add] at head tail
  rw [overwrite, head, tail, overwrite, List.length_cons]
  simp only [List.append_assoc, List.singleton_append]
  congr 3
  omega

/-- A `memmove` of the slots `[p, s)` up by `xs.length`, then a write of `xs`
at `p`: the first `s + xs.length` slots are the first `s` with `xs` let in at
`p`. -/
theorem open_gap {p s : Nat} (inside : p ≤ s) (fits : s + xs.length ≤ buf.length) :
    (overwrite (overwrite buf (p + xs.length) ((buf.drop p).take (s - p))) p xs).take (s + xs.length) =
      (buf.take s).take p ++ xs ++ (buf.take s).drop p := by
  have movedFits : p + xs.length + ((buf.drop p).take (s - p)).length ≤ buf.length := by
    simp only [List.length_take, List.length_drop]
    omega
  have storeFits : p + xs.length ≤ (overwrite buf (p + xs.length) ((buf.drop p).take (s - p))).length := by
    rw [length_overwrite movedFits]
    omega
  apply List.ext_getElem?
  intro k
  rw [List.getElem?_take, getElem?_overwrite storeFits, getElem?_overwrite movedFits]
  -- slots below `p`, the hole, the moved tail, and past the end
  simp only [List.getElem?_append, List.length_append, List.length_take, List.getElem?_take,
    List.getElem?_drop, List.length_drop]
  split_ifs <;> first | rfl | omega | (congr 1; omega)

/-- A `memmove` of the slots `[l, s)` down to `f`: the first `s - (l - f)`
slots are the first `s` without those in `[f, l)`. -/
theorem close_gap {f l s : Nat} (ordered : f ≤ l) (inside : l ≤ s) (fits : s ≤ buf.length) :
    (overwrite buf f ((buf.drop l).take (s - l))).take (s - (l - f)) =
      (buf.take s).take f ++ (buf.take s).drop l := by
  have movedFits : f + ((buf.drop l).take (s - l)).length ≤ buf.length := by
    simp only [List.length_take, List.length_drop]
    omega
  apply List.ext_getElem?
  intro k
  rw [List.getElem?_take, getElem?_overwrite movedFits]
  simp only [List.getElem?_append, List.length_take, List.getElem?_take,
    List.getElem?_drop, List.length_drop]
  split_ifs <;> first | rfl | omega | (congr 1; omega)

end

section

variable {buf buf' : List α} {src dst n : Nat} {xs : List α}

theorem load_ok (fits : src + n ≤ buf.length) : load buf src n = .ok ((buf.drop src).take n) := by
  rw [load, if_pos fits]

theorem store_ok (fits : dst + xs.length ≤ buf.length) : store buf dst xs = .ok (overwrite buf dst xs) := by
  rw [store, if_pos fits]

theorem move_ok (from_fits : src + n ≤ buf.length) (to_fits : dst + n ≤ buf.length) :
    move buf dst src n = .ok (overwrite buf dst ((buf.drop src).take n)) := by
  have moved : ((buf.drop src).take n).length = n := by
    simp only [List.length_take, List.length_drop]
    omega
  simp only [move, load_ok from_fits, bind, Except.bind]
  rw [store_ok (by omega)]

/-- A store that succeeds keeps the block's length. -/
theorem length_of_store (stored : store buf dst xs = .ok buf') : buf'.length = buf.length := by
  unfold store at stored
  split at stored
  · cases stored
    exact length_overwrite ‹_›
  · cases stored

theorem length_of_move (moved : move buf dst src n = .ok buf') : buf'.length = buf.length := by
  simp only [move, bind, Except.bind] at moved
  split at moved
  · cases moved
  · exact length_of_store moved

end

@[simp] theorem length_alloc (n : Nat) : (alloc n : List (Option α)).length = n :=
  List.length_replicate

@[simp] theorem length_realloc (buf : List (Option α)) (n : Nat) : (realloc buf n).length = n := by
  simp only [realloc, List.length_append, List.length_take, List.length_replicate]
  omega

/-- `realloc` to at least `s` slots keeps the first `s`. -/
theorem take_realloc {buf : List (Option α)} {n s : Nat} (kept : s ≤ n) (within : s ≤ buf.length) :
    (realloc buf n).take s = buf.take s := by
  rw [realloc, List.take_append_of_le_length (by simp only [List.length_take]; omega),
    List.take_take, Nat.min_eq_left kept]

end Slots
