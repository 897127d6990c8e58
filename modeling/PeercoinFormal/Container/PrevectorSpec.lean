import PeercoinFormal.Container.Prevector
import PeercoinFormal.Ledger.Result

/-!
# The representation invariant of `prevector`, and what each call does

`WellFormed` is the invariant the header's comment states: with `_size` at
most `N` the inline array of `N` slots is live; above it the heap block is,
with its recorded capacity above `N` and equal to the block's length, and
the real size `_size - N - 1` within it.  The elements are the first `size()`
slots of the live block (`Items`).

Each call gets one lemma: from a well-formed prevector, and with sizes that
keep `_size` below `2 ^ 32`, it succeeds, stays well-formed, and its elements
are the expected list.  The later proofs cite these and never unfold a call.
-/

set_option autoImplicit false

namespace Peercoin.Container

open Slots Ledger

namespace prevector

variable {N : Nat} {T : Type}

/-- The block `item_ptr` points into. -/
def Buffer (v : prevector N T) : List (Option T) :=
  match v._union with
  | .direct slots => slots
  | .indirect_contents indirect _ => indirect

/-- The slots `begin()` to `end()`. -/
def Items (v : prevector N T) : List (Option T) :=
  v.Buffer.take v.size

/-- The live block replaced by `items`, the union's member kept. -/
def SetBuffer (v : prevector N T) (items : List (Option T)) : prevector N T :=
  match v._union with
  | .direct _ => { v with _union := .direct items }
  | .indirect_contents _ capacity => { v with _union := .indirect_contents items capacity }

inductive WellFormed : prevector N T → Prop where
  | direct {slots : List (Option T)} {_size : Nat} (small : _size ≤ N) (inline : slots.length = N) :
      WellFormed ⟨.direct slots, _size⟩
  | indirect {indirect : List (Option T)} {capacity _size : Nat} (large : N < _size) (heap : N < capacity)
      (allocated : indirect.length = capacity) (room : _size - (N + 1) ≤ capacity) :
      WellFormed ⟨.indirect_contents indirect capacity, _size⟩

@[simp] theorem Buffer_SetBuffer (v : prevector N T) (items : List (Option T)) :
    (v.SetBuffer items).Buffer = items := by
  unfold SetBuffer
  split <;> rfl

@[simp] theorem _size_SetBuffer (v : prevector N T) (items : List (Option T)) :
    (v.SetBuffer items)._size = v._size := by
  unfold SetBuffer
  split <;> rfl

@[simp] theorem size_SetBuffer (v : prevector N T) (items : List (Option T)) :
    (v.SetBuffer items).size = v.size := by
  unfold SetBuffer
  split <;> rfl

@[simp] theorem Buffer_with_size (v : prevector N T) (s : Nat) :
    ({ v with _size := s } : prevector N T).Buffer = v.Buffer := rfl

@[simp] theorem SetBuffer_with_size (v : prevector N T) (s : Nat) (items : List (Option T)) :
    ({ v with _size := s } : prevector N T).SetBuffer items = { v.SetBuffer items with _size := s } := by
  obtain ⟨u, _⟩ := v
  cases u <;> rfl

@[simp] theorem SetBuffer_SetBuffer (v : prevector N T) (items items' : List (Option T)) :
    (v.SetBuffer items).SetBuffer items' = v.SetBuffer items' := by
  obtain ⟨u, _⟩ := v
  cases u <;> rfl

@[simp] theorem SetBuffer_Buffer (v : prevector N T) : v.SetBuffer v.Buffer = v := by
  obtain ⟨u, _⟩ := v
  cases u <;> rfl

@[simp] theorem size_empty : (empty : prevector N T).size = 0 := by
  simp [empty, size, is_direct]

theorem empty_wellFormed : (empty : prevector N T).WellFormed :=
  .direct (Nat.zero_le N) (length_alloc N)

@[simp] theorem Buffer_direct (slots : List (Option T)) (s : Nat) :
    (⟨.direct slots, s⟩ : prevector N T).Buffer = slots := rfl

@[simp] theorem Buffer_indirect (indirect : List (Option T)) (capacity s : Nat) :
    (⟨.indirect_contents indirect capacity, s⟩ : prevector N T).Buffer = indirect := rfl

theorem size_of_le {u : direct_or_indirect T} {s : Nat} (small : s ≤ N) :
    (⟨u, s⟩ : prevector N T).size = s := by
  simp [size, is_direct, small]

theorem size_of_lt {u : direct_or_indirect T} {s : Nat} (large : N < s) :
    (⟨u, s⟩ : prevector N T).size = s - (N + 1) := by
  simp only [size, is_direct, decide_eq_false (Nat.not_le.mpr large), Bool.false_eq_true, if_false]
  omega

section

variable {v : prevector N T}

theorem WellFormed.size_le (wf : v.WellFormed) : v.size ≤ v.Buffer.length := by
  cases wf with
  | direct small inline =>
    rw [size_of_le small, Buffer_direct]
    omega
  | indirect large heap allocated room =>
    rw [size_of_lt large, Buffer_indirect]
    omega

theorem WellFormed.length_Items (wf : v.WellFormed) : v.Items.length = v.size := by
  rw [Items, List.length_take, Nat.min_eq_left wf.size_le]

theorem WellFormed.capacity_eq (wf : v.WellFormed) : v.capacity = .ok v.Buffer.length := by
  cases wf with
  | direct small inline => simp [capacity, is_direct, small, Buffer, inline]
  | indirect large heap allocated room =>
    simp [capacity, is_direct, Nat.not_le.mpr large, Buffer, allocated]

theorem WellFormed.item_ptr_eq (wf : v.WellFormed) : v.item_ptr = .ok v.Buffer := by
  cases wf with
  | direct small inline => simp [item_ptr, is_direct, small, direct_ptr, Buffer]
  | indirect large heap allocated room =>
    simp [item_ptr, is_direct, Nat.not_le.mpr large, indirect_ptr, Buffer]

/-- A write through `item_ptr` rewrites the live block and nothing else. -/
theorem WellFormed.write_items_eq (wf : v.WellFormed) (f : List (Option T) → Except String (List (Option T))) :
    v.write_items f = (f v.Buffer).map v.SetBuffer := by
  cases wf with
  | direct small inline =>
    simp only [write_items, is_direct, decide_eq_true small, Buffer]
    cases f _ <;> rfl
  | indirect large heap allocated room =>
    simp only [write_items, is_direct, decide_eq_false (Nat.not_le.mpr large), Buffer]
    cases f _ <;> rfl

theorem WellFormed.SetBuffer (wf : v.WellFormed) (items : List (Option T))
    (same : items.length = v.Buffer.length) : (v.SetBuffer items).WellFormed := by
  cases wf with
  | direct small inline => exact .direct small (by simpa [Buffer] using same.trans inline)
  | indirect large heap allocated room =>
    exact .indirect large heap (by simpa [Buffer] using same.trans allocated) room

/-- `size() <= capacity()`, and the capacity of the inline array is `N`. -/
theorem WellFormed.capacity_bounds (wf : v.WellFormed) :
    ∃ c, v.capacity = .ok c ∧ v.size ≤ c ∧ (v.is_direct = true → c = N) := by
  refine ⟨_, wf.capacity_eq, wf.size_le, fun direct => ?_⟩
  cases wf with
  | direct small inline => exact inline
  | indirect large heap allocated room => simp [is_direct, Nat.not_le.mpr large] at direct

theorem WellFormed.elements_eq (wf : v.WellFormed) : v.elements = .ok v.Items := by
  rw [elements, wf.item_ptr_eq, ok_bind, load_ok (by simpa using wf.size_le), List.drop_zero, Items]

theorem WellFormed._size_le (wf : v.WellFormed) : v._size ≤ v.size + (N + 1) := by
  cases wf with
  | direct small inline =>
    rw [size_of_le small]
    dsimp only
    omega
  | indirect large heap allocated room =>
    rw [size_of_lt large]
    dsimp only
    omega

/-- Raising the size by `d` within the live block: `_size += d`. -/
theorem WellFormed.grow {d : Nat} (wf : v.WellFormed) (fits : v.size + d ≤ v.Buffer.length)
    (noWrap : N + 1 + (v.size + d) < 2 ^ 32) :
    ({ v with _size := (v._size + d) % 2 ^ 32 } : prevector N T).WellFormed ∧
      ({ v with _size := (v._size + d) % 2 ^ 32 } : prevector N T).size = v.size + d ∧
      ({ v with _size := (v._size + d) % 2 ^ 32 } : prevector N T).Buffer = v.Buffer := by
  have below := wf._size_le
  rw [Nat.mod_eq_of_lt (by omega)]
  cases wf with
  | @direct slots s small inline =>
    rw [size_of_le small, Buffer_direct] at fits
    dsimp only
    rw [size_of_le small, size_of_le (by omega)]
    exact ⟨.direct (by omega) inline, rfl, rfl⟩
  | @indirect indirect capacity s large heap allocated room =>
    rw [size_of_lt large, Buffer_indirect] at fits
    dsimp only
    rw [size_of_lt large, size_of_lt (by omega)]
    exact ⟨.indirect (by omega) heap allocated (by omega), by omega, rfl⟩

/-- Lowering the size by `d`: `_size -= d`.  The member stays. -/
theorem WellFormed.shrink {d : Nat} (wf : v.WellFormed) (within : d ≤ v.size) :
    ({ v with _size := v._size - d } : prevector N T).WellFormed ∧
      ({ v with _size := v._size - d } : prevector N T).size = v.size - d ∧
      ({ v with _size := v._size - d } : prevector N T).Buffer = v.Buffer := by
  cases wf with
  | @direct slots s small inline =>
    rw [size_of_le small] at within
    dsimp only
    rw [size_of_le small, size_of_le (by omega)]
    exact ⟨.direct (by omega) inline, rfl, rfl⟩
  | @indirect indirect capacity s large heap allocated room =>
    rw [size_of_lt large] at within
    dsimp only
    rw [size_of_lt large, size_of_lt (by omega)]
    exact ⟨.indirect (by omega) heap allocated (by omega), by omega, rfl⟩

theorem WellFormed.size_eq_of_Items {v' : prevector N T} (wf : v.WellFormed) (wf' : v'.WellFormed)
    (same : v'.Items = v.Items) : v'.size = v.size := by
  rw [← wf.length_Items, ← wf'.length_Items, same]

/-- A fresh block with the first `xs.length` slots copied in holds `xs` there. -/
theorem take_copied {n : Nat} (xs : List (Option T)) (fits : xs.length ≤ n) :
    (overwrite (alloc n) 0 xs).take xs.length = xs := by
  have copied : (overwrite (alloc n) 0 xs).take (0 + xs.length) = (alloc n).take 0 ++ xs :=
    take_overwrite_append (by simpa using fits)
  simpa using copied

/-- `change_capacity` keeps the elements and leaves a live block of
`max N new_capacity` slots: the inline array when `new_capacity ≤ N`. -/
theorem WellFormed.change_capacity (wf : v.WellFormed) (new_capacity : Nat)
    (holds : v.size ≤ new_capacity) (noWrap : N + 1 + v.size < 2 ^ 32) :
    ∃ v', v.change_capacity new_capacity = .ok v' ∧ v'.WellFormed ∧ v'.Items = v.Items ∧
      v'.Buffer.length = max N new_capacity := by
  cases wf with
  | @direct slots s small inline =>
    rw [size_of_le small] at holds noWrap
    by_cases inlined : new_capacity ≤ N
    · -- nothing to do: the inline array stays
      refine ⟨_, ?_, .direct small inline, rfl, ?_⟩
      · simp [prevector.change_capacity, inlined, is_direct, small]
      · rw [Buffer_direct, inline]
        omega
    · -- malloc a block and memcpy the inline elements into it
      have copied : 0 + (slots.take s).length ≤ (alloc new_capacity : List (Option T)).length := by
        simp only [List.length_take, length_alloc]
        omega
      refine ⟨⟨.indirect_contents (overwrite (alloc new_capacity) 0 (slots.take s)) new_capacity,
        s + (N + 1)⟩, ?_, ?_, ?_, ?_⟩
      · simp only [prevector.change_capacity, if_neg inlined, is_direct, decide_eq_true small,
          Bool.not_true, Bool.false_eq_true, if_false, direct_ptr, ok_bind, size_of_le small]
        rw [load_ok (by omega), List.drop_zero, ok_bind, store_ok copied, ok_bind,
          Nat.mod_eq_of_lt (by omega)]
      · exact .indirect (by omega) (by omega) (by rw [length_overwrite copied, length_alloc]) (by omega)
      · have taken : (slots.take s).length = s := by
          rw [List.length_take]
          omega
        have kept := take_copied (n := new_capacity) (slots.take s) (by omega)
        rw [taken] at kept
        rw [Items, Items, size_of_lt (by omega), size_of_le small, Buffer_indirect, Buffer_direct,
          show s + (N + 1) - (N + 1) = s by omega, kept]
      · rw [Buffer_indirect, length_overwrite copied, length_alloc]
        omega
  | @indirect indirect capacity s large heap allocated room =>
    rw [size_of_lt large] at holds noWrap
    by_cases inlined : new_capacity ≤ N
    · -- memcpy the elements back into the inline array and free the block
      have copied : 0 + (indirect.take (s - (N + 1))).length ≤ (alloc N : List (Option T)).length := by
        simp only [List.length_take, length_alloc]
        omega
      refine ⟨⟨.direct (overwrite (alloc N) 0 (indirect.take (s - (N + 1)))), s - (N + 1)⟩, ?_, ?_, ?_, ?_⟩
      · simp only [prevector.change_capacity, if_pos inlined, is_direct,
          decide_eq_false (Nat.not_le.mpr large), Bool.not_false, if_true, indirect_ptr, ok_bind,
          size_of_lt large]
        rw [load_ok (by omega), List.drop_zero, ok_bind, store_ok copied, ok_bind]
      · exact .direct (by omega) (by rw [length_overwrite copied, length_alloc])
      · have taken : (indirect.take (s - (N + 1))).length = s - (N + 1) := by
          rw [List.length_take]
          omega
        have kept := take_copied (n := N) (indirect.take (s - (N + 1))) (by omega)
        rw [taken] at kept
        rw [Items, Items, size_of_le (by omega), size_of_lt large, Buffer_indirect, Buffer_direct, kept]
      · rw [Buffer_direct, length_overwrite copied, length_alloc]
        omega
    · -- realloc the block
      refine ⟨⟨.indirect_contents (realloc indirect new_capacity) new_capacity, s⟩, ?_, ?_, ?_, ?_⟩
      · simp [prevector.change_capacity, inlined, is_direct, Nat.not_le.mpr large, indirect_ptr, ok_bind]
      · exact .indirect large (by omega) (length_realloc _ _) (by omega)
      · rw [Items, Items, size_of_lt large, size_of_lt large, Buffer_indirect, Buffer_indirect,
          take_realloc holds (by omega)]
      · rw [Buffer_indirect, length_realloc]
        omega

/-- `if (new_size > capacity()) change_capacity(new_size)`, as `reserve`,
`resize` and `assign` do it. -/
theorem WellFormed.change_capacity_if {n : Nat} (wf : v.WellFormed) (noWrap : N + 1 + v.size < 2 ^ 32) :
    ∃ v', (if n > v.Buffer.length then v.change_capacity n else .ok v) = .ok v' ∧ v'.WellFormed ∧
      v'.Items = v.Items ∧ n ≤ v'.Buffer.length := by
  by_cases full : n > v.Buffer.length
  · have within := wf.size_le
    obtain ⟨v', changed, wf', same, length'⟩ := wf.change_capacity n (by omega) noWrap
    exact ⟨v', by rw [if_pos full, changed], wf', same, by omega⟩
  · exact ⟨v, by rw [if_neg full], wf, rfl, by omega⟩

theorem WellFormed.reserve {n : Nat} (wf : v.WellFormed) (noWrap : N + 1 + v.size < 2 ^ 32) :
    ∃ v', v.reserve n = .ok v' ∧ v'.WellFormed ∧ v'.Items = v.Items ∧ n ≤ v'.Buffer.length := by
  rw [prevector.reserve, wf.capacity_eq, ok_bind]
  exact wf.change_capacity_if noWrap

theorem WellFormed.shrink_to_fit (wf : v.WellFormed) (noWrap : N + 1 + v.size < 2 ^ 32) :
    ∃ v', v.shrink_to_fit = .ok v' ∧ v'.WellFormed ∧ v'.Items = v.Items ∧
      v'.Buffer.length = max N v.size :=
  wf.change_capacity _ (Nat.le_refl _) noWrap

/-- Growth by half again leaves room for `new_size` elements. -/
theorem WellFormed.grow_for (wf : v.WellFormed) (new_size : Nat) (grows : v.size ≤ new_size)
    (noWrap : N + 1 + new_size + new_size / 2 < 2 ^ 32) :
    ∃ v', v.grow_for new_size = .ok v' ∧ v'.WellFormed ∧ v'.Items = v.Items ∧
      new_size ≤ v'.Buffer.length := by
  rw [prevector.grow_for, wf.capacity_eq, ok_bind]
  by_cases full : v.Buffer.length < new_size
  · obtain ⟨v', changed, wf', same, length'⟩ :=
      wf.change_capacity (new_size + new_size / 2) (by omega) (by omega)
    refine ⟨v', ?_, wf', same, by omega⟩
    rw [if_pos full, Nat.mod_eq_of_lt (by omega), changed]
  · exact ⟨v, by rw [if_neg full], wf, rfl, by omega⟩

/-- `erase(first, last)` closes the gap `[first, last)`. -/
theorem WellFormed.erase_range (wf : v.WellFormed) (first last : Nat) (ordered : first ≤ last)
    (inside : last ≤ v.size) :
    ∃ v', v.erase_range first last = .ok v' ∧ v'.WellFormed ∧
      v'.Items = v.Items.take first ++ v.Items.drop last := by
  have within := wf.size_le
  have moved : move v.Buffer first last (v.size - last) =
      .ok (overwrite v.Buffer first ((v.Buffer.drop last).take (v.size - last))) :=
    move_ok (by omega) (by omega)
  have fits : first + ((v.Buffer.drop last).take (v.size - last)).length ≤ v.Buffer.length := by
    simp only [List.length_take, List.length_drop]
    omega
  have wfSet := wf.SetBuffer _ (length_overwrite fits)
  obtain ⟨wf', size', buffer'⟩ := wfSet.shrink (d := last - first) (by rw [size_SetBuffer]; omega)
  refine ⟨_, ?_, wf', ?_⟩
  · simp only [prevector.erase_range, wf.write_items_eq, moved]
    rfl
  · rw [Items, size', buffer', Buffer_SetBuffer, size_SetBuffer, close_gap ordered inside within, Items]

/-- A range let in at `pos`, through `grow_for`, a `memmove` of the tail and
a write into the hole; the size is raised by `count` either before or after
the write (`insert_fill` and `insert_range` differ there). -/
theorem WellFormed.open_gap (wf : v.WellFormed) (pos : Nat) (range : List (Option T))
    (inside : pos ≤ v.size) (room : v.size + range.length ≤ v.Buffer.length)
    (noWrap : N + 1 + (v.size + range.length) < 2 ^ 32) :
    let moved := overwrite v.Buffer (pos + range.length) ((v.Buffer.drop pos).take (v.size - pos))
    move v.Buffer (pos + range.length) pos (v.size - pos) = .ok moved ∧
      store moved pos range = .ok (overwrite moved pos range) ∧
      ({ v.SetBuffer (overwrite moved pos range) with
          _size := (v._size + range.length) % 2 ^ 32 } : prevector N T).WellFormed ∧
      ({ v.SetBuffer (overwrite moved pos range) with
          _size := (v._size + range.length) % 2 ^ 32 } : prevector N T).Items =
        v.Items.take pos ++ range ++ v.Items.drop pos := by
  intro moved
  have movedFits : pos + range.length + ((v.Buffer.drop pos).take (v.size - pos)).length ≤
      v.Buffer.length := by
    simp only [List.length_take, List.length_drop]
    omega
  have storeFits : pos + range.length ≤ moved.length := by
    rw [length_overwrite movedFits]
    omega
  have wfSet := wf.SetBuffer (overwrite moved pos range)
    (by rw [length_overwrite storeFits, length_overwrite movedFits])
  obtain ⟨wf', size', buffer'⟩ := wfSet.grow (d := range.length)
    (by rw [size_SetBuffer, Buffer_SetBuffer, length_overwrite storeFits, length_overwrite movedFits]; omega)
    (by rw [size_SetBuffer]; omega)
  rw [_size_SetBuffer] at wf' size' buffer'
  refine ⟨move_ok (by omega) (by omega), store_ok storeFits, wf', ?_⟩
  rw [Items, size', buffer', Buffer_SetBuffer, size_SetBuffer, Slots.open_gap inside (by omega), Items]

/-- A range written just past the elements, with the size raised over it. -/
theorem WellFormed.append (wf : v.WellFormed) (range : List (Option T))
    (room : v.size + range.length ≤ v.Buffer.length) (noWrap : N + 1 + (v.size + range.length) < 2 ^ 32) :
    store v.Buffer v.size range = .ok (overwrite v.Buffer v.size range) ∧
      ({ v.SetBuffer (overwrite v.Buffer v.size range) with
          _size := (v._size + range.length) % 2 ^ 32 } : prevector N T).WellFormed ∧
      ({ v.SetBuffer (overwrite v.Buffer v.size range) with
          _size := (v._size + range.length) % 2 ^ 32 } : prevector N T).Items = v.Items ++ range := by
  have wfSet := wf.SetBuffer (overwrite v.Buffer v.size range) (length_overwrite room)
  obtain ⟨wf', size', buffer'⟩ := wfSet.grow (d := range.length)
    (by rw [size_SetBuffer, Buffer_SetBuffer, length_overwrite room]; omega) (by rw [size_SetBuffer]; omega)
  rw [_size_SetBuffer] at wf' size' buffer'
  refine ⟨store_ok room, wf', ?_⟩
  rw [Items, size', buffer', Buffer_SetBuffer, size_SetBuffer, take_overwrite_append room, Items]

theorem WellFormed.insert_range (wf : v.WellFormed) (pos : Nat) (range : List (Option T))
    (inside : pos ≤ v.size)
    (noWrap : N + 1 + (v.size + range.length) + (v.size + range.length) / 2 < 2 ^ 32) :
    ∃ v', v.insert_range pos range = .ok v' ∧ v'.WellFormed ∧
      v'.Items = v.Items.take pos ++ range ++ v.Items.drop pos := by
  obtain ⟨v1, grown, wf1, same, room⟩ := wf.grow_for (v.size + range.length) (by omega) noWrap
  have size1 := wf.size_eq_of_Items wf1 same
  obtain ⟨moved, stored, wf', items'⟩ :=
    wf1.open_gap pos range (by omega) (by omega) (by omega)
  refine ⟨_, ?_, wf', by rw [items', same]⟩
  simp only [prevector.insert_range, Nat.mod_eq_of_lt (show v.size + range.length < 2 ^ 32 by omega),
    grown, ok_bind, wf1.write_items_eq, moved, stored, Except.map, _size_SetBuffer]

theorem insert_eq_insert_range (v : prevector N T) (pos : Nat) (value : T) :
    v.insert pos value = v.insert_range pos [some value] := rfl

theorem WellFormed.insert_fill (wf : v.WellFormed) (pos count : Nat) (value : T) (inside : pos ≤ v.size)
    (noWrap : N + 1 + (v.size + count) + (v.size + count) / 2 < 2 ^ 32) :
    ∃ v', v.insert_fill pos count value = .ok v' ∧ v'.WellFormed ∧
      v'.Items = v.Items.take pos ++ List.replicate count (some value) ++ v.Items.drop pos := by
  obtain ⟨v1, grown, wf1, same, room⟩ := wf.grow_for (v.size + count) (by omega) noWrap
  have size1 := wf.size_eq_of_Items wf1 same
  have filled : (List.replicate count (some value)).length = count := List.length_replicate
  obtain ⟨moved, stored, wf', items'⟩ := wf1.open_gap pos
    (List.replicate count (some value)) (by omega) (by omega) (by omega)
  rw [filled] at moved stored wf' items'
  refine ⟨_, ?_, wf', by rw [items', same]⟩
  -- the fill goes through the grown prevector, whose block is the moved one
  have wfMoved := wf1.SetBuffer (overwrite v1.Buffer (pos + count)
    ((v1.Buffer.drop pos).take (v1.size - pos))) (length_of_move moved)
  obtain ⟨wfGrown, -, bufferGrown⟩ := wfMoved.grow (d := count)
    (by rw [size_SetBuffer, Buffer_SetBuffer, length_of_move moved]; omega) (by rw [size_SetBuffer]; omega)
  rw [_size_SetBuffer] at wfGrown bufferGrown
  simp only [prevector.insert_fill, Nat.mod_eq_of_lt (show v.size + count < 2 ^ 32 by omega), grown, ok_bind,
    wf1.write_items_eq, moved, Except.map, _size_SetBuffer]
  rw [wfGrown.write_items_eq, bufferGrown, Buffer_SetBuffer, stored]
  simp only [Except.map, SetBuffer_with_size, SetBuffer_SetBuffer]

theorem WellFormed.emplace_back (wf : v.WellFormed) (value : T)
    (noWrap : N + 1 + (v.size + 1) + (v.size + 1) / 2 < 2 ^ 32) :
    ∃ v', v.emplace_back value = .ok v' ∧ v'.WellFormed ∧ v'.Items = v.Items ++ [some value] := by
  obtain ⟨v1, grown, wf1, same, room⟩ := wf.grow_for (v.size + 1) (by omega) noWrap
  have size1 := wf.size_eq_of_Items wf1 same
  have one : [some value].length = 1 := rfl
  obtain ⟨stored, wf', items'⟩ := wf1.append ([some value]) (by rw [one]; omega)
    (by rw [one]; omega)
  rw [one] at wf' items'
  refine ⟨_, ?_, wf', by rw [items', same]⟩
  simp only [prevector.emplace_back, Nat.mod_eq_of_lt (show v.size + 1 < 2 ^ 32 by omega), grown, ok_bind,
    wf1.write_items_eq, stored, Except.map, _size_SetBuffer]

theorem WellFormed.write {pos : Nat} {value : T} (wf : v.WellFormed) (inside : pos < v.Buffer.length) :
    v.write pos value = .ok (v.SetBuffer (overwrite v.Buffer pos [some value])) := by
  rw [prevector.write, wf.write_items_eq, store_ok (by simp only [List.length_cons, List.length_nil]; omega)]
  rfl

/-- `_size += n; fill(item_ptr(0), range)` on an empty prevector with room
for the range. -/
theorem WellFormed.fill_front (wf : v.WellFormed) (range : List (Option T)) (empty : v.size = 0)
    (room : range.length ≤ v.Buffer.length) (noWrap : N + 1 + range.length < 2 ^ 32) :
    ∃ v', v.fill_front range = .ok v' ∧ v'.WellFormed ∧ v'.Items = range := by
  obtain ⟨stored, wf', items'⟩ := wf.append (range) (by omega) (by omega)
  obtain ⟨wfGrown, -, bufferGrown⟩ := wf.grow (d := range.length) (by omega) (by omega)
  have nothing : v.Items = [] := List.eq_nil_of_length_eq_zero (by rw [wf.length_Items, empty])
  rw [empty] at stored wf' items'
  refine ⟨_, ?_, wf', by rw [items', nothing, List.nil_append]⟩
  simp only [prevector.fill_front, wfGrown.write_items_eq, bufferGrown, stored, Except.map, SetBuffer_with_size]

section

variable [Inhabited T]

theorem WellFormed.resize (wf : v.WellFormed) (new_size : Nat) (noWrap : N + 1 + new_size < 2 ^ 32) :
    ∃ v', v.resize new_size = .ok v' ∧ v'.WellFormed ∧
      v'.Items = v.Items.take new_size ++ List.replicate (new_size - v.size) (some default) := by
  have length := wf.length_Items
  by_cases unchanged : v.size = new_size
  · refine ⟨v, by simp [prevector.resize, unchanged], wf, ?_⟩
    rw [List.take_of_length_le (by omega), Nat.sub_eq_zero_of_le (by omega), List.replicate_zero,
      List.append_nil]
  by_cases shorter : v.size > new_size
  · -- the tail is erased
    obtain ⟨v', erased, wf', items'⟩ :=
      wf.erase_range new_size v.size (by omega) (Nat.le_refl _)
    refine ⟨v', by simp only [prevector.resize, if_neg unchanged, if_pos shorter, erased], wf', ?_⟩
    rw [items', List.drop_eq_nil_of_le (by omega), Nat.sub_eq_zero_of_le (by omega), List.replicate_zero]
  · -- room is made, and `T{}` written past the elements
    obtain ⟨v1, changed, wf1, same1, room1⟩ := wf.change_capacity_if (n := new_size) (by omega)
    have size1 := wf.size_eq_of_Items wf1 same1
    have filled : (List.replicate (new_size - v.size) (some (default : T))).length = new_size - v.size :=
      List.length_replicate
    obtain ⟨stored, wf', items'⟩ := wf1.append (List.replicate (new_size - v.size) (some default))
      (by omega) (by omega)
    rw [size1] at stored wf' items'
    rw [filled] at wf' items'
    refine ⟨_, ?_, wf', ?_⟩
    · -- the continuation after the growth test is copied into both branches
      simp only [prevector.resize, if_neg unchanged, if_neg shorter, wf.capacity_eq, ok_bind]
      by_cases grows : new_size > v.Buffer.length
      · rw [if_pos grows] at changed ⊢
        simp only [changed, ok_bind, wf1.write_items_eq, stored, Except.map, _size_SetBuffer]
      · rw [if_neg grows] at changed ⊢
        cases changed
        simp only [wf1.write_items_eq, stored, Except.map, ok_bind, _size_SetBuffer]
    · rw [items', same1, List.take_of_length_le (by omega)]

theorem WellFormed.clear (wf : v.WellFormed) (noWrap : N + 1 < 2 ^ 32) :
    ∃ v', v.clear = .ok v' ∧ v'.WellFormed ∧ v'.Items = [] := by
  obtain ⟨v', resized, wf', items'⟩ := wf.resize 0 noWrap
  refine ⟨v', resized, wf', ?_⟩
  rw [items', List.take_zero, Nat.zero_sub, List.replicate_zero, List.append_nil]

theorem WellFormed.assign (wf : v.WellFormed) (range : List (Option T))
    (noWrap : N + 1 + range.length < 2 ^ 32) :
    ∃ v', v.assign range = .ok v' ∧ v'.WellFormed ∧ v'.Items = range := by
  obtain ⟨v1, cleared, wf1, items1⟩ := wf.clear (by omega)
  have empty1 : v1.size = 0 := by rw [← wf1.length_Items, items1, List.length_nil]
  obtain ⟨v2, reserved, wf2, items2, room2⟩ := wf1.reserve (n := range.length) (by omega)
  have empty2 : v2.size = 0 := by rw [← wf2.length_Items, items2, items1, List.length_nil]
  obtain ⟨v3, filled, wf3, items3⟩ := wf2.fill_front (range) empty2 room2 noWrap
  exact ⟨v3, by simp only [prevector.assign, cleared, reserved, filled, ok_bind], wf3, items3⟩

end

/-- `change_capacity(n)` on a new prevector, as the constructors begin. -/
theorem empty_change_capacity (n : Nat) (noWrap : N + 1 < 2 ^ 32) :
    ∃ v, (empty : prevector N T).change_capacity n = .ok v ∧ v.WellFormed ∧ v.size = 0 ∧
      n ≤ v.Buffer.length := by
  obtain ⟨v, changed, wf, items, length⟩ := (empty_wellFormed (N := N) (T := T)).change_capacity
    n (by rw [size_empty]; omega) (by rw [size_empty]; omega)
  refine ⟨v, changed, wf, ?_, by omega⟩
  rw [← wf.length_Items, items, empty_wellFormed.length_Items, size_empty]

theorem WellFormed.resize_uninitialized (wf : v.WellFormed) (new_size : Nat)
    (noWrap : N + 1 + new_size < 2 ^ 32) :
    ∃ v', v.resize_uninitialized new_size = .ok v' ∧ v'.WellFormed ∧ v'.size = new_size ∧
      v'.Items.take v.size = v.Items.take new_size := by
  have length := wf.length_Items
  have within := wf.size_le
  by_cases full : v.Buffer.length < new_size
  · -- a larger block, and the size raised over its uninitialised slots
    obtain ⟨v1, changed, wf1, same1, length1⟩ := wf.change_capacity (new_size)
      (by omega) (by omega)
    have size1 := wf.size_eq_of_Items wf1 same1
    obtain ⟨wf', size', buffer'⟩ := wf1.grow (d := new_size - v1.size) (by omega) (by omega)
    refine ⟨_, ?_, wf', by rw [size']; omega, ?_⟩
    · simp only [prevector.resize_uninitialized, wf.capacity_eq, ok_bind, if_pos full, changed]
    · rw [Items, size', buffer', List.take_take, Nat.min_eq_left (by omega), ← size1, ← Items, same1,
        List.take_of_length_le (by omega)]
  by_cases shorter : new_size < v.size
  · obtain ⟨v', erased, wf', items'⟩ :=
      wf.erase_range new_size v.size (by omega) (Nat.le_refl _)
    have sized : v'.Items.length = new_size := by
      rw [items', List.drop_eq_nil_of_le (by omega), List.append_nil, List.length_take]
      omega
    refine ⟨v', ?_, wf', by rw [← wf'.length_Items, sized], ?_⟩
    · simp only [prevector.resize_uninitialized, wf.capacity_eq, ok_bind, if_neg full, if_pos shorter, erased]
    · rw [List.take_of_length_le (by omega), items', List.drop_eq_nil_of_le (by omega), List.append_nil]
  · obtain ⟨wf', size', buffer'⟩ := wf.grow (d := new_size - v.size) (by omega) (by omega)
    refine ⟨_, ?_, wf', by rw [size']; omega, ?_⟩
    · simp only [prevector.resize_uninitialized, wf.capacity_eq, ok_bind, if_neg full, if_neg shorter]
    · rw [Items, size', buffer', List.take_take, Nat.min_eq_left (by omega), ← Items,
        List.take_of_length_le (by omega)]

@[simp] theorem Items_empty : (empty : prevector N T).Items = [] := by
  rw [Items, size_empty, List.take_zero]

theorem prevector_count_ok [Inhabited T] (n : Nat) (noWrap : N + 1 + n < 2 ^ 32) :
    ∃ v : prevector N T, prevector_count n = .ok v ∧ v.WellFormed ∧ v.Items = List.replicate n (some default) := by
  obtain ⟨v, resized, wf, items⟩ := (empty_wellFormed (N := N) (T := T)).resize n noWrap
  refine ⟨v, resized, wf, ?_⟩
  rw [items, Items_empty, List.take_nil, List.nil_append, size_empty, Nat.sub_zero]

/-- The constructors from a range: room for it in a new prevector, then the
range written at the front. -/
theorem prevector_range_ok (range : List (Option T)) (noWrap : N + 1 + range.length < 2 ^ 32) :
    ∃ v : prevector N T, prevector_range range = .ok v ∧ v.WellFormed ∧ v.Items = range := by
  obtain ⟨v1, changed, wf1, empty1, room1⟩ := empty_change_capacity (N := N) (T := T) range.length (by omega)
  obtain ⟨v, filled, wf, items⟩ := wf1.fill_front (range) empty1 room1 noWrap
  exact ⟨v, by rw [prevector_range, changed, ok_bind, filled], wf, items⟩

theorem prevector_fill_ok (n : Nat) (val : T) (noWrap : N + 1 + n < 2 ^ 32) :
    ∃ v : prevector N T, prevector_fill n val = .ok v ∧ v.WellFormed ∧ v.Items = List.replicate n (some val) := by
  have filled : (List.replicate n (some val)).length = n := List.length_replicate
  obtain ⟨v1, changed, wf1, empty1, room1⟩ := empty_change_capacity (N := N) (T := T) n (by omega)
  obtain ⟨v, filledFront, wf, items⟩ := wf1.fill_front (List.replicate n (some val)) empty1
    (by omega) (by omega)
  exact ⟨v, by rw [prevector_fill, changed, ok_bind, filledFront], wf, items⟩

theorem WellFormed.prevector_copy {other : prevector N T} (wf : other.WellFormed)
    (noWrap : N + 1 + other.size < 2 ^ 32) :
    ∃ v, prevector_copy other = .ok v ∧ v.WellFormed ∧ v.Items = other.Items := by
  obtain ⟨v1, changed, wf1, empty1, room1⟩ := empty_change_capacity (N := N) (T := T) other.size (by omega)
  obtain ⟨v, filled, wfCopy, items⟩ := wf1.fill_front (other.Items) empty1
    (by rw [wf.length_Items]; omega) (by rw [wf.length_Items]; omega)
  exact ⟨v, by rw [prevector.prevector_copy, changed, ok_bind, wf.elements_eq, ok_bind, filled], wfCopy, items⟩

/-- Once `_size` has wrapped into the inline range while the heap block is
live, the fill of `fill_front` goes through the inline array, which holds the
pointer: an inactive union member. -/
theorem fill_front_inactive {indirect range : List (Option T)} {capacity s : Nat}
    (wraps : (s + range.length) % 2 ^ 32 ≤ N) :
    (⟨.indirect_contents indirect capacity, s⟩ : prevector N T).fill_front range =
      .error "inactive union member" := by
  simp only [fill_front, write_items, is_direct, decide_eq_true wraps]

end

end prevector

end Peercoin.Container
