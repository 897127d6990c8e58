import PeercoinFormal.Memory.Slots

/-!
# prevector.h: a vector that keeps up to `N` elements inline

`prevector<N, T>` stores at most `N` elements in an inline array and more in
a heap block.  The member `_size` is the tag: up to `N` it is the size and the
inline array is live; above `N` it is the size plus `N + 1` and the union holds
the heap pointer and the block's capacity.  `size_type` is `uint32_t`, so every
addition to `_size` or to a requested size is taken modulo `2 ^ 32`.

The blocks are `Slots` lists; a slot is `none` until an element is constructed
in it.  Iterators are positions.  Reading a union member that `_size` does not
make live, or a slot past the block, is an error: it is a read of memory outside
the buffer the code allocated.  Arguments are taken by value.
-/

set_option autoImplicit false

namespace Peercoin.Container

open Slots

/-- The storage union: the inline array, or the heap block with its recorded
capacity. -/
inductive direct_or_indirect (T : Type) where
  | direct (slots : List (Option T))
  | indirect_contents (indirect : List (Option T)) (capacity : Nat)

structure prevector (N : Nat) (T : Type) where
  _union : direct_or_indirect T
  _size : Nat

namespace prevector

variable {N : Nat} {T : Type}

/-- `prevector()`: `_union = {}` and `_size = 0`; no element is constructed. -/
def empty : prevector N T := ⟨.direct (alloc N), 0⟩

def is_direct (v : prevector N T) : Bool := decide (v._size ≤ N)

def size (v : prevector N T) : Nat := if v.is_direct then v._size else v._size - N - 1

def direct_ptr (v : prevector N T) : Except String (List (Option T)) :=
  match v._union with
  | .direct slots => .ok slots
  | .indirect_contents _ _ => .error "inactive union member"

def indirect_ptr (v : prevector N T) : Except String (List (Option T)) :=
  match v._union with
  | .indirect_contents indirect _ => .ok indirect
  | .direct _ => .error "inactive union member"

def item_ptr (v : prevector N T) : Except String (List (Option T)) :=
  if v.is_direct then v.direct_ptr else v.indirect_ptr

/-- A write through `item_ptr`: `f` rewrites the block it points into. -/
def write_items (v : prevector N T) (f : List (Option T) → Except String (List (Option T))) :
    Except String (prevector N T) :=
  match v.is_direct, v._union with
  | true, .direct slots => do
    let slots ← f slots
    .ok { v with _union := .direct slots }
  | false, .indirect_contents indirect capacity => do
    let indirect ← f indirect
    .ok { v with _union := .indirect_contents indirect capacity }
  | _, _ => .error "inactive union member"

def capacity (v : prevector N T) : Except String Nat :=
  if v.is_direct then .ok N
  else
    match v._union with
    | .indirect_contents _ capacity => .ok capacity
    | .direct _ => .error "inactive union member"

def change_capacity (v : prevector N T) (new_capacity : Nat) : Except String (prevector N T) :=
  if new_capacity ≤ N then
    if !v.is_direct then do
      let indirect ← v.indirect_ptr
      let moved ← load indirect 0 v.size
      -- memcpy into the inline array, which overlays the pointer; then free(indirect)
      let direct ← store (alloc N) 0 moved
      .ok ⟨.direct direct, v._size - (N + 1)⟩
    else .ok v
  else
    if !v.is_direct then do
      let indirect ← v.indirect_ptr
      .ok { v with _union := .indirect_contents (realloc indirect new_capacity) new_capacity }
    else do
      let direct ← v.direct_ptr
      let moved ← load direct 0 v.size
      let new_indirect ← store (alloc new_capacity) 0 moved
      .ok ⟨.indirect_contents new_indirect new_capacity, (v._size + (N + 1)) % 2 ^ 32⟩

/-- The elements `begin()` to `end()`, as a range to copy from. -/
def elements (v : prevector N T) : Except String (List (Option T)) := do
  let items ← v.item_ptr
  load items 0 v.size

/-- `_size += n; fill(item_ptr(0), first, last)` once room for the `n`
elements of the range is made: the tail the constructors and `assign` share. -/
def fill_front (v : prevector N T) (range : List (Option T)) : Except String (prevector N T) :=
  let v := { v with _size := (v._size + range.length) % 2 ^ 32 }
  v.write_items (fun items => store items 0 range)

/-- The pointers into the block are taken before `_size` changes, so the
tail is moved within the block they point into. -/
def erase_range (v : prevector N T) (first last : Nat) : Except String (prevector N T) := do
  let endp := v.size
  let v ← v.write_items (fun items => move items first last (endp - last))
  .ok { v with _size := v._size - (last - first) }

def erase (v : prevector N T) (pos : Nat) : Except String (prevector N T) :=
  v.erase_range pos (pos + 1)

def pop_back (v : prevector N T) : Except String (prevector N T) :=
  v.erase_range (v.size - 1) v.size

def reserve (v : prevector N T) (new_capacity : Nat) : Except String (prevector N T) := do
  let capacity ← v.capacity
  if new_capacity > capacity then v.change_capacity new_capacity else .ok v

def shrink_to_fit (v : prevector N T) : Except String (prevector N T) :=
  v.change_capacity v.size

/-- Room for `new_size` elements, growing the capacity by half again when it
must grow (`insert`, `emplace_back`). -/
def grow_for (v : prevector N T) (new_size : Nat) : Except String (prevector N T) := do
  let capacity ← v.capacity
  if capacity < new_size then v.change_capacity ((new_size + new_size / 2) % 2 ^ 32) else .ok v

def emplace_back (v : prevector N T) (value : T) : Except String (prevector N T) := do
  let new_size := (v.size + 1) % 2 ^ 32
  let v ← v.grow_for new_size
  let v ← v.write_items (fun items => store items v.size [some value])
  .ok { v with _size := (v._size + 1) % 2 ^ 32 }

def push_back (v : prevector N T) (value : T) : Except String (prevector N T) :=
  v.emplace_back value

/-- `ptr = item_ptr(p)` is taken before `_size++`; the value is constructed
there. -/
def insert (v : prevector N T) (pos : Nat) (value : T) : Except String (prevector N T) := do
  let p := pos
  let new_size := (v.size + 1) % 2 ^ 32
  let v ← v.grow_for new_size
  let v ← v.write_items (fun items => do
    let items ← move items (p + 1) p (v.size - p)
    store items p [some value])
  .ok { v with _size := (v._size + 1) % 2 ^ 32 }

/-- Unlike the other two, the fill goes through `item_ptr(p)` taken after
`_size += count`. -/
def insert_fill (v : prevector N T) (pos count : Nat) (value : T) : Except String (prevector N T) := do
  let p := pos
  let new_size := (v.size + count) % 2 ^ 32
  let v ← v.grow_for new_size
  let v ← v.write_items (fun items => move items (p + count) p (v.size - p))
  let v := { v with _size := (v._size + count) % 2 ^ 32 }
  v.write_items (fun items => store items p (List.replicate count (some value)))

def insert_range (v : prevector N T) (pos : Nat) (range : List (Option T)) :
    Except String (prevector N T) := do
  let p := pos
  let count := range.length
  let new_size := (v.size + count) % 2 ^ 32
  let v ← v.grow_for new_size
  let v ← v.write_items (fun items => do
    let items ← move items (p + count) p (v.size - p)
    store items p range)
  .ok { v with _size := (v._size + count) % 2 ^ 32 }

/-- `operator[]` on the left of an assignment. -/
def write (v : prevector N T) (pos : Nat) (value : T) : Except String (prevector N T) :=
  v.write_items (fun items => store items pos [some value])

/-- The new slots are left as the block has them, to be written next. -/
def resize_uninitialized (v : prevector N T) (new_size : Nat) : Except String (prevector N T) := do
  let capacity ← v.capacity
  if capacity < new_size then do
    let v ← v.change_capacity new_size
    .ok { v with _size := (v._size + (new_size - v.size)) % 2 ^ 32 }
  else if new_size < v.size then v.erase_range new_size v.size
  else .ok { v with _size := (v._size + (new_size - v.size)) % 2 ^ 32 }

def swap (v other : prevector N T) : prevector N T × prevector N T :=
  (other, v)

section

variable [Inhabited T]

/-- New elements are `T{}`, read as `default`. -/
def resize (v : prevector N T) (new_size : Nat) : Except String (prevector N T) := do
  let cur_size := v.size
  if cur_size = new_size then .ok v
  else if cur_size > new_size then v.erase_range new_size cur_size
  else do
    let capacity ← v.capacity
    let v ← if new_size > capacity then v.change_capacity new_size else .ok v
    let increase := new_size - cur_size
    let v ← v.write_items (fun items => store items cur_size (List.replicate increase (some default)))
    .ok { v with _size := (v._size + increase) % 2 ^ 32 }

def clear (v : prevector N T) : Except String (prevector N T) :=
  v.resize 0

/-- `assign(first, last)`: the source's `if (capacity() < n) change_capacity(n)`
is `reserve(n)`. -/
def assign (v : prevector N T) (range : List (Option T)) : Except String (prevector N T) := do
  let v ← v.clear
  let v ← v.reserve range.length
  v.fill_front range

def assign_fill (v : prevector N T) (n : Nat) (val : T) : Except String (prevector N T) :=
  v.assign (List.replicate n (some val))

/-- `explicit prevector(size_type n)`. -/
def prevector_count (n : Nat) : Except String (prevector N T) :=
  (empty : prevector N T).resize n

end

/-- `explicit prevector(size_type n, const T& val)`. -/
def prevector_fill (n : Nat) (val : T) : Except String (prevector N T) := do
  let v ← (empty : prevector N T).change_capacity n
  v.fill_front (List.replicate n (some val))

/-- `prevector(InputIterator first, InputIterator last)`. -/
def prevector_range (range : List (Option T)) : Except String (prevector N T) := do
  let v ← (empty : prevector N T).change_capacity range.length
  v.fill_front range

/-- `operator=(const prevector& other)`; `same` is `&other == this`. -/
def copy_assign [Inhabited T] (v other : prevector N T) (same : Bool) : Except String (prevector N T) :=
  if same then .ok v
  else do
    let range ← other.elements
    v.assign range

/-- `operator=(prevector&& other)` swaps. -/
def move_assign (v other : prevector N T) : prevector N T × prevector N T :=
  swap v other

/-- The copy constructor. -/
def prevector_copy (other : prevector N T) : Except String (prevector N T) := do
  let v ← (empty : prevector N T).change_capacity other.size
  let range ← other.elements
  v.fill_front range

/-- The move constructor swaps with a new empty prevector. -/
def prevector_move (other : prevector N T) : prevector N T × prevector N T :=
  swap empty other

end prevector

end Peercoin.Container
