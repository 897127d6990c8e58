import PeercoinFormal.Container.PrevectorSpec

/-!
# prevector refines std::vector

A program holds numbered prevectors and calls their members (`Op`); `Step`
runs one call on the model, `Op.Apply` on lists, which is what `std::vector`
does, with `none` where the call's precondition fails (an index past the end,
`pop_back` on an empty vector, or a variable that does not exist).

While no size passes the bound at which `uint32_t` arithmetic on `_size`
or on the grown capacity would wrap, every prevector stays well formed and
holds its list, and no call reads or writes outside the live block.  Past
that bound it fails: `prevector(n, val)` with `n = 2 ^ 32 - N - 1` wraps
`_size` to `0`, and the fill then writes through the inline array while the
heap block is live.
-/

set_option autoImplicit false

namespace Peercoin.Container

open Slots Ledger prevector

variable {N : Nat} {T : Type}

/-- The calls a program makes, on prevectors numbered in the order they were
made; ranges come from outside, by value. -/
inductive Op (T : Type) where
  | construct
  | construct_count (n : Nat)
  | construct_fill (n : Nat) (val : T)
  | construct_range (range : List T)
  | construct_copy (other : Nat)
  | construct_move (other : Nat)
  | copy_assign (v other : Nat)
  | move_assign (v other : Nat)
  | assign (v : Nat) (range : List T)
  | assign_fill (v n : Nat) (val : T)
  | push_back (v : Nat) (value : T)
  | emplace_back (v : Nat) (value : T)
  | pop_back (v : Nat)
  | insert (v pos : Nat) (value : T)
  | insert_fill (v pos count : Nat) (value : T)
  | insert_range (v pos : Nat) (range : List T)
  | erase (v pos : Nat)
  | erase_range (v first last : Nat)
  | resize (v n : Nat)
  | resize_uninitialized (v n : Nat) (writes : List T)
  | reserve (v n : Nat)
  | shrink_to_fit (v : Nat)
  | swap (v other : Nat)
  | clear (v : Nat)

/-- `resize_uninitialized` is followed by writes to the new slots, from the
old end on. -/
def write_from (v : prevector N T) (pos : Nat) : List T → Except String (prevector N T)
  | [] => .ok v
  | value :: rest => do
    let v ← v.write pos value
    write_from v (pos + 1) rest

def lookup (store : List (prevector N T)) (i : Nat) : Except String (prevector N T) :=
  match store[i]? with
  | some v => .ok v
  | none => .error "no such prevector"

def update (store : List (prevector N T)) (i : Nat)
    (call : prevector N T → Except String (prevector N T)) : Except String (List (prevector N T)) := do
  let v ← lookup store i
  let v ← call v
  .ok (store.set i v)

/-- The two prevectors `i` and `j` given the pair that `swap` or a move
leaves. -/
def exchange (store : List (prevector N T)) (i j : Nat)
    (call : prevector N T → prevector N T → prevector N T × prevector N T) :
    Except String (List (prevector N T)) := do
  let v ← lookup store i
  let other ← lookup store j
  let (v, other) := call v other
  .ok ((store.set i v).set j other)

section

variable [Inhabited T]

def Step (store : List (prevector N T)) : Op T → Except String (List (prevector N T))
  | .construct => .ok (store ++ [empty])
  | .construct_count n => do
    let v ← prevector_count n
    .ok (store ++ [v])
  | .construct_fill n val => do
    let v ← prevector_fill n val
    .ok (store ++ [v])
  | .construct_range range => do
    let v ← prevector_range (range.map some)
    .ok (store ++ [v])
  | .construct_copy other => do
    let other ← lookup store other
    let v ← prevector_copy other
    .ok (store ++ [v])
  | .construct_move other => do
    let moved ← lookup store other
    let (v, rest) := prevector_move moved
    .ok (store.set other rest ++ [v])
  | .copy_assign i j => do
    let other ← lookup store j
    update store i (fun v => v.copy_assign other (i == j))
  | .move_assign i j => exchange store i j move_assign
  | .assign i range => update store i (·.assign (range.map some))
  | .assign_fill i n val => update store i (·.assign_fill n val)
  | .push_back i value => update store i (·.push_back value)
  | .emplace_back i value => update store i (·.emplace_back value)
  | .pop_back i => update store i pop_back
  | .insert i pos value => update store i (·.insert pos value)
  | .insert_fill i pos count value => update store i (·.insert_fill pos count value)
  | .insert_range i pos range => update store i (·.insert_range pos (range.map some))
  | .erase i pos => update store i (·.erase pos)
  | .erase_range i first last => update store i (·.erase_range first last)
  | .resize i n => update store i (·.resize n)
  | .resize_uninitialized i n writes => update store i (fun v => do
    let old := v.size
    let v ← v.resize_uninitialized n
    write_from v old writes)
  | .reserve i n => update store i (·.reserve n)
  | .shrink_to_fit i => update store i shrink_to_fit
  | .swap i j => exchange store i j prevector.swap
  | .clear i => update store i prevector.clear

def Run (store : List (prevector N T)) : List (Op T) → Except String (List (prevector N T))
  | [] => .ok store
  | op :: ops => do
    let store ← Step store op
    Run store ops

end

/-! ## std::vector -/

namespace Op

/-- List `i` replaced by `f` of it. -/
def ModifyRef (refs : List (List T)) (i : Nat) (f : List T → Option (List T)) : Option (List (List T)) := do
  let l ← refs[i]?
  let l ← f l
  some (refs.set i l)

/-- Lists `i` and `j` exchanged. -/
def SwapRef (refs : List (List T)) (i j : Nat) : Option (List (List T)) := do
  let l ← refs[i]?
  let other ← refs[j]?
  some ((refs.set i other).set j l)

/-- What each call does to a `std::vector`.  A moved-from vector is valid
with unspecified contents; after move assignment it holds the target's old
elements, as a swap leaves it, and after move construction it is empty. -/
def Apply [Inhabited T] (refs : List (List T)) : Op T → Option (List (List T))
  | .construct => some (refs ++ [[]])
  | .construct_count n => some (refs ++ [List.replicate n default])
  | .construct_fill n val => some (refs ++ [List.replicate n val])
  | .construct_range range => some (refs ++ [range])
  | .construct_copy other => do
    let l ← refs[other]?
    some (refs ++ [l])
  | .construct_move other => do
    let l ← refs[other]?
    some (refs.set other [] ++ [l])
  | .copy_assign i j => do
    let l ← refs[j]?
    ModifyRef refs i fun _ => some l
  | .move_assign i j => SwapRef refs i j
  | .assign i range => ModifyRef refs i fun _ => some range
  | .assign_fill i n val => ModifyRef refs i fun _ => some (List.replicate n val)
  | .push_back i value => ModifyRef refs i fun l => some (l ++ [value])
  | .emplace_back i value => ModifyRef refs i fun l => some (l ++ [value])
  | .pop_back i => ModifyRef refs i fun l => if l = [] then none else some l.dropLast
  | .insert i pos value => ModifyRef refs i fun l =>
    if pos ≤ l.length then some (l.take pos ++ value :: l.drop pos) else none
  | .insert_fill i pos count value => ModifyRef refs i fun l =>
    if pos ≤ l.length then some (l.take pos ++ List.replicate count value ++ l.drop pos) else none
  | .insert_range i pos range => ModifyRef refs i fun l =>
    if pos ≤ l.length then some (l.take pos ++ range ++ l.drop pos) else none
  | .erase i pos => ModifyRef refs i fun l =>
    if pos < l.length then some (l.take pos ++ l.drop (pos + 1)) else none
  | .erase_range i first last => ModifyRef refs i fun l =>
    if first ≤ last ∧ last ≤ l.length then some (l.take first ++ l.drop last) else none
  | .resize i n => ModifyRef refs i fun l => some (l.take n ++ List.replicate (n - l.length) default)
  | .resize_uninitialized i n writes => ModifyRef refs i fun l =>
    if writes.length = n - l.length then some (l.take n ++ writes) else none
  | .reserve i _ => ModifyRef refs i some
  | .shrink_to_fit i => ModifyRef refs i some
  | .swap i j => SwapRef refs i j
  | .clear i => ModifyRef refs i fun _ => some []

end Op

def RunRef [Inhabited T] (refs : List (List T)) : List (Op T) → Option (List (List T))
  | [] => some refs
  | op :: ops => do
    let refs ← op.Apply refs
    RunRef refs ops

/-- A prevector holding the elements of a list. -/
structure Represents (v : prevector N T) (l : List T) : Prop where
  wf : v.WellFormed
  items : v.Items = l.map some

/-- The program's prevectors hold its lists, one for one. -/
structure Refines (store : List (prevector N T)) (refs : List (List T)) : Prop where
  length : store.length = refs.length
  each : ∀ (i : Nat) (v : prevector N T) (l : List T), store[i]? = some v → refs[i]? = some l → Represents v l

/-- No list has more than `b` elements. -/
def Bounded (b : Nat) (refs : List (List T)) : Prop :=
  ∀ l ∈ refs, l.length ≤ b

instance (b : Nat) (refs : List (List T)) : Decidable (Bounded b refs) :=
  inferInstanceAs (Decidable (∀ l ∈ refs, l.length ≤ b))

/-! ## Each call keeps a prevector holding its list -/

namespace Represents

variable {v : prevector N T} {l : List T} {b : Nat}

theorem size_eq (rep : Represents v l) : v.size = l.length := by
  rw [← rep.wf.length_Items, rep.items, List.length_map]

section

variable (fits : N + 1 + b + b / 2 < 2 ^ 32)
include fits

theorem emplace_back {value : T} (rep : Represents v l) (short : l.length + 1 ≤ b) :
    ∃ v', v.emplace_back value = .ok v' ∧ Represents v' (l ++ [value]) := by
  have sized := rep.size_eq
  obtain ⟨v', placed, wf', items'⟩ := rep.wf.emplace_back value (by omega)
  exact ⟨v', placed, wf', by rw [items', rep.items, List.map_append, List.map_cons, List.map_nil]⟩

theorem insert_range (rep : Represents v l) (pos : Nat) (range : List T) (inside : pos ≤ l.length)
    (short : l.length + range.length ≤ b) :
    ∃ v', v.insert_range pos (range.map some) = .ok v' ∧ Represents v' (l.take pos ++ range ++ l.drop pos) := by
  have sized := rep.size_eq
  obtain ⟨v', inserted, wf', items'⟩ := rep.wf.insert_range pos (range.map some)
    (by omega) (by rw [List.length_map]; omega)
  exact ⟨v', inserted, wf', by rw [items', rep.items, List.map_append, List.map_append, List.map_take,
    List.map_drop]⟩

theorem insert_fill {pos count : Nat} {value : T} (rep : Represents v l) (inside : pos ≤ l.length)
    (short : l.length + count ≤ b) :
    ∃ v', v.insert_fill pos count value = .ok v' ∧
      Represents v' (l.take pos ++ List.replicate count value ++ l.drop pos) := by
  have sized := rep.size_eq
  obtain ⟨v', inserted, wf', items'⟩ := rep.wf.insert_fill pos count value
    (by omega) (by omega)
  exact ⟨v', inserted, wf', by rw [items', rep.items, List.map_append, List.map_append, List.map_take,
    List.map_drop, List.map_replicate]⟩

end

theorem erase_range (rep : Represents v l) (first last : Nat) (ordered : first ≤ last) (inside : last ≤ l.length) :
    ∃ v', v.erase_range first last = .ok v' ∧ Represents v' (l.take first ++ l.drop last) := by
  have sized := rep.size_eq
  obtain ⟨v', erased, wf', items'⟩ := rep.wf.erase_range first last ordered (by omega)
  exact ⟨v', erased, wf', by rw [items', rep.items, List.map_append, List.map_take, List.map_drop]⟩

theorem pop_back (rep : Represents v l) (nonempty : l ≠ []) :
    ∃ v', v.pop_back = .ok v' ∧ Represents v' l.dropLast := by
  have sized := rep.size_eq
  have some := List.length_pos_iff.mpr nonempty
  obtain ⟨v', erased, rep'⟩ := rep.erase_range (l.length - 1) l.length (by omega) (by omega)
  refine ⟨v', by rw [prevector.pop_back, sized, erased], ?_⟩
  rwa [List.drop_length, List.append_nil, ← List.dropLast_eq_take] at rep'

theorem reserve {n b : Nat} (rep : Represents v l) (fits : N + 1 + b + b / 2 < 2 ^ 32) (short : l.length ≤ b) :
    ∃ v', v.reserve n = .ok v' ∧ Represents v' l := by
  have sized := rep.size_eq
  obtain ⟨v', reserved, wf', items', -⟩ := rep.wf.reserve (n := n) (by omega)
  exact ⟨v', reserved, wf', by rw [items', rep.items]⟩

theorem shrink_to_fit {b : Nat} (rep : Represents v l) (fits : N + 1 + b + b / 2 < 2 ^ 32) (short : l.length ≤ b) :
    ∃ v', v.shrink_to_fit = .ok v' ∧ Represents v' l := by
  have sized := rep.size_eq
  obtain ⟨v', shrunk, wf', items', -⟩ := rep.wf.shrink_to_fit (by omega)
  exact ⟨v', shrunk, wf', by rw [items', rep.items]⟩

section

variable [Inhabited T]

theorem resize {n b : Nat} (rep : Represents v l) (fits : N + 1 + b + b / 2 < 2 ^ 32) (short : n ≤ b) :
    ∃ v', v.resize n = .ok v' ∧ Represents v' (l.take n ++ List.replicate (n - l.length) default) := by
  have sized := rep.size_eq
  obtain ⟨v', resized, wf', items'⟩ := rep.wf.resize n (by omega)
  exact ⟨v', resized, wf', by rw [items', rep.items, sized, List.map_append, List.map_take,
    List.map_replicate]⟩

theorem assign {b : Nat} (rep : Represents v l) (range : List T) (fits : N + 1 + b + b / 2 < 2 ^ 32)
    (short : range.length ≤ b) :
    ∃ v', v.assign (range.map some) = .ok v' ∧ Represents v' range := by
  obtain ⟨v', assigned, wf', items'⟩ := rep.wf.assign (range.map some)
    (by rw [List.length_map]; omega)
  exact ⟨v', assigned, wf', items'⟩

theorem copy_assign {other : prevector N T} {l' : List T} {same : Bool} {b : Nat} (rep : Represents v l)
    (rep' : Represents other l') (fits : N + 1 + b + b / 2 < 2 ^ 32) (short : l'.length ≤ b)
    (identical : same = true → l = l') :
    ∃ v', v.copy_assign other same = .ok v' ∧ Represents v' l' := by
  cases same with
  | true => exact ⟨v, rfl, identical rfl ▸ rep⟩
  | false =>
    obtain ⟨v', assigned, rep''⟩ := rep.assign l' fits short
    refine ⟨v', ?_, rep''⟩
    rw [prevector.copy_assign, if_neg Bool.false_ne_true, rep'.wf.elements_eq, ok_bind, rep'.items, assigned]

theorem clear {b : Nat} (rep : Represents v l) (fits : N + 1 + b + b / 2 < 2 ^ 32) :
    ∃ v', v.clear = .ok v' ∧ Represents v' [] := by
  obtain ⟨v', cleared, wf', items'⟩ := rep.wf.clear (by omega)
  exact ⟨v', cleared, wf', items'⟩

end

end Represents

/-- The writes after `resize_uninitialized` fill the slots from `pos` on. -/
theorem prevector.WellFormed.write_from {v : prevector N T} {pos : Nat} {writes : List T}
    (wf : v.WellFormed) (room : pos + writes.length ≤ v.Buffer.length) :
    write_from v pos writes = .ok (v.SetBuffer (overwrite v.Buffer pos (writes.map some))) := by
  induction writes generalizing v pos with
  | nil => simp [Container.write_from]
  | cons value rest ih =>
    rw [List.length_cons] at room
    have first : pos + [some value].length ≤ v.Buffer.length := by
      rw [List.length_singleton]
      omega
    have wf1 := wf.SetBuffer (overwrite v.Buffer pos [some value]) (length_overwrite first)
    have later := @ih _ (pos + 1) wf1 (by rw [Buffer_SetBuffer, length_overwrite first]; omega)
    rw [Container.write_from, wf.write (by omega), ok_bind, later, SetBuffer_SetBuffer, Buffer_SetBuffer, List.map_cons,
      overwrite_cons (by rw [List.length_cons, List.length_map]; omega)]

namespace Represents

variable {v : prevector N T} {l : List T}

/-- `resize_uninitialized(n)` and the writes of the new slots. -/
theorem resize_uninitialized {n b : Nat} {writes : List T} (rep : Represents v l)
    (fits : N + 1 + b + b / 2 < 2 ^ 32) (short : n ≤ b) (exact : writes.length = n - l.length) :
    ∃ v', (do
        let old := v.size
        let v ← v.resize_uninitialized n
        write_from v old writes) = .ok v' ∧ Represents v' (l.take n ++ writes) := by
  have sized := rep.size_eq
  obtain ⟨v1, resized, wf1, size1, prefix1⟩ := rep.wf.resize_uninitialized n (by omega)
  have length1 := wf1.length_Items
  by_cases longer : l.length ≤ n
  · -- the new slots are written, the old elements kept below them
    have room := wf1.size_le
    have written : v.size + (writes.map some).length ≤ v1.Buffer.length := by
      rw [List.length_map]
      omega
    have wf2 := wf1.SetBuffer (overwrite v1.Buffer v.size (writes.map some)) (length_overwrite written)
    refine ⟨_, by simp only [resized, ok_bind]; exact wf1.write_from (by rw [← List.length_map (f := some)]; omega),
      wf2, ?_⟩
    have kept : v1.Buffer.take v.size = l.map some := by
      have below : v1.Buffer.take v.size = v1.Items.take v.size := by
        rw [Items, List.take_take, Nat.min_eq_left (by omega)]
      rw [below, prefix1, rep.items, List.take_of_length_le (by rw [List.length_map]; omega)]
    rw [Items, size_SetBuffer, Buffer_SetBuffer, size1, List.take_of_length_le longer,
      show n = v.size + (writes.map some).length by rw [List.length_map]; omega, take_overwrite_append written,
      kept, List.map_append]
  · -- nothing is written: the prevector was cut to `n`
    have none : writes = [] := List.eq_nil_of_length_eq_zero (by omega)
    subst none
    refine ⟨v1, by simp only [resized, ok_bind]; rfl, wf1, ?_⟩
    rw [List.append_nil, ← List.take_of_length_le (l := v1.Items) (i := v.size) (by omega), prefix1, rep.items,
      List.map_take]

end Represents

theorem represents_empty : Represents (empty : prevector N T) [] :=
  ⟨empty_wellFormed, Items_empty⟩

/-! ## The program's prevectors -/

namespace Refines

variable {store : List (prevector N T)} {refs : List (List T)}

theorem nil : Refines ([] : List (prevector N T)) [] :=
  ⟨rfl, fun _ _ _ found => by simp at found⟩

theorem lookup {i : Nat} {l : List T} (r : Refines store refs) (found : refs[i]? = some l) :
    ∃ v, Container.lookup store i = .ok v ∧ Represents v l := by
  have inside : i < store.length := by
    rw [r.length]
    exact (List.getElem?_eq_some_iff.mp found).1
  refine ⟨store[i], by simp [Container.lookup, List.getElem?_eq_getElem inside], ?_⟩
  exact r.each i _ l (List.getElem?_eq_getElem inside) found

theorem set {i : Nat} {v : prevector N T} {l : List T} (r : Refines store refs) (rep : Represents v l) :
    Refines (store.set i v) (refs.set i l) := by
  refine ⟨by rw [List.length_set, List.length_set, r.length], fun j w m stored found => ?_⟩
  by_cases here : i = j
  · subst here
    have inside : i < refs.length := by
      have := (List.getElem?_eq_some_iff.mp found).1
      rwa [List.length_set] at this
    rw [List.getElem?_set_self (by rw [r.length]; exact inside)] at stored
    rw [List.getElem?_set_self inside] at found
    cases stored
    cases found
    exact rep
  · rw [List.getElem?_set_ne here] at stored found
    exact r.each j w m stored found

theorem append {v : prevector N T} {l : List T} (r : Refines store refs) (rep : Represents v l) :
    Refines (store ++ [v]) (refs ++ [l]) := by
  refine ⟨by simp only [List.length_append, List.length_singleton, r.length], fun j w m stored found => ?_⟩
  by_cases old : j < store.length
  · rw [List.getElem?_append_left old] at stored
    rw [List.getElem?_append_left (by rw [← r.length]; exact old)] at found
    exact r.each j w m stored found
  · rw [List.getElem?_append_right (by omega)] at stored
    rw [List.getElem?_append_right (by rw [← r.length]; omega), ← r.length] at found
    have last : j - store.length = 0 := by
      have := (List.getElem?_eq_some_iff.mp stored).1
      simp only [List.length_cons, List.length_nil] at this
      omega
    rw [last] at stored found
    cases stored
    cases found
    exact rep

/-- A call on prevector `i` that keeps it holding the list `f` makes of its old one. -/
theorem update {i : Nat} {l l' : List T} {call : prevector N T → Except String (prevector N T)}
    (r : Refines store refs) (found : refs[i]? = some l)
    (works : ∀ v, Represents v l → ∃ v', call v = .ok v' ∧ Represents v' l') :
    ∃ store', Container.update store i call = .ok store' ∧ Refines store' (refs.set i l') := by
  obtain ⟨v, looked, rep⟩ := r.lookup found
  obtain ⟨v', called, rep'⟩ := works v rep
  exact ⟨_, by rw [Container.update, looked, ok_bind, called, ok_bind], r.set rep'⟩

/-- `swap` and move assignment exchange two prevectors. -/
theorem exchange {i j : Nat} {l l' : List T} (r : Refines store refs) (found : refs[i]? = some l)
    (found' : refs[j]? = some l') :
    ∃ store', Container.exchange store i j (fun v other => (other, v)) = .ok store' ∧
      Refines store' ((refs.set i l').set j l) := by
  obtain ⟨v, looked, rep⟩ := r.lookup found
  obtain ⟨v', looked', rep'⟩ := r.lookup found'
  exact ⟨_, by rw [Container.exchange, looked, ok_bind, looked', ok_bind], (r.set rep').set rep⟩

/-- Every prevector's size is within its capacity, which is `N` while the
inline array is live. -/
theorem capacity_bounds (r : Refines store refs) :
    ∀ v ∈ store, ∃ c, v.capacity = .ok c ∧ v.size ≤ c ∧ (v.is_direct = true → c = N) := by
  intro v member
  obtain ⟨i, inside, rfl⟩ := List.getElem_of_mem member
  have inside' : i < refs.length := by
    rw [← r.length]
    exact inside
  exact (r.each i _ refs[i] (List.getElem?_eq_getElem inside) (List.getElem?_eq_getElem inside')).wf.capacity_bounds

end Refines

/-! ## Runs -/

namespace Op

variable {refs refs' : List (List T)}

theorem ModifyRef_some {i : Nat} {f : List T → Option (List T)} (applied : ModifyRef refs i f = some refs') :
    ∃ l l', refs[i]? = some l ∧ f l = some l' ∧ refs' = refs.set i l' := by
  simp only [ModifyRef, Option.bind_eq_bind, Option.bind_eq_some_iff, Option.some.injEq] at applied
  obtain ⟨l, found, l', changed, rfl⟩ := applied
  exact ⟨l, l', found, changed, rfl⟩

theorem SwapRef_some {i j : Nat} (applied : SwapRef refs i j = some refs') :
    ∃ l l', refs[i]? = some l ∧ refs[j]? = some l' ∧ refs' = (refs.set i l').set j l := by
  simp only [SwapRef, Option.bind_eq_bind, Option.bind_eq_some_iff, Option.some.injEq] at applied
  obtain ⟨l, found, l', found', rfl⟩ := applied
  exact ⟨l, l', found, found', rfl⟩

end Op

namespace Bounded

variable {b : Nat} {refs : List (List T)}

theorem of_set {i : Nat} {l l' : List T} (bounded : Bounded b (refs.set i l')) (found : refs[i]? = some l) :
    l'.length ≤ b :=
  bounded l' (List.mem_set (List.getElem?_eq_some_iff.mp found).1 l')

theorem of_append {l : List T} (bounded : Bounded b (refs ++ [l])) : l.length ≤ b :=
  bounded l (List.mem_append_right _ (List.mem_singleton_self l))

end Bounded

section

variable [Inhabited T] {b : Nat} {store : List (prevector N T)} {refs refs' : List (List T)}

/-- One call: from prevectors that hold their lists, the call succeeds and
they hold the lists `std::vector` leaves. -/
theorem Refines.step (fits : N + 1 + b + b / 2 < 2 ^ 32) {op : Op T} (r : Refines store refs)
    (applied : op.Apply refs = some refs') (bounded' : Bounded b refs') :
    ∃ store', Step store op = .ok store' ∧ Refines store' refs' := by
  cases op with
  | construct =>
    cases applied
    exact ⟨_, rfl, r.append represents_empty⟩
  | construct_count n =>
    cases applied
    have short := bounded'.of_append
    rw [List.length_replicate] at short
    obtain ⟨v, made, wf, items⟩ := prevector_count_ok (N := N) (T := T) n (by omega)
    exact ⟨_, by rw [Step, made, ok_bind], r.append ⟨wf, by rw [items, List.map_replicate]⟩⟩
  | construct_fill n val =>
    cases applied
    have short := bounded'.of_append
    rw [List.length_replicate] at short
    obtain ⟨v, made, wf, items⟩ := prevector_fill_ok (N := N) n val (by omega)
    exact ⟨_, by rw [Step, made, ok_bind], r.append ⟨wf, by rw [items, List.map_replicate]⟩⟩
  | construct_range range =>
    cases applied
    have short := bounded'.of_append
    obtain ⟨v, made, wf, items⟩ := prevector_range_ok (N := N) (range.map some) (by rw [List.length_map]; omega)
    exact ⟨_, by rw [Step, made, ok_bind], r.append ⟨wf, items⟩⟩
  | construct_copy other =>
    simp only [Op.Apply, Option.bind_eq_bind, Option.bind_eq_some_iff, Option.some.injEq] at applied
    obtain ⟨l, found, rfl⟩ := applied
    have short := bounded'.of_append
    obtain ⟨v, looked, rep⟩ := r.lookup found
    obtain ⟨copy, made, wf, items⟩ := rep.wf.prevector_copy (by rw [rep.size_eq]; omega)
    exact ⟨_, by rw [Step, looked, ok_bind, made, ok_bind], r.append ⟨wf, by rw [items, rep.items]⟩⟩
  | construct_move other =>
    simp only [Op.Apply, Option.bind_eq_bind, Option.bind_eq_some_iff, Option.some.injEq] at applied
    obtain ⟨l, found, rfl⟩ := applied
    obtain ⟨v, looked, rep⟩ := r.lookup found
    exact ⟨_, by rw [Step, looked, ok_bind]; rfl, (r.set represents_empty).append rep⟩
  | copy_assign i j =>
    simp only [Op.Apply, Option.bind_eq_bind, Option.bind_eq_some_iff] at applied
    obtain ⟨l', found', modified⟩ := applied
    obtain ⟨l, _, found, changed, rfl⟩ := Op.ModifyRef_some modified
    cases changed
    obtain ⟨other, looked, rep'⟩ := r.lookup found'
    obtain ⟨store', updated, r'⟩ : ∃ store', Container.update store i (fun v => v.copy_assign other (i == j)) = .ok store' ∧
        Refines store' (refs.set i l') := r.update found
      fun v rep => rep.copy_assign rep' fits (bounded'.of_set found) (fun same => by
        rw [beq_iff_eq] at same
        subst same
        rw [found] at found'
        exact Option.some.inj found')
    exact ⟨store', by rw [Step, looked, ok_bind, updated], r'⟩
  | move_assign i j =>
    obtain ⟨l, l', found, found', rfl⟩ := Op.SwapRef_some applied
    exact r.exchange found found'
  | swap i j =>
    obtain ⟨l, l', found, found', rfl⟩ := Op.SwapRef_some applied
    exact r.exchange found found'
  | assign i range =>
    obtain ⟨l, l', found, changed, rfl⟩ := Op.ModifyRef_some applied
    cases changed
    exact r.update found fun v rep => rep.assign range fits (bounded'.of_set found)
  | assign_fill i n val =>
    obtain ⟨l, l', found, changed, rfl⟩ := Op.ModifyRef_some applied
    cases changed
    have short := bounded'.of_set found
    rw [List.length_replicate] at short
    exact r.update found fun v rep => by
      obtain ⟨v', assigned, rep'⟩ := rep.assign (List.replicate n val) fits
        (by rw [List.length_replicate]; exact short)
      exact ⟨v', by rw [assign_fill, ← assigned, List.map_replicate], rep'⟩
  | push_back i value =>
    obtain ⟨l, l', found, changed, rfl⟩ := Op.ModifyRef_some applied
    cases changed
    have short := bounded'.of_set found
    rw [List.length_append, List.length_singleton] at short
    exact r.update found fun v rep => rep.emplace_back fits short
  | emplace_back i value =>
    obtain ⟨l, l', found, changed, rfl⟩ := Op.ModifyRef_some applied
    cases changed
    have short := bounded'.of_set found
    rw [List.length_append, List.length_singleton] at short
    exact r.update found fun v rep => rep.emplace_back fits short
  | pop_back i =>
    obtain ⟨l, l', found, changed, rfl⟩ := Op.ModifyRef_some applied
    split at changed
    · cases changed
    · cases changed
      exact r.update found fun v rep => rep.pop_back ‹_›
  | insert i pos value =>
    obtain ⟨l, l', found, changed, rfl⟩ := Op.ModifyRef_some applied
    split at changed
    · cases changed
      have short := bounded'.of_set found
      simp only [List.length_append, List.length_cons, List.length_take, List.length_drop] at short
      exact r.update found fun v rep => by
        obtain ⟨v', inserted, rep'⟩ := rep.insert_range fits pos [value] ‹_›
          (by rw [List.length_singleton]; omega)
        exact ⟨v', by rw [insert_eq_insert_range, ← inserted]; rfl, by simpa using rep'⟩
    · cases changed
  | insert_fill i pos count value =>
    obtain ⟨l, l', found, changed, rfl⟩ := Op.ModifyRef_some applied
    split at changed
    · cases changed
      have short := bounded'.of_set found
      simp only [List.length_append, List.length_replicate, List.length_take, List.length_drop] at short
      exact r.update found fun v rep => rep.insert_fill fits ‹_› (by omega)
    · cases changed
  | insert_range i pos range =>
    obtain ⟨l, l', found, changed, rfl⟩ := Op.ModifyRef_some applied
    split at changed
    · cases changed
      have short := bounded'.of_set found
      simp only [List.length_append, List.length_take, List.length_drop] at short
      exact r.update found fun v rep => rep.insert_range fits pos range ‹_› (by omega)
    · cases changed
  | erase i pos =>
    obtain ⟨l, l', found, changed, rfl⟩ := Op.ModifyRef_some applied
    split at changed
    · cases changed
      exact r.update found fun v rep => rep.erase_range pos (pos + 1) (Nat.le_succ pos) ‹_›
    · cases changed
  | erase_range i first last =>
    obtain ⟨l, l', found, changed, rfl⟩ := Op.ModifyRef_some applied
    split at changed
    · rename_i within
      cases changed
      exact r.update found fun v rep => rep.erase_range first last within.1 within.2
    · cases changed
  | resize i n =>
    obtain ⟨l, l', found, changed, rfl⟩ := Op.ModifyRef_some applied
    cases changed
    have short := bounded'.of_set found
    simp only [List.length_append, List.length_take, List.length_replicate] at short
    exact r.update found fun v rep => rep.resize fits (by omega)
  | resize_uninitialized i n writes =>
    obtain ⟨l, l', found, changed, rfl⟩ := Op.ModifyRef_some applied
    split at changed
    · cases changed
      have short := bounded'.of_set found
      simp only [List.length_append, List.length_take] at short
      exact r.update found fun v rep => rep.resize_uninitialized fits (by omega) ‹_›
    · cases changed
  | reserve i n =>
    obtain ⟨l, l', found, changed, rfl⟩ := Op.ModifyRef_some applied
    cases changed
    exact r.update found fun v rep => rep.reserve fits (bounded'.of_set found)
  | shrink_to_fit i =>
    obtain ⟨l, l', found, changed, rfl⟩ := Op.ModifyRef_some applied
    cases changed
    exact r.update found fun v rep => rep.shrink_to_fit fits (bounded'.of_set found)
  | clear i =>
    obtain ⟨l, l', found, changed, rfl⟩ := Op.ModifyRef_some applied
    cases changed
    exact r.update found fun v rep => rep.clear fits

end

theorem RunRef_cons [Inhabited T] {refs : List (List T)} {op : Op T} {ops : List (Op T)} :
    RunRef refs (op :: ops) = (op.Apply refs).bind fun mid => RunRef mid ops := rfl

/-- While no list passes `b`, with `N + 1 + b + b / 2 < 2 ^ 32` so that no
addition on `_size` or on a grown capacity wraps, every run of calls on
prevectors succeeds, leaves each one well formed with the elements of the
`std::vector` given the same calls, its size within its capacity and that
capacity `N` while it is inline; no call reads or writes a slot outside the
live block. -/
theorem prevector_refines_vector [Inhabited T] {b : Nat} (fits : N + 1 + b + b / 2 < 2 ^ 32) :
    ∀ (ops : List (Op T)) (store : List (prevector N T)) (refs refs' : List (List T)),
      Refines store refs →
      (∀ k mid, RunRef refs (ops.take k) = some mid → Bounded b mid) →
      RunRef refs ops = some refs' →
      ∃ store', Run store ops = .ok store' ∧ Refines store' refs' ∧
        ∀ v ∈ store', ∃ c, v.capacity = .ok c ∧ v.size ≤ c ∧ (v.is_direct = true → c = N) := by
  intro ops
  -- induction on the calls; `Refines` carries from one to the next
  induction ops with
  | nil =>
    intro store refs refs' r _ ran
    cases ran
    exact ⟨store, rfl, r, r.capacity_bounds⟩
  | cons op ops ih =>
    intro store refs refs' r bounded ran
    rw [RunRef_cons, Option.bind_eq_some_iff] at ran
    obtain ⟨mid, applied, rest⟩ := ran
    have first : RunRef refs ((op :: ops).take 1) = some mid := by
      rw [List.take_succ_cons, List.take_zero, RunRef_cons, applied]
      rfl
    have boundedMid : Bounded b mid := bounded 1 mid first
    obtain ⟨store1, stepped, r1⟩ := r.step fits applied boundedMid
    have boundedRest : ∀ k later, RunRef mid (ops.take k) = some later → Bounded b later := by
      intro k later ran
      exact bounded (k + 1) later (by rw [List.take_succ_cons, RunRef_cons, applied]; exact ran)
    obtain ⟨store', ran', r', capacities⟩ := ih store1 mid refs' r1 boundedRest rest
    exact ⟨store', by rw [Run, stepped, ok_bind, ran'], r', capacities⟩

/-- Four `push_back`s on a `prevector<2, Nat>`: the third moves it to the heap. -/
theorem pushes_refine_vector :
    ∃ store', Run ([] : List (prevector 2 Nat)) [.construct, .push_back 0 1, .push_back 0 2, .push_back 0 3] =
        .ok store' ∧ Refines store' [[1, 2, 3]] ∧
      ∀ v ∈ store', ∃ c, v.capacity = .ok c ∧ v.size ≤ c ∧ (v.is_direct = true → c = 2) :=
  prevector_refines_vector (b := 4) (by decide) _ [] [] _ Refines.nil
    (fun k mid ran => by
      match k with
      | 0 | 1 | 2 | 3 =>
        cases ran
        decide
      | k + 4 =>
        rw [List.take_of_length_le (by simp)] at ran
        cases ran
        decide)
    rfl

/-- `prevector<28, unsigned char>(2^32 - 29, 0)`: `_size` becomes
`29 + (2^32 - 29)`, which wraps to `0`; `item_ptr(0)` then takes the inline
array, whose bytes hold the heap pointer, and the fill writes through it, where
`std::vector` holds `2^32 - 29` zeros. -/
theorem prevector_fill_wraps_size :
    Run ([] : List (prevector 28 UInt8)) [.construct_fill (2 ^ 32 - 29) 0] = .error "inactive union member" ∧
      RunRef [] [Op.construct_fill (2 ^ 32 - 29) (0 : UInt8)] = some [List.replicate (2 ^ 32 - 29) 0] := by
  refine ⟨?_, rfl⟩
  have inline : (empty : prevector 28 UInt8).is_direct = true := by decide
  have wide : ¬(2 ^ 32 - 29 ≤ 28) := by decide
  have direct : (empty : prevector 28 UInt8).direct_ptr = .ok (alloc 28) := rfl
  have loaded : load (alloc 28 : List (Option UInt8)) 0 0 = .ok [] := by
    rw [load_ok (show 0 + 0 ≤ (alloc 28 : List (Option UInt8)).length by simp)]
    rfl
  have copied : store (alloc (2 ^ 32 - 29) : List (Option UInt8)) 0 [] = .ok (alloc (2 ^ 32 - 29)) := by
    rw [store_ok (by simp), overwrite_nil]
  -- change_capacity mallocs the block and adds N + 1 = 29 to _size
  have changed : (empty : prevector 28 UInt8).change_capacity (2 ^ 32 - 29) =
      .ok ⟨.indirect_contents (alloc (2 ^ 32 - 29)) (2 ^ 32 - 29), 29⟩ := by
    rw [prevector.change_capacity, if_neg wide, inline, Bool.not_true, if_neg Bool.false_ne_true,
      size_empty, direct, ok_bind, loaded, ok_bind, copied, ok_bind]
    rfl
  -- _size += n wraps to 0, which makes the inline array look live
  have made : (prevector_fill (2 ^ 32 - 29) 0 : Except String (prevector 28 UInt8)) =
      .error "inactive union member" := by
    rw [prevector_fill, changed, ok_bind]
    apply fill_front_inactive
    rw [List.length_replicate]
    decide
  rw [Run, Step, made]
  rfl

end Peercoin.Container
