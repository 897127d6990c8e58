import Mathlib

/-!
# A map kept as its entries in key order

An ordered map (a C++ `std::map`) seen as the list of its entries in key
order: `sortedInsert` assigns a value to a key, replacing the key's entry
where it stands or putting a new entry before the first key above it;
`eraseKey` and `findKey` erase and find by key.  Iteration is the list's
order.

Every entry other than the key's is kept by an assignment.  While the keys
are strictly increasing under a strict total order (`SortedKeys`), they stay
so through assignments and erasures, and the entry a key had before an
assignment is gone after it (`mem_sortedInsert_iff`).
-/

set_option autoImplicit false

namespace Ledger

variable {κ ν : Type} (r : κ → κ → Prop) [DecidableRel r] [DecidableEq κ]

/-- Assigning `v` to `k`. -/
def sortedInsert (k : κ) (v : ν) : List (κ × ν) → List (κ × ν)
  | [] => [(k, v)]
  | (k', v') :: rest =>
    if r k k' then (k, v) :: (k', v') :: rest
    else if k = k' then (k, v) :: rest
    else (k', v') :: sortedInsert k v rest

theorem sortedInsert_nil (k : κ) (v : ν) : sortedInsert r k v [] = [(k, v)] := rfl

theorem sortedInsert_cons (k : κ) (v : ν) (head : κ × ν) (rest : List (κ × ν)) :
    sortedInsert r k v (head :: rest) =
      if r k head.1 then (k, v) :: head :: rest
      else if k = head.1 then (k, v) :: rest
      else head :: sortedInsert r k v rest := rfl

/-- Erasing the entry of `k`. -/
def eraseKey (k : κ) (entries : List (κ × ν)) : List (κ × ν) :=
  entries.filter fun entry => entry.1 ≠ k

/-- The value of the first entry of `k`. -/
def findKey (k : κ) (entries : List (κ × ν)) : Option ν :=
  (entries.find? fun entry => entry.1 = k).map Prod.snd

/-- The keys are strictly increasing. -/
def SortedKeys (entries : List (κ × ν)) : Prop :=
  entries.Pairwise fun a b => r a.1 b.1

variable {r}

section Insert

variable {k : κ} {v : ν}

theorem mem_sortedInsert_self (entries : List (κ × ν)) : (k, v) ∈ sortedInsert r k v entries := by
  induction entries with
  | nil => simp [sortedInsert_nil]
  | cons entry rest ih =>
    rw [sortedInsert_cons]
    split_ifs <;> simp [ih]

theorem mem_sortedInsert_of_ne {entry : κ × ν} {entries : List (κ × ν)} (mem : entry ∈ entries)
    (other : entry.1 ≠ k) : entry ∈ sortedInsert r k v entries := by
  induction entries with
  | nil => cases mem
  | cons head rest ih =>
    rw [sortedInsert_cons]
    rcases List.mem_cons.mp mem with rfl | later
    · split_ifs with above same
      · simp
      · exact absurd same.symm other
      · simp
    · split_ifs <;> simp [later, ih later]

theorem mem_sortedInsert {entry : κ × ν} {entries : List (κ × ν)}
    (mem : entry ∈ sortedInsert r k v entries) : entry = (k, v) ∨ entry ∈ entries := by
  induction entries with
  | nil => simpa [sortedInsert_nil] using mem
  | cons head rest ih =>
    rw [sortedInsert_cons] at mem
    split_ifs at mem
    · simpa using mem
    · rcases List.mem_cons.mp mem with new | later
      · exact .inl new
      · exact .inr (List.mem_cons_of_mem _ later)
    · rcases List.mem_cons.mp mem with first | later
      · exact .inr (first ▸ List.mem_cons_self)
      · rcases ih later with new | old
        · exact .inl new
        · exact .inr (List.mem_cons_of_mem _ old)

/-- A key below every key of the map goes first. -/
theorem sortedInsert_of_lt {entries : List (κ × ν)} (least : ∀ entry ∈ entries, r k entry.1) :
    sortedInsert r k v entries = (k, v) :: entries := by
  cases entries with
  | nil => rfl
  | cons head rest => rw [sortedInsert_cons, if_pos (least head List.mem_cons_self)]

end Insert

theorem mem_eraseKey {k : κ} {entry : κ × ν} {entries : List (κ × ν)} :
    entry ∈ eraseKey k entries ↔ entry ∈ entries ∧ entry.1 ≠ k := by
  simp [eraseKey]

theorem length_eraseKey_lt {k : κ} {entry : κ × ν} {entries : List (κ × ν)} (mem : entry ∈ entries)
    (keyed : entry.1 = k) : (eraseKey k entries).length < entries.length := by
  unfold eraseKey
  exact List.length_filter_lt_length_iff_exists.mpr ⟨entry, mem, by simp [keyed]⟩

theorem mem_of_findKey {k : κ} {v : ν} {entries : List (κ × ν)} (found : findKey k entries = some v) :
    (k, v) ∈ entries := by
  unfold findKey at found
  obtain ⟨entry, first, rfl⟩ := Option.map_eq_some_iff.mp found
  have keyed : entry.1 = k := by simpa using List.find?_some first
  exact keyed ▸ List.mem_of_find?_eq_some first

omit [DecidableRel r] in
theorem SortedKeys.eraseKey {k : κ} {entries : List (κ × ν)} (sorted : SortedKeys r entries) :
    SortedKeys r (Ledger.eraseKey k entries) :=
  List.Pairwise.filter _ sorted

section Sorted

variable [IsStrictTotalOrder κ r] {k : κ} {v : ν}

omit [DecidableRel r] [DecidableEq κ] in
/-- A sorted map has one entry for each of its keys. -/
theorem SortedKeys.eq_of_key {entries : List (κ × ν)} (sorted : SortedKeys r entries)
    {a b : κ × ν} (memA : a ∈ entries) (memB : b ∈ entries) (sameKey : a.1 = b.1) : a = b := by
  induction entries with
  | nil => cases memA
  | cons head rest ih =>
    obtain ⟨headFirst, restSorted⟩ := List.pairwise_cons.mp sorted
    rcases List.mem_cons.mp memA with rfl | laterA <;> rcases List.mem_cons.mp memB with rfl | laterB
    · rfl
    · have beyond := headFirst b laterB
      rw [sameKey] at beyond
      exact absurd beyond (irrefl_of r _)
    · have beyond := headFirst a laterA
      rw [← sameKey] at beyond
      exact absurd beyond (irrefl_of r _)
    · exact ih restSorted laterA laterB

theorem SortedKeys.sortedInsert {entries : List (κ × ν)} (sorted : SortedKeys r entries) :
    SortedKeys r (Ledger.sortedInsert r k v entries) := by
  induction entries with
  | nil => simp [sortedInsert_nil, SortedKeys]
  | cons head rest ih =>
    obtain ⟨headFirst, restSorted⟩ := List.pairwise_cons.mp sorted
    rw [sortedInsert_cons]
    split_ifs with above same
    · -- the new key goes first: it is below the head, so below every later key
      refine List.Pairwise.cons (fun entry mem => ?_) sorted
      rcases List.mem_cons.mp mem with rfl | later
      · exact above
      · exact trans_of r above (headFirst entry later)
    · exact List.Pairwise.cons (fun entry later => same ▸ headFirst entry later) restSorted
    · -- the head stays first: neither above nor equal to the new key, so below it
      have below : r head.1 k :=
        ((trichotomous_of r k head.1).resolve_left above).resolve_left same
      refine List.Pairwise.cons (fun entry mem => ?_) (ih restSorted)
      rcases mem_sortedInsert mem with rfl | old
      · exact below
      · exact headFirst entry old

/-- In a sorted map, an assignment keeps exactly the entries of the other keys. -/
theorem mem_sortedInsert_iff {entry : κ × ν} {entries : List (κ × ν)}
    (sorted : SortedKeys r entries) :
    entry ∈ Ledger.sortedInsert r k v entries ↔ entry = (k, v) ∨ (entry ∈ entries ∧ entry.1 ≠ k) := by
  constructor
  · intro mem
    induction entries with
    | nil => simpa [sortedInsert_nil] using mem
    | cons head rest ih =>
      obtain ⟨headFirst, restSorted⟩ := List.pairwise_cons.mp sorted
      rw [sortedInsert_cons] at mem
      split_ifs at mem with above same
      · -- every old key is above `k`, so none is `k`
        rcases List.mem_cons.mp mem with new | old
        · exact .inl new
        · refine .inr ⟨old, fun keyed => ?_⟩
          rcases List.mem_cons.mp old with rfl | later
          · rw [keyed] at above
            exact irrefl_of r k above
          · have beyond := trans_of r above (headFirst entry later)
            rw [keyed] at beyond
            exact irrefl_of r k beyond
      · -- the head was the entry of `k`, and the later keys are above it
        rcases List.mem_cons.mp mem with new | later
        · exact .inl new
        · refine .inr ⟨List.mem_cons_of_mem _ later, fun keyed => ?_⟩
          have beyond := headFirst entry later
          rw [keyed, ← same] at beyond
          exact irrefl_of r k beyond
      · rcases List.mem_cons.mp mem with rfl | later
        · exact .inr ⟨List.mem_cons_self, Ne.symm same⟩
        · rcases ih restSorted later with new | ⟨old, other⟩
          · exact .inl new
          · exact .inr ⟨List.mem_cons_of_mem _ old, other⟩
  · rintro (rfl | ⟨old, other⟩)
    · exact mem_sortedInsert_self entries
    · exact mem_sortedInsert_of_ne old other

end Sorted

end Ledger
