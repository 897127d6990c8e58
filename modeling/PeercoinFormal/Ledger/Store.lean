import Mathlib

/-!
# Finite stores and batches with an undo record

A store is a finite map.  A batch takes some entries out, recording their
values, and puts new ones in; its undo takes the new entries out again and
puts the recorded ones back, last first.  The results here say when the
undo gives back the store the batch started from (every key taken out was
present, and every key put in was absent), and how a batch moves the total
of a valuation of the entries.  Nothing here is about a particular ledger.
-/

set_option autoImplicit false

namespace Ledger

/-- A finite map from keys to values. -/
abbrev Store (K V : Type) := Finmap (fun _ : K => V)

variable {K V : Type} [DecidableEq K]

/-- Takes the entries at `keys` out one after another and returns their
values in the same order; `none` when a key is absent at its turn. -/
def takeAll (store : Store K V) : List K → Option (List V × Store K V)
  | [] => some ([], store)
  | key :: keys =>
    match store.lookup key with
    | none => none
    | some value =>
      (takeAll (store.erase key) keys).map fun (values, rest) => (value :: values, rest)

/-- Puts entries in one after another. -/
def insertAll (store : Store K V) (entries : List (K × V)) : Store K V :=
  entries.foldl (fun store entry => store.insert entry.1 entry.2) store

/-- Takes keys out one after another. -/
def eraseAll (store : Store K V) (keys : List K) : Store K V :=
  keys.foldl (fun store key => store.erase key) store

/-- Puts entries back, the last one first. -/
def restoreAll (store : Store K V) (entries : List (K × V)) : Store K V :=
  entries.foldr (fun entry store => store.insert entry.1 entry.2) store

@[simp] theorem insertAll_cons (store : Store K V) (entry : K × V) (entries : List (K × V)) :
    insertAll store (entry :: entries) = insertAll (store.insert entry.1 entry.2) entries := rfl

@[simp] theorem eraseAll_cons (store : Store K V) (key : K) (keys : List K) :
    eraseAll store (key :: keys) = eraseAll (store.erase key) keys := rfl

@[simp] theorem restoreAll_cons (store : Store K V) (entry : K × V) (entries : List (K × V)) :
    restoreAll store (entry :: entries) = (restoreAll store entries).insert entry.1 entry.2 := rfl

/-! ## Single entries -/

theorem insert_erase_of_lookup {store : Store K V} {key : K} {value : V}
    (found : store.lookup key = some value) : (store.erase key).insert key value = store := by
  apply Finmap.ext_lookup
  intro other
  by_cases same : other = key
  · subst same
    rw [Finmap.lookup_insert, found]
  · rw [Finmap.lookup_insert_of_ne _ same, Finmap.lookup_erase_ne same]

theorem erase_insert_of_lookup {store : Store K V} {key : K} {value : V}
    (absent : store.lookup key = none) : (store.insert key value).erase key = store := by
  apply Finmap.ext_lookup
  intro other
  by_cases same : other = key
  · subst same
    rw [Finmap.lookup_erase, absent]
  · rw [Finmap.lookup_erase_ne same, Finmap.lookup_insert_of_ne _ same]

/-! ## Taking out and putting back -/

/-- A successful `takeAll` found the first key and took the rest from
what erasing it left. -/
theorem takeAll_cons_eq_some {store rest : Store K V} {key : K} {keys : List K}
    {values : List V} (taken : takeAll store (key :: keys) = some (values, rest)) :
    ∃ value values', store.lookup key = some value ∧
      takeAll (store.erase key) keys = some (values', rest) ∧ values = value :: values' := by
  simp only [takeAll] at taken
  split at taken
  · cases taken
  · rename_i value found
    obtain ⟨⟨values', rest'⟩, tail, same⟩ := Option.map_eq_some_iff.mp taken
    cases same
    exact ⟨value, values', found, tail, rfl⟩

/-- What `takeAll` leaves is part of what it started from. -/
theorem takeAll_lookup {store rest : Store K V} {keys : List K} {values : List V}
    (taken : takeAll store keys = some (values, rest)) {key : K} {value : V}
    (left : rest.lookup key = some value) : store.lookup key = some value := by
  induction keys generalizing store values with
  | nil =>
      cases taken
      exact left
  | cons first keys ih =>
      obtain ⟨firstValue, values', _, tail, rfl⟩ := takeAll_cons_eq_some taken
      have erased := ih tail
      by_cases here : key = first
      · subst here
        rw [Finmap.lookup_erase] at erased
        cases erased
      · rwa [Finmap.lookup_erase_ne here] at erased

/-- `takeAll` returns one value for each key. -/
theorem takeAll_length {store rest : Store K V} {keys : List K} {values : List V}
    (taken : takeAll store keys = some (values, rest)) : values.length = keys.length := by
  induction keys generalizing store values with
  | nil =>
      cases taken
      rfl
  | cons first keys ih =>
      obtain ⟨firstValue, values', _, tail, rfl⟩ := takeAll_cons_eq_some taken
      simp [ih tail]

/-- Putting the taken entries back, last first, gives the store back. -/
theorem restoreAll_takeAll {store rest : Store K V} {keys : List K} {values : List V}
    (taken : takeAll store keys = some (values, rest)) :
    restoreAll rest (keys.zip values) = store := by
  induction keys generalizing store values with
  | nil =>
      cases taken
      rfl
  | cons first keys ih =>
      obtain ⟨firstValue, values', found, tail, rfl⟩ := takeAll_cons_eq_some taken
      rw [List.zip_cons_cons, restoreAll_cons, ih tail, insert_erase_of_lookup found]

/-- Every key `takeAll` takes out was present when it started. -/
theorem takeAll_present {store rest : Store K V} {keys : List K} {values : List V}
    (taken : takeAll store keys = some (values, rest)) :
    ∀ key ∈ keys, store.lookup key ≠ none := by
  induction keys generalizing store values with
  | nil => simp
  | cons first keys ih =>
      obtain ⟨firstValue, values', found, tail, rfl⟩ := takeAll_cons_eq_some taken
      intro key member
      rcases List.mem_cons.mp member with here | later
      · rw [here, found]
        simp
      · have present := ih tail key later
        by_cases same : key = first
        · rw [same, Finmap.lookup_erase] at present
          exact absurd rfl present
        · rwa [Finmap.lookup_erase_ne same] at present

/-- A key can be taken out only once. -/
theorem takeAll_nodup {store rest : Store K V} {keys : List K} {values : List V}
    (taken : takeAll store keys = some (values, rest)) : keys.Nodup := by
  induction keys generalizing store values with
  | nil => exact List.nodup_nil
  | cons first keys ih =>
      obtain ⟨firstValue, values', _, tail, rfl⟩ := takeAll_cons_eq_some taken
      refine List.nodup_cons.mpr ⟨fun member => ?_, ih tail⟩
      have present := takeAll_present tail first member
      rw [Finmap.lookup_erase] at present
      exact present rfl

/-- The values `takeAll` returns are those the keys had in the store it
started from. -/
theorem takeAll_values {store rest : Store K V} {keys : List K} {values : List V}
    (taken : takeAll store keys = some (values, rest)) :
    keys.map store.lookup = values.map some := by
  induction keys generalizing store values with
  | nil =>
      cases taken
      rfl
  | cons first keys ih =>
      have distinct := takeAll_nodup taken
      obtain ⟨firstValue, values', found, tail, rfl⟩ := takeAll_cons_eq_some taken
      -- the later keys differ from the first, so erasing it changes none of them
      have later : keys.map store.lookup = keys.map (store.erase first).lookup := by
        apply List.map_congr_left
        intro key member
        have other : key ≠ first := fun same =>
          (List.nodup_cons.mp distinct).1 (same ▸ member)
        rw [Finmap.lookup_erase_ne other]
      rw [List.map_cons, List.map_cons, found, later, ih tail]

/-- A key `takeAll` took out is absent from what it leaves. -/
theorem takeAll_absent {store rest : Store K V} {keys : List K} {values : List V}
    (taken : takeAll store keys = some (values, rest)) : ∀ key ∈ keys, rest.lookup key = none := by
  intro key member
  cases left : rest.lookup key with
  | none => rfl
  | some value =>
      -- a key left behind was never erased, so it was there and still there after its own turn
      exfalso
      induction keys generalizing store values with
      | nil => cases member
      | cons first keys ih =>
          obtain ⟨firstValue, values', _, tail, rfl⟩ := takeAll_cons_eq_some taken
          rcases List.mem_cons.mp member with here | later
          · have kept := takeAll_lookup tail left
            rw [here, Finmap.lookup_erase] at kept
            cases kept
          · exact ih tail later

theorem lookup_restoreAll_of_not_mem {store : Store K V} {entries : List (K × V)} {key : K}
    (outside : key ∉ entries.map Prod.fst) :
    (restoreAll store entries).lookup key = store.lookup key := by
  induction entries with
  | nil => rfl
  | cons entry entries ih =>
      simp only [List.map_cons, List.mem_cons, not_or] at outside
      rw [restoreAll_cons, Finmap.lookup_insert_of_ne _ outside.1, ih outside.2]

/-! ## Putting in and taking out again -/

theorem lookup_insertAll_of_not_mem {store : Store K V} {entries : List (K × V)} {key : K}
    (outside : key ∉ entries.map Prod.fst) :
    (insertAll store entries).lookup key = store.lookup key := by
  induction entries generalizing store with
  | nil => rfl
  | cons entry entries ih =>
      simp only [List.map_cons, List.mem_cons, not_or] at outside
      rw [insertAll_cons, ih outside.2, Finmap.lookup_insert_of_ne _ outside.1]

/-- A key put in before entries that do not touch it keeps its value. -/
theorem lookup_insertAll_insert {store : Store K V} {key : K} {value : V}
    {entries : List (K × V)} (outside : key ∉ entries.map Prod.fst) :
    (insertAll (store.insert key value) entries).lookup key = some value := by
  rw [lookup_insertAll_of_not_mem outside, Finmap.lookup_insert]

/-- A value found after a batch of insertions was there before or was put in. -/
theorem lookup_insertAll_eq_some {store : Store K V} {entries : List (K × V)} {key : K}
    {value : V} (found : (insertAll store entries).lookup key = some value) :
    store.lookup key = some value ∨ (key, value) ∈ entries := by
  induction entries generalizing store with
  | nil => exact .inl found
  | cons entry entries ih =>
      rw [insertAll_cons] at found
      rcases ih found with before | later
      · by_cases here : key = entry.1
        · subst here
          rw [Finmap.lookup_insert] at before
          cases before
          exact .inr List.mem_cons_self
        · rw [Finmap.lookup_insert_of_ne _ here] at before
          exact .inl before
      · exact .inr (List.mem_cons_of_mem _ later)

/-- Two stores that agree at a key still agree there after the same entries
are put into both. -/
theorem lookup_insertAll_congr {store store' : Store K V} {key : K}
    (same : store.lookup key = store'.lookup key) (entries : List (K × V)) :
    (insertAll store entries).lookup key = (insertAll store' entries).lookup key := by
  induction entries generalizing store store' with
  | nil => exact same
  | cons entry entries ih =>
      rw [insertAll_cons, insertAll_cons]
      apply ih
      by_cases here : key = entry.1
      · subst here
        rw [Finmap.lookup_insert, Finmap.lookup_insert]
      · rw [Finmap.lookup_insert_of_ne _ here, Finmap.lookup_insert_of_ne _ here, same]

/-- A fresh key put in before entries that do not touch it can be taken out
again first. -/
theorem erase_insertAll_insert {store : Store K V} {key : K} {value : V}
    {entries : List (K × V)} (absent : store.lookup key = none)
    (outside : key ∉ entries.map Prod.fst) :
    (insertAll (store.insert key value) entries).erase key = insertAll store entries := by
  apply Finmap.ext_lookup
  intro other
  by_cases here : other = key
  · subst here
    rw [Finmap.lookup_erase, lookup_insertAll_of_not_mem outside, absent]
  · rw [Finmap.lookup_erase_ne here]
    exact lookup_insertAll_congr (Finmap.lookup_insert_of_ne _ here) entries

/-- Taking out the keys of fresh, distinct entries undoes putting them in. -/
theorem eraseAll_insertAll {store : Store K V} {entries : List (K × V)}
    (fresh : ∀ entry ∈ entries, store.lookup entry.1 = none)
    (distinct : (entries.map Prod.fst).Nodup) :
    eraseAll (insertAll store entries) (entries.map Prod.fst) = store := by
  induction entries generalizing store with
  | nil => rfl
  | cons entry entries ih =>
      simp only [List.map_cons, List.nodup_cons] at distinct
      have entryFresh := fresh entry List.mem_cons_self
      rw [insertAll_cons, List.map_cons, eraseAll_cons,
        erase_insertAll_insert entryFresh distinct.1]
      exact ih (fun other member => fresh other (List.mem_cons_of_mem _ member)) distinct.2

/-! ## Totals -/

/-- The sum of `value` over the entries of a store. -/
def total (value : V → Int) (store : Store K V) : Int :=
  (store.entries.map fun entry => value entry.2).sum

section Totals

variable (value : V → Int)

theorem total_insert_of_lookup_none {store : Store K V} {key : K} {v : V}
    (absent : store.lookup key = none) :
    total value (store.insert key v) = value v + total value store := by
  have notMem : key ∉ store := Finmap.lookup_eq_none.mp absent
  simp only [total, Finmap.entries_insert_of_notMem notMem, Multiset.map_cons, Multiset.sum_cons]

theorem total_of_lookup {store : Store K V} {key : K} {v : V}
    (found : store.lookup key = some v) :
    total value store = value v + total value (store.erase key) := by
  conv_lhs => rw [← insert_erase_of_lookup found]
  exact total_insert_of_lookup_none value (Finmap.lookup_erase key store)

/-- What `takeAll` returns and what it leaves add up to what it started from. -/
theorem total_takeAll {store rest : Store K V} {keys : List K} {values : List V}
    (taken : takeAll store keys = some (values, rest)) :
    total value store = (values.map value).sum + total value rest := by
  induction keys generalizing store values with
  | nil =>
      cases taken
      simp
  | cons first keys ih =>
      obtain ⟨firstValue, values', found, tail, rfl⟩ := takeAll_cons_eq_some taken
      rw [total_of_lookup value found, ih tail, List.map_cons, List.sum_cons, Int.add_assoc]

/-- Putting in fresh entries with distinct keys adds their values. -/
theorem total_insertAll {store : Store K V} {entries : List (K × V)}
    (fresh : ∀ entry ∈ entries, store.lookup entry.1 = none)
    (distinct : (entries.map Prod.fst).Nodup) :
    total value (insertAll store entries) =
      (entries.map fun entry => value entry.2).sum + total value store := by
  induction entries generalizing store with
  | nil => simp [insertAll]
  | cons entry entries ih =>
      simp only [List.map_cons, List.nodup_cons] at distinct
      -- the later entries are still fresh once the first is in
      have stillFresh : ∀ other ∈ entries, (store.insert entry.1 entry.2).lookup other.1 = none := by
        intro other member
        have differs : other.1 ≠ entry.1 := fun same =>
          distinct.1 (same ▸ List.mem_map_of_mem member)
        rw [Finmap.lookup_insert_of_ne _ differs]
        exact fresh other (List.mem_cons_of_mem _ member)
      rw [insertAll_cons, ih stillFresh distinct.2,
        total_insert_of_lookup_none value (fresh entry List.mem_cons_self),
        List.map_cons, List.sum_cons, Int.add_left_comm, Int.add_assoc]

end Totals

end Ledger
