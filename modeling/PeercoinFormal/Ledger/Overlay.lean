import Mathlib

/-!
# Entries laid over a view

A cache keeps entries for some keys in front of a view of what lies behind
it: a key with an entry shows what the entry says, every other key shows
what is behind.  A batch of entries with distinct keys is written into a
state one entry at a time; when each write shows its entry at its own key
and leaves the other keys alone, the whole batch lays the entries over the
view the state started with.  The weights of a map's entries add up to a
total that a write moves by the weights of the entries it puts in and
takes out.  Nothing here is about a particular ledger.
-/

set_option autoImplicit false

namespace Ledger

variable {K E V : Type} [DecidableEq K]

/-- The entries laid over `below`: a key with an entry shows `shows` of it. -/
def overlay (shows : E → Option V) (entries : List (Σ _ : K, E)) (below : K → Option V)
    (key : K) : Option V :=
  match entries.dlookup key with
  | some entry => shows entry
  | none => below key

section Overlay

variable {shows : E → Option V} {entries : List (Σ _ : K, E)} {below : K → Option V} {key : K}

theorem overlay_of_dlookup {entry : E} (found : entries.dlookup key = some entry) :
    overlay shows entries below key = shows entry := by
  rw [overlay, found]

theorem overlay_of_dlookup_none (absent : entries.dlookup key = none) :
    overlay shows entries below key = below key := by
  rw [overlay, absent]

@[simp] theorem overlay_nil : overlay shows ([] : List (Σ _ : K, E)) below key = below key := rfl

theorem overlay_congr {entries' : List (Σ _ : K, E)} {below' : K → Option V}
    (sameEntry : entries'.dlookup key = entries.dlookup key) (sameBelow : below' key = below key) :
    overlay shows entries' below' key = overlay shows entries below key := by
  unfold overlay
  rw [sameEntry, sameBelow]

/-- Laying entries over a view that shows, at each of their keys, what the
entry there shows changes nothing. -/
theorem overlay_eq_below (agree : ∀ entry, entries.dlookup key = some entry → shows entry = below key) :
    overlay shows entries below key = below key := by
  cases found : entries.dlookup key with
  | none => exact overlay_of_dlookup_none found
  | some entry => rw [overlay_of_dlookup found, agree entry found]

end Overlay

/-! ## Writing a batch one entry at a time -/

section Batch

variable {σ ε : Type} (step : σ → (Σ _ : K, E) → Except ε σ) (view : σ → K → Option V)
  (Inv : σ → Prop) (Good : E → Option V → Prop) (shows : E → Option V)

/-- A write of one entry that keeps `Inv`, shows the entry at its key and
leaves every other key alone, whenever the entry is `Good` for what its key
shows before the write. -/
def WritesKeywise : Prop :=
  ∀ s key entry, Inv s → Good entry (view s key) →
    ∃ s', step s ⟨key, entry⟩ = .ok s' ∧ Inv s' ∧ view s' key = shows entry ∧
      ∀ other, other ≠ key → view s' other = view s other

variable {step view Inv Good shows}

/-- A batch of entries with distinct keys, each `Good` for what its key
showed at the start, is written without an error and lays the entries over
the view the state started with. -/
theorem foldlM_overlay (keywise : WritesKeywise step view Inv Good shows) :
    ∀ (entries : List (Σ _ : K, E)) (s : σ), entries.NodupKeys → Inv s →
      (∀ it ∈ entries, Good it.2 (view s it.1)) →
      ∃ s', entries.foldlM step s = .ok s' ∧ Inv s' ∧
        ∀ key, view s' key = overlay shows entries (view s) key := by
  intro entries
  induction entries with
  | nil =>
      intro s _ inv _
      exact ⟨s, rfl, inv, fun _ => rfl⟩
  | cons first rest ih =>
      intro s distinct inv good
      obtain ⟨fresh, restDistinct⟩ := List.nodupKeys_cons.mp distinct
      obtain ⟨mid, written, midInv, here, elsewhere⟩ :=
        keywise s first.1 first.2 inv (good first List.mem_cons_self)
      -- the later entries have other keys, so the first write left their views alone
      have restGood : ∀ it ∈ rest, Good it.2 (view mid it.1) := by
        intro it member
        have other : it.1 ≠ first.1 := fun same => fresh (same ▸ List.mem_keys_of_mem member)
        rw [elsewhere it.1 other]
        exact good it (List.mem_cons_of_mem _ member)
      obtain ⟨s', run, inv', shown⟩ := ih mid restDistinct midInv restGood
      refine ⟨s', by rw [List.foldlM_cons, written]; exact run, inv', ?_⟩
      intro key
      rw [shown key]
      by_cases same : key = first.1
      · subst same
        have absent : rest.dlookup first.1 = none := List.dlookup_eq_none.mpr fresh
        rw [overlay_of_dlookup_none absent, here, overlay_of_dlookup (List.dlookup_cons_eq _ _ _)]
      · unfold overlay
        rw [List.dlookup_cons_ne _ _ same, elsewhere key same]

end Batch

/-! ## Maps of entries -/

section Weight

variable (weight : E → Nat)

/-- The weights of a map's entries added up. -/
def totalWeight (map : AList fun _ : K => E) : Nat := (map.entries.map fun it => weight it.2).sum

variable {weight} {map : AList fun _ : K => E} {key : K}

theorem totalWeight_insert (entry : E) :
    totalWeight weight (map.insert key entry) = weight entry + totalWeight weight (map.erase key) := by
  simp [totalWeight, AList.entries_insert, AList.erase]

theorem erase_of_lookup_none (absent : map.lookup key = none) : map.erase key = map := by
  apply AList.ext
  exact List.kerase_of_notMem_keys (AList.lookup_eq_none.mp absent)

/-- Taking an entry out of a map takes its weight off the total. -/
theorem totalWeight_erase {entry : E} (found : map.lookup key = some entry) :
    totalWeight weight map = totalWeight weight (map.erase key) + weight entry := by
  have member : key ∈ map.entries.keys := AList.mem_keys.mp (AList.lookup_isSome.mp (by simp [found]))
  obtain ⟨entry', before, after, notBefore, split, erased⟩ := List.exists_of_kerase member
  -- the entry found is the one the split stops at, as no key before it is `key`
  have same : entry' = entry := by
    have lookedUp : map.entries.dlookup key = some entry := found
    rw [split, List.dlookup_append, List.dlookup_eq_none.mpr notBefore, Option.none_or,
      List.dlookup_cons_eq] at lookedUp
    exact Option.some.inj lookedUp
  subst same
  have erasedEntries : (map.erase key).entries = before ++ after := erased
  unfold totalWeight
  rw [erasedEntries, split]
  simp only [List.map_append, List.map_cons, List.sum_append, List.sum_cons]
  omega

theorem totalWeight_erase_of_lookup {entry : E} (found : map.lookup key = some entry) :
    totalWeight weight (map.erase key) = totalWeight weight map - weight entry := by
  have whole : totalWeight weight map = totalWeight weight (map.erase key) + weight entry :=
    totalWeight_erase found
  omega

theorem totalWeight_insert_of_lookup {old : E} (found : map.lookup key = some old) (entry : E) :
    totalWeight weight (map.insert key entry) = totalWeight weight map - weight old + weight entry := by
  have whole : totalWeight weight map = totalWeight weight (map.erase key) + weight old :=
    totalWeight_erase found
  rw [totalWeight_insert]
  omega

theorem totalWeight_insert_of_lookup_none (absent : map.lookup key = none) (entry : E) :
    totalWeight weight (map.insert key entry) = totalWeight weight map + weight entry := by
  rw [totalWeight_insert, erase_of_lookup_none absent]
  omega

/-- Erasing, one after another, the keys of a list that holds every key of a
map leaves the map empty. -/
theorem foldl_erase_keys (entries : List (Σ _ : K, E)) :
    ∀ map : AList (fun _ : K => E), (∀ key ∈ map.keys, key ∈ entries.keys) →
      entries.foldl (fun map it => map.erase it.1) map = ∅ := by
  induction entries with
  | nil =>
      intro map covered
      apply AList.ext
      rw [List.foldl_nil, AList.empty_entries]
      cases keys : map.entries with
      | nil => rfl
      | cons first rest =>
          have member : first.1 ∈ map.keys := by
            rw [AList.keys, keys]
            exact List.mem_cons_self
          exact absurd (covered first.1 member) List.not_mem_nil
  | cons first rest ih =>
      intro map covered
      apply ih
      intro key member
      rw [AList.keys_erase] at member
      have other : key ≠ first.1 := fun same =>
        (List.Nodup.mem_erase_iff (AList.keys_nodup map)).mp member |>.1 same
      rcases List.mem_cons.mp (covered key (List.mem_of_mem_erase member)) with here | later
      · exact absurd here other
      · exact later

end Weight

end Ledger
