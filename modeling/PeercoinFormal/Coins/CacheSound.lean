import PeercoinFormal.Coins.Cache

/-!
# What the flags of the coins cache promise, and which calls keep it

An entry's flags are a promise about the view behind its cache: a FRESH
entry has nothing unspent behind it, and an entry that is not DIRTY holds
the coin shown behind it.  `Sound` asks this of every entry of every cache
of a stack, together with the five flag combinations and the usage total
that `SanityCheck` asserts; the database holds only unspent coins.

Each call gets one lemma here.  The reads, `Uncache`, `Flush` and `Sync`
keep a sound stack sound and keep what its top shows; `AddCoin` of an
unspent coin, where an overwrite is allowed or nothing is shown, and
`SpendCoin` keep it sound and change what the top shows at their outpoint
alone.  What a stack shows changes only through the cache at the call, so
the calls that keep it may be made on any cache of the stack.
-/

set_option autoImplicit false

namespace Peercoin.Coins.Cache

open Peercoin.Primitives Ledger

/-- What the flags of an entry promise about the coin the view behind shows
at its outpoint. -/
structure EntryOk (it : CCoinsCacheEntry) (behind : Option Coin) : Prop where
  sane : it.SaneFlags = true
  fresh : it.fresh = true → behind = none
  clean : it.dirty = false → behind = some it.coin

/-- A cache whose entries keep their promises about the view `behind`, and
whose usage is the total of its entries. -/
structure CCoinsViewCache.WellFlagged (view : CCoinsViewCache) (behind : COutPoint → Option Coin) :
    Prop where
  entries : ∀ outpoint it, view.cacheCoins.lookup outpoint = some it → EntryOk it (behind outpoint)
  usage : view.cachedCoinsUsage = totalWeight CCoinsCacheEntry.usage view.cacheCoins

/-- `AddCoin` and `SpendCoin`: the calls that change what a stack shows. -/
def CoinsOp.writes : CoinsOp → Bool
  | .addCoin .. => true
  | .spendCoin _ => true
  | _ => false

namespace CoinsStack

/-- Every cache of the stack keeps its promises about the view behind it,
and the database holds only unspent coins. -/
def Sound : CoinsStack → Prop
  | base db => ∀ outpoint coin, db.coins.lookup outpoint = some coin → coin.IsSpent = false
  | cache view parent => parent.Sound ∧ view.WellFlagged parent.view

/-- The number of caches over the database. -/
def layers : CoinsStack → Nat
  | base _ => 0
  | cache _ parent => parent.layers + 1

end CoinsStack

/-! ## Entries -/

section Entries

variable {it : CCoinsCacheEntry} {behind : Option Coin}

/-- An entry without DIRTY shows what is behind it: its flags allow no spent
coin there. -/
theorem EntryOk.shows_of_clean (ok : EntryOk it behind) (clean : it.dirty = false) :
    it.shows = behind := by
  have copied := ok.clean clean
  have unspent : it.coin.IsSpent = false := by
    cases spent : it.coin.IsSpent with
    | false => rfl
    | true =>
        cases fresh : it.fresh with
        | true =>
            rw [ok.fresh fresh] at copied
            cases copied
        | false =>
            -- spent and neither DIRTY nor FRESH is the combination 4
            have sane := ok.sane
            simp [CCoinsCacheEntry.SaneFlags, CCoinsCacheEntry.attr, clean, fresh, spent] at sane
  rw [CCoinsCacheEntry.shows, if_neg (by simp [unspent]), copied]

/-- A DIRTY entry keeps its promises when it is not both spent and FRESH and
nothing is behind it where it is FRESH. -/
theorem EntryOk.of_dirty {coin : Coin} {fresh : Bool} (notBoth : fresh = true → coin.IsSpent = false)
    (promise : fresh = true → behind = none) : EntryOk ⟨coin, true, fresh⟩ behind := by
  refine ⟨?_, promise, nofun⟩
  cases fresh with
  | false => cases spent : coin.IsSpent <;> simp [CCoinsCacheEntry.SaneFlags, CCoinsCacheEntry.attr, spent]
  | true => simp [CCoinsCacheEntry.SaneFlags, CCoinsCacheEntry.attr, notBoth rfl]

/-- A copy of the unspent coin shown behind, without flags, keeps its
promises. -/
theorem EntryOk.copy {coin : Coin} (unspent : coin.IsSpent = false) (shown : behind = some coin) :
    EntryOk ⟨coin, false, false⟩ behind :=
  ⟨by simp [CCoinsCacheEntry.SaneFlags, CCoinsCacheEntry.attr, unspent], nofun, fun _ => shown⟩

@[simp] theorem shows_of_unspent {coin : Coin} {dirty fresh : Bool} (unspent : coin.IsSpent = false) :
    CCoinsCacheEntry.shows ⟨coin, dirty, fresh⟩ = some coin := by
  simp [CCoinsCacheEntry.shows, unspent]

@[simp] theorem shows_empty {dirty fresh : Bool} :
    CCoinsCacheEntry.shows ⟨Coin.empty, dirty, fresh⟩ = none := rfl

end Entries

/-! ## Caches -/

namespace CCoinsViewCache

variable {view view' : CCoinsViewCache} {behind behind' : COutPoint → Option Coin}

/-- A cache changed at one outpoint keeps its promises if the entry there
keeps its own and nothing else changed, in the cache or behind it. -/
theorem WellFlagged.update (ok : view.WellFlagged behind) (key : COutPoint)
    (here : ∀ it, view'.cacheCoins.lookup key = some it → EntryOk it (behind' key))
    (elsewhere : ∀ other, other ≠ key →
      view'.cacheCoins.lookup other = view.cacheCoins.lookup other ∧ behind' other = behind other)
    (usage : view'.cachedCoinsUsage = totalWeight CCoinsCacheEntry.usage view'.cacheCoins) :
    view'.WellFlagged behind' := by
  refine ⟨?_, usage⟩
  intro outpoint it found
  by_cases same : outpoint = key
  · subst same
    exact here it found
  · obtain ⟨sameEntry, sameBehind⟩ := elsewhere outpoint same
    rw [sameBehind]
    rw [sameEntry] at found
    exact ok.entries outpoint it found

/-- The empty cache keeps every promise. -/
theorem WellFlagged.empty : CCoinsViewCache.WellFlagged ⟨∅, 0⟩ behind where
  entries _ _ found := by cases found
  usage := rfl

/-- A cache whose entries keep their promises passes `SanityCheck`. -/
theorem WellFlagged.SanityCheck (ok : view.WellFlagged behind) : view.SanityCheck = true := by
  unfold CCoinsViewCache.SanityCheck
  rw [Bool.and_eq_true, List.all_eq_true, beq_iff_eq]
  refine ⟨?_, ok.usage.symm⟩
  intro it member
  exact (ok.entries it.1 it.2 (AList.mem_lookup_iff.mpr member)).sane

end CCoinsViewCache

/-! ## What a stack shows -/

namespace CoinsStack

variable {view view' : CCoinsViewCache} {parent parent' : CoinsStack} {outpoint : COutPoint}

theorem view_cache_of_lookup {it : CCoinsCacheEntry} (found : view.cacheCoins.lookup outpoint = some it) :
    (cache view parent).view outpoint = it.shows :=
  overlay_of_dlookup found

theorem view_cache_of_lookup_none (absent : view.cacheCoins.lookup outpoint = none) :
    (cache view parent).view outpoint = parent.view outpoint :=
  overlay_of_dlookup_none absent

/-- A cache changed at one outpoint, over a stack that shows the same, shows
the same everywhere else. -/
theorem view_cache_update (here : (cache view' parent').view outpoint = (cache view parent).view outpoint)
    (elsewhere : ∀ other, other ≠ outpoint → view'.cacheCoins.lookup other = view.cacheCoins.lookup other)
    (behind : parent'.view = parent.view) : (cache view' parent').view = (cache view parent).view := by
  funext other
  by_cases same : other = outpoint
  · subst same
    exact here
  · exact overlay_congr (elsewhere other same) (congrFun behind other)

theorem view_cache_of_behind (behind : parent'.view = parent.view) :
    (cache view parent').view = (cache view parent).view := by
  funext other
  exact overlay_congr rfl (congrFun behind other)

/-- A sound stack shows only unspent coins. -/
theorem Sound.unspent : ∀ {stack : CoinsStack}, stack.Sound →
    ∀ {outpoint coin}, stack.view outpoint = some coin → coin.IsSpent = false
  | base _, sound, _, _, shown => sound _ _ shown
  | cache view parent, sound, outpoint, coin, shown => by
      cases found : view.cacheCoins.lookup outpoint with
      | none =>
          rw [view_cache_of_lookup_none found] at shown
          exact sound.1.unspent shown
      | some it =>
          rw [view_cache_of_lookup found, CCoinsCacheEntry.shows] at shown
          split at shown
          · cases shown
          · rename_i unspent
            cases shown
            simpa using unspent

/-- A cache whose entries are all without DIRTY shows what is behind it. -/
theorem view_of_clean (ok : view.WellFlagged parent.view)
    (clean : ∀ outpoint it, view.cacheCoins.lookup outpoint = some it → it.dirty = false) :
    (cache view parent).view = parent.view := by
  funext outpoint
  exact overlay_eq_below fun it found =>
    (ok.entries outpoint it found).shows_of_clean (clean outpoint it found)

/-- Every cache of a sound stack passes `SanityCheck`. -/
theorem Sound.SanityCheck : ∀ {stack : CoinsStack}, stack.Sound → stack.SanityCheck = true
  | base _, _ => rfl
  | cache _ _, sound => by
      rw [CoinsStack.SanityCheck, sound.2.SanityCheck, sound.1.SanityCheck]
      rfl

/-! ## Reads -/

/-- `FetchCoin` over a sound stack, given what a read of the stack behind
returns: the top shows the same and stays sound, and the entry returned is
the one now cached, missing only where nothing is shown. -/
theorem FetchCoin_spec {fetched : Option Coin × CoinsStack} (sound : (cache view parent).Sound)
    (fetchedView : fetched.1 = parent.view outpoint) (fetchedSound : fetched.2.Sound)
    (fetchedSame : fetched.2.view = parent.view) :
    ∃ it view₁ parent₁, view.FetchCoin outpoint parent fetched = (it, view₁, parent₁) ∧
      (cache view₁ parent₁).Sound ∧ (cache view₁ parent₁).view = (cache view parent).view ∧
      view₁.cacheCoins.lookup outpoint = it ∧
      (it = none → (cache view parent).view outpoint = none) := by
  obtain ⟨parentSound, flagged⟩ := sound
  obtain ⟨fetchedCoin, parent'⟩ := fetched
  cases found : view.cacheCoins.lookup outpoint with
  | some it =>
      refine ⟨some it, view, parent, ?_, ⟨parentSound, flagged⟩, rfl, found, nofun⟩
      simp only [CCoinsViewCache.FetchCoin, found]
  | none =>
      have shownBehind : (cache view parent).view outpoint = parent.view outpoint :=
        view_cache_of_lookup_none found
      cases fetchedCoin with
      | none =>
          -- nothing is behind: the cache stays, over the stack the read left
          refine ⟨none, view, parent', ?_, ⟨fetchedSound, by rw [fetchedSame]; exact flagged⟩,
            view_cache_of_behind fetchedSame, found, fun _ => ?_⟩
          · simp only [CCoinsViewCache.FetchCoin, found]
          · rw [shownBehind, ← fetchedView]
      | some tmp =>
          have unspent : tmp.IsSpent = false := parentSound.unspent fetchedView.symm
          have copied : parent'.view outpoint = some tmp := by rw [fetchedSame, ← fetchedView]
          refine ⟨some ⟨tmp, false, false⟩, ⟨view.cacheCoins.insert outpoint ⟨tmp, false, false⟩,
            view.cachedCoinsUsage + tmp.DynamicMemoryUsage⟩, parent', ?_, ⟨fetchedSound, ?_⟩, ?_,
            AList.lookup_insert _, nofun⟩
          · simp only [CCoinsViewCache.FetchCoin, found, unspent, CCoinsCacheEntry.usage]
          · refine flagged.update outpoint ?_ ?_ ?_
            · intro it cached
              rw [AList.lookup_insert] at cached
              cases cached
              exact EntryOk.copy unspent copied
            · intro other same
              exact ⟨AList.lookup_insert_ne same, congrFun fetchedSame other⟩
            · rw [totalWeight_insert_of_lookup_none found, flagged.usage]
              rfl
          · refine view_cache_update ?_ (fun other same => AList.lookup_insert_ne same) fetchedSame
            rw [view_cache_of_lookup (AList.lookup_insert _), shownBehind, ← fetchedView,
              shows_of_unspent unspent]

/-- `GetCoin` returns what the top of a sound stack shows, and leaves it
sound and showing the same. -/
theorem GetCoin_spec : ∀ {stack : CoinsStack}, stack.Sound → ∀ outpoint,
    (stack.GetCoin outpoint).1 = stack.view outpoint ∧ (stack.GetCoin outpoint).2.Sound ∧
      (stack.GetCoin outpoint).2.view = stack.view
  | base _, sound, _ => ⟨rfl, sound, rfl⟩
  | cache view parent, sound, outpoint => by
      obtain ⟨fetchedView, fetchedSound, fetchedSame⟩ := GetCoin_spec sound.1 outpoint
      obtain ⟨it, view₁, parent₁, fetched, sound₁, same₁, cached, missing⟩ :=
        FetchCoin_spec sound fetchedView fetchedSound fetchedSame
      simp only [GetCoin, fetched]
      refine ⟨?_, sound₁, same₁⟩
      cases it with
      | none => exact (missing rfl).symm
      | some it => rw [Option.bind_some, ← same₁, view_cache_of_lookup cached]

/-- `AccessCoin` changes the stack as `GetCoin` does, and returns the coin
shown, or a spent coin where none is. -/
theorem AccessCoin_spec (sound : (cache view parent).Sound) (outpoint : COutPoint) :
    (AccessCoin view parent outpoint).2 = ((cache view parent).GetCoin outpoint).2 ∧
      (∀ coin, (cache view parent).view outpoint = some coin →
        (AccessCoin view parent outpoint).1 = coin) ∧
      ((cache view parent).view outpoint = none → (AccessCoin view parent outpoint).1.IsSpent = true) := by
  obtain ⟨fetchedView, fetchedSound, fetchedSame⟩ := GetCoin_spec sound.1 outpoint
  obtain ⟨it, view₁, parent₁, fetched, -, same₁, cached, missing⟩ :=
    FetchCoin_spec sound fetchedView fetchedSound fetchedSame
  refine ⟨by simp only [AccessCoin, GetCoin, fetched], ?_, ?_⟩
  all_goals simp only [AccessCoin, fetched]
  · intro coin shown
    cases it with
    | none => rw [missing rfl] at shown; cases shown
    | some it =>
        rw [← same₁, view_cache_of_lookup cached, CCoinsCacheEntry.shows] at shown
        split at shown
        · cases shown
        · cases shown
          rfl
  · intro nothing
    cases it with
    | none => rfl
    | some it =>
        rw [← same₁, view_cache_of_lookup cached, CCoinsCacheEntry.shows] at nothing
        split at nothing
        · assumption
        · cases nothing

/-- `HaveCoin` changes the stack as `GetCoin` does, and says whether a coin
is shown. -/
theorem HaveCoin_spec (sound : (cache view parent).Sound) (outpoint : COutPoint) :
    (HaveCoin view parent outpoint).2 = ((cache view parent).GetCoin outpoint).2 ∧
      (HaveCoin view parent outpoint).1 = ((cache view parent).view outpoint).isSome := by
  obtain ⟨fetchedView, fetchedSound, fetchedSame⟩ := GetCoin_spec sound.1 outpoint
  obtain ⟨it, view₁, parent₁, fetched, -, same₁, cached, missing⟩ :=
    FetchCoin_spec sound fetchedView fetchedSound fetchedSame
  refine ⟨by simp only [HaveCoin, GetCoin, fetched], ?_⟩
  simp only [HaveCoin, fetched]
  cases it with
  | none => rw [missing rfl]; rfl
  | some it =>
      rw [← same₁, view_cache_of_lookup cached, CCoinsCacheEntry.shows]
      cases spent : it.coin.IsSpent <;> simp [spent]

/-! ## Writes on one outpoint -/

/-- `AddCoin` of an unspent coin, where an overwrite is allowed or nothing is
shown, succeeds, keeps the stack sound, and shows the coin at its outpoint
unless `AddCoin` drops its output. -/
theorem AddCoin_spec (outpoint : COutPoint) {coin : Coin} (possible_overwrite skipZeroValue : Bool)
    (sound : (cache view parent).Sound) (unspent : coin.IsSpent = false)
    (allowed : possible_overwrite = false → (cache view parent).view outpoint = none) :
    ∃ view', view.AddCoin outpoint coin possible_overwrite skipZeroValue = .ok view' ∧
      (cache view' parent).Sound ∧
      ∀ other, (cache view' parent).view other =
        if IsKept skipZeroValue coin.out = true ∧ other = outpoint then some coin
        else (cache view parent).view other := by
  obtain ⟨parentSound, flagged⟩ := sound
  by_cases unspendable : IsUnspendable coin.out.scriptPubKey = true
  · refine ⟨view, by simp [CCoinsViewCache.AddCoin, unspent, unspendable], ⟨parentSound, flagged⟩, ?_⟩
    intro other
    rw [if_neg (by simp [IsKept, unspendable])]
  by_cases skipped : coin.out.nValue = 0 ∧ skipZeroValue = true
  · refine ⟨view, by simp [CCoinsViewCache.AddCoin, unspent, unspendable, skipped],
      ⟨parentSound, flagged⟩, ?_⟩
    intro other
    rw [if_neg (by simp [IsKept, skipped.1, skipped.2])]
  have kept : IsKept skipZeroValue coin.out = true := by
    by_cases zero : coin.out.nValue = 0
    · have noSkip : skipZeroValue = false := by simpa [zero] using skipped
      simp [IsKept, unspendable, zero, noSkip]
    · simp [IsKept, unspendable, zero]
  -- the added entry shows the coin, and everything else is as it was
  have shownAfter : ∀ {fresh : Bool} {view' : CCoinsViewCache},
      view'.cacheCoins = view.cacheCoins.insert outpoint ⟨coin, true, fresh⟩ →
      ∀ other, (cache view' parent).view other =
        if IsKept skipZeroValue coin.out = true ∧ other = outpoint then some coin
        else (cache view parent).view other := by
    intro fresh view' inserted other
    by_cases same : other = outpoint
    · subst same
      rw [if_pos ⟨kept, rfl⟩, view_cache_of_lookup (by rw [inserted, AList.lookup_insert]),
        shows_of_unspent unspent]
    · rw [if_neg (fun both => same both.2)]
      exact overlay_congr (by rw [inserted]; exact AList.lookup_insert_ne same) rfl
  cases found : view.cacheCoins.lookup outpoint with
  | none =>
      have shownBehind : (cache view parent).view outpoint = parent.view outpoint :=
        view_cache_of_lookup_none found
      refine ⟨⟨view.cacheCoins.insert outpoint ⟨coin, true, !possible_overwrite⟩,
        view.cachedCoinsUsage + coin.DynamicMemoryUsage⟩, ?_, ⟨parentSound, ?_⟩, shownAfter rfl⟩
      · simp [CCoinsViewCache.AddCoin, unspent, unspendable, skipped, found]
      · refine flagged.update outpoint ?_ ?_ ?_
        · intro it added
          rw [AList.lookup_insert] at added
          cases added
          refine EntryOk.of_dirty (fun _ => unspent) ?_
          intro fresh
          rw [← shownBehind]
          exact allowed (by simpa using fresh)
        · intro other same
          exact ⟨AList.lookup_insert_ne same, rfl⟩
        · rw [totalWeight_insert_of_lookup_none found, flagged.usage]
          rfl
  | some it =>
      have shownHere : (cache view parent).view outpoint = it.shows := view_cache_of_lookup found
      have entryOk := flagged.entries outpoint it found
      -- where no overwrite is allowed the entry found is spent, so nothing is behind it either
      have spentHere : possible_overwrite = false → it.coin.IsSpent = true := by
        intro refused
        have nothing := allowed refused
        rw [shownHere, CCoinsCacheEntry.shows] at nothing
        by_contra unspentHere
        rw [if_neg unspentHere] at nothing
        cases nothing
      refine ⟨⟨view.cacheCoins.insert outpoint
          ⟨coin, true, it.fresh || (!possible_overwrite && !it.dirty)⟩,
        view.cachedCoinsUsage - it.usage + coin.DynamicMemoryUsage⟩, ?_, ⟨parentSound, ?_⟩,
        shownAfter rfl⟩
      · have noThrow : (!possible_overwrite && !it.coin.IsSpent) = false := by
          cases refused : possible_overwrite with
          | true => rfl
          | false => simp [spentHere refused]
        simp [CCoinsViewCache.AddCoin, unspent, unspendable, skipped, found, noThrow]
      · refine flagged.update outpoint ?_ ?_ ?_
        · intro it' added
          rw [AList.lookup_insert] at added
          cases added
          refine EntryOk.of_dirty (fun _ => unspent) ?_
          intro fresh
          rcases Bool.or_eq_true_iff.mp fresh with wasFresh | notDirty
          · exact entryOk.fresh wasFresh
          · -- a spent entry without DIRTY shows what is behind: nothing
            simp only [Bool.and_eq_true, Bool.not_eq_true'] at notDirty
            rw [← entryOk.shows_of_clean notDirty.2, CCoinsCacheEntry.shows,
              if_pos (spentHere notDirty.1)]
        · intro other same
          exact ⟨AList.lookup_insert_ne same, rfl⟩
        · rw [totalWeight_insert_of_lookup found, flagged.usage]
          rfl

/-- `SpendCoin` keeps a sound stack sound, shows nothing at its outpoint
afterwards and the same elsewhere, and moves out the coin that was shown. -/
theorem SpendCoin_spec (outpoint : COutPoint) (sound : (cache view parent).Sound) :
    ∃ spent view' parent', view.SpendCoin outpoint parent (parent.GetCoin outpoint) =
        (spent, view', parent') ∧ (cache view' parent').Sound ∧
      (∀ other, (cache view' parent').view other =
        if other = outpoint then none else (cache view parent).view other) ∧
      ∀ coin, (cache view parent).view outpoint = some coin → spent = some coin := by
  obtain ⟨fetchedView, fetchedSound, fetchedSame⟩ := GetCoin_spec sound.1 outpoint
  obtain ⟨it, view₁, parent₁, fetched, ⟨parentSound₁, flagged₁⟩, same₁, cached, missing⟩ :=
    FetchCoin_spec sound fetchedView fetchedSound fetchedSame
  -- after the fetch, the spend changes the cache at `outpoint` alone
  have unchanged : ∀ {view' : CCoinsViewCache},
      (∀ other, other ≠ outpoint → view'.cacheCoins.lookup other = view₁.cacheCoins.lookup other) →
      (cache view' parent₁).view outpoint = none →
      ∀ other, (cache view' parent₁).view other =
        if other = outpoint then none else (cache view parent).view other := by
    intro view' elsewhere nothing other
    by_cases same : other = outpoint
    · rw [if_pos same, same, nothing]
    · rw [if_neg same, ← same₁]
      exact overlay_congr (elsewhere other same) rfl
  cases it with
  | none =>
      refine ⟨none, view₁, parent₁, by simp only [CCoinsViewCache.SpendCoin, fetched],
        ⟨parentSound₁, flagged₁⟩, unchanged (fun _ _ => rfl) (by rw [same₁]; exact missing rfl), ?_⟩
      intro coin shown
      rw [missing rfl] at shown
      cases shown
  | some it =>
      have entryOk := flagged₁.entries outpoint it cached
      have movedOut : ∀ coin, (cache view parent).view outpoint = some coin → some it.coin = some coin := by
        intro coin shown
        rw [← same₁, view_cache_of_lookup cached, CCoinsCacheEntry.shows] at shown
        split at shown
        · cases shown
        · exact shown
      cases fresh : it.fresh with
      | true =>
          -- a FRESH entry is dropped, and nothing is behind it
          refine ⟨some it.coin, ⟨view₁.cacheCoins.erase outpoint, view₁.cachedCoinsUsage - it.usage⟩,
            parent₁, by simp only [CCoinsViewCache.SpendCoin, fetched, fresh, if_true],
            ⟨parentSound₁, ?_⟩, unchanged (fun _ same => AList.lookup_erase_ne same) ?_, movedOut⟩
          · refine flagged₁.update outpoint ?_ ?_ ?_
            · intro it' erased
              rw [AList.lookup_erase] at erased
              cases erased
            · intro other same
              exact ⟨AList.lookup_erase_ne same, rfl⟩
            · rw [totalWeight_erase_of_lookup cached, flagged₁.usage]
          · rw [view_cache_of_lookup_none (AList.lookup_erase _ _)]
            exact entryOk.fresh fresh
      | false =>
          refine ⟨some it.coin, ⟨view₁.cacheCoins.insert outpoint ⟨Coin.empty, true, false⟩,
            view₁.cachedCoinsUsage - it.usage⟩, parent₁,
            by simp only [CCoinsViewCache.SpendCoin, fetched, fresh, Bool.false_eq_true, if_false],
            ⟨parentSound₁, ?_⟩,
            unchanged (fun _ same => AList.lookup_insert_ne same)
              (by rw [view_cache_of_lookup (AList.lookup_insert _)]; rfl), movedOut⟩
          refine flagged₁.update outpoint ?_ ?_ ?_
          · intro it' spent
            rw [AList.lookup_insert] at spent
            cases spent
            exact EntryOk.of_dirty nofun nofun
          · intro other same
            exact ⟨AList.lookup_insert_ne same, rfl⟩
          · rw [totalWeight_insert_of_lookup cached, flagged₁.usage]
            rfl

/-- `Uncache` keeps a sound stack sound and showing the same: it drops only
an entry without flags, which shows what is behind it. -/
theorem Uncache_spec (sound : (cache view parent).Sound) (outpoint : COutPoint) :
    (cache (view.Uncache outpoint) parent).Sound ∧
      (cache (view.Uncache outpoint) parent).view = (cache view parent).view := by
  obtain ⟨parentSound, flagged⟩ := sound
  cases found : view.cacheCoins.lookup outpoint with
  | none =>
      have same : view.Uncache outpoint = view := by simp only [CCoinsViewCache.Uncache, found]
      rw [same]
      exact ⟨⟨parentSound, flagged⟩, rfl⟩
  | some it =>
      by_cases flagless : it.dirty = false ∧ it.fresh = false
      · simp only [CCoinsViewCache.Uncache, found, flagless.1, flagless.2, Bool.not_false,
          Bool.and_self, if_true]
        refine ⟨⟨parentSound, ?_⟩, ?_⟩
        · refine flagged.update outpoint ?_ ?_ ?_
          · intro it' erased
            rw [AList.lookup_erase] at erased
            cases erased
          · intro other same
            exact ⟨AList.lookup_erase_ne same, rfl⟩
          · rw [totalWeight_erase_of_lookup found, flagged.usage]
        · refine view_cache_update ?_ (fun other same => AList.lookup_erase_ne same) rfl
          rw [view_cache_of_lookup_none (AList.lookup_erase _ _), view_cache_of_lookup found,
            (flagged.entries outpoint it found).shows_of_clean flagless.1]
      · have kept : (!it.dirty && !it.fresh) = false := by
          cases dirty : it.dirty <;> cases fresh : it.fresh <;> simp_all
        have same : view.Uncache outpoint = view := by
          simp only [CCoinsViewCache.Uncache, found, kept, Bool.false_eq_true, if_false]
        rw [same]
        exact ⟨⟨parentSound, flagged⟩, rfl⟩

/-! ## Batches -/

/-- One pass of `CCoinsViewDB::BatchWrite` writes a child's entry that keeps
its promises as the child shows it. -/
theorem WriteEntry_keywise :
    WritesKeywise (fun (db : CCoinsViewDB) it => (pure (db.WriteEntry it) : Except String _))
      CCoinsViewDB.GetCoin (fun db => (base db).Sound) EntryOk CCoinsCacheEntry.shows := by
  intro db key it sound entryOk
  rcases it with ⟨coin, dirty, fresh⟩
  cases dirty with
  | false =>
      exact ⟨db, rfl, sound, (entryOk.shows_of_clean rfl).symm, fun _ _ => rfl⟩
  | true =>
      cases spent : coin.IsSpent with
      | true =>
          refine ⟨⟨db.coins.erase key⟩, by simp [CCoinsViewDB.WriteEntry, spent]; rfl, ?_, ?_, ?_⟩
          · intro outpoint coin' found
            by_cases same : outpoint = key
            · rw [same, Finmap.lookup_erase] at found
              cases found
            · rw [Finmap.lookup_erase_ne same] at found
              exact sound outpoint coin' found
          · simp [CCoinsViewDB.GetCoin, CCoinsCacheEntry.shows, spent]
          · intro other same
            exact Finmap.lookup_erase_ne same
      | false =>
          refine ⟨⟨db.coins.insert key coin⟩, by simp [CCoinsViewDB.WriteEntry, spent]; rfl, ?_, ?_,
            ?_⟩
          · intro outpoint coin' found
            by_cases same : outpoint = key
            · rw [same, Finmap.lookup_insert] at found
              cases found
              exact spent
            · rw [Finmap.lookup_insert_of_ne _ same] at found
              exact sound outpoint coin' found
          · simp [CCoinsViewDB.GetCoin, spent]
          · intro other same
            exact Finmap.lookup_insert_of_ne _ same

/-- One pass of `CCoinsViewCache::BatchWrite` over a cache that keeps its
promises writes a child's entry that keeps its own, as the parent shows it,
without the `logic_error`. -/
theorem BatchWriteEntry_keywise (grandparent : CoinsStack) :
    WritesKeywise CCoinsViewCache.BatchWriteEntry (fun view => (cache view grandparent).view)
      (fun view => view.WellFlagged grandparent.view) EntryOk CCoinsCacheEntry.shows := by
  intro view key it flagged entryOk
  simp only at flagged entryOk ⊢
  rcases it with ⟨coin, dirty, fresh⟩
  cases dirty with
  | false =>
      exact ⟨view, by simp [CCoinsViewCache.BatchWriteEntry], flagged,
        (entryOk.shows_of_clean rfl).symm, fun _ _ => rfl⟩
  | true =>
  -- a write at `key` that shows the child's entry there leaves the rest as it was
  have elsewhere : ∀ {view' : CCoinsViewCache},
      (∀ other, other ≠ key → view'.cacheCoins.lookup other = view.cacheCoins.lookup other) →
      ∀ other, other ≠ key → (cache view' grandparent).view other = (cache view grandparent).view other :=
    fun same other differs => overlay_congr (same other differs) rfl
  cases found : view.cacheCoins.lookup key with
  | none =>
      have shownBehind : (cache view grandparent).view key = grandparent.view key :=
        view_cache_of_lookup_none found
      by_cases dropped : fresh = true ∧ coin.IsSpent = true
      · -- a spent FRESH entry has nothing behind it to overwrite
        refine ⟨view, by simp [CCoinsViewCache.BatchWriteEntry, found, dropped.1, dropped.2],
          flagged, ?_, fun _ _ => rfl⟩
        rw [entryOk.fresh dropped.1]
        simp [CCoinsCacheEntry.shows, dropped.2]
      · have notBoth : fresh = true → coin.IsSpent = false := by
          intro isFresh
          simpa [isFresh] using dropped
        have passed : (fresh && coin.IsSpent) = false := by
          cases isFresh : fresh
          · rfl
          · simp [notBoth isFresh]
        refine ⟨⟨view.cacheCoins.insert key ⟨coin, true, fresh⟩,
          view.cachedCoinsUsage + coin.DynamicMemoryUsage⟩, ?_, ?_, ?_,
          elsewhere fun _ same => AList.lookup_insert_ne same⟩
        · simp [CCoinsViewCache.BatchWriteEntry, found, passed, CCoinsCacheEntry.usage]
        · refine flagged.update key ?_ ?_ ?_
          · intro it' written
            rw [AList.lookup_insert] at written
            cases written
            refine EntryOk.of_dirty notBoth ?_
            intro isFresh
            rw [← shownBehind]
            exact entryOk.fresh isFresh
          · intro other same
            exact ⟨AList.lookup_insert_ne same, rfl⟩
          · rw [totalWeight_insert_of_lookup_none found, flagged.usage]
            rfl
        · rw [view_cache_of_lookup (AList.lookup_insert _)]
  | some ours =>
      have shownHere : (cache view grandparent).view key = ours.shows := view_cache_of_lookup found
      have oursOk := flagged.entries key ours found
      -- a FRESH child entry has nothing unspent behind it, so the parent's entry is spent
      have noThrow : (fresh && !ours.coin.IsSpent) = false := by
        cases isFresh : fresh with
        | false => rfl
        | true =>
            have nothing := entryOk.fresh isFresh
            rw [shownHere, CCoinsCacheEntry.shows] at nothing
            by_cases spentHere : ours.coin.IsSpent = true
            · simp [spentHere]
            · rw [if_neg spentHere] at nothing
              cases nothing
      by_cases dropped : ours.fresh = true ∧ coin.IsSpent = true
      · -- the parent's FRESH entry is spent away: nothing is behind it
        refine ⟨⟨view.cacheCoins.erase key, view.cachedCoinsUsage - ours.usage⟩,
          by simp [CCoinsViewCache.BatchWriteEntry, found, noThrow, dropped.1, dropped.2], ?_, ?_,
          elsewhere fun _ same => AList.lookup_erase_ne same⟩
        · refine flagged.update key ?_ ?_ ?_
          · intro it' erased
            rw [AList.lookup_erase] at erased
            cases erased
          · intro other same
            exact ⟨AList.lookup_erase_ne same, rfl⟩
          · rw [totalWeight_erase_of_lookup found, flagged.usage]
        · rw [view_cache_of_lookup_none (AList.lookup_erase _ _), oursOk.fresh dropped.1]
          simp [CCoinsCacheEntry.shows, dropped.2]
      · have notBoth : ours.fresh = true → coin.IsSpent = false := by
          intro isFresh
          simpa [isFresh] using dropped
        have kept : (ours.fresh && coin.IsSpent) = false := by
          cases isFresh : ours.fresh
          · rfl
          · simp [notBoth isFresh]
        refine ⟨⟨view.cacheCoins.insert key ⟨coin, true, ours.fresh⟩,
          view.cachedCoinsUsage - ours.usage + coin.DynamicMemoryUsage⟩, ?_, ?_, ?_,
          elsewhere fun _ same => AList.lookup_insert_ne same⟩
        · simp [CCoinsViewCache.BatchWriteEntry, found, noThrow, kept, CCoinsCacheEntry.usage]
        · refine flagged.update key ?_ ?_ ?_
          · intro it' written
            rw [AList.lookup_insert] at written
            cases written
            exact EntryOk.of_dirty notBoth oursOk.fresh
          · intro other same
            exact ⟨AList.lookup_insert_ne same, rfl⟩
          · rw [totalWeight_insert_of_lookup found, flagged.usage]
            rfl
        · rw [view_cache_of_lookup (AList.lookup_insert _)]
          rfl

/-- `BatchWrite` of a cache that keeps its promises into the stack behind it
succeeds, keeps that stack sound and makes it show what the cache showed. -/
theorem BatchWrite_spec (sound : (cache view parent).Sound) (erase : Bool) :
    ∃ parent', parent.BatchWrite view.cacheCoins erase = .ok (parent', afterBatch view.cacheCoins erase) ∧
      parent'.Sound ∧ parent'.view = (cache view parent).view ∧ parent'.layers = parent.layers := by
  obtain ⟨parentSound, flagged⟩ := sound
  have childOk : ∀ it ∈ view.cacheCoins.entries, EntryOk it.2 (parent.view it.1) :=
    fun it member => flagged.entries it.1 it.2 (AList.mem_lookup_iff.mpr member)
  cases parent with
  | base db =>
      obtain ⟨db', written, sound', shown⟩ :=
        foldlM_overlay WriteEntry_keywise _ db view.cacheCoins.nodupKeys parentSound childOk
      rw [List.foldlM_pure] at written
      have batch : db.BatchWrite view.cacheCoins = db' := Except.ok.inj written
      exact ⟨base db', by rw [CoinsStack.BatchWrite, batch], sound', funext shown, rfl⟩
  | cache parentView grandparent =>
      obtain ⟨parentView', written, flagged', shown⟩ :=
        foldlM_overlay (BatchWriteEntry_keywise grandparent) _ parentView view.cacheCoins.nodupKeys
          parentSound.2 childOk
      refine ⟨cache parentView' grandparent, ?_, ⟨parentSound.1, flagged'⟩, funext shown, rfl⟩
      simp only [CoinsStack.BatchWrite, CCoinsViewCache.BatchWrite, written]
      rfl

/-- `Flush` of a cache that keeps its promises empties it into the stack
behind, which then shows what the cache showed. -/
theorem Flush_spec (sound : (cache view parent).Sound) :
    ∃ parent', Flush view parent = .ok (cache ⟨∅, 0⟩ parent') ∧ parent'.Sound ∧
      parent'.view = (cache view parent).view ∧ parent'.layers = parent.layers := by
  obtain ⟨parent', written, sound', shown, layers'⟩ := BatchWrite_spec sound true
  have erased : afterBatch view.cacheCoins true = ∅ :=
    foldl_erase_keys _ view.cacheCoins fun _ member => member
  refine ⟨parent', ?_, sound', shown, layers'⟩
  rw [Flush, written, erased]
  rfl

/-- One pass of the loop at the end of `Sync` keeps the usage total, and
leaves at its outpoint nothing for a spent coin and the coin without flags
otherwise. -/
theorem SyncEntry_keywise :
    WritesKeywise (fun (view : CCoinsViewCache) it => (pure (view.SyncEntry it) : Except String _))
      (fun view => view.cacheCoins.lookup)
      (fun view => view.cachedCoinsUsage = totalWeight CCoinsCacheEntry.usage view.cacheCoins)
      (fun it found => found = some it)
      (fun it => if it.coin.IsSpent then none else some ⟨it.coin, false, false⟩) := by
  intro view key it usage found
  simp only at usage found ⊢
  cases spent : it.coin.IsSpent with
  | true =>
      refine ⟨⟨view.cacheCoins.erase key, view.cachedCoinsUsage - it.usage⟩,
        by simp [CCoinsViewCache.SyncEntry, spent]; rfl, ?_, AList.lookup_erase _ _,
        fun _ same => AList.lookup_erase_ne same⟩
      rw [totalWeight_erase_of_lookup found, usage]
  | false =>
      refine ⟨⟨view.cacheCoins.insert key ⟨it.coin, false, false⟩, view.cachedCoinsUsage⟩,
        by simp [CCoinsViewCache.SyncEntry, spent]; rfl, ?_, AList.lookup_insert _,
        fun _ same => AList.lookup_insert_ne same⟩
      have whole : totalWeight CCoinsCacheEntry.usage view.cacheCoins =
          totalWeight CCoinsCacheEntry.usage (view.cacheCoins.erase key) + it.usage :=
        totalWeight_erase found
      rw [totalWeight_insert_of_lookup found]
      change view.cachedCoinsUsage = _ - it.usage + it.usage
      omega

/-- `Sync` of a cache that keeps its promises writes it into the stack behind
and leaves in it only unspent coins without flags: it shows the same, over a
stack that shows what it showed. -/
theorem Sync_spec (sound : (cache view parent).Sound) :
    ∃ view' parent', Sync view parent = .ok (cache view' parent') ∧ (cache view' parent').Sound ∧
      (cache view' parent').view = (cache view parent).view ∧
      (∀ outpoint it, view'.cacheCoins.lookup outpoint = some it → it.dirty = false) ∧
      parent'.layers = parent.layers := by
  obtain ⟨parent', written, sound', shown, layers'⟩ := BatchWrite_spec sound false
  obtain ⟨synced, loop, usage, left⟩ :=
    foldlM_overlay SyncEntry_keywise view.cacheCoins.entries ⟨view.cacheCoins, view.cachedCoinsUsage⟩
      view.cacheCoins.nodupKeys sound.2.usage fun it member => AList.mem_lookup_iff.mpr member
  rw [List.foldlM_pure] at loop
  -- what the loop leaves is an unspent coin of the cache, without flags
  have copies : ∀ outpoint it, synced.cacheCoins.lookup outpoint = some it →
      ∃ entry, view.cacheCoins.lookup outpoint = some entry ∧ entry.coin.IsSpent = false ∧
        it = ⟨entry.coin, false, false⟩ := by
    intro outpoint it found
    rw [left outpoint] at found
    cases cached : view.cacheCoins.lookup outpoint with
    | none =>
        rw [overlay_of_dlookup_none cached] at found
        rw [found] at cached
        cases cached
    | some entry =>
        rw [overlay_of_dlookup cached] at found
        split at found
        · cases found
        · rename_i unspent
          cases found
          exact ⟨entry, rfl, by simpa using unspent, rfl⟩
  have clean : ∀ outpoint it, synced.cacheCoins.lookup outpoint = some it → it.dirty = false := by
    intro outpoint it found
    obtain ⟨entry, -, -, rfl⟩ := copies outpoint it found
    rfl
  have flagged : synced.WellFlagged parent'.view := by
    refine ⟨?_, usage⟩
    intro outpoint it found
    obtain ⟨entry, cached, unspent, rfl⟩ := copies outpoint it found
    refine EntryOk.copy unspent ?_
    rw [shown, view_cache_of_lookup cached, shows_of_unspent unspent]
  refine ⟨synced, parent', ?_, ⟨sound', flagged⟩, ?_, clean, layers'⟩
  · rw [Sync, written]
    exact congrArg (fun view => Except.ok (cache view parent')) (Except.ok.inj loop)
  · rw [view_of_clean flagged clean, shown]

/-! ## Calls on any cache of a stack -/

theorem GetCoin_cache (outpoint : COutPoint) :
    ∃ view' parent', ((cache view parent).GetCoin outpoint).2 = cache view' parent' := by
  cases fetched : view.FetchCoin outpoint parent (parent.GetCoin outpoint) with
  | mk it rest => exact ⟨rest.1, rest.2, by simp only [GetCoin, fetched]⟩

theorem applyAt_base (db : CCoinsViewDB) (depth : Nat) (op : CoinsOp) :
    (base db).applyAt depth op = .ok (base db) := by
  cases depth <;> rfl

/-- A call other than `AddCoin` and `SpendCoin` on the top cache of a sound
stack keeps it sound and showing the same. -/
theorem apply_keeps_view {op : CoinsOp} (reads : op.writes = false) (sound : (cache view parent).Sound) :
    ∃ view' parent', (cache view parent).apply op = .ok (cache view' parent') ∧
      (cache view' parent').Sound ∧ (cache view' parent').view = (cache view parent).view := by
  -- the three reads change the stack as `GetCoin` does
  have fetch : ∀ outpoint, ∃ view' parent', ((cache view parent).GetCoin outpoint).2 = cache view' parent' ∧
      (cache view' parent').Sound ∧ (cache view' parent').view = (cache view parent).view := by
    intro outpoint
    obtain ⟨view', parent', fetched⟩ :
        ∃ view' parent', ((cache view parent).GetCoin outpoint).2 = cache view' parent' :=
      GetCoin_cache outpoint
    obtain ⟨-, sound', same⟩ := GetCoin_spec sound outpoint
    rw [fetched] at sound' same
    exact ⟨view', parent', fetched, sound', same⟩
  cases op with
  | addCoin => cases reads
  | spendCoin => cases reads
  | getCoin outpoint =>
      obtain ⟨view', parent', fetched, sound', same⟩ := fetch outpoint
      exact ⟨view', parent', by rw [apply, fetched], sound', same⟩
  | accessCoin outpoint =>
      obtain ⟨view', parent', fetched, sound', same⟩ := fetch outpoint
      exact ⟨view', parent', by rw [apply, (AccessCoin_spec sound outpoint).1, fetched], sound', same⟩
  | haveCoin outpoint =>
      obtain ⟨view', parent', fetched, sound', same⟩ := fetch outpoint
      exact ⟨view', parent', by rw [apply, (HaveCoin_spec sound outpoint).1, fetched], sound', same⟩
  | uncache outpoint =>
      obtain ⟨sound', same⟩ := Uncache_spec sound outpoint
      exact ⟨_, parent, rfl, sound', same⟩
  | flush =>
      obtain ⟨parent', flushed, sound', shown, -⟩ := Flush_spec sound
      refine ⟨⟨∅, 0⟩, parent', flushed, ⟨sound', CCoinsViewCache.WellFlagged.empty⟩, ?_⟩
      funext outpoint
      rw [view_cache_of_lookup_none (AList.lookup_empty outpoint), shown]
  | sync =>
      obtain ⟨view', parent', synced, sound', same, -, -⟩ := Sync_spec sound
      exact ⟨view', parent', synced, sound', same⟩

/-- A call other than `AddCoin` and `SpendCoin`, on any cache of a sound
stack, keeps it sound and showing the same: the caches above the one called
keep their promises about a stack that shows the same. -/
theorem applyAt_keeps_view {op : CoinsOp} (reads : op.writes = false) (depth : Nat) :
    ∀ {view : CCoinsViewCache} {parent : CoinsStack}, (cache view parent).Sound →
      ∃ view' parent', (cache view parent).applyAt depth op = .ok (cache view' parent') ∧
        (cache view' parent').Sound ∧ (cache view' parent').view = (cache view parent).view := by
  induction depth with
  | zero =>
      intro view parent sound
      exact apply_keeps_view reads sound
  | succ depth ih =>
      intro view parent sound
      cases parent with
      | base db =>
          refine ⟨view, base db, ?_, sound, rfl⟩
          simp only [applyAt, applyAt_base]
          rfl
      | cache parentView grandparent =>
          obtain ⟨parentView', grandparent', applied, sound', same⟩ := ih sound.1
          refine ⟨view, cache parentView' grandparent', ?_, ⟨sound', by rw [same]; exact sound.2⟩,
            view_cache_of_behind same⟩
          simp only [applyAt, applied]
          rfl

end CoinsStack

end Peercoin.Coins.Cache
