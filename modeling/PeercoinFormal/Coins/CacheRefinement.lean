import PeercoinFormal.Coins.CacheSound

/-!
# The layered coins cache refines a map of unspent coins

The reference is what the cache stack is for: one map of unspent coins,
where an add puts a coin in unless `AddCoin` drops its output and a spend
takes it out.  A sound stack whose top shows the reference keeps showing it
through every call, as long as adds and spends go to the top cache and an
add without `possible_overwrite` is of a coin the reference does not hold;
the reads, `Uncache`, `Flush` and `Sync` may go to any cache.  Flushing or
syncing every cache from the top down then leaves the reference in the
database.

An add or a spend on a lower cache is not covered, and is wrong: a coin a
cache above holds FRESH can be added below, and the next flush of the cache
above throws the `logic_error` of a misapplied FRESH flag.
-/

set_option autoImplicit false

namespace Peercoin.Coins.Cache

open Peercoin.Primitives Ledger

/-- What a call does to the reference map of unspent coins: an add puts the
coin in unless `AddCoin` drops its output, a spend takes the coin out, and
nothing else changes it. -/
def ReferenceStep (coins : Store COutPoint Coin) : CoinsOp → Store COutPoint Coin
  | .addCoin outpoint coin _ skipZeroValue =>
    if IsKept skipZeroValue coin.out then coins.insert outpoint coin else coins
  | .spendCoin outpoint => coins.erase outpoint
  | _ => coins

def ReferenceRun (coins : Store COutPoint Coin) (calls : List (Nat × CoinsOp)) :
    Store COutPoint Coin :=
  calls.foldl (fun coins call => ReferenceStep coins call.2) coins

/-- The calls the refinement covers, against the reference before each:
adds and spends on the top cache, of unspent coins, and an add without
`possible_overwrite` only of a coin the reference does not hold. -/
def CallAllowed (coins : Store COutPoint Coin) : Nat × CoinsOp → Prop
  | (depth, .addCoin outpoint coin possible_overwrite _) =>
    depth = 0 ∧ coin.IsSpent = false ∧ (possible_overwrite = false → coins.lookup outpoint = none)
  | (depth, .spendCoin _) => depth = 0
  | _ => True

def CallsAllowed : Store COutPoint Coin → List (Nat × CoinsOp) → Prop
  | _, [] => True
  | coins, call :: calls => CallAllowed coins call ∧ CallsAllowed (ReferenceStep coins call.2) calls

namespace CoinsStack

/-- `n + 1` empty caches over the database `db`. -/
def layered (db : CCoinsViewDB) : Nat → CoinsStack
  | 0 => cache ⟨∅, 0⟩ (base db)
  | n + 1 => cache ⟨∅, 0⟩ (layered db n)

/-- The coins in the database under the stack. -/
def baseCoins : CoinsStack → Store COutPoint Coin
  | base db => db.coins
  | cache _ parent => parent.baseCoins

end CoinsStack

/-- `Flush` or `Sync` of every cache from the top down, `Flush` where
`flush` holds: the top first, then the stack behind it, one cache deeper. -/
def FlushDown : List Bool → List (Nat × CoinsOp)
  | [] => []
  | useFlush :: rest =>
    (0, if useFlush then .flush else .sync) :: (FlushDown rest).map fun call => (call.1 + 1, call.2)

namespace CoinsStack

variable {view : CCoinsViewCache} {parent : CoinsStack}

/-! ## One call -/

/-- An allowed call on a sound stack whose top shows the reference succeeds,
keeps the stack sound, and leaves its top showing the reference after the
call. -/
theorem applyAt_refines {coins : Store COutPoint Coin} {call : Nat × CoinsOp}
    (sound : (cache view parent).Sound) (agrees : ∀ outpoint, (cache view parent).view outpoint = coins.lookup outpoint)
    (allowed : CallAllowed coins call) :
    ∃ view' parent', (cache view parent).applyAt call.1 call.2 = .ok (cache view' parent') ∧
      (cache view' parent').Sound ∧
      ∀ outpoint, (cache view' parent').view outpoint = (ReferenceStep coins call.2).lookup outpoint := by
  obtain ⟨depth, op⟩ := call
  -- a call that keeps what the stack shows keeps the reference as it was
  have keeps : op.writes = false → ReferenceStep coins op = coins → ∃ view' parent',
      (cache view parent).applyAt depth op = .ok (cache view' parent') ∧ (cache view' parent').Sound ∧
      ∀ outpoint, (cache view' parent').view outpoint = (ReferenceStep coins op).lookup outpoint := by
    intro reads unchanged
    obtain ⟨view', parent', applied, sound', same⟩ := applyAt_keeps_view reads depth sound
    refine ⟨view', parent', applied, sound', fun outpoint => ?_⟩
    rw [unchanged, same, agrees]
  cases op with
  | addCoin outpoint coin possible_overwrite skipZeroValue =>
      obtain ⟨top, unspent, fresh⟩ := allowed
      subst top
      obtain ⟨view', added, sound', shown⟩ := AddCoin_spec outpoint possible_overwrite skipZeroValue
        sound unspent (fun refused => by rw [agrees]; exact fresh refused)
      refine ⟨view', parent, by simp only [applyAt, apply, added]; rfl, sound', ?_⟩
      intro other
      rw [shown other, ReferenceStep]
      by_cases kept : IsKept skipZeroValue coin.out = true
      · rw [if_pos kept]
        by_cases same : other = outpoint
        · rw [if_pos ⟨kept, same⟩, same, Finmap.lookup_insert]
        · rw [if_neg (fun both => same both.2), Finmap.lookup_insert_of_ne _ same, agrees]
      · rw [if_neg (fun both => kept both.1), if_neg kept, agrees]
  | spendCoin outpoint =>
      subst allowed
      obtain ⟨spent, view', parent', spendCall, sound', shown, -⟩ :=
        SpendCoin_spec outpoint sound
      refine ⟨view', parent', by simp only [applyAt, apply, spendCall], sound', ?_⟩
      intro other
      rw [shown other, ReferenceStep]
      by_cases same : other = outpoint
      · rw [if_pos same, same, Finmap.lookup_erase]
      · rw [if_neg same, Finmap.lookup_erase_ne same, agrees]
  | getCoin outpoint => exact keeps rfl rfl
  | accessCoin outpoint => exact keeps rfl rfl
  | haveCoin outpoint => exact keeps rfl rfl
  | uncache outpoint => exact keeps rfl rfl
  | flush => exact keeps rfl rfl
  | sync => exact keeps rfl rfl

/-! ## Runs -/

/-- A run of allowed calls on a sound stack whose top shows the reference
succeeds, keeps the stack sound, and leaves its top showing the reference
the same calls lead to. -/
theorem run_refines : ∀ (calls : List (Nat × CoinsOp)) {view : CCoinsViewCache}
    {parent : CoinsStack} {coins : Store COutPoint Coin}, (cache view parent).Sound →
    (∀ outpoint, (cache view parent).view outpoint = coins.lookup outpoint) →
    CallsAllowed coins calls →
    ∃ view' parent', (cache view parent).run calls = .ok (cache view' parent') ∧
      (cache view' parent').Sound ∧
      ∀ outpoint, (cache view' parent').view outpoint = (ReferenceRun coins calls).lookup outpoint
  | [], view, parent, _, sound, agrees, _ => ⟨view, parent, rfl, sound, agrees⟩
  | call :: calls, _, _, _, sound, agrees, allowed => by
      obtain ⟨view₁, parent₁, applied, sound₁, agrees₁⟩ := applyAt_refines sound agrees allowed.1
      obtain ⟨view', parent', rest, sound', agrees'⟩ := run_refines calls sound₁ agrees₁ allowed.2
      refine ⟨view', parent', ?_, sound', agrees'⟩
      rw [run, List.foldlM_cons, applied]
      exact rest

theorem CallsAllowed_take : ∀ (calls : List (Nat × CoinsOp)) {coins : Store COutPoint Coin} (k : Nat),
    CallsAllowed coins calls → CallsAllowed coins (calls.take k)
  | [], _, _, _ => by simp [CallsAllowed]
  | _ :: _, _, 0, _ => trivial
  | _ :: calls, _, k + 1, allowed => ⟨allowed.1, CallsAllowed_take calls k allowed.2⟩

/-! ## Flushing every cache -/

theorem run_base (db : CCoinsViewDB) :
    ∀ calls : List (Nat × CoinsOp), (base db).run calls = .ok (base db)
  | [] => rfl
  | call :: calls => by
      rw [run, List.foldlM_cons, applyAt_base]
      exact run_base db calls

/-- Calls one cache deeper on a stack with a cache on top are the calls on
the stack behind it. -/
theorem run_shift : ∀ (calls : List (Nat × CoinsOp)) {parent parent' : CoinsStack},
    parent.run calls = .ok parent' →
      (cache view parent).run (calls.map fun call => (call.1 + 1, call.2)) = .ok (cache view parent')
  | [], _, _, done => by
      cases done
      rfl
  | call :: calls, parent, parent', done => by
      rw [run, List.foldlM_cons] at done
      obtain ⟨parent₁, applied, rest⟩ := bind_eq_ok.mp done
      rw [List.map_cons, run, List.foldlM_cons]
      have deeper : (cache view parent).applyAt (call.1 + 1) call.2 = .ok (cache view parent₁) := by
        simp only [applyAt, applied]
        rfl
      rw [deeper]
      exact run_shift calls rest

/-- After `Flush` or `Sync` of every cache of a sound stack from the top
down, the database holds what the top showed. -/
theorem FlushDown_base : ∀ (flush : List Bool) (stack : CoinsStack), stack.Sound →
    stack.layers ≤ flush.length →
      ∃ stack', stack.run (FlushDown flush) = .ok stack' ∧
        ∀ outpoint, stack'.baseCoins.lookup outpoint = stack.view outpoint
  | _, base db, _, _ => ⟨base db, run_base db _, fun _ => rfl⟩
  | [], cache _ _, _, covered => by
      simp [layers] at covered
  | useFlush :: rest, cache view parent, sound, covered => by
      simp only [layers, List.length_cons, Nat.add_le_add_iff_right] at covered
      -- the top goes first, and leaves over the stack behind a cache that shows what is behind
      have top : ∃ view₁ parent₁, (cache view parent).apply (if useFlush then .flush else .sync) =
          .ok (cache view₁ parent₁) ∧ parent₁.Sound ∧ parent₁.view = (cache view parent).view ∧
          parent₁.layers = parent.layers := by
        cases useFlush with
        | true =>
            obtain ⟨parent₁, flushed, sound₁, shown, layers₁⟩ := Flush_spec sound
            exact ⟨⟨∅, 0⟩, parent₁, flushed, sound₁, shown, layers₁⟩
        | false =>
            obtain ⟨view₁, parent₁, synced, ⟨sound₁, flagged₁⟩, same, clean, layers₁⟩ := Sync_spec sound
            exact ⟨view₁, parent₁, synced, sound₁, by rw [← same, view_of_clean flagged₁ clean],
              layers₁⟩
      obtain ⟨view₁, parent₁, applied, sound₁, shown, layers₁⟩ := top
      obtain ⟨parent₂, rest₂, base₂⟩ := FlushDown_base rest parent₁ sound₁ (layers₁ ▸ covered)
      refine ⟨cache view₁ parent₂, ?_, fun outpoint => by rw [baseCoins, base₂, shown]⟩
      rw [FlushDown, run, List.foldlM_cons]
      change (cache view parent).apply _ >>= _ = _
      rw [applied]
      exact run_shift _ rest₂

/-! ## The stack from empty caches -/

theorem layered_sound (db : CCoinsViewDB)
    (unspent : ∀ outpoint coin, db.coins.lookup outpoint = some coin → coin.IsSpent = false) :
    ∀ n, (layered db n).Sound ∧ (layered db n).view = db.GetCoin
  | 0 => by
      refine ⟨⟨unspent, CCoinsViewCache.WellFlagged.empty⟩, ?_⟩
      funext outpoint
      exact view_cache_of_lookup_none (AList.lookup_empty outpoint)
  | n + 1 => by
      obtain ⟨sound, shown⟩ := layered_sound db unspent n
      refine ⟨⟨sound, CCoinsViewCache.WellFlagged.empty⟩, ?_⟩
      funext outpoint
      rw [layered, view_cache_of_lookup_none (AList.lookup_empty outpoint), shown]

theorem layered_cache (db : CCoinsViewDB) (n : Nat) :
    ∃ view parent, layered db n = cache view parent := by
  cases n <;> exact ⟨_, _, rfl⟩

/-- Caches stacked over a database of unspent coins refine a map of unspent
coins.  Every run of calls, with adds and spends on the top cache, each
added coin unspent and an add without `possible_overwrite` only of a coin
the map does not hold, succeeds (so `BatchWrite` never throws that a FRESH
flag was misapplied); every cache passes `SanityCheck` after each call; the
top shows the map the same adds and spends lead to; and `Flush` or `Sync` of
every cache from the top down leaves that map in the database. -/
theorem layered_cache_refines_map (db : CCoinsViewDB) (n : Nat)
    (unspent : ∀ outpoint coin, db.coins.lookup outpoint = some coin → coin.IsSpent = false)
    (calls : List (Nat × CoinsOp)) (allowed : CallsAllowed db.coins calls) :
    (∀ k, ∃ stack, (layered db n).run (calls.take k) = .ok stack ∧ stack.SanityCheck = true) ∧
      ∃ stack, (layered db n).run calls = .ok stack ∧
        (∀ outpoint, stack.view outpoint = (ReferenceRun db.coins calls).lookup outpoint) ∧
        ∀ flush : List Bool, stack.layers ≤ flush.length →
          ∃ flushed, stack.run (FlushDown flush) = .ok flushed ∧
            flushed.baseCoins = ReferenceRun db.coins calls := by
  obtain ⟨sound, shown⟩ := layered_sound db unspent n
  obtain ⟨top, parent, stacked⟩ := layered_cache db n
  rw [stacked] at sound shown ⊢
  have agrees : ∀ outpoint, (cache top parent).view outpoint = db.coins.lookup outpoint :=
    fun outpoint => by rw [shown]; rfl
  refine ⟨?_, ?_⟩
  · intro k
    obtain ⟨view', parent', ran, sound', -⟩ :=
      run_refines (calls.take k) sound agrees (CallsAllowed_take calls k allowed)
    exact ⟨cache view' parent', ran, sound'.SanityCheck⟩
  · obtain ⟨view', parent', ran, sound', agrees'⟩ := run_refines calls sound agrees allowed
    refine ⟨cache view' parent', ran, agrees', ?_⟩
    intro flush covered
    obtain ⟨flushed, flushRun, based⟩ := FlushDown_base flush _ sound' covered
    refine ⟨flushed, flushRun, Finmap.ext_lookup fun outpoint => ?_⟩
    rw [based, agrees']

/-- An output paying to `OP_TRUE`, at height 1. -/
def pinnedCoin : Coin := Coin.new ⟨1, [0x51]⟩ 1 false false 0

def pinnedOutpoint : COutPoint := ⟨uint256.ZERO, 0⟩

/-- An add to the top of two caches, a read through the cache behind, a
`Sync` of the top, a `Flush` of the cache behind, a spend and a read. -/
def pinnedCalls : List (Nat × CoinsOp) :=
  [(0, .addCoin pinnedOutpoint pinnedCoin false false), (1, .getCoin pinnedOutpoint), (0, .sync),
    (1, .flush), (0, .spendCoin pinnedOutpoint), (0, .accessCoin pinnedOutpoint)]

theorem pinnedCalls_refine_map :
    (∀ outpoint coin, (⟨∅⟩ : CCoinsViewDB).coins.lookup outpoint = some coin → coin.IsSpent = false) ∧
      CallsAllowed ∅ pinnedCalls ∧
      ((∀ k, ∃ stack, (layered ⟨∅⟩ 1).run (pinnedCalls.take k) = .ok stack ∧
          stack.SanityCheck = true) ∧
        ∃ stack, (layered ⟨∅⟩ 1).run pinnedCalls = .ok stack ∧
          (∀ outpoint, stack.view outpoint = (ReferenceRun ∅ pinnedCalls).lookup outpoint) ∧
          ∀ flush : List Bool, stack.layers ≤ flush.length →
            ∃ flushed, stack.run (FlushDown flush) = .ok flushed ∧
              flushed.baseCoins = ReferenceRun ∅ pinnedCalls) := by
  have unspent : ∀ outpoint coin, (⟨∅⟩ : CCoinsViewDB).coins.lookup outpoint = some coin →
      coin.IsSpent = false := by
    intro outpoint coin found
    simp at found
  have allowed : CallsAllowed ∅ pinnedCalls :=
    ⟨⟨rfl, rfl, fun _ => rfl⟩, trivial, trivial, trivial, rfl, trivial, trivial⟩
  exact ⟨unspent, allowed, layered_cache_refines_map ⟨∅⟩ 1 unspent pinnedCalls allowed⟩

/-- A coin added as new to the top of two caches, then added again to the
cache behind it with an overwrite allowed: the next `Flush` of the top finds
its FRESH coin unspent behind it and throws. -/
theorem lower_add_misapplies_fresh :
    (∅ : Store COutPoint Coin).lookup pinnedOutpoint = none ∧ pinnedCoin.IsSpent = false ∧
      (layered ⟨∅⟩ 1).run [(0, .addCoin pinnedOutpoint pinnedCoin false false),
        (1, .addCoin pinnedOutpoint pinnedCoin true false), (0, .flush)] = .error freshMisapplied :=
  ⟨rfl, rfl, rfl⟩

end CoinsStack

end Peercoin.Coins.Cache
