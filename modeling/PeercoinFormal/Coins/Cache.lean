import PeercoinFormal.Coins.View
import PeercoinFormal.Ledger.Overlay

/-!
# coins.cpp: the layered coins cache and its flags

Each `CCoinsViewCache` keeps entries in front of the view behind it, its
`base`, down to the coins database.  An entry carries a coin, spent or not,
and two flags: DIRTY, the entry may differ from what is behind, and FRESH,
nothing behind holds an unspent coin there, so the entry may simply be
dropped once spent.  `FetchCoin` copies a coin from behind, `AddCoin` and
`SpendCoin` change one entry, `BatchWrite` takes a child's DIRTY entries
into a parent, `Flush` and `Sync` send a cache's entries to its parent and
`Uncache` drops an entry without flags.

The stack is an inductive: a cache over the rest of its stack, down to the
database.  What the top of a stack shows is its own entries laid over what
the rest shows (`Ledger.overlay`).  The invariant `Sound` asks of every
entry what its flags promise about the view behind it, and of every cache
that its `cachedCoinsUsage` is the total of its entries; each call keeps it
and each call other than `AddCoin` and `SpendCoin` keeps what the top shows.
-/

set_option autoImplicit false

namespace Peercoin.Coins

open Peercoin.Primitives Ledger

/-- `memusage::MallocUsage` on a 64-bit platform. -/
def MallocUsage (alloc : Nat) : Nat :=
  if alloc = 0 then 0 else ((alloc + 31) >>> 4) <<< 4

/-- `Coin::DynamicMemoryUsage`: the heap block of the script, which a
`prevector<28>` keeps in place up to 28 bytes; the block is taken to be as
long as the script. -/
def Coin.DynamicMemoryUsage (coin : Coin) : Nat :=
  if coin.out.scriptPubKey.length ≤ 28 then 0 else MallocUsage coin.out.scriptPubKey.length

@[simp] theorem Coin.empty_DynamicMemoryUsage : Coin.empty.DynamicMemoryUsage = 0 := rfl

@[simp] theorem Coin.empty_IsSpent : Coin.empty.IsSpent = true := rfl

namespace Cache

/-- `CCoinsCacheEntry`: a coin and the DIRTY and FRESH bits of its `flags`. -/
structure CCoinsCacheEntry where
  coin : Coin
  dirty : Bool
  fresh : Bool
  deriving DecidableEq

abbrev CCoinsMap := AList fun _ : COutPoint => CCoinsCacheEntry

namespace CCoinsCacheEntry

/-- What an entry shows: its coin, unless it is spent. -/
def shows (entry : CCoinsCacheEntry) : Option Coin :=
  if entry.coin.IsSpent then none else some entry.coin

/-- The memory an entry's coin takes, as `cachedCoinsUsage` counts it. -/
def usage (entry : CCoinsCacheEntry) : Nat := entry.coin.DynamicMemoryUsage

/-- The bits `SanityCheck` gathers for an entry: 1 for DIRTY, 2 for FRESH
and 4 for a spent coin. -/
def attr (entry : CCoinsCacheEntry) : Nat :=
  (if entry.dirty then 1 else 0) ||| (if entry.fresh then 2 else 0) |||
    (if entry.coin.IsSpent then 4 else 0)

/-- The five combinations `SanityCheck` allows. -/
def SaneFlags (entry : CCoinsCacheEntry) : Bool :=
  entry.attr != 2 && entry.attr != 4 && entry.attr != 7

end CCoinsCacheEntry

/-- The cache of a `CCoinsViewCache`; the view behind it is the rest of its
stack. -/
structure CCoinsViewCache where
  cacheCoins : CCoinsMap
  cachedCoinsUsage : Nat

/-- `CCoinsViewDB`: the coins written to the database. -/
structure CCoinsViewDB where
  coins : Store COutPoint Coin

namespace CCoinsViewDB

def GetCoin (view : CCoinsViewDB) (outpoint : COutPoint) : Option Coin := view.coins.lookup outpoint

/-- One pass of the loop of `CCoinsViewDB::BatchWrite`: a DIRTY entry is
erased when its coin is spent and written otherwise. -/
def WriteEntry (view : CCoinsViewDB) (it : Σ _ : COutPoint, CCoinsCacheEntry) : CCoinsViewDB :=
  if it.2.dirty then
    if it.2.coin.IsSpent then ⟨view.coins.erase it.1⟩ else ⟨view.coins.insert it.1 it.2.coin⟩
  else view

def BatchWrite (view : CCoinsViewDB) (mapCoins : CCoinsMap) : CCoinsViewDB :=
  mapCoins.entries.foldl WriteEntry view

end CCoinsViewDB

/-- The text of the `logic_error` of `BatchWrite` for a misapplied FRESH flag. -/
def freshMisapplied : String := "FRESH flag misapplied to coin that exists in parent cache"

namespace CCoinsViewCache

/-- `FetchCoin`, given what `base->GetCoin` returns together with the view
behind as that call leaves it; both are read only when the outpoint is not
cached here. -/
def FetchCoin {σ : Type} (view : CCoinsViewCache) (outpoint : COutPoint) (base : σ)
    (fetched : Option Coin × σ) : Option CCoinsCacheEntry × CCoinsViewCache × σ :=
  match view.cacheCoins.lookup outpoint with
  | some it => (some it, view, base)
  | none =>
    match fetched with
    | (none, base) => (none, view, base)
    | (some tmp, base) =>
      -- a spent coin from behind is only an empty entry there, so it is FRESH here
      let it : CCoinsCacheEntry := ⟨tmp, false, tmp.IsSpent⟩
      (some it, ⟨view.cacheCoins.insert outpoint it, view.cachedCoinsUsage + it.usage⟩, base)

/-- `AddCoin`; an `.error` is the failed assertion or the `logic_error` it
throws. -/
def AddCoin (view : CCoinsViewCache) (outpoint : COutPoint) (coin : Coin)
    (possible_overwrite skipZeroValue : Bool) : Except String CCoinsViewCache :=
  if coin.IsSpent then .error "assertion failed: !coin.IsSpent()"
  else if IsUnspendable coin.out.scriptPubKey then .ok view
  else if coin.out.nValue = 0 ∧ skipZeroValue then .ok view
  else
    -- `emplace` finds the entry, or puts in `Coin()` without flags and leaves the usage
    let (it, cachedCoinsUsage) : CCoinsCacheEntry × Nat :=
      match view.cacheCoins.lookup outpoint with
      | some it => (it, view.cachedCoinsUsage - it.usage)
      | none => (⟨Coin.empty, false, false⟩, view.cachedCoinsUsage)
    if !possible_overwrite && !it.coin.IsSpent then
      .error "Attempted to overwrite an unspent coin (when possible_overwrite is false)"
    else
      let fresh := !possible_overwrite && !it.dirty
      .ok ⟨view.cacheCoins.insert outpoint ⟨coin, true, it.fresh || fresh⟩,
        cachedCoinsUsage + coin.DynamicMemoryUsage⟩

/-- `SpendCoin`, with the arguments of `FetchCoin`; `some` is its `true`,
with the coin it moves out. -/
def SpendCoin {σ : Type} (view : CCoinsViewCache) (outpoint : COutPoint) (base : σ)
    (fetched : Option Coin × σ) : Option Coin × CCoinsViewCache × σ :=
  match view.FetchCoin outpoint base fetched with
  | (none, view, base) => (none, view, base)
  | (some it, view, base) =>
    let cachedCoinsUsage := view.cachedCoinsUsage - it.usage
    if it.fresh then (some it.coin, ⟨view.cacheCoins.erase outpoint, cachedCoinsUsage⟩, base)
    else
      -- `coin.Clear()` leaves `Coin()`
      (some it.coin, ⟨view.cacheCoins.insert outpoint ⟨Coin.empty, true, false⟩,
        cachedCoinsUsage⟩, base)

/-- One pass of the loop of `CCoinsViewCache::BatchWrite`, for the child's
entry `it`. -/
def BatchWriteEntry (view : CCoinsViewCache) (it : Σ _ : COutPoint, CCoinsCacheEntry) :
    Except String CCoinsViewCache :=
  if !it.2.dirty then .ok view
  else
    match view.cacheCoins.lookup it.1 with
    | none =>
      -- a spent FRESH entry has nothing to pass on
      if it.2.fresh && it.2.coin.IsSpent then .ok view
      else .ok ⟨view.cacheCoins.insert it.1 ⟨it.2.coin, true, it.2.fresh⟩,
        view.cachedCoinsUsage + it.2.usage⟩
    | some ours =>
      if it.2.fresh && !ours.coin.IsSpent then .error freshMisapplied
      else if ours.fresh && it.2.coin.IsSpent then
        .ok ⟨view.cacheCoins.erase it.1, view.cachedCoinsUsage - ours.usage⟩
      else .ok ⟨view.cacheCoins.insert it.1 ⟨it.2.coin, true, ours.fresh⟩,
        view.cachedCoinsUsage - ours.usage + it.2.usage⟩

def BatchWrite (view : CCoinsViewCache) (mapCoins : CCoinsMap) : Except String CCoinsViewCache :=
  mapCoins.entries.foldlM BatchWriteEntry view

/-- One pass of the loop at the end of `Sync`: a spent coin goes, an unspent
one loses its flags. -/
def SyncEntry (view : CCoinsViewCache) (it : Σ _ : COutPoint, CCoinsCacheEntry) : CCoinsViewCache :=
  if it.2.coin.IsSpent then ⟨view.cacheCoins.erase it.1, view.cachedCoinsUsage - it.2.usage⟩
  else ⟨view.cacheCoins.insert it.1 ⟨it.2.coin, false, false⟩, view.cachedCoinsUsage⟩

def Uncache (view : CCoinsViewCache) (hash : COutPoint) : CCoinsViewCache :=
  match view.cacheCoins.lookup hash with
  | some it =>
    if !it.dirty && !it.fresh then ⟨view.cacheCoins.erase hash, view.cachedCoinsUsage - it.usage⟩
    else view
  | none => view

def SanityCheck (view : CCoinsViewCache) : Bool :=
  view.cacheCoins.entries.all (fun it => it.2.SaneFlags) &&
    totalWeight CCoinsCacheEntry.usage view.cacheCoins == view.cachedCoinsUsage

end CCoinsViewCache

/-- What the loop of a `BatchWrite` leaves of the child's map: with `erase`
each entry is erased as it is passed. -/
def afterBatch (mapCoins : CCoinsMap) (erase : Bool) : CCoinsMap :=
  if erase then mapCoins.entries.foldl (fun map it => map.erase it.1) mapCoins else mapCoins

/-- A `CCoinsViewCache` over the views behind it, down to the database. -/
inductive CoinsStack
  | base (db : CCoinsViewDB)
  | cache (view : CCoinsViewCache) (parent : CoinsStack)

/-- A call on one cache of a stack. -/
inductive CoinsOp
  | addCoin (outpoint : COutPoint) (coin : Coin) (possible_overwrite skipZeroValue : Bool)
  | spendCoin (outpoint : COutPoint)
  | getCoin (outpoint : COutPoint)
  | accessCoin (outpoint : COutPoint)
  | haveCoin (outpoint : COutPoint)
  | uncache (outpoint : COutPoint)
  | flush
  | sync

namespace CoinsStack

/-- `GetCoin` of the top of the stack: a cache asks the view behind it for
what it has not cached, and keeps what it gets. -/
def GetCoin : CoinsStack → COutPoint → Option Coin × CoinsStack
  | base db, outpoint => (db.GetCoin outpoint, base db)
  | cache view parent, outpoint =>
    match view.FetchCoin outpoint parent (parent.GetCoin outpoint) with
    | (it, view, parent) => (it.bind CCoinsCacheEntry.shows, cache view parent)

/-- `AccessCoin` of the cache `view` over `parent`. -/
def AccessCoin (view : CCoinsViewCache) (parent : CoinsStack) (outpoint : COutPoint) :
    Coin × CoinsStack :=
  match view.FetchCoin outpoint parent (parent.GetCoin outpoint) with
  | (it, view, parent) => ((it.map CCoinsCacheEntry.coin).getD Coin.empty, cache view parent)

/-- `HaveCoin` of the cache `view` over `parent`. -/
def HaveCoin (view : CCoinsViewCache) (parent : CoinsStack) (outpoint : COutPoint) :
    Bool × CoinsStack :=
  match view.FetchCoin outpoint parent (parent.GetCoin outpoint) with
  | (it, view, parent) => (it.any fun it => !it.coin.IsSpent, cache view parent)

/-- `BatchWrite` of the top of the stack, with the child's map as its loop
leaves it. -/
def BatchWrite : CoinsStack → CCoinsMap → Bool → Except String (CoinsStack × CCoinsMap)
  | base db, mapCoins, erase => .ok (base (db.BatchWrite mapCoins), afterBatch mapCoins erase)
  | cache view parent, mapCoins, erase => do
    let view ← view.BatchWrite mapCoins
    pure (cache view parent, afterBatch mapCoins erase)

/-- `Flush` of the cache `view` over `parent`. -/
def Flush (view : CCoinsViewCache) (parent : CoinsStack) : Except String CoinsStack := do
  let (parent, cacheCoins) ← parent.BatchWrite view.cacheCoins true
  if !cacheCoins.entries.isEmpty then throw "Not all cached coins were erased"
  pure (cache ⟨cacheCoins, 0⟩ parent)

/-- `Sync` of the cache `view` over `parent`. -/
def Sync (view : CCoinsViewCache) (parent : CoinsStack) : Except String CoinsStack := do
  let (parent, cacheCoins) ← parent.BatchWrite view.cacheCoins false
  let view : CCoinsViewCache := ⟨cacheCoins, view.cachedCoinsUsage⟩
  pure (cache (view.cacheCoins.entries.foldl CCoinsViewCache.SyncEntry view) parent)

/-- The call `op` on the top cache of the stack, its result dropped; the
database takes none of these calls. -/
def apply : CoinsStack → CoinsOp → Except String CoinsStack
  | base db, _ => .ok (base db)
  | cache view parent, .addCoin outpoint coin possible_overwrite skipZeroValue => do
    let view ← view.AddCoin outpoint coin possible_overwrite skipZeroValue
    pure (cache view parent)
  | cache view parent, .spendCoin outpoint =>
    match view.SpendCoin outpoint parent (parent.GetCoin outpoint) with
    | (_, view, parent) => .ok (cache view parent)
  | cache view parent, .getCoin outpoint => .ok ((cache view parent).GetCoin outpoint).2
  | cache view parent, .accessCoin outpoint => .ok (AccessCoin view parent outpoint).2
  | cache view parent, .haveCoin outpoint => .ok (HaveCoin view parent outpoint).2
  | cache view parent, .uncache outpoint => .ok (cache (view.Uncache outpoint) parent)
  | cache view parent, .flush => Flush view parent
  | cache view parent, .sync => Sync view parent

/-- The call `op` on the cache `depth` layers below the top. -/
def applyAt : Nat → CoinsStack → CoinsOp → Except String CoinsStack
  | 0, stack, op => stack.apply op
  | _ + 1, base db, _ => .ok (base db)
  | depth + 1, cache view parent, op => do
    let parent ← applyAt depth parent op
    pure (cache view parent)

/-- A sequence of calls, each on the cache at its depth. -/
def run (stack : CoinsStack) (calls : List (Nat × CoinsOp)) : Except String CoinsStack :=
  calls.foldlM (fun stack call => stack.applyAt call.1 call.2) stack

/-- `SanityCheck` of every cache of the stack. -/
def SanityCheck : CoinsStack → Bool
  | base _ => true
  | cache view parent => view.SanityCheck && parent.SanityCheck

/-- What the top of the stack shows at each outpoint. -/
def view : CoinsStack → COutPoint → Option Coin
  | base db => db.GetCoin
  | cache view parent => overlay CCoinsCacheEntry.shows view.cacheCoins.entries parent.view

end CoinsStack

end Cache

end Peercoin.Coins
