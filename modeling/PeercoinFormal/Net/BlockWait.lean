import PeercoinFormal.Ledger.SortedMap
import PeercoinFormal.Pow.Target

/-!
# net_processing.cpp: the BLOCK message and the blocks waiting for a parent

Peercoin's `BLOCK` handler does not hand a received block to `ProcessBlock`
at once.  It looks up the parent's block-index entry, runs its anti-DoS
checks, and stores the block in `mapBlocksWait` under the parent's
`CBlockIndex*`.  A loop then takes, one at a time, the waiting child of
`pindexLastAccepted` or the first waiting block (in pointer order) that has
waited over 60 seconds, whose parent failed, or whose parent is valid up to
its transactions; it drops the first two and hands the last to
`ProcessBlock`, and stops when no waiting block can go on.

A `CBlockIndex*` is here the hash of the entry it points to, or `none` for
`nullptr`; reading through one (`ChainView.deref`) fails with the pointer
when it is null or points to no entry, and such a failure ends the run.
`mapBlocksWait` is its entries in pointer order, which `NetContext` fixes
with `nullptr` first.  The context also holds what the handler calls and
this model does not open: `ProcessNewBlock`, the mutation and work tests,
and whether blocks are being imported.  The bookkeeping of
`RemoveBlockRequest` beyond `mapBlocksInFlight`, `mapBlockSource` and the
log lines are left out.
-/

set_option autoImplicit false

namespace Peercoin.Net

open Peercoin.Primitives Peercoin.Pow Ledger

/-- A `CBlockIndex*`: `none` is `nullptr`, `some hash` the entry of `hash`. -/
abbrev IndexPtr := Option uint256

abbrev NodeId := Nat

abbrev CNetAddr := Nat

/-- The fields of a block-index entry that the handler reads. -/
structure IndexEntry where
  nStatus : UInt32
  nTime : UInt32
  nChainTrust : Nat

def BLOCK_VALID_TRANSACTIONS : UInt32 := 3

def BLOCK_VALID_MASK : UInt32 := 1 ||| 2 ||| 3 ||| 4 ||| 5

def BLOCK_FAILED_VALID : UInt32 := 32

def BLOCK_FAILED_CHILD : UInt32 := 64

def BLOCK_FAILED_MASK : UInt32 := BLOCK_FAILED_VALID ||| BLOCK_FAILED_CHILD

def MAX_CONSECUTIVE_POS_HEADERS : Int := 1000

/-- `CBlockIndex::IsValid`. -/
def IndexEntry.IsValid (entry : IndexEntry) (nUpTo : UInt32) : Bool :=
  if entry.nStatus &&& BLOCK_FAILED_MASK != 0 then false
  else entry.nStatus &&& BLOCK_VALID_MASK ≥ nUpTo

/-- The chainstate as the handler sees it: `m_block_index` and the active tip. -/
structure ChainView where
  blockIndex : uint256 → Option IndexEntry
  tip : IndexPtr

/-- `BlockManager::LookupBlockIndex`. -/
def ChainView.LookupBlockIndex (view : ChainView) (hash : uint256) : IndexPtr :=
  if (view.blockIndex hash).isSome then some hash else none

/-- Reading the entry a pointer points to. -/
def ChainView.deref (view : ChainView) : IndexPtr → Except IndexPtr IndexEntry
  | none => .error none
  | some hash =>
    match view.blockIndex hash with
    | some entry => .ok entry
    | none => .error (some hash)

/-- A pointer to an entry of the block index. -/
def ChainView.Resolves (view : ChainView) (ptr : IndexPtr) : Prop :=
  ∃ hash, ptr = some hash ∧ (view.blockIndex hash).isSome

theorem ChainView.deref_of_resolves {view : ChainView} {ptr : IndexPtr} (resolves : view.Resolves ptr) :
    ∃ entry, view.deref ptr = .ok entry := by
  obtain ⟨hash, rfl, found⟩ := resolves
  obtain ⟨entry, entryFound⟩ := Option.isSome_iff_exists.mp found
  exact ⟨entry, by simp [ChainView.deref, entryFound]⟩

/-- A read fails with the pointer it read through, which points to no entry. -/
theorem ChainView.deref_error {view : ChainView} {ptr failed : IndexPtr}
    (fails : view.deref ptr = .error failed) : failed = ptr ∧ ¬view.Resolves ptr := by
  refine ⟨?_, fun resolves => ?_⟩
  · unfold ChainView.deref at fails
    split at fails
    · cases fails
      rfl
    · split at fails
      · cases fails
      · cases fails
        rfl
  · obtain ⟨entry, read⟩ := view.deref_of_resolves resolves
    rw [read] at fails
    cases fails

theorem ChainView.LookupBlockIndex_resolves (view : ChainView) (hash : uint256) :
    view.LookupBlockIndex hash = none ∨ view.Resolves (view.LookupBlockIndex hash) := by
  unfold ChainView.LookupBlockIndex
  split
  · rename_i found
    exact .inr ⟨hash, rfl, found⟩
  · exact .inl rfl

structure WaitElement where
  pblock : CBlock
  time : Int
  deriving DecidableEq

/-- What the handler calls and this model does not open. -/
structure NetContext where
  network : ChainType
  sha256 : List UInt8 → uint256
  /-- The order of `CBlockIndex*` values, which `std::map` sorts by. -/
  ptrBefore : IndexPtr → IndexPtr → Bool
  ptrOrder : IsStrictTotalOrder IndexPtr fun a b => ptrBefore a b = true
  ptrBefore_null : ∀ hash, ptrBefore none (some hash) = true
  LoadingBlocks : Bool
  IsInitialBlockDownload : ChainView → Bool
  IsBTC16BIPsEnabled : UInt32 → Bool
  IsBlockMutated : CBlock → Bool → Bool
  CalculateHeadersWork : CBlockHeader → Nat
  GetAntiDoSWorkThreshold : Nat
  /-- `ChainstateManager::ProcessNewBlock(block, force_processing,
  min_pow_checked)`: the chainstate after it, and `new_block`. -/
  ProcessNewBlock : ChainView → CBlock → Bool → Bool → ChainView × Bool

/-- The order `mapBlocksWait` keeps its entries in. -/
def NetContext.PtrLt (ctx : NetContext) (a b : IndexPtr) : Prop := ctx.ptrBefore a b = true

instance (ctx : NetContext) : DecidableRel ctx.PtrLt := fun a b =>
  inferInstanceAs (Decidable (ctx.ptrBefore a b = true))

instance (ctx : NetContext) : IsStrictTotalOrder IndexPtr ctx.PtrLt := ctx.ptrOrder

def NetContext.GetHash (ctx : NetContext) (block : CBlock) : uint256 :=
  CBlockHeader.GetHash ctx.sha256 block.toCBlockHeader

/-- The handler's state: the chainstate, the block requests in flight with
the peers they were asked of, each address's proof-of-stake temperature, the
waiting blocks in pointer order, and the static `pindexLastAccepted`. -/
structure NodeState where
  chain : ChainView
  mapBlocksInFlight : List (uint256 × NodeId)
  mapPoSTemperature : CNetAddr → Int
  mapBlocksWait : List (IndexPtr × WaitElement)
  pindexLastAccepted : IndexPtr

/-- How a block left `mapBlocksWait`. -/
inductive WaitExit
  | processed (forceProcessing min_pow_checked : Bool)
  | expired
  | parentFailed
  deriving DecidableEq

inductive Effect
  | misbehaving (howmuch : Nat) (message : String)
  | left (pindexPrev : IndexPtr) (we : WaitElement) (exit : WaitExit)
  deriving DecidableEq

/-- `IsBlockRequested`. -/
def IsBlockRequested (hash : uint256) (mapBlocksInFlight : List (uint256 × NodeId)) : Bool :=
  mapBlocksInFlight.any fun request => request.1 == hash

/-- `RemoveBlockRequest`: the requests of `hash`, from `from_peer` only when
it is given. -/
def RemoveBlockRequest (hash : uint256) (from_peer : Option NodeId)
    (mapBlocksInFlight : List (uint256 × NodeId)) : List (uint256 × NodeId) :=
  mapBlocksInFlight.filter fun request =>
    !(request.1 == hash && from_peer.all (· == request.2))

/-! ## The wait loop -/

inductive WaitChoice
  | selected
  | expired
  | parentFailed

/-- The scan over `mapBlocksWait` in pointer order: the first entry that
has waited over 60 seconds, whose parent failed, or whose parent is valid;
an entry whose parent is not yet accepted is skipped. -/
def ScanWait (view : ChainView) (nTimeNow : Int) :
    List (IndexPtr × WaitElement) → Except IndexPtr (Option (IndexPtr × WaitElement × WaitChoice))
  | [] => .ok none
  | (pindexPrev, we) :: rest =>
    if nTimeNow > we.time + 60 then .ok (some (pindexPrev, we, .expired))
    else
      match view.deref pindexPrev with
      | .error ptr => .error ptr
      | .ok prev =>
        if !prev.IsValid BLOCK_VALID_TRANSACTIONS then
          if prev.nStatus &&& BLOCK_FAILED_MASK != 0 then .ok (some (pindexPrev, we, .parentFailed))
          else ScanWait view nTimeNow rest
        else .ok (some (pindexPrev, we, .selected))

/-- The entry one pass of the loop takes: the waiting child of
`pindexLastAccepted`, or the scan's. -/
def SelectWaiting (view : ChainView) (nTimeNow : Int) (pindexLastAccepted : IndexPtr)
    (mapBlocksWait : List (IndexPtr × WaitElement)) :
    Except IndexPtr (Option (IndexPtr × WaitElement × WaitChoice)) :=
  match pindexLastAccepted, findKey pindexLastAccepted mapBlocksWait with
  | some _, some we => .ok (some (pindexLastAccepted, we, .selected))
  | _, _ => ScanWait view nTimeNow mapBlocksWait

/-- One pass of the loop after it took `(pindexPrev, we)`: the entry erased,
the block's requests dropped, and a selected block handed to `ProcessBlock`,
which drops every request of a block new to it. -/
def TakeWaiting (ctx : NetContext) (pfrom : NodeId) (min_pow_checked : Bool) (s : NodeState)
    (pindexPrev : IndexPtr) (we : WaitElement) : WaitChoice → NodeState × Effect
  | .expired =>
    ({ s with
        mapBlocksWait := eraseKey pindexPrev s.mapBlocksWait
        mapBlocksInFlight := RemoveBlockRequest (ctx.GetHash we.pblock) none s.mapBlocksInFlight },
      .left pindexPrev we .expired)
  | .parentFailed =>
    ({ s with
        mapBlocksWait := eraseKey pindexPrev s.mapBlocksWait
        mapBlocksInFlight :=
          RemoveBlockRequest (ctx.GetHash we.pblock) (some pfrom) s.mapBlocksInFlight },
      .left pindexPrev we .parentFailed)
  | .selected =>
    let hash := ctx.GetHash we.pblock
    let forceProcessing := IsBlockRequested hash s.mapBlocksInFlight
    let mapBlocksInFlight := RemoveBlockRequest hash (some pfrom) s.mapBlocksInFlight
    let processed := ctx.ProcessNewBlock s.chain we.pblock forceProcessing min_pow_checked
    ({ s with
        mapBlocksWait := eraseKey pindexPrev s.mapBlocksWait
        chain := processed.1
        mapBlocksInFlight :=
          if processed.2 then RemoveBlockRequest hash none mapBlocksInFlight else mapBlocksInFlight },
      .left pindexPrev we (.processed forceProcessing min_pow_checked))

theorem TakeWaiting_mapBlocksWait (ctx : NetContext) (pfrom : NodeId) (min_pow_checked : Bool)
    (s : NodeState) (pindexPrev : IndexPtr) (we : WaitElement) (choice : WaitChoice) :
    (TakeWaiting ctx pfrom min_pow_checked s pindexPrev we choice).1.mapBlocksWait =
      eraseKey pindexPrev s.mapBlocksWait := by
  cases choice <;> rfl

theorem ScanWait_mem {view : ChainView} {nTimeNow : Int} {entries : List (IndexPtr × WaitElement)}
    {pindexPrev : IndexPtr} {we : WaitElement} {choice : WaitChoice}
    (taken : ScanWait view nTimeNow entries = .ok (some (pindexPrev, we, choice))) :
    (pindexPrev, we) ∈ entries := by
  induction entries with
  | nil => cases taken
  | cons entry rest ih =>
    unfold ScanWait at taken
    split at taken
    · cases taken
      exact List.mem_cons_self
    · split at taken
      · cases taken
      · split at taken
        · split at taken
          · cases taken
            exact List.mem_cons_self
          · exact List.mem_cons_of_mem _ (ih taken)
        · cases taken
          exact List.mem_cons_self

theorem SelectWaiting_mem {view : ChainView} {nTimeNow : Int} {pindexLastAccepted : IndexPtr}
    {entries : List (IndexPtr × WaitElement)} {pindexPrev : IndexPtr} {we : WaitElement}
    {choice : WaitChoice}
    (taken : SelectWaiting view nTimeNow pindexLastAccepted entries =
      .ok (some (pindexPrev, we, choice))) :
    (pindexPrev, we) ∈ entries := by
  unfold SelectWaiting at taken
  split at taken
  · rename_i found
    cases taken
    exact mem_of_findKey found
  · exact ScanWait_mem taken

theorem TakeWaiting_effect (ctx : NetContext) (pfrom : NodeId) (min_pow_checked : Bool)
    (s : NodeState) (pindexPrev : IndexPtr) (we : WaitElement) (choice : WaitChoice) :
    ∃ exit, (TakeWaiting ctx pfrom min_pow_checked s pindexPrev we choice).2 =
      .left pindexPrev we exit := by
  cases choice <;> exact ⟨_, rfl⟩

theorem TakeWaiting_pindexLastAccepted (ctx : NetContext) (pfrom : NodeId)
    (min_pow_checked : Bool) (s : NodeState) (pindexPrev : IndexPtr) (we : WaitElement)
    (choice : WaitChoice) :
    (TakeWaiting ctx pfrom min_pow_checked s pindexPrev we choice).1.pindexLastAccepted =
      s.pindexLastAccepted := by
  cases choice <;> rfl

/-- `ProcessNewBlock` adds to the block index and removes nothing from it. -/
def NetContext.KeepsEntries (ctx : NetContext) : Prop :=
  ∀ view block forceProcessing min_pow_checked ptr, ChainView.Resolves view ptr →
    (ctx.ProcessNewBlock view block forceProcessing min_pow_checked).1.Resolves ptr

theorem TakeWaiting_resolves {ctx : NetContext} (keeps : ctx.KeepsEntries) (pfrom : NodeId)
    (min_pow_checked : Bool) {s : NodeState} (pindexPrev : IndexPtr) (we : WaitElement)
    (choice : WaitChoice) {ptr : IndexPtr} (resolves : s.chain.Resolves ptr) :
    (TakeWaiting ctx pfrom min_pow_checked s pindexPrev we choice).1.chain.Resolves ptr := by
  cases choice
  · exact keeps _ _ _ _ _ resolves
  · exact resolves
  · exact resolves

/-- The scan fails only by reading through the key of a waiting entry that
points to no entry. -/
theorem ScanWait_error {view : ChainView} {nTimeNow : Int} {entries : List (IndexPtr × WaitElement)}
    {ptr : IndexPtr} (fails : ScanWait view nTimeNow entries = .error ptr) :
    (∃ we, (ptr, we) ∈ entries) ∧ ¬view.Resolves ptr := by
  induction entries with
  | nil => cases fails
  | cons entry rest ih =>
    obtain ⟨pindexPrev, we⟩ := entry
    unfold ScanWait at fails
    split at fails
    · cases fails
    · split at fails
      · rename_i failed readFails
        cases fails
        obtain ⟨rfl, unresolved⟩ := ChainView.deref_error readFails
        exact ⟨⟨we, List.mem_cons_self⟩, unresolved⟩
      · split at fails
        · split at fails
          · cases fails
          · obtain ⟨⟨later, mem⟩, unresolved⟩ := ih fails
            exact ⟨⟨later, List.mem_cons_of_mem _ mem⟩, unresolved⟩
        · cases fails

theorem SelectWaiting_error {view : ChainView} {nTimeNow : Int} {pindexLastAccepted : IndexPtr}
    {entries : List (IndexPtr × WaitElement)} {ptr : IndexPtr}
    (fails : SelectWaiting view nTimeNow pindexLastAccepted entries = .error ptr) :
    (∃ we, (ptr, we) ∈ entries) ∧ ¬view.Resolves ptr := by
  unfold SelectWaiting at fails
  split at fails
  · cases fails
  · exact ScanWait_error fails

set_option linter.unusedVariables false in
/-- `while (fContinue)`: each pass takes one entry out of `mapBlocksWait`,
so the loop stops. -/
def WaitLoop (ctx : NetContext) (pfrom : NodeId) (nTimeNow : Int) (min_pow_checked : Bool)
    (s : NodeState) : Except IndexPtr (NodeState × List Effect) :=
  match taken : SelectWaiting s.chain nTimeNow s.pindexLastAccepted s.mapBlocksWait with
  | .error ptr => .error ptr
  | .ok none => .ok (s, [])
  | .ok (some (pindexPrev, we, choice)) =>
    match WaitLoop ctx pfrom nTimeNow min_pow_checked
        (TakeWaiting ctx pfrom min_pow_checked s pindexPrev we choice).1 with
    | .error ptr => .error ptr
    | .ok (s', effects) =>
      .ok (s', (TakeWaiting ctx pfrom min_pow_checked s pindexPrev we choice).2 :: effects)
termination_by s.mapBlocksWait.length
decreasing_by
  rw [TakeWaiting_mapBlocksWait]
  exact length_eraseKey_lt (SelectWaiting_mem taken) rfl

section Loop

variable {ctx : NetContext} {pfrom : NodeId} {nTimeNow : Int} {min_pow_checked : Bool}

theorem WaitLoop_of_error {s : NodeState} {ptr : IndexPtr}
    (fails : SelectWaiting s.chain nTimeNow s.pindexLastAccepted s.mapBlocksWait = .error ptr) :
    WaitLoop ctx pfrom nTimeNow min_pow_checked s = .error ptr := by
  rw [WaitLoop]
  split <;> simp_all

theorem WaitLoop_of_none {s : NodeState}
    (stopped : SelectWaiting s.chain nTimeNow s.pindexLastAccepted s.mapBlocksWait = .ok none) :
    WaitLoop ctx pfrom nTimeNow min_pow_checked s = .ok (s, []) := by
  rw [WaitLoop]
  split <;> simp_all

theorem WaitLoop_of_some {s : NodeState} {pindexPrev : IndexPtr} {we : WaitElement}
    {choice : WaitChoice}
    (taken : SelectWaiting s.chain nTimeNow s.pindexLastAccepted s.mapBlocksWait =
      .ok (some (pindexPrev, we, choice))) :
    WaitLoop ctx pfrom nTimeNow min_pow_checked s =
      match WaitLoop ctx pfrom nTimeNow min_pow_checked
          (TakeWaiting ctx pfrom min_pow_checked s pindexPrev we choice).1 with
      | .error ptr => .error ptr
      | .ok (s', effects) =>
        .ok (s', (TakeWaiting ctx pfrom min_pow_checked s pindexPrev we choice).2 :: effects) := by
  rw [WaitLoop]
  split <;> simp_all

/-- The loop's induction rule: a relation between the state a run starts in
and the state and effects it ends with, which holds of a run that stops at
once and is carried back through one pass, holds of every run. -/
theorem WaitLoop_rule (P : NodeState → NodeState → List Effect → Prop)
    (stop : ∀ s, SelectWaiting s.chain nTimeNow s.pindexLastAccepted s.mapBlocksWait = .ok none →
      P s s [])
    (pass : ∀ s pindexPrev we choice s' effects,
      SelectWaiting s.chain nTimeNow s.pindexLastAccepted s.mapBlocksWait =
        .ok (some (pindexPrev, we, choice)) →
      P (TakeWaiting ctx pfrom min_pow_checked s pindexPrev we choice).1 s' effects →
      P s s' ((TakeWaiting ctx pfrom min_pow_checked s pindexPrev we choice).2 :: effects))
    (s : NodeState) :
    ∀ {s' : NodeState} {effects : List Effect},
      WaitLoop ctx pfrom nTimeNow min_pow_checked s = .ok (s', effects) → P s s' effects := by
  induction s using WaitLoop.induct ctx pfrom nTimeNow min_pow_checked with
  | case1 s ptr fails =>
    intro s' effects run
    rw [WaitLoop_of_error fails] at run
    cases run
  | case2 s stopped =>
    intro s' effects run
    rw [WaitLoop_of_none stopped] at run
    cases run
    exact stop s stopped
  | case3 s pindexPrev we choice taken ptr fails ih =>
    intro s' effects run
    rw [WaitLoop_of_some taken, fails] at run
    cases run
  | case4 s pindexPrev we choice taken s'' rest later ih =>
    intro s' effects run
    rw [WaitLoop_of_some taken, later] at run
    cases run
    exact pass s pindexPrev we choice s'' rest taken (ih later)

/-- The loop only erases from `mapBlocksWait`. -/
theorem WaitLoop_sub {s s' : NodeState} {effects : List Effect}
    (run : WaitLoop ctx pfrom nTimeNow min_pow_checked s = .ok (s', effects)) :
    ∀ entry ∈ s'.mapBlocksWait, entry ∈ s.mapBlocksWait := by
  refine WaitLoop_rule (fun s s' _ => ∀ entry ∈ s'.mapBlocksWait, entry ∈ s.mapBlocksWait)
    (fun _ _ _ mem => mem) ?_ s run
  intro s pindexPrev we choice s' effects _ later entry mem
  have erased := later entry mem
  rw [TakeWaiting_mapBlocksWait, mem_eraseKey] at erased
  exact erased.1

/-- Every entry the loop starts with still waits at its end, or left with an
effect that names it. -/
theorem WaitLoop_conserves {s s' : NodeState} {effects : List Effect}
    (run : WaitLoop ctx pfrom nTimeNow min_pow_checked s = .ok (s', effects))
    (sorted : SortedKeys ctx.PtrLt s.mapBlocksWait) :
    ∀ entry ∈ s.mapBlocksWait,
      entry ∈ s'.mapBlocksWait ∨ ∃ exit, Effect.left entry.1 entry.2 exit ∈ effects := by
  refine WaitLoop_rule (fun s s' effects => SortedKeys ctx.PtrLt s.mapBlocksWait →
      ∀ entry ∈ s.mapBlocksWait,
        entry ∈ s'.mapBlocksWait ∨ ∃ exit, Effect.left entry.1 entry.2 exit ∈ effects)
    (fun _ _ _ entry mem => .inl mem) ?_ s run sorted
  intro s pindexPrev we choice s' effects taken later sorted entry mem
  obtain ⟨exit, effect⟩ := TakeWaiting_effect ctx pfrom min_pow_checked s pindexPrev we choice
  rw [effect]
  by_cases sameKey : entry.1 = pindexPrev
  · -- the pass took the one entry of that key
    have same : entry = (pindexPrev, we) :=
      sorted.eq_of_key mem (SelectWaiting_mem taken) sameKey
    subst same
    exact .inr ⟨exit, List.mem_cons_self⟩
  · have erasedSorted : SortedKeys ctx.PtrLt
        (TakeWaiting ctx pfrom min_pow_checked s pindexPrev we choice).1.mapBlocksWait := by
      rw [TakeWaiting_mapBlocksWait]
      exact sorted.eraseKey
    have kept : entry ∈
        (TakeWaiting ctx pfrom min_pow_checked s pindexPrev we choice).1.mapBlocksWait := by
      rw [TakeWaiting_mapBlocksWait, mem_eraseKey]
      exact ⟨mem, sameKey⟩
    rcases later erasedSorted entry kept with waits | ⟨exit', left⟩
    · exact .inl waits
    · exact .inr ⟨exit', List.mem_cons_of_mem _ left⟩

/-- Every block the loop lets go of was waiting when it started. -/
theorem WaitLoop_left_mem {s s' : NodeState} {effects : List Effect}
    (run : WaitLoop ctx pfrom nTimeNow min_pow_checked s = .ok (s', effects)) :
    ∀ pindexPrev we exit, Effect.left pindexPrev we exit ∈ effects →
      (pindexPrev, we) ∈ s.mapBlocksWait := by
  refine WaitLoop_rule (fun s _ effects => ∀ pindexPrev we exit,
      Effect.left pindexPrev we exit ∈ effects → (pindexPrev, we) ∈ s.mapBlocksWait)
    (fun _ _ _ _ _ none => by cases none) ?_ s run
  intro s pindexPrev we choice s' effects taken later pindexPrev' we' exit' mem
  obtain ⟨exit, effect⟩ := TakeWaiting_effect ctx pfrom min_pow_checked s pindexPrev we choice
  rw [effect] at mem
  rcases List.mem_cons.mp mem with this | older
  · cases this
    exact SelectWaiting_mem taken
  · have erased := later pindexPrev' we' exit' older
    rw [TakeWaiting_mapBlocksWait, mem_eraseKey] at erased
    exact erased.1

theorem WaitLoop_sorted {s s' : NodeState} {effects : List Effect}
    (run : WaitLoop ctx pfrom nTimeNow min_pow_checked s = .ok (s', effects))
    (sorted : SortedKeys ctx.PtrLt s.mapBlocksWait) : SortedKeys ctx.PtrLt s'.mapBlocksWait := by
  refine WaitLoop_rule (fun s s' _ => SortedKeys ctx.PtrLt s.mapBlocksWait →
      SortedKeys ctx.PtrLt s'.mapBlocksWait) (fun _ _ sorted => sorted) ?_ s run sorted
  intro s pindexPrev we choice s' effects _ later sorted
  apply later
  rw [TakeWaiting_mapBlocksWait]
  exact sorted.eraseKey

theorem WaitLoop_pindexLastAccepted {s s' : NodeState} {effects : List Effect}
    (run : WaitLoop ctx pfrom nTimeNow min_pow_checked s = .ok (s', effects)) :
    s'.pindexLastAccepted = s.pindexLastAccepted := by
  refine WaitLoop_rule (fun s s' _ => s'.pindexLastAccepted = s.pindexLastAccepted)
    (fun _ _ => rfl) ?_ s run
  intro s pindexPrev we choice s' effects _ later
  rw [later, TakeWaiting_pindexLastAccepted]

/-- Every key of `mapBlocksWait` points to an entry of the block index. -/
def NodeState.KeysResolve (s : NodeState) : Prop :=
  ∀ entry ∈ s.mapBlocksWait, s.chain.Resolves entry.1

theorem TakeWaiting_keysResolve (keeps : ctx.KeepsEntries) {s : NodeState}
    (resolve : s.KeysResolve) (pindexPrev : IndexPtr) (we : WaitElement) (choice : WaitChoice) :
    (TakeWaiting ctx pfrom min_pow_checked s pindexPrev we choice).1.KeysResolve := by
  intro entry mem
  rw [TakeWaiting_mapBlocksWait, mem_eraseKey] at mem
  exact TakeWaiting_resolves keeps pfrom min_pow_checked pindexPrev we choice (resolve entry mem.1)

theorem WaitLoop_keysResolve (keeps : ctx.KeepsEntries) {s s' : NodeState} {effects : List Effect}
    (run : WaitLoop ctx pfrom nTimeNow min_pow_checked s = .ok (s', effects))
    (resolve : s.KeysResolve) : s'.KeysResolve := by
  refine WaitLoop_rule (fun s s' _ => s.KeysResolve → s'.KeysResolve)
    (fun _ _ resolve => resolve) ?_ s run resolve
  intro s pindexPrev we choice s' effects _ later resolve
  exact later (TakeWaiting_keysResolve keeps resolve pindexPrev we choice)

/-- While every waiting key points to an entry and `ProcessNewBlock` removes
no entry, the loop reads through no bad pointer. -/
theorem WaitLoop_ne_error (keeps : ctx.KeepsEntries) (s : NodeState) :
    s.KeysResolve → ∀ ptr, WaitLoop ctx pfrom nTimeNow min_pow_checked s ≠ .error ptr := by
  induction s using WaitLoop.induct ctx pfrom nTimeNow min_pow_checked with
  | case1 s ptr fails =>
    intro resolve
    obtain ⟨⟨we, mem⟩, unresolved⟩ := SelectWaiting_error fails
    exact absurd (resolve _ mem) unresolved
  | case2 s stopped =>
    intro _ ptr
    rw [WaitLoop_of_none stopped]
    exact fun error => by cases error
  | case3 s pindexPrev we choice taken ptr fails ih =>
    intro resolve
    exact absurd fails (ih (TakeWaiting_keysResolve keeps resolve pindexPrev we choice) ptr)
  | case4 s pindexPrev we choice taken s'' rest later ih =>
    intro _ ptr
    rw [WaitLoop_of_some taken, later]
    exact fun error => by cases error

theorem SelectWaiting_null_head {view : ChainView} {nTimeNow : Int} {pindexLastAccepted : IndexPtr}
    {we : WaitElement} {rest : List (IndexPtr × WaitElement)} (fresh : ¬nTimeNow > we.time + 60) :
    SelectWaiting view nTimeNow pindexLastAccepted ((none, we) :: rest) = .error none ∨
      ∃ hash found, SelectWaiting view nTimeNow pindexLastAccepted ((none, we) :: rest) =
        .ok (some (some hash, found, .selected)) := by
  unfold SelectWaiting
  split
  · exact .inr ⟨_, _, rfl⟩
  · left
    simp [ScanWait, fresh, ChainView.deref]

/-- Past a fresh entry under `nullptr` first, a pass takes the child of
`pindexLastAccepted` and leaves the null entry first. -/
theorem TakeWaiting_null_head {s : NodeState} {we : WaitElement} {rest : List (IndexPtr × WaitElement)}
    (head : s.mapBlocksWait = (none, we) :: rest) (fresh : ¬nTimeNow > we.time + 60)
    {pindexPrev : IndexPtr} {we' : WaitElement} {choice : WaitChoice}
    (taken : SelectWaiting s.chain nTimeNow s.pindexLastAccepted s.mapBlocksWait =
      .ok (some (pindexPrev, we', choice))) :
    (TakeWaiting ctx pfrom min_pow_checked s pindexPrev we' choice).1.mapBlocksWait =
      (none, we) :: eraseKey pindexPrev rest := by
  have notNull : pindexPrev ≠ none := by
    rw [head] at taken
    rcases SelectWaiting_null_head fresh with nullRead | ⟨hash, found, fast⟩
    · rw [nullRead] at taken
      cases taken
    · rw [fast] at taken
      cases taken
      exact Option.some_ne_none hash
  rw [TakeWaiting_mapBlocksWait, head]
  simp [eraseKey, Ne.symm notNull]

/-- A waiting entry under `nullptr` that has not expired is the first the
scan reads, so the loop reads through `nullptr`; the child of
`pindexLastAccepted` may be taken before, which leaves the null entry first. -/
theorem WaitLoop_null_head (s : NodeState) :
    ∀ (we : WaitElement) (rest : List (IndexPtr × WaitElement)),
      s.mapBlocksWait = (none, we) :: rest → ¬nTimeNow > we.time + 60 →
      WaitLoop ctx pfrom nTimeNow min_pow_checked s = .error none := by
  induction s using WaitLoop.induct ctx pfrom nTimeNow min_pow_checked with
  | case1 s ptr fails =>
    intro we rest head fresh
    rw [WaitLoop_of_error fails]
    rw [head] at fails
    rcases SelectWaiting_null_head fresh with nullRead | ⟨hash, found, fast⟩
    · rw [nullRead] at fails
      cases fails
      rfl
    · rw [fast] at fails
      cases fails
  | case2 s stopped =>
    intro we rest head fresh
    rw [head] at stopped
    rcases SelectWaiting_null_head fresh with nullRead | ⟨hash, found, fast⟩
    · rw [nullRead] at stopped
      cases stopped
    · rw [fast] at stopped
      cases stopped
  | case3 s pindexPrev we' choice taken _ _ ih =>
    intro we rest head fresh
    rw [WaitLoop_of_some taken, ih we _ (TakeWaiting_null_head head fresh taken) fresh]
  | case4 s pindexPrev we' choice taken s'' effects later ih =>
    intro we rest head fresh
    rw [ih we _ (TakeWaiting_null_head head fresh taken) fresh] at later
    cases later

end Loop

/-! ## The handler -/

/-- `IsBlockMutated`, asked only when `prev_block` was found, whose time
tells whether the witness root is checked. -/
def MutatedCheck (ctx : NetContext) (pblock2 : CBlock) (view : ChainView) (prev_block : IndexPtr) :
    Except IndexPtr Bool :=
  if prev_block.isSome then do
    let prev ← view.deref prev_block
    pure (ctx.IsBlockMutated pblock2 (ctx.IsBTC16BIPsEnabled prev.nTime))
  else pure false

/-- `min_pow_checked`: whether the block's work on top of `prev_block`,
when it was found, reaches the anti-DoS threshold. -/
def MinPowChecked (ctx : NetContext) (pblock2 : CBlock) (view : ChainView) (prev_block : IndexPtr) :
    Except IndexPtr Bool :=
  if prev_block.isSome then do
    let prev ← view.deref prev_block
    pure (decide (prev.nChainTrust + ctx.CalculateHeadersWork pblock2.toCBlockHeader ≥
      ctx.GetAntiDoSWorkThreshold))
  else pure false

/-- The checks on a block that was not asked for: the peer's proof-of-stake
temperature, and the parent's validity, read through `prev_block` with no
test that it was found.  `.inl` when the handler returns, with what it did. -/
def UnrequestedChecks (ctx : NetContext) (addr : CNetAddr) (pblock2 : CBlock) (hash2 : uint256)
    (prev_block : IndexPtr) (s : NodeState) :
    Except IndexPtr ((NodeState × List Effect) ⊕ NodeState) :=
  let cooled := s.mapPoSTemperature addr ≥ MAX_CONSECUTIVE_POS_HEADERS
  let nPoSTemperature :=
    if cooled then MAX_CONSECUTIVE_POS_HEADERS * 3 / 4 else s.mapPoSTemperature addr
  let s := { s with mapPoSTemperature := Function.update s.mapPoSTemperature addr nPoSTemperature }
  if cooled && ctx.network != .TESTNET then
    .ok (.inl (s, [.misbehaving 100 "too many consecutive pos headers"]))
  else
    let s := if pblock2.IsProofOfStake && !ctx.IsInitialBlockDownload s.chain then
        { s with mapPoSTemperature := Function.update s.mapPoSTemperature addr (nPoSTemperature + 1) }
      else s
    match s.chain.deref prev_block with
    | .error ptr => .error ptr
    | .ok prev =>
      if !prev.IsValid BLOCK_VALID_TRANSACTIONS then
        .ok (.inl ({ s with mapBlocksInFlight := RemoveBlockRequest hash2 none s.mapBlocksInFlight }, []))
      else .ok (.inr s)

/-- The part of the handler before the block is stored: `.inl` when it
returns early, with what it did, and `.inr` with the state and
`min_pow_checked` when the block goes on to `mapBlocksWait`. -/
def AdmitBlock (ctx : NetContext) (pfrom : NodeId) (addr : CNetAddr) (pblock2 : CBlock)
    (s : NodeState) : Except IndexPtr ((NodeState × List Effect) ⊕ (NodeState × Bool)) := do
  let hash2 := ctx.GetHash pblock2
  let prev_block := s.chain.LookupBlockIndex pblock2.hashPrevBlock
  if ← MutatedCheck ctx pblock2 s.chain prev_block then
    return .inl ({ s with
      mapBlocksInFlight := RemoveBlockRequest hash2 (some pfrom) s.mapBlocksInFlight },
      [.misbehaving 100 "mutated block"])
  let min_pow_checked ← MinPowChecked ctx pblock2 s.chain prev_block
  if IsBlockRequested hash2 s.mapBlocksInFlight then return .inr (s, min_pow_checked)
  match ← UnrequestedChecks ctx addr pblock2 hash2 prev_block s with
  | .inl early => return .inl early
  | .inr s => return .inr (s, min_pow_checked)

/-- `mapBlocksWait[prev_block] = we`, and the static `pindexLastAccepted`
set to the tip while it is still `nullptr`. -/
def StoreWaiting (ctx : NetContext) (prev_block : IndexPtr) (we : WaitElement) (s : NodeState) :
    NodeState :=
  { s with
    mapBlocksWait := sortedInsert ctx.PtrLt prev_block we s.mapBlocksWait
    pindexLastAccepted := if s.pindexLastAccepted = none then s.chain.tip else s.pindexLastAccepted }

/-- `PeerManagerImpl::ProcessMessage` for a `BLOCK` message carrying `pblock2`
from the peer `pfrom` at `addr`, read at `nTimeNow`. -/
def ProcessBlockMessage (ctx : NetContext) (pfrom : NodeId) (addr : CNetAddr) (pblock2 : CBlock)
    (nTimeNow : Int) (s : NodeState) : Except IndexPtr (NodeState × List Effect) :=
  if ctx.LoadingBlocks then .ok (s, [])
  else
    match AdmitBlock ctx pfrom addr pblock2 s with
    | .error ptr => .error ptr
    | .ok (.inl early) => .ok early
    | .ok (.inr (s, min_pow_checked)) =>
      WaitLoop ctx pfrom nTimeNow min_pow_checked
        (StoreWaiting ctx (s.chain.LookupBlockIndex pblock2.hashPrevBlock) ⟨pblock2, nTimeNow⟩ s)

end Peercoin.Net
