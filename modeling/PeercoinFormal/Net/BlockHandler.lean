import PeercoinFormal.Net.BlockWait
import PeercoinFormal.Validation.ConnectBlock

/-!
# The BLOCK handler: what it reads through, and what it keeps

On the states the node reaches, `mapBlocksWait` is sorted by pointer and
every key points to an entry of the block index (`WaitInvariant`).  From
such a state a `BLOCK` message either leaves such a state, or reads through
`nullptr`, and it reads through `nullptr` exactly when the block's parent is
unknown and the handler does not return before: the block was asked for, or
the peer's temperature is below the limit or the network is testnet
(`ProcessBlockMessage_null_iff`).  Reading no other bad pointer holds over
whole runs (`ProcessBlockMessages_safe`).

A block that reaches `mapBlocksWait` under a parent with no waiting child
keeps every other waiting block: each still waits or left with an effect
that names it.  A block that reaches it under a parent that has one puts the
waiting child out, and no effect names that child
(`ProcessBlockMessage_displaces`).
-/

set_option autoImplicit false

namespace Peercoin.Net

open Peercoin.Primitives Peercoin.Pow Ledger

/-- Two states agree on what the wait loop reads and keeps. -/
def NodeState.SameWait (s s' : NodeState) : Prop :=
  s'.chain = s.chain ∧ s'.mapBlocksWait = s.mapBlocksWait ∧
    s'.pindexLastAccepted = s.pindexLastAccepted

variable {ctx : NetContext} {pfrom : NodeId} {addr : CNetAddr} {pblock2 : CBlock}
  {s : NodeState}

/-! ## The admission checks -/

/-- A read guarded by a lookup that found its entry does not fail. -/
theorem deref_LookupBlockIndex {view : ChainView} {hash : uint256}
    (found : (view.LookupBlockIndex hash).isSome) :
    ∃ entry, view.deref (view.LookupBlockIndex hash) = .ok entry := by
  rcases view.LookupBlockIndex_resolves hash with missing | resolves
  · rw [missing] at found
    cases found
  · exact view.deref_of_resolves resolves

theorem MutatedCheck_LookupBlockIndex (ctx : NetContext) (pblock2 : CBlock) (view : ChainView)
    (hash : uint256) :
    ∃ mutated, MutatedCheck ctx pblock2 view (view.LookupBlockIndex hash) = .ok mutated := by
  unfold MutatedCheck
  split
  · rename_i found
    obtain ⟨entry, read⟩ := deref_LookupBlockIndex found
    exact ⟨_, by rw [read]; rfl⟩
  · exact ⟨false, rfl⟩

theorem MinPowChecked_LookupBlockIndex (ctx : NetContext) (pblock2 : CBlock) (view : ChainView)
    (hash : uint256) :
    ∃ min_pow_checked,
      MinPowChecked ctx pblock2 view (view.LookupBlockIndex hash) = .ok min_pow_checked := by
  unfold MinPowChecked
  split
  · rename_i found
    obtain ⟨entry, read⟩ := deref_LookupBlockIndex found
    exact ⟨_, by rw [read]; rfl⟩
  · exact ⟨false, rfl⟩

/-- `AdmitBlock` once its two guarded reads have given their answers. -/
theorem AdmitBlock_eq {mutated min_pow_checked : Bool}
    (mutatedEq : MutatedCheck ctx pblock2 s.chain
      (s.chain.LookupBlockIndex pblock2.hashPrevBlock) = .ok mutated)
    (minPowEq : MinPowChecked ctx pblock2 s.chain
      (s.chain.LookupBlockIndex pblock2.hashPrevBlock) = .ok min_pow_checked) :
    AdmitBlock ctx pfrom addr pblock2 s =
      if mutated then
        .ok (.inl ({ s with mapBlocksInFlight :=
          RemoveBlockRequest (ctx.GetHash pblock2) (some pfrom) s.mapBlocksInFlight },
          [.misbehaving 100 "mutated block"]))
      else if IsBlockRequested (ctx.GetHash pblock2) s.mapBlocksInFlight then
        .ok (.inr (s, min_pow_checked))
      else
        match UnrequestedChecks ctx addr pblock2 (ctx.GetHash pblock2)
            (s.chain.LookupBlockIndex pblock2.hashPrevBlock) s with
        | .error ptr => .error ptr
        | .ok (.inl early) => .ok (.inl early)
        | .ok (.inr s') => .ok (.inr (s', min_pow_checked)) := by
  unfold AdmitBlock
  simp only [mutatedEq, minPowEq, bind, Except.bind, pure, Except.pure]
  cases mutated <;> simp only [Bool.false_eq_true, if_false, if_true]
  split
  · rfl
  · generalize UnrequestedChecks ctx addr pblock2 (ctx.GetHash pblock2)
      (s.chain.LookupBlockIndex pblock2.hashPrevBlock) s = checked
    rcases checked with ptr | early | s' <;> rfl


/-- The checks on a block that was not asked for change the temperatures;
past them, only the parent's read and its validity decide. -/
theorem UnrequestedChecks_eq (ctx : NetContext) (addr : CNetAddr) (pblock2 : CBlock) (hash2 : uint256)
    (prev_block : IndexPtr) (s : NodeState) :
    ∃ temperature : CNetAddr → Int,
      UnrequestedChecks ctx addr pblock2 hash2 prev_block s =
        if s.mapPoSTemperature addr ≥ MAX_CONSECUTIVE_POS_HEADERS ∧ ctx.network ≠ .TESTNET then
          .ok (.inl ({ s with mapPoSTemperature := temperature },
            [.misbehaving 100 "too many consecutive pos headers"]))
        else
          match s.chain.deref prev_block with
          | .error ptr => .error ptr
          | .ok prev =>
            if !prev.IsValid BLOCK_VALID_TRANSACTIONS then
              .ok (.inl ({ s with
                mapPoSTemperature := temperature
                mapBlocksInFlight := RemoveBlockRequest hash2 none s.mapBlocksInFlight }, []))
            else .ok (.inr { s with mapPoSTemperature := temperature }) := by
  unfold UnrequestedChecks
  simp only [Bool.and_eq_true, decide_eq_true_eq, bne_iff_ne, ne_eq]
  -- the temperature is one of three values, and the state differs in it only
  split_ifs <;> exact ⟨_, rfl⟩

theorem ChainView.deref_of_not_resolves {view : ChainView} {ptr : IndexPtr}
    (unresolved : ¬view.Resolves ptr) : view.deref ptr = .error ptr := by
  cases ptr with
  | none => rfl
  | some hash =>
    cases found : view.blockIndex hash with
    | some entry => exact absurd ⟨hash, rfl, by simp [found]⟩ unresolved
    | none => simp [ChainView.deref, found]

theorem ChainView.resolves_of_deref {view : ChainView} {ptr : IndexPtr} {entry : IndexEntry}
    (read : view.deref ptr = .ok entry) : view.Resolves ptr := by
  by_contra unresolved
  rw [view.deref_of_not_resolves unresolved] at read
  cases read

theorem ChainView.not_resolves_none (view : ChainView) : ¬view.Resolves none := by
  rintro ⟨hash, null, _⟩
  cases null

section Unrequested

variable {hash2 : uint256} {prev_block : IndexPtr}

theorem UnrequestedChecks_inl {s' : NodeState} {effects : List Effect}
    (returned : UnrequestedChecks ctx addr pblock2 hash2 prev_block s = .ok (.inl (s', effects))) :
    s.SameWait s' ∧ ∀ pindexPrev we exit, Effect.left pindexPrev we exit ∉ effects := by
  obtain ⟨temperature, checks⟩ := UnrequestedChecks_eq ctx addr pblock2 hash2 prev_block s
  rw [checks] at returned
  by_cases early : s.mapPoSTemperature addr ≥ MAX_CONSECUTIVE_POS_HEADERS ∧ ctx.network ≠ .TESTNET
  · rw [if_pos early] at returned
    cases returned
    exact ⟨⟨rfl, rfl, rfl⟩, by simp⟩
  · rw [if_neg early] at returned
    split at returned
    · cases returned
    · split at returned
      · cases returned
        exact ⟨⟨rfl, rfl, rfl⟩, by simp⟩
      · cases returned

theorem UnrequestedChecks_inr {s' : NodeState}
    (passed : UnrequestedChecks ctx addr pblock2 hash2 prev_block s = .ok (.inr s')) :
    s.SameWait s' ∧ s.chain.Resolves prev_block := by
  obtain ⟨temperature, checks⟩ := UnrequestedChecks_eq ctx addr pblock2 hash2 prev_block s
  rw [checks] at passed
  by_cases early : s.mapPoSTemperature addr ≥ MAX_CONSECUTIVE_POS_HEADERS ∧ ctx.network ≠ .TESTNET
  · rw [if_pos early] at passed
    cases passed
  · rw [if_neg early] at passed
    split at passed
    · cases passed
    · rename_i prev read
      split at passed
      · cases passed
      · cases passed
        exact ⟨⟨rfl, rfl, rfl⟩, s.chain.resolves_of_deref read⟩

/-- The checks fail only by reading through `prev_block`, past the
temperature's early return. -/
theorem UnrequestedChecks_error {ptr : IndexPtr}
    (fails : UnrequestedChecks ctx addr pblock2 hash2 prev_block s = .error ptr) :
    ptr = prev_block ∧ ¬s.chain.Resolves prev_block ∧
      ¬(s.mapPoSTemperature addr ≥ MAX_CONSECUTIVE_POS_HEADERS ∧ ctx.network ≠ .TESTNET) := by
  obtain ⟨temperature, checks⟩ := UnrequestedChecks_eq ctx addr pblock2 hash2 prev_block s
  rw [checks] at fails
  by_cases early : s.mapPoSTemperature addr ≥ MAX_CONSECUTIVE_POS_HEADERS ∧ ctx.network ≠ .TESTNET
  · rw [if_pos early] at fails
    cases fails
  · rw [if_neg early] at fails
    split at fails
    · rename_i failed readFails
      cases fails
      obtain ⟨rfl, unresolved⟩ := ChainView.deref_error readFails
      exact ⟨rfl, unresolved, early⟩
    · split at fails <;> cases fails

theorem UnrequestedChecks_of_not_resolves
    (warm : ¬(s.mapPoSTemperature addr ≥ MAX_CONSECUTIVE_POS_HEADERS ∧ ctx.network ≠ .TESTNET))
    (unresolved : ¬s.chain.Resolves prev_block) :
    UnrequestedChecks ctx addr pblock2 hash2 prev_block s = .error prev_block := by
  obtain ⟨temperature, checks⟩ := UnrequestedChecks_eq ctx addr pblock2 hash2 prev_block s
  rw [checks, if_neg warm, ChainView.deref_of_not_resolves unresolved]

end Unrequested

/-! ## Admission -/

theorem AdmitBlock_cases (ctx : NetContext) (pfrom : NodeId) (addr : CNetAddr) (pblock2 : CBlock)
    (s : NodeState) :
    ∃ mutated min_pow_checked : Bool,
      AdmitBlock ctx pfrom addr pblock2 s =
        if mutated then
          .ok (.inl ({ s with mapBlocksInFlight :=
            RemoveBlockRequest (ctx.GetHash pblock2) (some pfrom) s.mapBlocksInFlight },
            [.misbehaving 100 "mutated block"]))
        else if IsBlockRequested (ctx.GetHash pblock2) s.mapBlocksInFlight then
          .ok (.inr (s, min_pow_checked))
        else
          match UnrequestedChecks ctx addr pblock2 (ctx.GetHash pblock2)
              (s.chain.LookupBlockIndex pblock2.hashPrevBlock) s with
          | .error ptr => .error ptr
          | .ok (.inl early) => .ok (.inl early)
          | .ok (.inr s') => .ok (.inr (s', min_pow_checked)) := by
  obtain ⟨mutated, mutatedEq⟩ :=
    MutatedCheck_LookupBlockIndex ctx pblock2 s.chain pblock2.hashPrevBlock
  obtain ⟨min_pow_checked, minPowEq⟩ :=
    MinPowChecked_LookupBlockIndex ctx pblock2 s.chain pblock2.hashPrevBlock
  exact ⟨mutated, min_pow_checked, AdmitBlock_eq mutatedEq minPowEq⟩

/-- An early return leaves what the wait loop reads, and lets no block go. -/
theorem AdmitBlock_inl {s' : NodeState} {effects : List Effect}
    (returned : AdmitBlock ctx pfrom addr pblock2 s = .ok (.inl (s', effects))) :
    s.SameWait s' ∧ ∀ pindexPrev we exit, Effect.left pindexPrev we exit ∉ effects := by
  obtain ⟨mutated, min_pow_checked, admission⟩ := AdmitBlock_cases ctx pfrom addr pblock2 s
  rw [admission] at returned
  split at returned
  · cases returned
    exact ⟨⟨rfl, rfl, rfl⟩, by simp⟩
  split at returned
  · cases returned
  split at returned
  · cases returned
  · rename_i early checked
    cases returned
    exact UnrequestedChecks_inl checked
  · cases returned

/-- A block goes on to `mapBlocksWait` with the state it came with, up to
the temperatures, and either it was asked for or its parent was read. -/
theorem AdmitBlock_inr {s' : NodeState} {min_pow_checked : Bool}
    (admitted : AdmitBlock ctx pfrom addr pblock2 s = .ok (.inr (s', min_pow_checked))) :
    s.SameWait s' ∧ (IsBlockRequested (ctx.GetHash pblock2) s.mapBlocksInFlight = true ∨
      s.chain.Resolves (s.chain.LookupBlockIndex pblock2.hashPrevBlock)) := by
  obtain ⟨mutated, min_pow_checked', admission⟩ := AdmitBlock_cases ctx pfrom addr pblock2 s
  rw [admission] at admitted
  split at admitted
  · cases admitted
  split at admitted
  · rename_i requested
    cases admitted
    exact ⟨⟨rfl, rfl, rfl⟩, .inl requested⟩
  split at admitted
  · cases admitted
  · cases admitted
  · rename_i s'' checked
    cases admitted
    obtain ⟨same, resolves⟩ := UnrequestedChecks_inr checked
    exact ⟨same, .inr resolves⟩

/-- Admission fails only on a block that was not asked for, whose parent is
unknown, past the temperature's early return: it reads through `nullptr`. -/
theorem AdmitBlock_error {ptr : IndexPtr} (fails : AdmitBlock ctx pfrom addr pblock2 s = .error ptr) :
    ptr = none ∧ s.chain.LookupBlockIndex pblock2.hashPrevBlock = none ∧
      IsBlockRequested (ctx.GetHash pblock2) s.mapBlocksInFlight = false ∧
      ¬(s.mapPoSTemperature addr ≥ MAX_CONSECUTIVE_POS_HEADERS ∧ ctx.network ≠ .TESTNET) := by
  obtain ⟨mutated, min_pow_checked, admission⟩ := AdmitBlock_cases ctx pfrom addr pblock2 s
  rw [admission] at fails
  split at fails
  · cases fails
  split at fails
  · cases fails
  rename_i requested
  split at fails
  · rename_i failed checked
    cases fails
    obtain ⟨rfl, unresolved, warm⟩ := UnrequestedChecks_error checked
    have unknown : s.chain.LookupBlockIndex pblock2.hashPrevBlock = none :=
      (s.chain.LookupBlockIndex_resolves _).resolve_right unresolved
    exact ⟨unknown, unknown, Bool.eq_false_iff.mpr requested, warm⟩
  · cases fails
  · cases fails

/-- With the parent unknown neither guarded read happens. -/
theorem AdmitBlock_of_unknown (unknown : s.chain.LookupBlockIndex pblock2.hashPrevBlock = none) :
    AdmitBlock ctx pfrom addr pblock2 s =
      if IsBlockRequested (ctx.GetHash pblock2) s.mapBlocksInFlight then .ok (.inr (s, false))
      else
        match UnrequestedChecks ctx addr pblock2 (ctx.GetHash pblock2) none s with
        | .error ptr => .error ptr
        | .ok (.inl early) => .ok (.inl early)
        | .ok (.inr s') => .ok (.inr (s', false)) := by
  have mutatedEq : MutatedCheck ctx pblock2 s.chain
      (s.chain.LookupBlockIndex pblock2.hashPrevBlock) = .ok false := by
    rw [unknown]
    rfl
  have minPowEq : MinPowChecked ctx pblock2 s.chain
      (s.chain.LookupBlockIndex pblock2.hashPrevBlock) = .ok false := by
    rw [unknown]
    rfl
  rw [AdmitBlock_eq mutatedEq minPowEq, unknown]
  simp only [Bool.false_eq_true, if_false]

theorem AdmitBlock_unknown_requested (unknown : s.chain.LookupBlockIndex pblock2.hashPrevBlock = none)
    (requested : IsBlockRequested (ctx.GetHash pblock2) s.mapBlocksInFlight = true) :
    AdmitBlock ctx pfrom addr pblock2 s = .ok (.inr (s, false)) := by
  rw [AdmitBlock_of_unknown unknown, if_pos requested]

theorem AdmitBlock_unknown_unrequested
    (unknown : s.chain.LookupBlockIndex pblock2.hashPrevBlock = none)
    (unrequested : IsBlockRequested (ctx.GetHash pblock2) s.mapBlocksInFlight = false)
    (warm : ¬(s.mapPoSTemperature addr ≥ MAX_CONSECUTIVE_POS_HEADERS ∧ ctx.network ≠ .TESTNET)) :
    AdmitBlock ctx pfrom addr pblock2 s = .error none := by
  have notRequested : ¬IsBlockRequested (ctx.GetHash pblock2) s.mapBlocksInFlight = true := by
    simp [unrequested]
  rw [AdmitBlock_of_unknown unknown, if_neg notRequested,
    UnrequestedChecks_of_not_resolves warm (s.chain.not_resolves_none)]

/-! ## The invariant, and one message -/

/-- What the states the node reaches keep: the waiting blocks in pointer
order, each under a pointer to an entry of the block index. -/
structure WaitInvariant (ctx : NetContext) (s : NodeState) : Prop where
  sorted : SortedKeys ctx.PtrLt s.mapBlocksWait
  resolve : s.KeysResolve

theorem WaitInvariant.of_sameWait {s' : NodeState} (inv : WaitInvariant ctx s)
    (same : s.SameWait s') : WaitInvariant ctx s' := by
  obtain ⟨chain, wait, _⟩ := same
  refine ⟨?_, fun entry mem => ?_⟩
  · rw [wait]
    exact inv.sorted
  · rw [wait] at mem
    rw [chain]
    exact inv.resolve entry mem

theorem WaitInvariant.storeWaiting (inv : WaitInvariant ctx s) {prev_block : IndexPtr}
    (resolves : s.chain.Resolves prev_block) (we : WaitElement) :
    WaitInvariant ctx (StoreWaiting ctx prev_block we s) := by
  refine ⟨inv.sorted.sortedInsert, fun entry mem => ?_⟩
  rcases mem_sortedInsert mem with rfl | old
  · exact resolves
  · exact inv.resolve entry old

/-- Every waiting key points to an entry, so none is `nullptr`, which goes
before them all. -/
theorem StoreWaiting_null (inv : WaitInvariant ctx s) (we : WaitElement) :
    (StoreWaiting ctx none we s).mapBlocksWait = (none, we) :: s.mapBlocksWait := by
  apply sortedInsert_of_lt
  intro entry mem
  obtain ⟨hash, keyed, _⟩ := inv.resolve entry mem
  rw [keyed]
  exact ctx.ptrBefore_null hash

section Message

variable {nTimeNow : Int}

/-- A block stored under `nullptr` is the first the loop reads, and the loop
reads through it. -/
theorem WaitLoop_StoreWaiting_null (inv : WaitInvariant ctx s) (min_pow_checked : Bool) :
    WaitLoop ctx pfrom nTimeNow min_pow_checked (StoreWaiting ctx none ⟨pblock2, nTimeNow⟩ s) =
      .error none :=
  WaitLoop_null_head _ _ _ (StoreWaiting_null inv _) (by dsimp only; omega)

theorem ProcessBlockMessage_of_admitted {s' : NodeState} {min_pow_checked : Bool}
    (notLoading : ctx.LoadingBlocks = false)
    (admitted : AdmitBlock ctx pfrom addr pblock2 s = .ok (.inr (s', min_pow_checked))) :
    ProcessBlockMessage ctx pfrom addr pblock2 nTimeNow s =
      WaitLoop ctx pfrom nTimeNow min_pow_checked
        (StoreWaiting ctx (s.chain.LookupBlockIndex pblock2.hashPrevBlock) ⟨pblock2, nTimeNow⟩ s') := by
  have same := (AdmitBlock_inr admitted).1
  simp only [ProcessBlockMessage, notLoading, Bool.false_eq_true, if_false, admitted]
  rw [same.1]

theorem ProcessBlockMessage_of_error {ptr : IndexPtr} (notLoading : ctx.LoadingBlocks = false)
    (fails : AdmitBlock ctx pfrom addr pblock2 s = .error ptr) :
    ProcessBlockMessage ctx pfrom addr pblock2 nTimeNow s = .error ptr := by
  simp only [ProcessBlockMessage, notLoading, Bool.false_eq_true, if_false, fails]

/-- One message keeps the invariant, and reads through no bad pointer but
`nullptr`, for a block whose parent is unknown. -/
theorem ProcessBlockMessage_step (keeps : ctx.KeepsEntries) (inv : WaitInvariant ctx s) :
    (∃ s' effects, ProcessBlockMessage ctx pfrom addr pblock2 nTimeNow s = .ok (s', effects) ∧
      WaitInvariant ctx s') ∨
    (ProcessBlockMessage ctx pfrom addr pblock2 nTimeNow s = .error none ∧
      s.chain.LookupBlockIndex pblock2.hashPrevBlock = none) := by
  cases loading : ctx.LoadingBlocks
  case true => exact .inl ⟨s, [], by simp [ProcessBlockMessage, loading], inv⟩
  case false =>
  rcases admission : AdmitBlock ctx pfrom addr pblock2 s with ptr | ⟨s', effects⟩ | ⟨s', min_pow_checked⟩
  · obtain ⟨rfl, unknown, _⟩ := AdmitBlock_error admission
    exact .inr ⟨ProcessBlockMessage_of_error loading admission, unknown⟩
  · refine .inl ⟨s', effects, ?_, inv.of_sameWait (AdmitBlock_inl admission).1⟩
    simp only [ProcessBlockMessage, loading, Bool.false_eq_true, if_false, admission]
  · have stored := inv.of_sameWait (AdmitBlock_inr admission).1
    have chain := (AdmitBlock_inr admission).1.1
    rw [ProcessBlockMessage_of_admitted loading admission]
    -- the key is `nullptr`, which the loop reads, or points to an entry
    rcases s.chain.LookupBlockIndex_resolves pblock2.hashPrevBlock with unknown | resolves
    · refine .inr ⟨?_, unknown⟩
      rw [unknown]
      exact WaitLoop_StoreWaiting_null stored min_pow_checked
    · have resolves' : s'.chain.Resolves (s.chain.LookupBlockIndex pblock2.hashPrevBlock) := by
        rw [chain]
        exact resolves
      have storedInv := stored.storeWaiting resolves' ⟨pblock2, nTimeNow⟩
      cases run : WaitLoop ctx pfrom nTimeNow min_pow_checked
          (StoreWaiting ctx (s.chain.LookupBlockIndex pblock2.hashPrevBlock) ⟨pblock2, nTimeNow⟩ s') with
      | error ptr => exact absurd run (WaitLoop_ne_error keeps _ storedInv.resolve ptr)
      | ok result =>
        obtain ⟨s'', effects⟩ := result
        exact .inl ⟨s'', effects, rfl,
          ⟨WaitLoop_sorted run storedInv.sorted, WaitLoop_keysResolve keeps run storedInv.resolve⟩⟩

/-- On a state the node reaches, the handler reads through `nullptr` exactly
when the block's parent is unknown and the handler gets past the temperature
test: the block was asked for (it is stored under `nullptr` and the wait
loop reads the key), or the peer is not cooled down, or the node runs on
testnet (`prev_block->IsValid` reads it). -/
theorem ProcessBlockMessage_null_iff (keeps : ctx.KeepsEntries) (inv : WaitInvariant ctx s) :
    ProcessBlockMessage ctx pfrom addr pblock2 nTimeNow s = .error none ↔
      ctx.LoadingBlocks = false ∧ s.chain.LookupBlockIndex pblock2.hashPrevBlock = none ∧
        (IsBlockRequested (ctx.GetHash pblock2) s.mapBlocksInFlight = true ∨
          ¬(s.mapPoSTemperature addr ≥ MAX_CONSECUTIVE_POS_HEADERS ∧ ctx.network ≠ .TESTNET)) := by
  constructor
  · intro fails
    cases loading : ctx.LoadingBlocks
    case true => simp [ProcessBlockMessage, loading] at fails
    case false =>
    rcases admission : AdmitBlock ctx pfrom addr pblock2 s with ptr | early | ⟨s', min_pow_checked⟩
    · obtain ⟨_, unknown, _, warm⟩ := AdmitBlock_error admission
      exact ⟨rfl, unknown, .inr warm⟩
    · rw [ProcessBlockMessage] at fails
      simp only [loading, Bool.false_eq_true, if_false, admission] at fails
      cases fails
    · obtain ⟨same, requestedOrRead⟩ := AdmitBlock_inr admission
      -- a parent that was read is a key the loop reads safely
      rcases s.chain.LookupBlockIndex_resolves pblock2.hashPrevBlock with unknown | resolves
      · have requested := requestedOrRead.resolve_right (by rw [unknown]; exact s.chain.not_resolves_none)
        exact ⟨rfl, unknown, .inl requested⟩
      · have resolves' : s'.chain.Resolves (s.chain.LookupBlockIndex pblock2.hashPrevBlock) := by
          rw [same.1]
          exact resolves
        have storedInv := (inv.of_sameWait same).storeWaiting resolves' ⟨pblock2, nTimeNow⟩
        rw [ProcessBlockMessage_of_admitted loading admission] at fails
        exact absurd fails (WaitLoop_ne_error keeps _ storedInv.resolve none)
  · rintro ⟨notLoading, unknown, requested | warm⟩
    · cases requestedEq : IsBlockRequested (ctx.GetHash pblock2) s.mapBlocksInFlight
      case false => rw [requestedEq] at requested; cases requested
      case true =>
      rw [ProcessBlockMessage_of_admitted notLoading (AdmitBlock_unknown_requested unknown requestedEq),
        unknown]
      exact WaitLoop_StoreWaiting_null inv false
    · cases requestedEq : IsBlockRequested (ctx.GetHash pblock2) s.mapBlocksInFlight
      case true =>
        rw [ProcessBlockMessage_of_admitted notLoading (AdmitBlock_unknown_requested unknown requestedEq),
          unknown]
        exact WaitLoop_StoreWaiting_null inv false
      case false =>
        exact ProcessBlockMessage_of_error notLoading
          (AdmitBlock_unknown_unrequested unknown requestedEq warm)

/-- A message keeps every block waiting under another parent: it still waits
afterwards, or left with an effect that names it. -/
theorem ProcessBlockMessage_conserves (inv : WaitInvariant ctx s) {s' : NodeState}
    {effects : List Effect}
    (run : ProcessBlockMessage ctx pfrom addr pblock2 nTimeNow s = .ok (s', effects)) :
    ∀ entry ∈ s.mapBlocksWait, entry.1 ≠ s.chain.LookupBlockIndex pblock2.hashPrevBlock →
      entry ∈ s'.mapBlocksWait ∨ ∃ exit, Effect.left entry.1 entry.2 exit ∈ effects := by
  intro entry mem other
  cases loading : ctx.LoadingBlocks
  case true =>
    simp only [ProcessBlockMessage, loading, if_true, Except.ok.injEq, Prod.mk.injEq] at run
    obtain ⟨rfl, rfl⟩ := run
    exact .inl mem
  case false =>
  rcases admission : AdmitBlock ctx pfrom addr pblock2 s with ptr | ⟨s1, effects1⟩ | ⟨s1, min_pow_checked⟩
  · rw [ProcessBlockMessage_of_error loading admission] at run
    cases run
  · simp only [ProcessBlockMessage, loading, Bool.false_eq_true, if_false, admission, Except.ok.injEq,
      Prod.mk.injEq] at run
    obtain ⟨rfl, rfl⟩ := run
    rw [(AdmitBlock_inl admission).1.2.1]
    exact .inl mem
  · have same := (AdmitBlock_inr admission).1
    rw [ProcessBlockMessage_of_admitted loading admission] at run
    have stored : entry ∈ (StoreWaiting ctx (s.chain.LookupBlockIndex pblock2.hashPrevBlock)
        ⟨pblock2, nTimeNow⟩ s1).mapBlocksWait := by
      apply mem_sortedInsert_of_ne _ other
      rw [same.2.1]
      exact mem
    exact WaitLoop_conserves run (inv.of_sameWait same).sorted.sortedInsert entry stored

/-- A block stored under its parent puts out the child waiting there: after
the message no other block waits under that parent or is named by an effect
under it, so a child that waited there is neither handed to `ProcessBlock`
nor dropped by the loop. -/
theorem ProcessBlockMessage_displaces (inv : WaitInvariant ctx s) (notLoading : ctx.LoadingBlocks = false)
    {s1 : NodeState} {min_pow_checked : Bool}
    (admitted : AdmitBlock ctx pfrom addr pblock2 s = .ok (.inr (s1, min_pow_checked)))
    {we : WaitElement} (other : we ≠ ⟨pblock2, nTimeNow⟩) {s' : NodeState} {effects : List Effect}
    (run : ProcessBlockMessage ctx pfrom addr pblock2 nTimeNow s = .ok (s', effects)) :
    (s.chain.LookupBlockIndex pblock2.hashPrevBlock, we) ∉ s'.mapBlocksWait ∧
      ∀ exit, Effect.left (s.chain.LookupBlockIndex pblock2.hashPrevBlock) we exit ∉ effects := by
  have same := (AdmitBlock_inr admitted).1
  rw [ProcessBlockMessage_of_admitted notLoading admitted] at run
  have sorted := (inv.of_sameWait same).sorted
  -- the assignment replaced the child's entry, the one entry of its key
  have gone : (s.chain.LookupBlockIndex pblock2.hashPrevBlock, we) ∉
      (StoreWaiting ctx (s.chain.LookupBlockIndex pblock2.hashPrevBlock)
        ⟨pblock2, nTimeNow⟩ s1).mapBlocksWait := by
    intro mem
    rcases (mem_sortedInsert_iff sorted).mp mem with replaced | ⟨_, differs⟩
    · exact other (Prod.mk.inj replaced).2
    · exact differs rfl
  exact ⟨fun mem => gone (WaitLoop_sub run _ mem),
    fun exit left => gone (WaitLoop_left_mem run _ _ exit left)⟩

end Message

/-! ## Runs of messages -/

/-- A `BLOCK` message as the handler reads it: the peer, its address, the
block, and the time it is read at. -/
structure BlockMessage where
  pfrom : NodeId
  addr : CNetAddr
  pblock2 : CBlock
  nTimeNow : Int

/-- The handler on each message in turn; a read through a bad pointer ends
the run. -/
def ProcessBlockMessages (ctx : NetContext) : List BlockMessage → NodeState →
    Except IndexPtr (NodeState × List Effect)
  | [], s => .ok (s, [])
  | msg :: rest, s =>
    match ProcessBlockMessage ctx msg.pfrom msg.addr msg.pblock2 msg.nTimeNow s with
    | .error ptr => .error ptr
    | .ok (s', effects) =>
      match ProcessBlockMessages ctx rest s' with
      | .error ptr => .error ptr
      | .ok (s'', later) => .ok (s'', effects ++ later)

/-- Over any run from a state the node reaches, the invariant holds at the
end, and the only bad pointer read is `nullptr`. -/
theorem ProcessBlockMessages_step (keeps : ctx.KeepsEntries) (msgs : List BlockMessage) :
    ∀ s, WaitInvariant ctx s →
      (∃ s' effects, ProcessBlockMessages ctx msgs s = .ok (s', effects) ∧ WaitInvariant ctx s') ∨
        ProcessBlockMessages ctx msgs s = .error none := by
  induction msgs with
  | nil => exact fun s inv => .inl ⟨s, [], rfl, inv⟩
  | cons msg rest ih =>
    intro s inv
    rcases @ProcessBlockMessage_step ctx msg.pfrom msg.addr msg.pblock2 s msg.nTimeNow keeps inv with ⟨s', effects, first, inv'⟩ | ⟨first, _⟩
    · rcases ih s' inv' with ⟨s'', later, rest', inv''⟩ | restFails
      · exact .inl ⟨s'', effects ++ later, by simp only [ProcessBlockMessages, first, rest'], inv''⟩
      · exact .inr (by simp only [ProcessBlockMessages, first, restFails])
    · exact .inr (by simp only [ProcessBlockMessages, first])

/-! ## A node, and runs on it -/

theorem UintToArith256_injective : Function.Injective UintToArith256 := by
  intro a b same
  have data : a.data = b.data := by
    rw [← Codec.leBytes_leValue a.data, ← Codec.leBytes_leValue b.data, a.size_eq, b.size_eq]
    exact congrArg (Codec.leBytes 32) same
  cases a
  cases b
  cases data
  rfl

/-- Pointers ordered as the numbers of the hashes they point to, `nullptr`
first. -/
def hashOrder : IndexPtr → IndexPtr → Bool
  | none, some _ => true
  | some a, some b => decide (UintToArith256 a < UintToArith256 b)
  | _, _ => false

instance : IsStrictTotalOrder IndexPtr fun a b => hashOrder a b = true where
  trichotomous a b notBelow notAbove := by
    cases a with
    | none => cases b with
      | none => rfl
      | some b => exact absurd rfl notBelow
    | some a => cases b with
      | none => exact absurd rfl notAbove
      | some b =>
        simp only [hashOrder, decide_eq_true_eq, not_lt] at notBelow notAbove
        exact congrArg some (UintToArith256_injective (Nat.le_antisymm notAbove notBelow))
  irrefl a := by cases a <;> simp [hashOrder]
  trans a b c below above := by
    cases a <;> cases b <;> cases c <;> simp [hashOrder] at below above ⊢
    omega

/-- The main network, hashing with `sumHash`: no block is mutated or being
imported, and `ProcessNewBlock` leaves the chain as it is. -/
def waitContext : NetContext where
  network := .MAIN
  sha256 := Peercoin.Validation.sumHash
  ptrBefore := hashOrder
  ptrOrder := inferInstance
  ptrBefore_null := fun _ => rfl
  LoadingBlocks := false
  IsInitialBlockDownload := fun _ => false
  IsBTC16BIPsEnabled := fun _ => true
  IsBlockMutated := fun _ _ => false
  CalculateHeadersWork := fun _ => 0
  GetAntiDoSWorkThreshold := 0
  ProcessNewBlock := fun view _ _ _ => (view, true)

theorem waitContext_keepsEntries : waitContext.KeepsEntries :=
  fun _ _ _ _ _ resolves => resolves

/-- The tip `uint256.ZERO`, valid up to its scripts, and the header
`uint256.ONE`, whose transactions have not arrived. -/
def waitIndex (hash : uint256) : Option IndexEntry :=
  if hash = uint256.ZERO then some ⟨5, 1000, 0⟩
  else if hash = uint256.ONE then some ⟨2, 1000, 0⟩
  else none

/-- A node on `waitIndex` with nothing waiting and the given requests in
flight. -/
def waitNode (mapBlocksInFlight : List (uint256 × NodeId)) : NodeState where
  chain := ⟨waitIndex, some uint256.ZERO⟩
  mapBlocksInFlight := mapBlocksInFlight
  mapPoSTemperature := fun _ => 0
  mapBlocksWait := []
  pindexLastAccepted := none

theorem waitNode_invariant (mapBlocksInFlight : List (uint256 × NodeId)) :
    WaitInvariant waitContext (waitNode mapBlocksInFlight) :=
  ⟨List.Pairwise.nil, fun _ mem => by cases mem⟩

/-- A proof-of-work block on `hashPrevBlock`, without transactions. -/
def waitBlock (hashPrevBlock : uint256) (nNonce : UInt32) : CBlock :=
  ⟨⟨1, hashPrevBlock, uint256.ZERO, 1000, 0x1d00ffff, nNonce, 0⟩, [], []⟩

/-- A hash that is not in `waitIndex`. -/
def unknownHash : uint256 := uint256.ofLowByte 2

theorem orphanBlock_reads_nullptr :
    ProcessBlockMessage waitContext 0 0 (waitBlock unknownHash 0) 1000 (waitNode []) = .error none ∧
      ProcessBlockMessage waitContext 0 0 (waitBlock unknownHash 0) 1000
        (waitNode [(waitContext.GetHash (waitBlock unknownHash 0), 0)]) = .error none := by
  have unknown : ∀ requests,
      (waitNode requests).chain.LookupBlockIndex (waitBlock unknownHash 0).hashPrevBlock = none :=
    fun _ => rfl
  constructor
  · -- not asked for, from a peer at temperature zero: `prev_block->IsValid` reads it
    exact (ProcessBlockMessage_null_iff waitContext_keepsEntries (waitNode_invariant [])).mpr
      ⟨rfl, unknown [], .inr (by decide)⟩
  · -- asked for: stored under `nullptr`, which the wait loop reads
    exact (ProcessBlockMessage_null_iff waitContext_keepsEntries (waitNode_invariant _)).mpr
      ⟨rfl, unknown _, .inl (by simp [IsBlockRequested, waitNode])⟩

/-- Two children of the header `uint256.ONE`, both asked for. -/
def siblingNode : NodeState :=
  waitNode [(waitContext.GetHash (waitBlock uint256.ONE 1), 0),
    (waitContext.GetHash (waitBlock uint256.ONE 2), 0)]

/-- `siblingNode` once `block`, read at `time`, waits for its parent. -/
def siblingWaiting (block : CBlock) (time : Int) : NodeState :=
  { siblingNode with
    mapBlocksWait := [(some uint256.ONE, ⟨block, time⟩)]
    pindexLastAccepted := some uint256.ZERO }

set_option maxRecDepth 20000 in
theorem siblingBlock_displaces_first :
    ProcessBlockMessage waitContext 0 0 (waitBlock uint256.ONE 1) 1000 siblingNode =
        .ok (siblingWaiting (waitBlock uint256.ONE 1) 1000, []) ∧
      ProcessBlockMessage waitContext 0 0 (waitBlock uint256.ONE 2) 1001
          (siblingWaiting (waitBlock uint256.ONE 1) 1000) =
        .ok (siblingWaiting (waitBlock uint256.ONE 2) 1001, []) := by
  constructor
  · have admitted : AdmitBlock waitContext 0 0 (waitBlock uint256.ONE 1) siblingNode =
        .ok (.inr (siblingNode, true)) := rfl
    rw [ProcessBlockMessage_of_admitted rfl admitted]
    -- the parent has no transactions yet, so the loop takes nothing
    refine (WaitLoop_of_none ?_).trans ?_
    · rfl
    · rfl
  · have admitted : AdmitBlock waitContext 0 0 (waitBlock uint256.ONE 2)
        (siblingWaiting (waitBlock uint256.ONE 1) 1000) =
        .ok (.inr (siblingWaiting (waitBlock uint256.ONE 1) 1000, true)) := rfl
    rw [ProcessBlockMessage_of_admitted rfl admitted]
    refine (WaitLoop_of_none ?_).trans ?_
    · rfl
    · rfl

end Peercoin.Net
