import PeercoinFormal.Chain.BlockIndex

/-!
# pow.cpp: the anchor block of the ASERT difficulty

From protocol V14 on, the target of a proof-of-work block follows ASERT,
scheduled from an anchor block: the last proof-of-work block whose parent
does not have V14.  `GetASERTAnchorBlock` finds it by a walk towards
genesis that jumps along `pskip` while the block it lands on has V14, and
keeps its last answer in the static `cachedAnchor`, which it returns again
whenever it is an ancestor of the block asked about.

A block and its ancestors are a list, the block first and genesis last: the
entry at position `i` has `pprev` at `i + 1`, height `length - 1 - i`, and
`pskip` at the ancestor of height `GetSkipHeight` of its own (`BuildSkip`).

The plain walk (`PlainAnchor`) takes one step at a time.  The jumps and the
cache agree with it when V14, once on, stays on along the chain, and the
cache holds no ancestor that is not the block's own anchor.  Neither is a
rule of the chain: V14 reads the raw block time and a supermajority of
versions, and a block may be timed before the switch time just after one
timed past it.
-/

set_option autoImplicit false

namespace Peercoin.Pow

open Peercoin.Chain Peercoin.Primitives

/-- The networks as `IsProtocolV14` tells them apart by name; every network
but the main one takes the test switch time and the test supermajority. -/
inductive ChainType
  | MAIN
  | TESTNET
  | SIGNET
  | REGTEST
  deriving DecidableEq, Repr

def nProtocolV14SwitchTime : UInt32 := 1717416000

def nProtocolV14TestSwitchTime : UInt32 := 1710720000

/-- The loop of `HowSuperMajority` from `pstart` back along its ancestors:
`i` counts the proof-of-stake blocks looked at, `nFound` those of version
`minVersion` or later.  A proof-of-work block is passed over with
`continue`, which moves `pstart` but not `i`. -/
def HowSuperMajorityFrom (minVersion : Int32) (nRequired nToCheck : Nat) :
    (i nFound : Nat) → List CBlockIndex → Nat
  | _, nFound, [] => nFound
  | i, nFound, pstart :: ancestors =>
    if i < nToCheck && nFound < nRequired then
      if !pstart.IsProofOfStake then
        HowSuperMajorityFrom minVersion nRequired nToCheck i nFound ancestors
      else
        HowSuperMajorityFrom minVersion nRequired nToCheck (i + 1)
          (if minVersion ≤ pstart.nVersion then nFound + 1 else nFound) ancestors
    else nFound

def HowSuperMajority (minVersion : Int32) (pstart : List CBlockIndex) (nRequired nToCheck : Nat) :
    Nat :=
  HowSuperMajorityFrom minVersion nRequired nToCheck 0 0 pstart

def IsSuperMajority (minVersion : Int32) (pstart : List CBlockIndex) (nRequired nToCheck : Nat) :
    Bool :=
  HowSuperMajority minVersion pstart nRequired nToCheck ≥ nRequired

/-- `IsProtocolV14` of the head of `pindexPrev`, whose ancestors follow it. -/
def IsProtocolV14 (network : ChainType) : List CBlockIndex → Bool
  | [] => false
  | pindexPrev :: ancestors =>
    if network = .REGTEST then true
    else if pindexPrev.nTime < (if network ≠ .MAIN then nProtocolV14TestSwitchTime
        else nProtocolV14SwitchTime) then false
    else (network = .MAIN && IsSuperMajority 5 (pindexPrev :: ancestors) 750 1000) ||
      (network ≠ .MAIN && IsSuperMajority 5 (pindexPrev :: ancestors) 75 100)

def InvertLowestOne (n : Nat) : Nat := n &&& (n - 1)

/-- `GetSkipHeight`: the height `pskip` jumps back to. -/
def GetSkipHeight (height : Nat) : Nat :=
  if height < 2 then 0
  else if height % 2 = 1 then InvertLowestOne (InvertLowestOne (height - 1)) + 1
  else InvertLowestOne height

/-- The position of `pskip` of the entry at position `anchor` of a chain of
`length` entries. -/
def skipPosition (length anchor : Nat) : Nat :=
  length - 1 - GetSkipHeight (length - 1 - anchor)

def IsProofOfWorkAt (chain : List CBlockIndex) (anchor : Nat) : Bool :=
  match chain.drop anchor with
  | block :: _ => block.IsProofOfWork
  | [] => false

/-- `CBlockIndex::GetAncestor` of the head of `chain`: its ancestor of height
`height`, and none above its own height. -/
def GetAncestor (chain : List CBlockIndex) (height : Nat) : Option CBlockIndex :=
  if height < chain.length then chain[chain.length - 1 - height]? else none

/-- The slow path of `GetASERTAnchorBlock`, from the entry at position
`anchor` with `fuel` steps left: the position where the walk stops.  An
entry with `pprev` has `pskip` too (`BuildSkip`), so the test of `pskip`
against null is the loop's own. -/
def AnchorWalk (network : ChainType) (chain : List CBlockIndex) : (fuel anchor : Nat) → Nat
  | 0, anchor => anchor
  | fuel + 1, anchor =>
    if anchor + 1 < chain.length then
      let pskip := skipPosition chain.length anchor
      if IsProtocolV14 network (chain.drop pskip) then AnchorWalk network chain fuel pskip
      else if !IsProtocolV14 network (chain.drop (anchor + 1)) && IsProofOfWorkAt chain anchor then
        anchor
      else AnchorWalk network chain fuel (anchor + 1)
    else anchor

/-- `GetASERTAnchorBlock` for `pindex`, the head of `chain`, with
`cachedAnchor` as the calls before left it: the anchor, and `cachedAnchor`
after the call.  Two entries are the same block when their hashes are. -/
def GetASERTAnchorBlock (network : ChainType) (chain : List CBlockIndex)
    (cachedAnchor : Option CBlockIndex) : Option CBlockIndex × Option CBlockIndex :=
  let anchor := chain[AnchorWalk network chain chain.length 0]?
  match cachedAnchor with
  | some lastCached =>
    if (GetAncestor chain lastCached.nHeight).map CBlockIndex.phashBlock = some lastCached.phashBlock
    then (some lastCached, cachedAnchor)
    else (anchor, anchor)
  | none => (anchor, anchor)

/-- Calls of `GetASERTAnchorBlock` one after another, each with the cache
the call before left: the anchors they answer. -/
def AnchorCalls (network : ChainType) :
    List (List CBlockIndex) → Option CBlockIndex → List (Option CBlockIndex)
  | [], _ => []
  | chain :: later, cachedAnchor =>
    let call := GetASERTAnchorBlock network chain cachedAnchor
    call.1 :: AnchorCalls network later call.2

/-! ## The plain walk -/

/-- The anchor as the plain walk finds it, as a position in `chain`: the
first block from the head back that is of proof of work and whose parent
does not have V14, or genesis. -/
def PlainAnchor (network : ChainType) : List CBlockIndex → Nat
  | [] => 0
  | [_] => 0
  | block :: pprev :: ancestors =>
    if block.IsProofOfWork && !IsProtocolV14 network (pprev :: ancestors) then 0
    else PlainAnchor network (pprev :: ancestors) + 1

/-- The entry at position `anchor` is where the plain walk stops. -/
def IsAnchorAt (network : ChainType) (chain : List CBlockIndex) (anchor : Nat) : Bool :=
  IsProofOfWorkAt chain anchor && !IsProtocolV14 network (chain.drop (anchor + 1))

/-- V14, once on, stays on: every block whose parent has V14 has it. -/
def V14Persists (network : ChainType) (chain : List CBlockIndex) : Prop :=
  ∀ anchor < chain.length - 1,
    IsProtocolV14 network (chain.drop (anchor + 1)) = true →
      IsProtocolV14 network (chain.drop anchor) = true

instance (network : ChainType) (chain : List CBlockIndex) :
    Decidable (V14Persists network chain) :=
  inferInstanceAs (Decidable (∀ anchor < chain.length - 1, _))

/-- A cached block that passes the cache's test is the block's own anchor. -/
def CacheAgrees (network : ChainType) (chain : List CBlockIndex)
    (cachedAnchor : Option CBlockIndex) : Prop :=
  ∀ lastCached, cachedAnchor = some lastCached →
    (GetAncestor chain lastCached.nHeight).map CBlockIndex.phashBlock =
      some lastCached.phashBlock →
    chain[PlainAnchor network chain]? = some lastCached

/-! ## Skip heights -/

theorem InvertLowestOne_le (n : Nat) : InvertLowestOne n ≤ n := Nat.and_le_left

theorem InvertLowestOne_lt {n : Nat} (positive : 0 < n) : InvertLowestOne n < n := by
  have below : InvertLowestOne n ≤ n - 1 := Nat.and_le_right
  omega

/-- `pskip` points strictly back: "any number strictly lower than height is
acceptable". -/
theorem GetSkipHeight_lt {height : Nat} (positive : 0 < height) : GetSkipHeight height < height := by
  unfold GetSkipHeight
  split
  · exact positive
  · split
    · -- odd: the lowest bit of height - 1 is cleared, and then one more
      have first := InvertLowestOne_lt (show 0 < height - 1 by omega)
      have second := InvertLowestOne_le (InvertLowestOne (height - 1))
      omega
    · exact InvertLowestOne_lt positive

theorem skipPosition_bounds {length anchor : Nat} (hasPrev : anchor + 1 < length) :
    anchor < skipPosition length anchor ∧ skipPosition length anchor < length := by
  have below := GetSkipHeight_lt (show 0 < length - 1 - anchor by omega)
  unfold skipPosition
  omega

/-! ## The plain walk along positions -/

section PlainWalk

variable (network : ChainType) (chain : List CBlockIndex)

theorem PlainAnchor_drop_step {anchor : Nat} (hasPrev : anchor + 1 < chain.length) :
    PlainAnchor network (chain.drop anchor) =
      if IsAnchorAt network chain anchor then 0
      else PlainAnchor network (chain.drop (anchor + 1)) + 1 := by
  have here : chain.drop anchor = chain[anchor] :: chain.drop (anchor + 1) :=
    List.drop_eq_getElem_cons (by omega)
  have parent : chain.drop (anchor + 1) = chain[anchor + 1] :: chain.drop (anchor + 1 + 1) :=
    List.drop_eq_getElem_cons hasPrev
  unfold IsAnchorAt IsProofOfWorkAt
  rw [here, parent]
  rfl

theorem PlainAnchor_drop_genesis {anchor : Nat} (genesis : chain.length ≤ anchor + 1) :
    PlainAnchor network (chain.drop anchor) = 0 := by
  have short : (chain.drop anchor).length ≤ 1 := by
    rw [List.length_drop]
    omega
  match chain.drop anchor, short with
  | [], _ => rfl
  | [_], _ => rfl

/-- The plain walk passes a stretch of blocks none of which is an anchor. -/
theorem PlainAnchor_drop_pass {anchor target : Nat} (before : anchor ≤ target)
    (inChain : target < chain.length)
    (passed : ∀ k, anchor ≤ k → k < target → IsAnchorAt network chain k = false) :
    anchor + PlainAnchor network (chain.drop anchor) =
      target + PlainAnchor network (chain.drop target) := by
  -- induction on the length of the stretch, taking its first block off
  induction h : target - anchor generalizing anchor with
  | zero => rw [show anchor = target by omega]
  | succ n ih =>
    have step := PlainAnchor_drop_step network chain (show anchor + 1 < chain.length by omega)
    rw [passed anchor (Nat.le_refl anchor) (by omega), if_neg Bool.false_ne_true] at step
    have rest := @ih (anchor + 1) (by omega)
      (fun k after below => passed k (by omega) below) (by omega)
    omega

end PlainWalk

/-! ## The jumps agree with the plain walk where V14 persists -/

section Persisting

variable {network : ChainType} {chain : List CBlockIndex}

/-- Where V14 persists, a block with V14 has it at every later block. -/
theorem V14Persists.later (persists : V14Persists network chain) {anchor target : Nat}
    (before : anchor ≤ target) (inChain : target < chain.length)
    (older : IsProtocolV14 network (chain.drop target) = true) :
    IsProtocolV14 network (chain.drop anchor) = true := by
  -- induction on the distance, one parent at a time
  induction h : target - anchor generalizing anchor with
  | zero => rwa [show anchor = target by omega]
  | succ n ih =>
    exact persists anchor (by omega) (@ih (anchor + 1) (by omega) (by omega))

/-- A `pskip` jump to a block with V14 passes no anchor. -/
theorem V14Persists.no_anchor_below (persists : V14Persists network chain) {anchor target : Nat}
    (inChain : target < chain.length)
    (older : IsProtocolV14 network (chain.drop target) = true) :
    ∀ k, anchor ≤ k → k < target → IsAnchorAt network chain k = false := by
  intro k _ below
  have parent := persists.later (show k + 1 ≤ target by omega) inChain older
  simp [IsAnchorAt, parent]

/-- The walk never runs out of fuel: from `anchor`, every fuel that would
reach genesis one block at a time gives the same answer. -/
theorem AnchorWalk_fuel (fuel fuel' anchor : Nat) (enough : chain.length ≤ fuel + anchor)
    (enough' : chain.length ≤ fuel' + anchor) :
    AnchorWalk network chain fuel anchor = AnchorWalk network chain fuel' anchor := by
  induction fuel generalizing fuel' anchor with
  | zero =>
    -- no fuel left: the walk is at genesis, where it stops with any fuel
    cases fuel' with
    | zero => rfl
    | succ fuel' => simp [AnchorWalk, show ¬anchor + 1 < chain.length by omega]
  | succ fuel ih =>
    cases fuel' with
    | zero => simp [AnchorWalk, show ¬anchor + 1 < chain.length by omega]
    | succ fuel' =>
      unfold AnchorWalk
      by_cases hasPrev : anchor + 1 < chain.length
      · obtain ⟨ahead, _⟩ := skipPosition_bounds hasPrev
        simp only [if_pos hasPrev]
        rw [ih fuel' (skipPosition chain.length anchor) (by omega) (by omega),
          ih fuel' (anchor + 1) (by omega) (by omega)]
      · simp only [if_neg hasPrev]

/-- Given the fuel to reach genesis, the walk stops at a block of the chain
that is of proof of work, or at genesis. -/
theorem AnchorWalk_stops (fuel anchor : Nat) (inChain : anchor < chain.length)
    (enough : chain.length ≤ fuel + anchor) :
    AnchorWalk network chain fuel anchor < chain.length ∧
      (IsProofOfWorkAt chain (AnchorWalk network chain fuel anchor) = true ∨
        AnchorWalk network chain fuel anchor + 1 = chain.length) := by
  induction fuel generalizing anchor with
  | zero => omega
  | succ fuel ih =>
    unfold AnchorWalk
    by_cases hasPrev : anchor + 1 < chain.length
    · rw [if_pos hasPrev]
      obtain ⟨ahead, skipIn⟩ := skipPosition_bounds hasPrev
      dsimp only
      split
      · exact ih _ skipIn (by omega)
      · split
        · next found =>
          rw [Bool.and_eq_true] at found
          exact ⟨inChain, .inl found.2⟩
        · exact ih _ hasPrev (by omega)
    · rw [if_neg hasPrev]
      exact ⟨inChain, .inr (by omega)⟩

/-- The slow path is the plain walk, given the fuel to reach genesis. -/
theorem AnchorWalk_eq_PlainAnchor (persists : V14Persists network chain) (fuel anchor : Nat)
    (inChain : anchor < chain.length) (enough : chain.length ≤ fuel + anchor) :
    AnchorWalk network chain fuel anchor = anchor + PlainAnchor network (chain.drop anchor) := by
  -- induction on the fuel; each step moves the walk back at least one block
  induction fuel generalizing anchor with
  | zero => omega
  | succ fuel ih =>
    unfold AnchorWalk
    by_cases hasPrev : anchor + 1 < chain.length
    · rw [if_pos hasPrev]
      obtain ⟨ahead, skipIn⟩ := skipPosition_bounds hasPrev
      by_cases jump : IsProtocolV14 network (chain.drop (skipPosition chain.length anchor)) = true
      · -- the jump: nothing it passes over is an anchor
        simp only [jump, if_true]
        rw [ih _ skipIn (by omega)]
        exact (PlainAnchor_drop_pass network chain (Nat.le_of_lt ahead) skipIn
          (persists.no_anchor_below skipIn jump)).symm
      · have step := PlainAnchor_drop_step network chain hasPrev
        simp only [jump, Bool.false_eq_true, if_false]
        by_cases found : IsAnchorAt network chain anchor = true
        · have stop : (!IsProtocolV14 network (chain.drop (anchor + 1)) &&
              IsProofOfWorkAt chain anchor) = true := by
            simpa [IsAnchorAt, Bool.and_comm] using found
          rw [if_pos stop, step, if_pos found, Nat.add_zero]
        · have pass : (!IsProtocolV14 network (chain.drop (anchor + 1)) &&
              IsProofOfWorkAt chain anchor) = false := by
            simpa [IsAnchorAt, Bool.and_comm] using found
          rw [if_neg (by simp [pass]), step, if_neg found, ih _ hasPrev (by omega)]
          omega
    · rw [if_neg hasPrev, PlainAnchor_drop_genesis network chain (by omega)]
      rfl

/-- The slow path finds the plain walk's anchor. -/
theorem AnchorWalk_getElem (persists : V14Persists network chain) :
    chain[AnchorWalk network chain chain.length 0]? = chain[PlainAnchor network chain]? := by
  cases chain with
  | nil => rfl
  | cons pindex ancestors =>
    rw [AnchorWalk_eq_PlainAnchor persists _ 0 (by simp) (by omega)]
    simp

/-- Where V14 persists and the cache holds no ancestor but the block's anchor,
a call answers the plain walk's anchor and leaves it in the cache. -/
theorem GetASERTAnchorBlock_agrees (persists : V14Persists network chain)
    (cachedAnchor : Option CBlockIndex) (cached : CacheAgrees network chain cachedAnchor) :
    GetASERTAnchorBlock network chain cachedAnchor =
      (chain[PlainAnchor network chain]?, chain[PlainAnchor network chain]?) := by
  unfold GetASERTAnchorBlock
  cases cachedAnchor with
  | none => rw [AnchorWalk_getElem persists]
  | some lastCached =>
    dsimp only
    split
    · next ancestor => rw [cached lastCached rfl ancestor]
    · rw [AnchorWalk_getElem persists]

/-- A block with V14 has the anchor of every later block, where V14 persists:
no block after it can be an anchor. -/
theorem PlainAnchor_of_suffix (persists : V14Persists network chain) {prev : List CBlockIndex}
    (suffix : prev <:+ chain) (activated : IsProtocolV14 network prev = true) :
    chain[PlainAnchor network chain]? = prev[PlainAnchor network prev]? := by
  obtain ⟨newer, rfl⟩ := suffix
  have inChain : newer.length < (newer ++ prev).length := by
    cases prev with
    | nil => simp [IsProtocolV14] at activated
    | cons pindex ancestors => simp
  have older : IsProtocolV14 network ((newer ++ prev).drop newer.length) = true := by
    rwa [List.drop_left]
  have pass := PlainAnchor_drop_pass network (newer ++ prev) (Nat.zero_le _) inChain
    (persists.no_anchor_below inChain older)
  rw [List.drop_zero, List.drop_left, Nat.zero_add] at pass
  rw [pass, List.getElem?_append_right (Nat.le_add_right _ _), Nat.add_sub_cancel_left]

/-- The anchor an earlier call left in the cache agrees with every later
block of the chain. -/
theorem CacheAgrees_of_suffix (persists : V14Persists network chain) {prev : List CBlockIndex}
    (suffix : prev <:+ chain) (activated : IsProtocolV14 network prev = true) :
    CacheAgrees network chain prev[PlainAnchor network prev]? := by
  intro lastCached cachedAnchor _
  rw [PlainAnchor_of_suffix persists suffix activated]
  exact cachedAnchor

end Persisting

/-! ## Calls along one chain

Each call's block is V14 (`GetNextWorkRequired` asks for the anchor only
then) and extends the block of the call before.  The cache then only ever
holds the anchor of the block asked about, and every call answers as the
plain walk does. -/

section Calls

variable {network : ChainType}

theorem AnchorCalls_eq_PlainAnchor_of_agrees {chain : List CBlockIndex}
    {later : List (List CBlockIndex)} {cachedAnchor : Option CBlockIndex}
    (growing : (chain :: later).IsChain (· <:+ ·))
    (persists : ∀ block ∈ chain :: later, V14Persists network block)
    (activated : ∀ block ∈ chain :: later, IsProtocolV14 network block = true)
    (cached : CacheAgrees network chain cachedAnchor) :
    AnchorCalls network (chain :: later) cachedAnchor =
      (chain :: later).map fun block => block[PlainAnchor network block]? := by
  -- induction on the later calls; the cache each call leaves agrees with the next
  induction later generalizing chain cachedAnchor with
  | nil =>
    simp [AnchorCalls, GetASERTAnchorBlock_agrees (persists chain List.mem_cons_self) _ cached]
  | cons next later ih =>
    obtain ⟨suffix, growing'⟩ := List.isChain_cons_cons.mp growing
    have agrees := GetASERTAnchorBlock_agrees (persists chain List.mem_cons_self) _ cached
    have nextCached : CacheAgrees network next chain[PlainAnchor network chain]? :=
      CacheAgrees_of_suffix (persists next (by simp)) suffix (activated chain List.mem_cons_self)
    have rest := ih growing' (fun block member => persists block (List.mem_cons_of_mem _ member))
      (fun block member => activated block (List.mem_cons_of_mem _ member)) nextCached
    simp only [AnchorCalls, agrees, List.map_cons] at rest ⊢
    rw [rest]

/-- From the empty cache, calls along a chain where V14 persists, each for a
block with V14, all answer the plain walk's anchor. -/
theorem AnchorCalls_eq_PlainAnchor (chains : List (List CBlockIndex))
    (growing : chains.IsChain (· <:+ ·))
    (persists : ∀ block ∈ chains, V14Persists network block)
    (activated : ∀ block ∈ chains, IsProtocolV14 network block = true) :
    AnchorCalls network chains none = chains.map fun block => block[PlainAnchor network block]? := by
  cases chains with
  | nil => rfl
  | cons chain later =>
    exact AnchorCalls_eq_PlainAnchor_of_agrees growing persists activated
      (fun _ empty => absurd empty (by simp))

end Calls


/-! ## Examples -/

/-- An entry of version 5 at `height`, whose hash is its height. -/
def exampleEntry (height : Nat) (nTime : UInt32) (stake : Bool) : CBlockIndex :=
  { CBlockIndex.ofHeader ⟨5, uint256.ZERO, uint256.ZERO, nTime, 0, 0, if stake then 1 else 0⟩ with
    phashBlock := uint256.ofLowByte (UInt8.ofNat height)
    nHeight := height }

/-- A regtest chain of three blocks, where V14 is on throughout. -/
def regtestChain : List CBlockIndex :=
  [exampleEntry 2 200 true, exampleEntry 1 100 false, exampleEntry 0 0 false]

/-- A testnet chain, newest first.  Genesis and block 1 are mined before the
switch time and blocks 2 to 75 staked before it, with rising times; block 76
is staked at the switch time and has V14 from the 75 stakes of version 5.
Block 77 is staked 10 seconds before the switch time, still later than the
median of the 11 blocks before it, and has no V14, so block 78, mined on it,
is an anchor.  Block 79 is staked and has V14 again. -/
def dipChain : List CBlockIndex :=
  exampleEntry 79 (nProtocolV14TestSwitchTime + 20) true ::
  exampleEntry 78 (nProtocolV14TestSwitchTime + 10) false ::
  exampleEntry 77 (nProtocolV14TestSwitchTime - 10) true ::
  exampleEntry 76 nProtocolV14TestSwitchTime true ::
  ((List.range 74).map fun k =>
    exampleEntry (75 - k) (nProtocolV14TestSwitchTime - 1000 + UInt32.ofNat (75 - k)) true) ++
  [exampleEntry 1 (nProtocolV14TestSwitchTime - 2000) false,
    exampleEntry 0 (nProtocolV14TestSwitchTime - 3000) false]

end Peercoin.Pow
