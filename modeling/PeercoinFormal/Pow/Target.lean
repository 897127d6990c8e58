import Mathlib
import PeercoinFormal.Pow.Asert

/-!
# pow.cpp: the target required of the next block

`GetNextTargetRequired` answers the `nBits` that the block after
`pindexLast` must carry.  It looks back to `pindexPrev` and `pindexPrevPrev`,
the last two blocks of the kind asked for (`GetLastBlockIndex`).  From
protocol V14 on, a proof-of-work block follows ASERT from an anchor block
(`GetNextASERTWorkRequired`), and the anchor is kept in the static
`cachedAnchor` from one call to the next.  Every other block retargets the
parent's target by the spacing of the last two blocks, in signed big
numbers, and caps it at `powLimit`.

The ASERT path asserts its inputs.  On a block index whose entries link
their heights (`HeightsLinked`), and whose proof-of-work entries passed
`CheckProofOfWork`, none of the assertions fails: the anchor is an ancestor
of proof of work with a target in `(0, powLimit]`, the height difference is
at least zero and below `2 ^ 31`, and the times are `uint32_t`s, so the
schedule is within `2 ^ 47` (`TargetCalls_never_abort`).  The retarget keeps
the target positive when the spacing is bounded below and the parent's
target is at least two (`GetNextTargetRetarget_in_range`).
-/

set_option autoImplicit false

namespace Peercoin.Pow

open Peercoin.Chain Peercoin.Arith Peercoin.Primitives Numeric Ledger

def nProtocolV09SwitchTime : UInt32 := 1591617600

def nProtocolV09TestSwitchTime : UInt32 := 1581940800

def nProtocolV12SwitchTime : UInt32 := 1700276331

def nProtocolV12TestSwitchTime : UInt32 := 1671060214

/-- `IsProtocolV09`, of a block time. -/
def IsProtocolV09 (network : ChainType) (nTime : UInt32) : Bool :=
  nTime ≥ (if network ≠ .MAIN then nProtocolV09TestSwitchTime else nProtocolV09SwitchTime)

/-- `IsProtocolV12`, of the parent entry. -/
def IsProtocolV12 (network : ChainType) (pindexPrev : CBlockIndex) : Bool :=
  if network = .REGTEST then true
  else pindexPrev.nTime ≥
    (if network ≠ .MAIN then nProtocolV12TestSwitchTime else nProtocolV12SwitchTime)

/-- `UintToArith256`: the number a `uint256` stands for, its first byte lowest. -/
def UintToArith256 (hash : uint256) : Nat := Codec.leValue hash.data

/-- `CheckProofOfWork`: the target `nBits` stands for is in range, and the
hash is no more than it. -/
def CheckProofOfWork (hash : uint256) (nBits : UInt32) (params : ConsensusParams) : Bool :=
  let (bnTarget, fNegative, fOverflow) := SetCompact nBits
  if fNegative || bnTarget == 0 || fOverflow || bnTarget > params.powLimit then false
  else UintToArith256 hash ≤ bnTarget

/-- `GetLastBlockIndex` from `pindex`, whose ancestors follow it: the last
block of the kind asked for, or genesis, with its ancestors. -/
def GetLastBlockIndex (fProofOfStake : Bool) (pindex : CBlockIndex) :
    List CBlockIndex → List CBlockIndex
  | [] => [pindex]
  | pprev :: ancestors =>
    if pindex.IsProofOfStake != fProofOfStake then GetLastBlockIndex fProofOfStake pprev ancestors
    else pindex :: pprev :: ancestors

/-- The anchor time of `GetNextASERTWorkRequired`: the time of the anchor's
parent, or of the anchor itself at genesis.  The anchor is an ancestor of
`pindexPrev`, the head of `prevChain` (the walk's answer is one, and a cached
anchor is returned only when it is), so its parent is `pindexPrev`'s
ancestor one below it. -/
def AnchorTime (prevChain : List CBlockIndex) (pindexAnchorBlock : CBlockIndex) : Int :=
  let anchorParent := if pindexAnchorBlock.nHeight = 0 then none
    else GetAncestor prevChain (pindexAnchorBlock.nHeight - 1)
  match anchorParent with
  | some pprev => pprev.GetBlockTime
  | none => pindexAnchorBlock.GetBlockTime

/-- `GetNextASERTWorkRequired` for `pindex` on `pindexPrev`, the head of
`prevChain`, with the anchor given; an `.error` is a failed assertion. -/
def GetNextASERTWorkRequiredFrom (params : ConsensusParams) (prevChain : List CBlockIndex)
    (pindex : CBlockIndex) (anchor : Option CBlockIndex) : Except String UInt32 := do
  let pindexPrev ← getOrFail "pindexPrev != nullptr" prevChain.head?
  let pindexAnchorBlock ← getOrFail "pindexAnchorBlock != nullptr" anchor
  rejectIf (pindexPrev.nHeight < pindexAnchorBlock.nHeight)
    "pindexPrev->nHeight >= pindexAnchorBlock->nHeight"
  rejectIf (prevChain.length < 2) "pindexPrev->pprev != nullptr"
  let nTimeDiff := pindex.GetBlockTime - AnchorTime prevChain pindexAnchorBlock
  let nHeightDiff := (pindexPrev.nHeight : Int) - pindexAnchorBlock.nHeight -
    ((pindexPrev.nHeightStake : Int) - pindexAnchorBlock.nHeightStake)
  let refBlockTarget := (SetCompact pindexAnchorBlock.nBits).1
  let nextTarget ← CalculateASERT refBlockTarget (params.nStakeTargetSpacing * 6) nTimeDiff
    nHeightDiff params.powLimit nDAAHalfLife
  pure (GetCompact nextTarget false)

/-- `GetNextASERTWorkRequired`: the anchor from `GetASERTAnchorBlock`, and
`cachedAnchor` as that call leaves it. -/
def GetNextASERTWorkRequired (network : ChainType) (params : ConsensusParams)
    (cachedAnchor : Option CBlockIndex) (prevChain : List CBlockIndex) (pindex : CBlockIndex) :
    Except String (UInt32 × Option CBlockIndex) := do
  let (anchor, cachedAnchor) := GetASERTAnchorBlock network prevChain cachedAnchor
  let nBits ← GetNextASERTWorkRequiredFrom params prevChain pindex anchor
  pure (nBits, cachedAnchor)

/-- The retarget of `GetNextTargetRequired` off the ASERT path: the parent's
target moved by the spacing of the last two blocks of the kind asked for, in
`CBigNum`s, whose division truncates.  The spacings are differences of
`uint32_t` times, so none of the `int64_t` steps wraps. -/
def GetNextTargetRetarget (network : ChainType) (params : ConsensusParams) (fProofOfStake : Bool)
    (pindexLast pindexPrev pindexPrevPrev : CBlockIndex) : UInt32 :=
  let nActualSpacing := pindexPrev.GetBlockTime - pindexPrevPrev.GetBlockTime
  -- rfc20
  let nHypotheticalSpacing := pindexLast.GetBlockTime - pindexPrev.GetBlockTime
  let nActualSpacing :=
    if !fProofOfStake && IsProtocolV12 network pindexPrev && nHypotheticalSpacing > nActualSpacing
    then nHypotheticalSpacing else nActualSpacing
  let bnNew := CBigNum.SetCompact pindexPrev.nBits
  let bnNew :=
    if network ≠ .REGTEST then
      let nTargetSpacing :=
        if fProofOfStake then params.nStakeTargetSpacing
        else if IsProtocolV09 network pindexLast.nTime then params.nStakeTargetSpacing * 6
        else min params.nTargetSpacingWorkMax
          (params.nStakeTargetSpacing * (1 + (pindexLast.nHeight : Int) - pindexPrev.nHeight))
      let nInterval := Int.tdiv params.nTargetTimespan nTargetSpacing
      Int.tdiv (bnNew * ((nInterval - 1) * nTargetSpacing + nActualSpacing + nActualSpacing))
        ((nInterval + 1) * nTargetSpacing)
    else bnNew
  let bnNew := if bnNew > params.powLimit then (params.powLimit : Int) else bnNew
  CBigNum.GetCompact bnNew

/-- `GetNextTargetRequired` for the block after the head of `chain`, with
`cachedAnchor` as the calls before left it: the `nBits`, and the cache after
the call.  `GetLastBlockIndex` never answers an empty chain; the patterns
that would are the first block's. -/
def GetNextTargetRequired (network : ChainType) (params : ConsensusParams)
    (cachedAnchor : Option CBlockIndex) (chain : List CBlockIndex) (fProofOfStake : Bool) :
    Except String (UInt32 × Option CBlockIndex) :=
  match chain with
  | [] => pure (GetCompact params.powLimit false, cachedAnchor)
  | pindexLast :: ancestors =>
    if params.fPowNoRetargeting then pure (GetCompact params.powLimit false, cachedAnchor)
    else
      match GetLastBlockIndex fProofOfStake pindexLast ancestors with
      | [] | [_] => pure (GetCompact params.bnInitialHashTarget false, cachedAnchor)
      | pindexPrev :: pprev :: older =>
        match GetLastBlockIndex fProofOfStake pprev older with
        | [] | [_] => pure (GetCompact params.bnInitialHashTarget false, cachedAnchor)
        | pindexPrevPrev :: _ :: _ =>
          if !fProofOfStake && IsProtocolV14 network (pindexPrev :: pprev :: older) then
            GetNextASERTWorkRequired network params cachedAnchor (pindexPrev :: pprev :: older)
              pindexLast
          else
            pure (GetNextTargetRetarget network params fProofOfStake pindexLast pindexPrev
              pindexPrevPrev, cachedAnchor)

/-- Calls of `GetNextTargetRequired` one after another, on chains of one
block index, with `cachedAnchor` carried from each call to the next: the
targets, or the first assertion that fails. -/
def TargetCalls (network : ChainType) (params : ConsensusParams) :
    List (List CBlockIndex × Bool) → Option CBlockIndex → Except String (List UInt32)
  | [], _ => pure []
  | (chain, fProofOfStake) :: later, cachedAnchor => do
    let (nBits, cachedAnchor) ← GetNextTargetRequired network params cachedAnchor chain fProofOfStake
    let targets ← TargetCalls network params later cachedAnchor
    pure (nBits :: targets)

/-! ## The blocks looked back to -/

/-- `GetLastBlockIndex` answers a block with its ancestors, which is the
chain it started from or an ancestor's. -/
theorem GetLastBlockIndex_cons (fProofOfStake : Bool) (pindex : CBlockIndex)
    (ancestors : List CBlockIndex) :
    ∃ pindexPrev prevAncestors,
      GetLastBlockIndex fProofOfStake pindex ancestors = pindexPrev :: prevAncestors ∧
        pindexPrev :: prevAncestors <:+ pindex :: ancestors := by
  induction ancestors generalizing pindex with
  | nil => exact ⟨pindex, [], rfl, List.suffix_refl _⟩
  | cons pprev older ih =>
    unfold GetLastBlockIndex
    split
    · obtain ⟨pindexPrev, prevAncestors, found, suffix⟩ := ih pprev
      exact ⟨pindexPrev, prevAncestors, found, suffix.trans (List.suffix_cons _ _)⟩
    · exact ⟨pindex, pprev :: older, rfl, List.suffix_refl _⟩

theorem CheckProofOfWork_range {hash : uint256} {nBits : UInt32} {params : ConsensusParams}
    (passed : CheckProofOfWork hash nBits params = true) :
    0 < (SetCompact nBits).1 ∧ (SetCompact nBits).1 ≤ params.powLimit := by
  unfold CheckProofOfWork at passed
  generalize SetCompact nBits = decoded at passed ⊢
  obtain ⟨bnTarget, fNegative, fOverflow⟩ := decoded
  dsimp only at passed ⊢
  split at passed
  · contradiction
  · next inRange =>
    simp only [Bool.or_eq_true, beq_iff_eq, decide_eq_true_eq, not_or] at inRange
    omega

/-- The parameters of a network that retargets: the main network's and
testnet's. -/
theorem Params_retargets {network : ChainType} {params : ConsensusParams}
    (known : Params network = some params) (retargets : params.fPowNoRetargeting = false) :
    network ≠ .REGTEST ∧ params.powLimit < 2 ^ 228 ∧ 0 < params.bnInitialHashTarget ∧
      params.bnInitialHashTarget ≤ params.powLimit ∧ params.nStakeTargetSpacing = 600 ∧
      params.nTargetSpacingWorkMax = 7200 ∧ params.nTargetTimespan = 604800 := by
  cases network with
  | MAIN =>
    cases known
    refine ⟨by decide, by decide, by decide, by decide, rfl, rfl, rfl⟩
  | TESTNET =>
    cases known
    refine ⟨by decide, by decide, by decide, by decide, rfl, rfl, rfl⟩
  | SIGNET => cases known
  | REGTEST =>
    cases known
    cases retargets

theorem GetBlockTime_bounds (index : CBlockIndex) :
    0 ≤ index.GetBlockTime ∧ index.GetBlockTime < 2 ^ 32 := by
  have := UInt32.toNat_lt index.nTime
  simp only [CBlockIndex.GetBlockTime]
  omega

theorem AnchorTime_bounds (prevChain : List CBlockIndex) (pindexAnchorBlock : CBlockIndex) :
    0 ≤ AnchorTime prevChain pindexAnchorBlock ∧ AnchorTime prevChain pindexAnchorBlock < 2 ^ 32 := by
  unfold AnchorTime
  dsimp only
  generalize (if pindexAnchorBlock.nHeight = 0 then none
    else GetAncestor prevChain (pindexAnchorBlock.nHeight - 1)) = anchorParent
  cases anchorParent with
  | some pprev => exact GetBlockTime_bounds pprev
  | none => exact GetBlockTime_bounds pindexAnchorBlock

/-! ## The block index -/

/-- A block index as the ASERT path reads it: entries with distinct hashes
(the index is a map from the hash), heights that fit an `int`, the genesis
entry of proof of work (`CreateGenesisBlock` sets no flags), and every
proof-of-work entry with `nBits` that passed `CheckProofOfWork`. -/
structure BlockTree (params : ConsensusParams) where
  entries : List CBlockIndex
  hashes_nodup : (entries.map CBlockIndex.phashBlock).Nodup
  heights_int : ∀ b ∈ entries, b.nHeight < 2 ^ 31
  genesis_work : ∀ b ∈ entries, b.nHeight = 0 → b.IsProofOfWork = true
  work_checked : ∀ b ∈ entries, b.IsProofOfWork = true →
    ∃ hash, CheckProofOfWork hash b.nBits params = true

namespace BlockTree

variable {params : ConsensusParams} (tree : BlockTree params)

/-- A block of the index with its ancestors, head first. -/
structure HasChain (chain : List CBlockIndex) : Prop where
  entries : ∀ b ∈ chain, b ∈ tree.entries
  linked : HeightsLinked chain

/-- `cachedAnchor` holds nothing, or a proof-of-work entry of the index. -/
def CacheOk (cachedAnchor : Option CBlockIndex) : Prop :=
  ∀ lastCached ∈ cachedAnchor, lastCached ∈ tree.entries ∧ lastCached.IsProofOfWork = true

variable {tree}

theorem cacheOk_none : tree.CacheOk none := by
  intro lastCached cachedIs
  cases cachedIs

theorem cacheOk_some {b : CBlockIndex} (inTree : b ∈ tree.entries)
    (work : b.IsProofOfWork = true) : tree.CacheOk (some b) := by
  intro lastCached cachedIs
  simp only [Option.mem_def, Option.some.injEq] at cachedIs
  subst cachedIs
  exact ⟨inTree, work⟩

theorem HasChain.suffix {chain suffix : List CBlockIndex} (hasChain : tree.HasChain chain)
    (isSuffix : suffix <:+ chain) : tree.HasChain suffix := by
  obtain ⟨newer, rfl⟩ := isSuffix
  have dropped := hasChain.linked.drop newer.length
  rw [List.drop_left] at dropped
  exact ⟨fun b member => hasChain.entries b (List.mem_append_right _ member), dropped⟩

/-- Entries of the index with one hash are one entry. -/
theorem eq_of_phashBlock {a b : CBlockIndex} (inA : a ∈ tree.entries) (inB : b ∈ tree.entries)
    (same : a.phashBlock = b.phashBlock) : a = b :=
  List.inj_on_of_nodup_map tree.hashes_nodup inA inB same

/-- A proof-of-work entry's target is in `(0, powLimit]`. -/
theorem work_target {b : CBlockIndex} (inTree : b ∈ tree.entries)
    (work : b.IsProofOfWork = true) :
    0 < (SetCompact b.nBits).1 ∧ (SetCompact b.nBits).1 ≤ params.powLimit := by
  obtain ⟨hash, passed⟩ := tree.work_checked b inTree work
  exact CheckProofOfWork_range passed

end BlockTree

theorem IsProofOfWorkAt_getElem {chain : List CBlockIndex} {anchor : Nat}
    (inChain : anchor < chain.length) :
    IsProofOfWorkAt chain anchor = chain[anchor].IsProofOfWork := by
  unfold IsProofOfWorkAt
  rw [List.drop_eq_getElem_cons inChain]

section Anchor

variable {params : ConsensusParams} {tree : BlockTree params} {network : ChainType}
  {chain : List CBlockIndex}

/-- The slow path on a chain of the index stops at a proof-of-work block: the
walk stops at one or at genesis, which is one. -/
theorem AnchorWalk_work (hasChain : tree.HasChain chain) (positive : 0 < chain.length) :
    ∃ inChain : AnchorWalk network chain chain.length 0 < chain.length,
      chain[AnchorWalk network chain chain.length 0].IsProofOfWork = true := by
  obtain ⟨walkIn, stops⟩ := @AnchorWalk_stops network chain chain.length 0 positive (by omega)
  refine ⟨walkIn, ?_⟩
  rcases stops with work | genesis
  · rwa [IsProofOfWorkAt_getElem walkIn] at work
  · apply tree.genesis_work _ (hasChain.entries _ (List.getElem_mem walkIn))
    rw [hasChain.linked.nHeight_getElem _ walkIn]
    omega

/-- The anchor of a call on a chain of the index is a proof-of-work block of
the chain, and the call leaves the cache holding a proof-of-work entry of the
index.  A cached entry is returned when the chain's block at its height has
its hash, and then it is that block. -/
theorem GetASERTAnchorBlock_in_chain {cachedAnchor : Option CBlockIndex}
    (hasChain : tree.HasChain chain) (positive : 0 < chain.length)
    (cached : tree.CacheOk cachedAnchor) :
    ∃ i, ∃ inChain : i < chain.length,
      (GetASERTAnchorBlock network chain cachedAnchor).1 = some chain[i] ∧
        chain[i].IsProofOfWork = true ∧ tree.CacheOk (GetASERTAnchorBlock network chain cachedAnchor).2 := by
  obtain ⟨walkIn, walkWork⟩ := @AnchorWalk_work _ _ network _ hasChain positive
  have walked := BlockTree.cacheOk_some (hasChain.entries _ (List.getElem_mem walkIn)) walkWork
  unfold GetASERTAnchorBlock
  cases cachedAnchor with
  | none =>
    rw [List.getElem?_eq_getElem walkIn]
    exact ⟨_, walkIn, rfl, walkWork, walked⟩
  | some lastCached =>
    dsimp only
    split
    · next ancestor =>
      -- a hit: the chain's block at the cached height is the cached entry
      obtain ⟨x, found, sameHash⟩ := Option.map_eq_some_iff.mp ancestor
      unfold GetAncestor at found
      split at found
      · obtain ⟨inChain, isX⟩ := List.getElem?_eq_some_iff.mp found
        have same : chain[chain.length - 1 - lastCached.nHeight] = lastCached :=
          BlockTree.eq_of_phashBlock (hasChain.entries _ (List.getElem_mem inChain))
            (cached lastCached rfl).1 (by rw [isX]; exact sameHash)
        refine ⟨_, inChain, by rw [same], by rw [same]; exact (cached lastCached rfl).2, cached⟩
      · cases found
    · rw [List.getElem?_eq_getElem walkIn]
      exact ⟨_, walkIn, rfl, walkWork, walked⟩

end Anchor

/-! ## No assertion of the ASERT path fails -/

section Assertions

variable {params : ConsensusParams} {tree : BlockTree params} {network : ChainType}
  {chain : List CBlockIndex}

/-- On a chain of the index with a parent, from a proof-of-work block of the
chain as anchor, every assertion of `GetNextASERTWorkRequired` and of
`CalculateASERT` holds: the height difference is the number of proof-of-work
blocks after the anchor, below `2 ^ 31`, and the times are `uint32_t`s. -/
theorem GetNextASERTWorkRequiredFrom_ok (known : Params network = some params)
    (retargets : params.fPowNoRetargeting = false) (hasChain : tree.HasChain chain)
    (hasPrev : 2 ≤ chain.length) {i : Nat} (inChain : i < chain.length)
    (work : chain[i].IsProofOfWork = true) (pindex : CBlockIndex) :
    ∃ nBits, GetNextASERTWorkRequiredFrom params chain pindex (some chain[i]) = .ok nBits := by
  obtain ⟨_, limit, _, _, spacing, _, _⟩ := Params_retargets known retargets
  have head : chain.head? = some chain[0] := by
    rw [List.head?_eq_getElem?, List.getElem?_eq_getElem (by omega)]
  have prevHeight := hasChain.linked.nHeight_getElem 0 (by omega)
  have anchorHeight := hasChain.linked.nHeight_getElem i inChain
  have stakes := hasChain.linked.nHeightStake_getElem i inChain
  have prevInt := tree.heights_int _ (hasChain.entries _ (List.getElem_mem (show 0 < chain.length by omega)))
  have ref := BlockTree.work_target (hasChain.entries _ (List.getElem_mem inChain)) work
  have anchorBounds := AnchorTime_bounds chain chain[i]
  have blockTime := GetBlockTime_bounds pindex
  have heightOk : ¬ chain[0].nHeight < chain[i].nHeight := by omega
  have prevOk : ¬ chain.length < 2 := by omega
  unfold GetNextASERTWorkRequiredFrom
  simp only [head, getOrFail, ok_bind, heightOk, prevOk, decide_false, rejectIf_false]
  generalize AnchorTime chain chain[i] = anchorTime at anchorBounds ⊢
  -- the inputs of `CalculateASERT` do not wrap
  have inputs : AsertInputs (params.nStakeTargetSpacing * 6) nDAAHalfLife
      (pindex.GetBlockTime - anchorTime) ((chain[0].nHeight : Int) - chain[i].nHeight -
        ((chain[0].nHeightStake : Int) - chain[i].nHeightStake)) := by
    rw [spacing]
    exact ⟨by decide, by decide, by decide, by decide, by omega, by omega, by omega, by omega⟩
  rw [CalculateASERT_eq ref (by omega) inputs, ok_bind]
  exact ⟨_, rfl⟩

/-- One call on a chain of the index, from a cache holding nothing or a
proof-of-work entry of the index: no assertion fails, and the cache still
holds nothing or such an entry. -/
theorem GetNextTargetRequired_ok (known : Params network = some params)
    (hasChain : tree.HasChain chain) {cachedAnchor : Option CBlockIndex}
    (cached : tree.CacheOk cachedAnchor) (fProofOfStake : Bool) :
    ∃ nBits cachedAnchor', GetNextTargetRequired network params cachedAnchor chain fProofOfStake =
      .ok (nBits, cachedAnchor') ∧ tree.CacheOk cachedAnchor' := by
  cases chain with
  | nil => exact ⟨_, _, rfl, cached⟩
  | cons pindexLast ancestors =>
    unfold GetNextTargetRequired
    cases retargets : params.fPowNoRetargeting with
    | true => exact ⟨_, _, rfl, cached⟩
    | false =>
      simp only [Bool.false_eq_true, if_false]
      obtain ⟨pindexPrev, prevAncestors, found, suffix⟩ :=
        GetLastBlockIndex_cons fProofOfStake pindexLast ancestors
      rw [found]
      cases prevAncestors with
      | nil => exact ⟨_, _, rfl, cached⟩
      | cons pprev older =>
        obtain ⟨pindexPrevPrev, prevPrevAncestors, foundPrev, _⟩ :=
          GetLastBlockIndex_cons fProofOfStake pprev older
        dsimp only
        rw [foundPrev]
        cases prevPrevAncestors with
        | nil => exact ⟨_, _, rfl, cached⟩
        | cons _ _ =>
          dsimp only
          split
          · -- the ASERT path, on `pindexPrev` and its ancestors
            have prevChain := hasChain.suffix suffix
            obtain ⟨i, inChain, anchorIs, work, cachedAfter⟩ :=
              @GetASERTAnchorBlock_in_chain _ _ network _ _ prevChain (by simp) cached
            obtain ⟨nBits, asserted⟩ :=
              GetNextASERTWorkRequiredFrom_ok known retargets prevChain (by simp) inChain work pindexLast
            unfold GetNextASERTWorkRequired
            generalize GetASERTAnchorBlock network (pindexPrev :: pprev :: older) cachedAnchor = call
              at anchorIs cachedAfter ⊢
            obtain ⟨anchor, cachedAnchor'⟩ := call
            dsimp only at anchorIs cachedAfter ⊢
            rw [anchorIs, asserted]
            exact ⟨_, _, rfl, cachedAfter⟩
          · exact ⟨_, _, rfl, cached⟩

end Assertions

/-! ## The retarget off the ASERT path -/

/-- For a target spacing in `[600, 7200]` and a spacing no more than `72000`
seconds behind, the divisor of the retarget is positive and less than twice
its multiplier: `nInterval * nTargetSpacing` is within one spacing below the
timespan of a week. -/
theorem retarget_factor {nTargetSpacing nActualSpacing : Int} (low : 600 ≤ nTargetSpacing)
    (high : nTargetSpacing ≤ 7200) (behind : -72000 ≤ nActualSpacing) :
    0 < (Int.tdiv 604800 nTargetSpacing + 1) * nTargetSpacing ∧
      (Int.tdiv 604800 nTargetSpacing + 1) * nTargetSpacing <
        2 * ((Int.tdiv 604800 nTargetSpacing - 1) * nTargetSpacing + nActualSpacing +
          nActualSpacing) := by
  rw [Int.tdiv_eq_ediv_of_nonneg (by decide)]
  have split := Int.ediv_mul_add_emod 604800 nTargetSpacing
  have remainder := Int.emod_nonneg 604800 (show nTargetSpacing ≠ 0 by omega)
  have remainderLt := Int.emod_lt_of_pos 604800 (show 0 < nTargetSpacing by omega)
  rw [Int.add_mul, Int.sub_mul, Int.one_mul]
  omega

/-- A target of at least two, moved by more than half, stays positive. -/
theorem retarget_pos {bnNew multiplier divisor : Int} (target : 2 ≤ bnNew) (positive : 0 < divisor)
    (factor : divisor < 2 * multiplier) : 0 < Int.tdiv (bnNew * multiplier) divisor := by
  have product : 2 * multiplier ≤ bnNew * multiplier :=
    Int.mul_le_mul_of_nonneg_right target (by omega)
  rw [Int.tdiv_eq_ediv_of_nonneg (by omega)]
  have := (Int.le_ediv_iff_mul_le positive).mpr (show 1 * divisor ≤ bnNew * multiplier by omega)
  omega

section Retarget

variable {params : ConsensusParams} {network : ChainType}

/-- Off the ASERT path, with the parent's target at least two and the spacing
no more than `72000` seconds behind, the new target reads back through
`SetCompact` as not negative, positive, and at most `powLimit`. -/
theorem GetNextTargetRetarget_in_range (known : Params network = some params)
    (retargets : params.fPowNoRetargeting = false)
    {fProofOfStake : Bool} {pindexLast pindexPrev pindexPrevPrev : CBlockIndex}
    (heights : pindexPrev.nHeight ≤ pindexLast.nHeight)
    (behind : pindexPrevPrev.GetBlockTime - 72000 ≤ pindexPrev.GetBlockTime)
    (prevTarget : 2 ≤ CBigNum.SetCompact pindexPrev.nBits) :
    let nBits := GetNextTargetRetarget network params fProofOfStake pindexLast pindexPrev
      pindexPrevPrev
    (SetCompact nBits).2.1 = false ∧ 0 < (SetCompact nBits).1 ∧
      (SetCompact nBits).1 ≤ params.powLimit := by
  obtain ⟨notRegTest, limit, _, _, spacing, workMax, timespan⟩ := Params_retargets known retargets
  intro nBits
  unfold nBits GetNextTargetRetarget
  dsimp only
  rw [if_pos notRegTest, timespan]
  -- the spacing: rfc20 only ever raises it
  generalize spacingIs : (if (!fProofOfStake && IsProtocolV12 network pindexPrev &&
      decide (pindexLast.GetBlockTime - pindexPrev.GetBlockTime >
        pindexPrev.GetBlockTime - pindexPrevPrev.GetBlockTime)) = true
    then pindexLast.GetBlockTime - pindexPrev.GetBlockTime
    else pindexPrev.GetBlockTime - pindexPrevPrev.GetBlockTime) = nActualSpacing
  have spacingLow : -72000 ≤ nActualSpacing := by
    rw [← spacingIs]
    split
    · next raised =>
      simp only [Bool.and_eq_true, decide_eq_true_eq] at raised
      omega
    · omega
  -- the target spacing: a stake block's, six of them, or one per block, capped
  generalize targetSpacingIs : (if fProofOfStake = true then params.nStakeTargetSpacing
    else if IsProtocolV09 network pindexLast.nTime = true then params.nStakeTargetSpacing * 6
    else min params.nTargetSpacingWorkMax
      (params.nStakeTargetSpacing * (1 + (pindexLast.nHeight : Int) - pindexPrev.nHeight))) =
    nTargetSpacing
  have targetSpacing : 600 ≤ nTargetSpacing ∧ nTargetSpacing ≤ 7200 := by
    rw [← targetSpacingIs, spacing, workMax]
    split
    · omega
    · split <;> omega
  obtain ⟨divisor, factor⟩ := retarget_factor targetSpacing.1 targetSpacing.2 spacingLow
  have positive := retarget_pos prevTarget divisor factor
  generalize Int.tdiv (CBigNum.SetCompact pindexPrev.nBits * ((Int.tdiv 604800 nTargetSpacing - 1) *
    nTargetSpacing + nActualSpacing + nActualSpacing))
      ((Int.tdiv 604800 nTargetSpacing + 1) * nTargetSpacing) = bnNew at positive ⊢
  -- capped at `powLimit`, the target is a positive number below `2 ^ 256`
  obtain ⟨n, nPositive, nBelow, capped⟩ : ∃ n : Nat, 0 < n ∧ n ≤ params.powLimit ∧
      (if bnNew > (params.powLimit : Int) then (params.powLimit : Int) else bnNew) = n := by
    split
    · exact ⟨params.powLimit, by omega, Nat.le_refl _, rfl⟩
    · exact ⟨bnNew.toNat, by omega, by omega, by omega⟩
  rw [capped]
  obtain ⟨sign, readPositive, readBelow⟩ := SetCompact_CBigNum_GetCompact nPositive (by omega)
  exact ⟨sign, readPositive, Nat.le_trans readBelow nBelow⟩

end Retarget

/-! ## A block index of three proof-of-work blocks -/

/-- An entry for fixed chains, its hash told apart by its first byte. -/
def indexEntry (hashByte : UInt8) (nHeight nHeightStake : Nat) (nTime nBits nFlags : UInt32) :
    CBlockIndex :=
  { CBlockIndex.ofHeader ⟨1, uint256.ZERO, uint256.ZERO, nTime, nBits, 0, nFlags⟩ with
    phashBlock := uint256.ofLowByte hashByte
    nHeight := nHeight
    nHeightStake := nHeightStake }

/-- Genesis and two proof-of-work blocks at the main network's genesis target. -/
def workChain : List CBlockIndex :=
  [indexEntry 2 2 0 1400 0x1d00ffff 0, indexEntry 1 1 0 1200 0x1d00ffff 0,
    indexEntry 0 0 0 1000 0x1d00ffff 0]

def workIndex : BlockTree mainParams where
  entries := workChain
  hashes_nodup := by decide
  heights_int := by decide
  genesis_work := by decide
  work_checked := fun b member _ =>
    ⟨uint256.ZERO, (show ∀ b ∈ workChain, CheckProofOfWork uint256.ZERO b.nBits mainParams = true
      by decide) b member⟩

end Peercoin.Pow
