import PeercoinFormal.Pow.Target
import PeercoinFormal.Validation.CheckBlock

/-!
# validation.cpp: the timestamp rules of a header, and the retarget

`ContextualCheckBlockHeader` rejects a header timed at or before the median
time past of its parent, or more than the allowed drift behind the parent
(`time-too-old`).  Along a chain whose headers passed this test, a block is
never more than ten drifts behind any of its ancestors: up to ten blocks back
the drifts add up, and further back the parent's median time is the time of
a block in between.  So the spacing that `GetNextTargetRequired` retargets by
off the ASERT path is bounded below, and a parent's target of at least two
stays positive.  A target of one can go to zero.
-/

set_option autoImplicit false

namespace Peercoin.Validation

open Peercoin.Chain Peercoin.Pow Peercoin.Arith Ledger

/-- The timestamp test of `ContextualCheckBlockHeader` for a header of time
`nTime` on `pindexPrev`, whose ancestors follow it. -/
def CheckHeaderTime (network : ChainType) (nTime : UInt32) (pindexPrev : CBlockIndex)
    (ancestors : List CBlockIndex) : Except String Unit :=
  let nMaxFuture := if IsProtocolV09 network nTime then MAX_FUTURE_BLOCK_TIME
    else MAX_FUTURE_BLOCK_TIME_PREV9
  rejectIf ((nTime.toNat : Int) ≤ GetMedianTimePast (pindexPrev :: ancestors) ||
    (nTime.toNat : Int) + nMaxFuture < pindexPrev.GetBlockTime) "time-too-old"

/-- Every entry of a chain but genesis passed the timestamp test on its
parent. -/
def HeaderTimesValid (network : ChainType) : List CBlockIndex → Prop
  | [] => True
  | [_] => True
  | block :: pprev :: ancestors =>
    CheckHeaderTime network block.nTime pprev ancestors = .ok () ∧
      HeaderTimesValid network (pprev :: ancestors)

def decideHeaderTimesValid (network : ChainType) :
    (chain : List CBlockIndex) → Decidable (HeaderTimesValid network chain)
  | [] => isTrue trivial
  | [_] => isTrue trivial
  | block :: pprev :: ancestors =>
    have := decideHeaderTimesValid network (pprev :: ancestors)
    inferInstanceAs (Decidable (CheckHeaderTime network block.nTime pprev ancestors = .ok () ∧
      HeaderTimesValid network (pprev :: ancestors)))

instance (network : ChainType) : DecidablePred (HeaderTimesValid network) :=
  decideHeaderTimesValid network

variable {network : ChainType}

/-- A header that passed is later than its parent's median time, and at most
`MAX_FUTURE_BLOCK_TIME_PREV9` behind its parent. -/
theorem CheckHeaderTime_ok {nTime : UInt32} {pindexPrev : CBlockIndex}
    {ancestors : List CBlockIndex} (passed : CheckHeaderTime network nTime pindexPrev ancestors = .ok ()) :
    GetMedianTimePast (pindexPrev :: ancestors) < nTime.toNat ∧
      pindexPrev.GetBlockTime - 7200 ≤ nTime.toNat := by
  have drift : (if IsProtocolV09 network nTime then MAX_FUTURE_BLOCK_TIME
      else MAX_FUTURE_BLOCK_TIME_PREV9) ≤ 7200 := by
    split <;> decide
  unfold CheckHeaderTime at passed
  rw [rejectIf_eq_ok] at passed
  simp only [Bool.or_eq_false_iff, decide_eq_false_iff_not, Int.not_le, Int.not_lt] at passed
  omega

namespace HeaderTimesValid

theorem tail {block : CBlockIndex} {ancestors : List CBlockIndex}
    (valid : HeaderTimesValid network (block :: ancestors)) : HeaderTimesValid network ancestors := by
  cases ancestors with
  | nil => trivial
  | cons pprev older => exact valid.2

theorem drop {chain : List CBlockIndex} (valid : HeaderTimesValid network chain) (n : Nat) :
    HeaderTimesValid network (chain.drop n) := by
  induction n generalizing chain with
  | zero => exact valid
  | succ n ih =>
    cases chain with
    | nil => trivial
    | cons block ancestors => exact ih valid.tail

theorem suffix {chain suffix : List CBlockIndex} (valid : HeaderTimesValid network chain)
    (isSuffix : suffix <:+ chain) : HeaderTimesValid network suffix := by
  obtain ⟨newer, rfl⟩ := isSuffix
  have dropped := valid.drop newer.length
  rwa [List.drop_left] at dropped

/-- Back to the `j + 1`-th ancestor, the drifts add up. -/
theorem drift {block : CBlockIndex} {ancestors : List CBlockIndex}
    (valid : HeaderTimesValid network (block :: ancestors)) (j : Nat) (inChain : j < ancestors.length) :
    ancestors[j].GetBlockTime - 7200 * (j + 1) ≤ block.GetBlockTime := by
  induction ancestors generalizing block j with
  | nil => simp at inChain
  | cons pprev older ih =>
    have step := (CheckHeaderTime_ok valid.1).2
    simp only [CBlockIndex.GetBlockTime] at step ⊢
    cases j with
    | zero =>
      simp only [List.getElem_cons_zero]
      omega
    | succ j =>
      have further := ih valid.2 j (by simp at inChain; omega)
      simp only [CBlockIndex.GetBlockTime] at further
      simp only [List.getElem_cons_succ]
      omega

/-- A block is never more than ten drifts behind one of its ancestors. -/
theorem time_lower_bound {block : CBlockIndex} {ancestors : List CBlockIndex}
    (valid : HeaderTimesValid network (block :: ancestors)) :
    ∀ a ∈ ancestors, a.GetBlockTime - 72000 ≤ block.GetBlockTime := by
  -- strong induction on the number of ancestors: past ten blocks back, the
  -- parent's median is the time of a block between `block` and `a`
  induction h : ancestors.length using Nat.strong_induction_on generalizing block ancestors with
  | _ n ih =>
  intro a member
  obtain ⟨j, inChain, rfl⟩ := List.getElem_of_mem member
  by_cases near : j < 10
  · have drifts := valid.drift j inChain
    omega
  · cases ancestors with
    | nil => simp at inChain
    | cons pprev older =>
      have later := (CheckHeaderTime_ok valid.1).1
      obtain ⟨x, inWindow, median⟩ :=
        List.mem_map.mp (GetMedianTimePast_mem (List.cons_ne_nil pprev older))
      obtain ⟨p, inTake, rfl⟩ := List.getElem_of_mem inWindow
      have window : p < nMedianTimeSpan := by
        simp only [List.length_take] at inTake
        omega
      rw [List.getElem_take] at median
      have pIn : p < (pprev :: older).length := by
        simp only [List.length_take] at inTake
        omega
      have between : ((pprev :: older)[j]).GetBlockTime - 72000 ≤
          ((pprev :: older)[p]).GetBlockTime := by
        rcases Nat.lt_or_ge p j with before | after
        · -- `a` is an ancestor of the window's block
          have suffixValid := valid.tail.drop p
          rw [List.drop_eq_getElem_cons pIn] at suffixValid
          apply ih _ _ suffixValid rfl
          · have jIn : j < older.length + 1 := by simpa using inChain
            exact List.mem_drop_iff_getElem.mpr ⟨j - (p + 1), by simp; omega, by
              congr 1
              omega⟩
          · simp only [List.length_drop, List.length_cons] at h ⊢
            omega
        · have same : p = j := by
            simp only [nMedianTimeSpan] at window
            omega
          subst same
          omega
      simp only [CBlockIndex.GetBlockTime] at later median between ⊢
      omega

end HeaderTimesValid

/-! ## The retarget keeps a target of two or more positive -/

/-- Off the ASERT path, on a chain whose heights link and whose headers
passed the timestamp test, a parent target of at least two gives an `nBits`
that reads back through `SetCompact` as not negative, positive, and at most
`powLimit`; the first two blocks get the initial target, which is too. -/
theorem GetNextTargetRequired_retarget_in_range {params : ConsensusParams}
    (known : Params network = some params) (notRegTest : network ≠ .REGTEST)
    {pindexLast : CBlockIndex} {ancestors : List CBlockIndex}
    (heights : HeightsLinked (pindexLast :: ancestors))
    (times : HeaderTimesValid network (pindexLast :: ancestors))
    (cachedAnchor : Option CBlockIndex) (fProofOfStake : Bool)
    (offAsert : fProofOfStake = true ∨
      IsProtocolV14 network (GetLastBlockIndex fProofOfStake pindexLast ancestors) = false)
    (prevTarget : ∀ pindexPrev ∈ (GetLastBlockIndex fProofOfStake pindexLast ancestors).head?,
      2 ≤ CBigNum.SetCompact pindexPrev.nBits) :
    ∃ nBits, GetNextTargetRequired network params cachedAnchor (pindexLast :: ancestors)
        fProofOfStake = .ok (nBits, cachedAnchor) ∧
      (SetCompact nBits).2.1 = false ∧ 0 < (SetCompact nBits).1 ∧
        (SetCompact nBits).1 ≤ params.powLimit := by
  have retargets : params.fPowNoRetargeting = false := by
    cases network <;> cases known <;> first | rfl | exact absurd rfl notRegTest
  obtain ⟨_, limit, initialPos, initialLe, _, _, _⟩ := Params_retargets known retargets
  have initial := SetCompact_CBigNum_GetCompact initialPos (by omega)
  rw [← GetCompact_false] at initial
  have first : ∃ nBits, (pure (GetCompact params.bnInitialHashTarget false, cachedAnchor) :
      Except String (UInt32 × Option CBlockIndex)) = .ok (nBits, cachedAnchor) ∧
      (SetCompact nBits).2.1 = false ∧ 0 < (SetCompact nBits).1 ∧
        (SetCompact nBits).1 ≤ params.powLimit :=
    ⟨_, rfl, initial.1, initial.2.1, Nat.le_trans initial.2.2 initialLe⟩
  unfold GetNextTargetRequired
  simp only [retargets, Bool.false_eq_true, if_false]
  obtain ⟨pindexPrev, prevAncestors, found, suffix⟩ :=
    GetLastBlockIndex_cons fProofOfStake pindexLast ancestors
  rw [found] at offAsert prevTarget ⊢
  cases prevAncestors with
  | nil => exact first
  | cons pprev older =>
    obtain ⟨pindexPrevPrev, prevPrevAncestors, foundPrev, suffixPrev⟩ :=
      GetLastBlockIndex_cons fProofOfStake pprev older
    dsimp only
    rw [foundPrev]
    cases prevPrevAncestors with
    | nil => exact first
    | cons _ _ =>
      dsimp only
      have notAsert : (!fProofOfStake && IsProtocolV14 network (pindexPrev :: pprev :: older)) =
          false := by
        rcases offAsert with stake | off
        · simp [stake]
        · simp [off]
      rw [notAsert, if_neg Bool.false_ne_true]
      -- the spacing is bounded below along the chain of `pindexPrev`
      have behind := (times.suffix suffix).time_lower_bound pindexPrevPrev
        (suffixPrev.subset List.mem_cons_self)
      have prevHeight := heights.nHeight_le_head pindexPrev (suffix.subset List.mem_cons_self)
      exact ⟨_, rfl, GetNextTargetRetarget_in_range known retargets prevHeight behind
        (prevTarget pindexPrev rfl)⟩

/-- Three stake entries after a proof-of-work genesis, 500 seconds apart,
the last with target `nBits`. -/
def stakeChain (nBits : UInt32) : List CBlockIndex :=
  [indexEntry 2 2 2 2000 nBits 1, indexEntry 1 1 1 1500 0x1d00ffff 1,
    indexEntry 0 0 0 1000 0x1d00ffff 0]

theorem stakeChain_retarget_in_range :
    ∃ nBits, GetNextTargetRequired .MAIN mainParams none (stakeChain 0x1d00ffff) true =
        .ok (nBits, none) ∧
      (SetCompact nBits).2.1 = false ∧ 0 < (SetCompact nBits).1 ∧
        (SetCompact nBits).1 ≤ mainParams.powLimit :=
  GetNextTargetRequired_retarget_in_range rfl (by decide) (by decide) (by decide) none true
    (.inl rfl) (fun pindexPrev member => by
      simp only [GetLastBlockIndex] at member
      cases member
      decide)

/-- A parent target of one: a stake block 500 seconds after the last, under
the 600 seconds aimed at, retargets it to zero, which `SetCompact` reads as
zero. -/
theorem stakeChain_retarget_reaches_zero :
    HeightsLinked (stakeChain 0x01010000) ∧ HeaderTimesValid .MAIN (stakeChain 0x01010000) ∧
      CBigNum.SetCompact 0x01010000 = 1 ∧
      GetNextTargetRequired .MAIN mainParams none (stakeChain 0x01010000) true = .ok (0, none) ∧
      (SetCompact 0).1 = 0 := by
  refine ⟨by decide, by decide, by decide, rfl, by decide⟩

end Peercoin.Validation
