import Mathlib
import PeercoinFormal.Numeric.Bisection
import PeercoinFormal.Arith.BigNum

/-!
# validation.cpp: the proof-of-work reward

`GetProofOfWorkReward` halves the subsidy for every sixteen times the
difficulty: it looks for the `s` with `s ^ 4 * powLimit' = S ^ 4 * t`, where
`S` is `MAX_MINT_PROOF_OF_WORK`, `t` the block's target and `powLimit'` the
proof-of-work limit rounded through its compact form.  It bisects `[CENT, S]`
in `CBigNum`s down to an interval narrower than `CENT`, keeps its upper
bound rounded down to a whole `CENT`, and caps it at the era's maximum.

The bisection takes the same midpoints for every target until two targets'
tests first disagree, so the reward is monotone in the target; it is a
multiple of `CENT` in `[0, cap]`, and within `CENT` of the real root unless
it is the cap (`GetProofOfWorkReward_monotone_capped`).
-/

set_option autoImplicit false

namespace Peercoin.Pow

open Peercoin.Chain Peercoin.Arith Peercoin.Primitives Numeric

def CENT : Int64 := 10000

def MAX_MINT_PROOF_OF_WORK : Int64 := 9999 * COIN

def MAX_MINT_PROOF_OF_WORK_V10 : Int64 := 50 * COIN

def nProtocolV10SwitchTime : UInt32 := 1635768000

def nProtocolV10TestSwitchTime : UInt32 := 1625140800

/-- `IsProtocolV10`, of a block time. -/
def IsProtocolV10 (network : ChainType) (nTime : UInt32) : Bool :=
  nTime ≥ (if network ≠ .MAIN then nProtocolV10TestSwitchTime else nProtocolV10SwitchTime)

/-- The loop's test: whether the midpoint's fourth power, weighed by the
target limit, is more than the subsidy limit's, weighed by the target. -/
def rewardTooHigh (bnSubsidyLimit bnTarget bnTargetLimit bnMidValue : Int) : Bool :=
  bnMidValue * bnMidValue * bnMidValue * bnMidValue * bnTargetLimit >
    bnSubsidyLimit * bnSubsidyLimit * bnSubsidyLimit * bnSubsidyLimit * bnTarget

/-- `bnLowerBound` and `bnUpperBound` when `GetProofOfWorkReward`'s loop
ends.  `CBigNum(powLimit)` is the number `UintToArith256` reads
(`setuint256_eq`), which `ConsensusParams` keeps. -/
def ProofOfWorkRewardBounds (params : ConsensusParams) (nBits : UInt32) : Int × Int :=
  let bnSubsidyLimit : Int := MAX_MINT_PROOF_OF_WORK.toInt
  let bnTarget := CBigNum.SetCompact nBits
  let bnTargetLimit := CBigNum.SetCompact (CBigNum.GetCompact params.powLimit)
  bisect CENT.toInt (by decide) (rewardTooHigh bnSubsidyLimit bnTarget bnTargetLimit)
    CENT.toInt bnSubsidyLimit

/-- `GetProofOfWorkReward`. -/
def GetProofOfWorkReward (network : ChainType) (params : ConsensusParams) (nBits nTime : UInt32) :
    Int64 :=
  let nSubsidy : Int64 := (CBigNum.getuint64 (ProofOfWorkRewardBounds params nBits).2).toInt64
  let nSubsidy := nSubsidy / CENT * CENT
  min nSubsidy
    (if IsProtocolV10 network nTime then MAX_MINT_PROOF_OF_WORK_V10 else MAX_MINT_PROOF_OF_WORK)

/-! ## The constants and the `int64_t` steps -/

theorem CENT_toInt : CENT.toInt = 10000 := by decide

theorem MAX_MINT_PROOF_OF_WORK_toInt : MAX_MINT_PROOF_OF_WORK.toInt = 9999000000 := by decide

theorem MAX_MINT_PROOF_OF_WORK_V10_toInt : MAX_MINT_PROOF_OF_WORK_V10.toInt = 50000000 := by decide

theorem rewardCap_toInt (network : ChainType) (nTime : UInt32) :
    (if IsProtocolV10 network nTime then MAX_MINT_PROOF_OF_WORK_V10
      else MAX_MINT_PROOF_OF_WORK).toInt = 50000000 ∨
    (if IsProtocolV10 network nTime then MAX_MINT_PROOF_OF_WORK_V10
      else MAX_MINT_PROOF_OF_WORK).toInt = 9999000000 := by
  split
  · exact .inl MAX_MINT_PROOF_OF_WORK_V10_toInt
  · exact .inr MAX_MINT_PROOF_OF_WORK_toInt

theorem Int64.toInt_min (a b : Int64) : (min a b).toInt = min a.toInt b.toInt := by
  change (if a ≤ b then a else b).toInt = _
  split
  · rename_i le
    rw [Int64.le_iff_toInt_le] at le
    exact (Int.min_eq_left le).symm
  · rename_i gt
    rw [Int64.le_iff_toInt_le] at gt
    exact (Int.min_eq_right (by omega)).symm

theorem toInt64_toInt_of_lt {v : UInt64} (small : v.toNat < 2 ^ 63) :
    v.toInt64.toInt = v.toNat := by
  obtain ⟨n, rfl⟩ : ∃ n, v = UInt64.ofNat n := ⟨v.toNat, UInt64.ofNat_toNat.symm⟩
  rw [UInt64.toNat_ofNat'] at small ⊢
  rw [UInt64.toInt64_ofNat', Int64.toInt_ofNat', Int.bmod]
  simp only [Int64.size]
  omega

/-- An `int64_t` step on a value that is not negative and below `2 ^ 63`
keeps it. -/
theorem bmod_of_small {x : Int} (nonneg : 0 ≤ x) (small : x < 2 ^ 63) : x.bmod (2 ^ 64) = x :=
  Int.bmod_eq_of_le (by omega) (by omega)

/-! ## The loop -/

theorem rewardTooHigh_of_le {bnSubsidyLimit bnTarget bnTarget' bnTargetLimit bnMidValue : Int}
    (le : bnTarget ≤ bnTarget')
    (high : rewardTooHigh bnSubsidyLimit bnTarget' bnTargetLimit bnMidValue = true) :
    rewardTooHigh bnSubsidyLimit bnTarget bnTargetLimit bnMidValue = true := by
  unfold rewardTooHigh at high ⊢
  have fourth : 0 ≤ bnSubsidyLimit * bnSubsidyLimit * bnSubsidyLimit * bnSubsidyLimit := by
    rw [Int.mul_assoc (bnSubsidyLimit * bnSubsidyLimit)]
    exact mul_self_nonneg _
  have weighed := Int.mul_le_mul_of_nonneg_left le fourth
  simp only [decide_eq_true_eq] at high ⊢
  omega

section Bounds

variable (params : ConsensusParams) (nBits : UInt32)

/-- The bounds stay in `[CENT, S]`, ordered, and end less than `CENT` apart. -/
theorem ProofOfWorkRewardBounds_range :
    10000 ≤ (ProofOfWorkRewardBounds params nBits).1 ∧
      (ProofOfWorkRewardBounds params nBits).1 ≤ (ProofOfWorkRewardBounds params nBits).2 ∧
      (ProofOfWorkRewardBounds params nBits).2 < (ProofOfWorkRewardBounds params nBits).1 + 10000 ∧
      (ProofOfWorkRewardBounds params nBits).2 ≤ 9999000000 := by
  have lower : CENT.toInt ≤ (ProofOfWorkRewardBounds params nBits).1 := le_bisect_lower _ _
  have ordered : (ProofOfWorkRewardBounds params nBits).1 ≤ (ProofOfWorkRewardBounds params nBits).2 :=
    bisect_ordered (by decide)
  have narrow : (ProofOfWorkRewardBounds params nBits).2 <
      (ProofOfWorkRewardBounds params nBits).1 + CENT.toInt := bisect_narrow _ _
  have upper : (ProofOfWorkRewardBounds params nBits).2 ≤ MAX_MINT_PROOF_OF_WORK.toInt :=
    bisect_upper_le _ _
  rw [CENT_toInt] at lower narrow
  rw [MAX_MINT_PROOF_OF_WORK_toInt] at upper
  exact ⟨lower, ordered, narrow, upper⟩

/-- The upper bound is the subsidy limit or a midpoint the test put above the root. -/
theorem ProofOfWorkRewardBounds_upper_cases :
    (ProofOfWorkRewardBounds params nBits).2 = 9999000000 ∨
      rewardTooHigh 9999000000 (CBigNum.SetCompact nBits)
        (CBigNum.SetCompact (CBigNum.GetCompact params.powLimit))
        (ProofOfWorkRewardBounds params nBits).2 = true := by
  have cases : (ProofOfWorkRewardBounds params nBits).2 = MAX_MINT_PROOF_OF_WORK.toInt ∨
      rewardTooHigh MAX_MINT_PROOF_OF_WORK.toInt (CBigNum.SetCompact nBits)
        (CBigNum.SetCompact (CBigNum.GetCompact params.powLimit))
        (ProofOfWorkRewardBounds params nBits).2 = true := bisect_upper_cases _ _
  rwa [MAX_MINT_PROOF_OF_WORK_toInt] at cases

/-- The lower bound is `CENT` or a midpoint the test put at or below the root. -/
theorem ProofOfWorkRewardBounds_lower_cases :
    (ProofOfWorkRewardBounds params nBits).1 = 10000 ∨
      rewardTooHigh 9999000000 (CBigNum.SetCompact nBits)
        (CBigNum.SetCompact (CBigNum.GetCompact params.powLimit))
        (ProofOfWorkRewardBounds params nBits).1 = false := by
  have cases : (ProofOfWorkRewardBounds params nBits).1 = CENT.toInt ∨
      rewardTooHigh MAX_MINT_PROOF_OF_WORK.toInt (CBigNum.SetCompact nBits)
        (CBigNum.SetCompact (CBigNum.GetCompact params.powLimit))
        (ProofOfWorkRewardBounds params nBits).1 = false := bisect_lower_cases _ _
  rwa [MAX_MINT_PROOF_OF_WORK_toInt, CENT_toInt] at cases

end Bounds

/-- A larger target ends the bisection no lower. -/
theorem ProofOfWorkRewardBounds_mono (params : ConsensusParams) {nBits nBits' : UInt32}
    (le : CBigNum.SetCompact nBits ≤ CBigNum.SetCompact nBits') :
    (ProofOfWorkRewardBounds params nBits).2 ≤ (ProofOfWorkRewardBounds params nBits').2 :=
  bisect_upper_mono (fun _ high => rewardTooHigh_of_le le high) (by decide)

/-! ## The reward -/

/-- The reward is the loop's upper bound rounded down to a whole `CENT`, and capped. -/
theorem GetProofOfWorkReward_toInt (network : ChainType) (params : ConsensusParams)
    (nBits nTime : UInt32) :
    (GetProofOfWorkReward network params nBits nTime).toInt =
      min ((ProofOfWorkRewardBounds params nBits).2 / 10000 * 10000)
        (if IsProtocolV10 network nTime then MAX_MINT_PROOF_OF_WORK_V10
          else MAX_MINT_PROOF_OF_WORK).toInt := by
  obtain ⟨lower, ordered, -, upper⟩ := ProofOfWorkRewardBounds_range params nBits
  unfold GetProofOfWorkReward
  generalize (ProofOfWorkRewardBounds params nBits).2 = bnUpperBound at lower ordered upper ⊢
  -- `getuint64` and the conversion to `int64_t` keep the bound, which is below `2 ^ 63`
  have read : (CBigNum.getuint64 bnUpperBound).toNat = bnUpperBound.toNat := by
    rw [getuint64_eq (by omega)]
    omega
  have converted : (CBigNum.getuint64 bnUpperBound).toInt64.toInt = bnUpperBound := by
    rw [toInt64_toInt_of_lt (by omega), read]
    omega
  have floored : bnUpperBound.tdiv 10000 = bnUpperBound / 10000 :=
    Int.tdiv_eq_ediv_of_nonneg (by omega)
  have quotient : (bnUpperBound / 10000).bmod (2 ^ 64) = bnUpperBound / 10000 :=
    bmod_of_small (by omega) (by omega)
  have product : (bnUpperBound / 10000 * 10000).bmod (2 ^ 64) = bnUpperBound / 10000 * 10000 :=
    bmod_of_small (by omega) (by omega)
  rw [Int64.toInt_min, Int64.toInt_mul, Int64.toInt_div, converted, CENT_toInt, floored,
    quotient, product]

theorem GetProofOfWorkReward_mono (network : ChainType) (params : ConsensusParams) (nTime : UInt32)
    {nBits nBits' : UInt32} (le : CBigNum.SetCompact nBits ≤ CBigNum.SetCompact nBits') :
    (GetProofOfWorkReward network params nBits nTime).toInt ≤
      (GetProofOfWorkReward network params nBits' nTime).toInt := by
  have higher := ProofOfWorkRewardBounds_mono params le
  rw [GetProofOfWorkReward_toInt, GetProofOfWorkReward_toInt]
  omega

theorem GetProofOfWorkReward_range (network : ChainType) (params : ConsensusParams)
    (nBits nTime : UInt32) :
    0 ≤ (GetProofOfWorkReward network params nBits nTime).toInt ∧
      10000 ∣ (GetProofOfWorkReward network params nBits nTime).toInt ∧
      (GetProofOfWorkReward network params nBits nTime).toInt ≤
        (if IsProtocolV10 network nTime then MAX_MINT_PROOF_OF_WORK_V10
          else MAX_MINT_PROOF_OF_WORK).toInt := by
  obtain ⟨lower, ordered, -, -⟩ := ProofOfWorkRewardBounds_range params nBits
  have cap := rewardCap_toInt network nTime
  rw [GetProofOfWorkReward_toInt]
  omega

/-! ## Against the real root -/

section Root

variable {x s weight : ℝ}

theorem lt_of_fourth_pow_mul_lt (xNonneg : 0 ≤ x) (positive : 0 < weight)
    (lt : s ^ 4 * weight < x ^ 4 * weight) : s < x :=
  lt_of_pow_lt_pow_left₀ 4 xNonneg (lt_of_mul_lt_mul_right lt positive.le)

theorem le_of_fourth_pow_mul_le (sNonneg : 0 ≤ s) (positive : 0 < weight)
    (le : x ^ 4 * weight ≤ s ^ 4 * weight) : x ≤ s :=
  le_of_pow_le_pow_left₀ (by decide) sNonneg (le_of_mul_le_mul_right le positive)

end Root

theorem rewardTooHigh_iff {bnSubsidyLimit bnTarget bnTargetLimit bnMidValue : Int} :
    rewardTooHigh bnSubsidyLimit bnTarget bnTargetLimit bnMidValue = true ↔
      (bnSubsidyLimit : ℝ) ^ 4 * bnTarget < (bnMidValue : ℝ) ^ 4 * bnTargetLimit := by
  have subsidy : ((bnSubsidyLimit * bnSubsidyLimit * bnSubsidyLimit * bnSubsidyLimit * bnTarget :
      Int) : ℝ) = (bnSubsidyLimit : ℝ) ^ 4 * bnTarget := by
    push_cast
    ring
  have mid : ((bnMidValue * bnMidValue * bnMidValue * bnMidValue * bnTargetLimit : Int) : ℝ) =
      (bnMidValue : ℝ) ^ 4 * bnTargetLimit := by
    push_cast
    ring
  rw [← subsidy, ← mid, Int.cast_lt]
  simp [rewardTooHigh]

/-- Unless it is the cap, the reward is within `CENT` of the real root of
`s ^ 4 * powLimit' = S ^ 4 * t`. -/
theorem GetProofOfWorkReward_near_root (network : ChainType) (params : ConsensusParams)
    {nBits : UInt32} (nTime : UInt32) (positive : 0 < CBigNum.SetCompact nBits) {s : ℝ}
    (sNonneg : 0 ≤ s)
    (root : s ^ 4 * (CBigNum.SetCompact (CBigNum.GetCompact params.powLimit) : ℝ) =
      (MAX_MINT_PROOF_OF_WORK.toInt : ℝ) ^ 4 * (CBigNum.SetCompact nBits : ℝ)) :
    (GetProofOfWorkReward network params nBits nTime).toInt =
        (if IsProtocolV10 network nTime then MAX_MINT_PROOF_OF_WORK_V10
          else MAX_MINT_PROOF_OF_WORK).toInt ∨
      |((GetProofOfWorkReward network params nBits nTime).toInt : ℝ) - s| < 10000 := by
  rw [MAX_MINT_PROOF_OF_WORK_toInt] at root
  have weighed : 0 < ((9999000000 : Int) : ℝ) ^ 4 * (CBigNum.SetCompact nBits : ℝ) :=
    mul_pos (pow_pos (by norm_num) 4) (by exact_mod_cast positive)
  -- the root and the rounded target limit are positive
  have sPos : 0 < s := by
    rcases sNonneg.lt_or_eq with pos | zero
    · exact pos
    · rw [← zero, zero_pow (by decide), zero_mul] at root
      linarith
  have limitPos : 0 < (CBigNum.SetCompact (CBigNum.GetCompact params.powLimit) : ℝ) :=
    lt_of_mul_lt_mul_left (by rw [mul_zero, root]; exact weighed) (pow_nonneg sNonneg 4)
  obtain ⟨lowerCent, ordered, narrow, -⟩ := ProofOfWorkRewardBounds_range params nBits
  -- each final bound against the root
  have above : (ProofOfWorkRewardBounds params nBits).2 = 9999000000 ∨
      s < (ProofOfWorkRewardBounds params nBits).2 := by
    rcases ProofOfWorkRewardBounds_upper_cases params nBits with limit | high
    · exact .inl limit
    · rw [rewardTooHigh_iff, ← root] at high
      have nonneg : (0 : ℝ) ≤ (ProofOfWorkRewardBounds params nBits).2 := by
        exact_mod_cast (show (0 : Int) ≤ (ProofOfWorkRewardBounds params nBits).2 by omega)
      exact .inr (lt_of_fourth_pow_mul_lt nonneg limitPos high)
  have below : (ProofOfWorkRewardBounds params nBits).1 = 10000 ∨
      ((ProofOfWorkRewardBounds params nBits).1 : ℝ) ≤ s := by
    rcases ProofOfWorkRewardBounds_lower_cases params nBits with start | low
    · exact .inl start
    · have notHigh := (Bool.eq_false_iff.mp low)
      rw [Ne, rewardTooHigh_iff, ← root, not_lt] at notHigh
      exact .inr (le_of_fourth_pow_mul_le sNonneg limitPos notHigh)
  have cap := rewardCap_toInt network nTime
  rw [GetProofOfWorkReward_toInt]
  generalize ProofOfWorkRewardBounds params nBits = bounds at *
  obtain ⟨bnLowerBound, bnUpperBound⟩ := bounds
  dsimp only at *
  generalize (if IsProtocolV10 network nTime then MAX_MINT_PROOF_OF_WORK_V10
    else MAX_MINT_PROOF_OF_WORK).toInt = nCap at cap ⊢
  by_cases capped : nCap ≤ bnUpperBound / 10000 * 10000
  · exact .inl (Int.min_eq_right capped)
  · right
    rw [Int.min_eq_left (by omega), abs_sub_lt_iff]
    -- below the cap the upper bound is not the subsidy limit, so it is above the root
    have aboveRoot : s < bnUpperBound := by
      rcases above with limit | lt
      · omega
      · exact lt
    have floorAbove : (bnUpperBound : ℝ) < ((bnUpperBound / 10000 * 10000 : Int) : ℝ) + 10000 := by
      exact_mod_cast (show bnUpperBound < bnUpperBound / 10000 * 10000 + 10000 by omega)
    constructor
    · rcases below with start | lowerBelow
      · -- the lower bound never moved: the upper one is below `2 * CENT`, so the reward is `CENT`
        have single : bnUpperBound / 10000 * 10000 = 10000 := by omega
        rw [single]
        push_cast
        linarith
      · have floorBelow : ((bnUpperBound / 10000 * 10000 : Int) : ℝ) < (bnLowerBound : ℝ) + 10000 := by
          exact_mod_cast (show bnUpperBound / 10000 * 10000 < bnLowerBound + 10000 by omega)
        linarith
    · linarith

end Peercoin.Pow
