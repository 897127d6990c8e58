import PeercoinFormal.Pow.AsertAnchor

/-!
# kernel.cpp: the version super-majority over proof-of-stake blocks

`HowSuperMajority` walks back from `pstart` and counts, among the first
`nToCheck` proof-of-stake blocks, those of version `minVersion` or later,
stopping once it has `nRequired`.  A proof-of-work block moves the walk but
not the window, so the window is the first `nToCheck` entries of the
proof-of-stake ancestors (`StakeWindow`), and the count is the smaller of
`nRequired` and the number of new enough blocks in it.  A longer window, or
newer versions of the same blocks, only raise it.
-/

set_option autoImplicit false

namespace Peercoin.Pow

open Peercoin.Chain

/-- The first `nToCheck` proof-of-stake blocks of `pstart` and its ancestors. -/
def StakeWindow (nToCheck : Nat) (pstart : List CBlockIndex) : List CBlockIndex :=
  (pstart.filter CBlockIndex.IsProofOfStake).take nToCheck

/-- The blocks of the window of version `minVersion` or later. -/
def NewEnough (minVersion : Int32) (window : List CBlockIndex) : Nat :=
  window.countP fun block => minVersion ≤ block.nVersion

/-- A proof-of-stake block takes the first place of the window. -/
theorem StakeWindow_cons_stake {block : CBlockIndex} (ancestors : List CBlockIndex) (n : Nat)
    (stake : block.IsProofOfStake = true) :
    StakeWindow (n + 1) (block :: ancestors) = block :: StakeWindow n ancestors := by
  rw [StakeWindow, List.filter_cons_of_pos stake, List.take_succ_cons]
  rfl

/-- A proof-of-work block is passed over. -/
theorem StakeWindow_cons_work {block : CBlockIndex} (ancestors : List CBlockIndex) (n : Nat)
    (work : ¬block.IsProofOfStake = true) :
    StakeWindow n (block :: ancestors) = StakeWindow n ancestors := by
  rw [StakeWindow, List.filter_cons_of_neg work]
  rfl

section

variable (minVersion : Int32) (nRequired nToCheck : Nat)

/-- The loop with `i` blocks of the window seen and `nFound` counted goes on
to count the rest of the window, up to `nRequired`. -/
theorem HowSuperMajorityFrom_eq (pstart : List CBlockIndex) :
    ∀ i nFound, i ≤ nToCheck → nFound ≤ nRequired →
      HowSuperMajorityFrom minVersion nRequired nToCheck i nFound pstart =
        min nRequired (nFound + NewEnough minVersion (StakeWindow (nToCheck - i) pstart)) := by
  induction pstart with
  | nil =>
    intro i nFound _ found
    simp only [StakeWindow, NewEnough, HowSuperMajorityFrom, List.filter_nil, List.take_nil,
      List.countP_nil, Nat.add_zero]
    omega
  | cons block ancestors ih =>
    intro i nFound seen found
    unfold HowSuperMajorityFrom
    by_cases running : i < nToCheck ∧ nFound < nRequired
    · rw [if_pos (by simpa using running)]
      by_cases stake : block.IsProofOfStake = true
      · -- a proof-of-stake block takes its place in the window
        have room : nToCheck - i = nToCheck - (i + 1) + 1 := by omega
        rw [if_neg (by simp [stake]), ih (i + 1) _ (by omega) (by split <;> omega), room,
          StakeWindow_cons_stake ancestors _ stake]
        simp only [NewEnough, List.countP_cons]
        by_cases newer : minVersion ≤ block.nVersion
        · simp only [newer, if_true, decide_true]
          omega
        · simp only [newer, if_false, decide_false, Bool.false_eq_true]
          omega
      · -- a proof-of-work block is passed over by `continue`
        rw [if_pos (by simpa using stake), ih i nFound seen found, StakeWindow_cons_work ancestors _ stake]
    · rw [if_neg (by simpa using running)]
      -- the window is full, or `nRequired` blocks are counted
      rcases Nat.lt_or_ge i nToCheck with room | full
      · omega
      · have empty : nToCheck - i = 0 := by omega
        rw [empty, StakeWindow, List.take_zero]
        simp only [NewEnough, List.countP_nil, Nat.add_zero]
        omega

theorem HowSuperMajority_eq (pstart : List CBlockIndex) :
    HowSuperMajority minVersion pstart nRequired nToCheck =
      min nRequired (NewEnough minVersion (StakeWindow nToCheck pstart)) := by
  rw [HowSuperMajority, HowSuperMajorityFrom_eq minVersion nRequired nToCheck pstart 0 0
    (Nat.zero_le _) (Nat.zero_le _), Nat.zero_add, Nat.sub_zero]

end

theorem NewEnough_take_mono (minVersion : Int32) (blocks : List CBlockIndex) {n n' : Nat}
    (longer : n ≤ n') : NewEnough minVersion (blocks.take n) ≤ NewEnough minVersion (blocks.take n') := by
  unfold NewEnough
  obtain ⟨extra, rfl⟩ := Nat.exists_eq_add_of_le longer
  rw [List.take_add, List.countP_append]
  exact Nat.le_add_right _ _

/-- Entries whose versions are raised, with their kinds kept. -/
def VersionsRaised (pstart pstart' : List CBlockIndex) : Prop :=
  List.Forall₂ (fun block block' => block'.IsProofOfStake = block.IsProofOfStake ∧
    block.nVersion ≤ block'.nVersion) pstart pstart'

theorem NewEnough_raised (minVersion : Int32) (nToCheck : Nat) {pstart pstart' : List CBlockIndex}
    (raised : VersionsRaised pstart pstart') :
    NewEnough minVersion (StakeWindow nToCheck pstart) ≤
      NewEnough minVersion (StakeWindow nToCheck pstart') := by
  induction raised generalizing nToCheck with
  | nil => exact Nat.le_refl _
  | cons same rest ih =>
    rename_i block block' ancestors ancestors'
    obtain ⟨kind, newer⟩ := same
    by_cases stake : block.IsProofOfStake = true
    · have stake' : block'.IsProofOfStake = true := kind ▸ stake
      cases nToCheck with
      | zero => simp [StakeWindow, NewEnough]
      | succ n =>
        rw [StakeWindow_cons_stake ancestors n stake, StakeWindow_cons_stake ancestors' n stake',
          NewEnough, NewEnough, List.countP_cons, List.countP_cons]
        have later := ih n
        unfold NewEnough at later
        -- a block that counted still counts once its version is raised
        by_cases counted : minVersion ≤ block.nVersion
        · have counted' : minVersion ≤ block'.nVersion := Int32.le_trans counted newer
          simp only [counted, counted', decide_true, if_true]
          omega
        · simp only [counted, decide_false, Bool.false_eq_true, if_false]
          split <;> omega
    · have stake' : ¬block'.IsProofOfStake = true := kind ▸ stake
      rw [StakeWindow_cons_work ancestors _ stake, StakeWindow_cons_work ancestors' _ stake']
      exact ih nToCheck

/-- `HowSuperMajority` is the count of new enough blocks among the first
`nToCheck` proof-of-stake blocks from `pstart` back, proof-of-work blocks
passed over, capped at `nRequired`; `IsSuperMajority` stays true for a
longer window and for newer versions of the same blocks. -/
theorem HowSuperMajority_counts_stake_window :
    (∀ minVersion pstart nRequired nToCheck,
      HowSuperMajority minVersion pstart nRequired nToCheck =
        min nRequired (NewEnough minVersion (StakeWindow nToCheck pstart))) ∧
    (∀ minVersion pstart nRequired nToCheck nToCheck', nToCheck ≤ nToCheck' →
      IsSuperMajority minVersion pstart nRequired nToCheck = true →
      IsSuperMajority minVersion pstart nRequired nToCheck' = true) ∧
    (∀ minVersion pstart pstart' nRequired nToCheck, VersionsRaised pstart pstart' →
      IsSuperMajority minVersion pstart nRequired nToCheck = true →
      IsSuperMajority minVersion pstart' nRequired nToCheck = true) := by
  refine ⟨fun minVersion pstart nRequired nToCheck =>
      HowSuperMajority_eq minVersion nRequired nToCheck pstart, ?_, ?_⟩
  · intro minVersion pstart nRequired nToCheck nToCheck' longer majority
    simp only [IsSuperMajority, HowSuperMajority_eq, decide_eq_true_eq, ge_iff_le] at majority ⊢
    have more := NewEnough_take_mono minVersion (pstart.filter CBlockIndex.IsProofOfStake) longer
    unfold StakeWindow at majority ⊢
    omega
  · intro minVersion pstart pstart' nRequired nToCheck raised majority
    simp only [IsSuperMajority, HowSuperMajority_eq, decide_eq_true_eq, ge_iff_le] at majority ⊢
    have more := NewEnough_raised minVersion nToCheck raised
    omega

end Peercoin.Pow
