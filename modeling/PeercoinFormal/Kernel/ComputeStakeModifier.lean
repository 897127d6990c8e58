import PeercoinFormal.Kernel.StakeModifier
import PeercoinFormal.Kernel.KernelModifier
import PeercoinFormal.Sorting.Scan
import PeercoinFormal.Validation.HeaderTime
import PeercoinFormal.Validation.ConnectBlock

/-!
# kernel.cpp: ComputeNextStakeModifier and its selection rounds

A block generates a new stake modifier when its parent lies in a later
modifier interval than the block that generated the last one.  The
candidates are the parent and its ancestors, walking back while their time
is not before the start of the selection interval; they are sorted by time
and hash.  Round `r` moves the stop of the selection on by section `r` and
`SelectBlockFromCandidates` picks a block not selected yet: the first such
candidate, or a later one before the stop whose selection hash is smaller.
Bit `r` of the new modifier is the picked block's entropy bit.

The candidates are identified by their hashes, which the block index maps
to entries (`LookupBlockIndex`).  `std::sort` is modelled by insertion sort
under the same comparator; by `sorted_candidates_unique` any sort returns
the same list.
-/

set_option autoImplicit false

namespace Peercoin.Kernel

open Peercoin.Primitives Peercoin.Serialize Peercoin.Chain Peercoin.Pow Peercoin.Validation Sorting
  Ledger

def nProtocolV04SwitchTime : UInt32 := 1399300000

def nProtocolV04TestSwitchTime : UInt32 := 1395700000

def IsProtocolV04 (network : ChainType) (nTimeBlock : UInt32) : Bool :=
  nTimeBlock ≥ (if network ≠ .MAIN then nProtocolV04TestSwitchTime else nProtocolV04SwitchTime)

/-- `GetLastStakeModifier` from the first entry of `chain`, whose later
entries are its ancestors: the modifier of the nearest block that generated
one and that block's time. -/
def GetLastStakeModifier : List CBlockIndex → Option (UInt64 × Int)
  | [] => none
  | [pindex] =>
    if pindex.GeneratedStakeModifier then some (pindex.nStakeModifier, pindex.GetBlockTime) else none
  | pindex :: pprev :: ancestors =>
    if pindex.GeneratedStakeModifier then some (pindex.nStakeModifier, pindex.GetBlockTime)
    else GetLastStakeModifier (pprev :: ancestors)

/-- A candidate as `vSortedByTimestamp` holds it: the block's time and hash. -/
def CandidateOf (pindex : CBlockIndex) : Int × uint256 := (pindex.GetBlockTime, pindex.phashBlock)

/-- The selection hash of a candidate: its proof hash and the previous
modifier hashed, divided by `2 ^ 32` for a proof-of-stake block so that such
blocks are favoured. -/
def SelectionHash (sha256 : List UInt8 → uint256) (nStakeModifierPrev : UInt64)
    (pindex : CBlockIndex) : Nat :=
  let hashProof := if pindex.IsProofOfStake then pindex.hashProofOfStake else pindex.phashBlock
  let hashSelection := UintToArith256
    (GetHash sha256 (serializeUint256 hashProof ++ ser_writedata64 nStakeModifierPrev.toNat))
  if pindex.IsProofOfStake then hashSelection >>> 32 else hashSelection

section Select

variable (sha256 : List UInt8 → uint256) (LookupBlockIndex : uint256 → Option CBlockIndex)

/-- The loop of `SelectBlockFromCandidates`, holding the block picked so far
with its selection hash; `none` is a candidate missing from the block index. -/
def SelectCandidatesLoop (mapSelectedBlocks : List uint256) (nSelectionIntervalStop : Int)
    (nStakeModifierPrev : UInt64) :
    Option (CBlockIndex × Nat) → List (Int × uint256) → Option (Option (CBlockIndex × Nat))
  | best, [] => some best
  | best, item :: rest =>
    match LookupBlockIndex item.2 with
    | none => none
    | some pindex =>
      if best.isSome && decide (pindex.GetBlockTime > nSelectionIntervalStop) then some best
      else if pindex.phashBlock ∈ mapSelectedBlocks then
        SelectCandidatesLoop mapSelectedBlocks nSelectionIntervalStop nStakeModifierPrev best rest
      else
        let hashSelection := SelectionHash sha256 nStakeModifierPrev pindex
        match best with
        | some (_, hashBest) =>
          if hashSelection < hashBest then
            SelectCandidatesLoop mapSelectedBlocks nSelectionIntervalStop nStakeModifierPrev
              (some (pindex, hashSelection)) rest
          else SelectCandidatesLoop mapSelectedBlocks nSelectionIntervalStop nStakeModifierPrev best rest
        | none =>
          SelectCandidatesLoop mapSelectedBlocks nSelectionIntervalStop nStakeModifierPrev
            (some (pindex, hashSelection)) rest

/-- `SelectBlockFromCandidates`: the picked block, or `none` for its `false`. -/
def SelectBlockFromCandidates (vSortedByTimestamp : List (Int × uint256))
    (mapSelectedBlocks : List uint256) (nSelectionIntervalStop : Int) (nStakeModifierPrev : UInt64) :
    Option CBlockIndex :=
  match SelectCandidatesLoop sha256 LookupBlockIndex mapSelectedBlocks nSelectionIntervalStop
      nStakeModifierPrev none vSortedByTimestamp with
  | some (some (pindex, _)) => some pindex
  | _ => none

/-- The selection rounds of `ComputeNextStakeModifier` from round `nRound`,
with `rounds` left, the stop reached so far, the modifier built so far and
the hashes selected so far. -/
def SelectionRounds (params : ConsensusParams) (vSortedByTimestamp : List (Int × uint256))
    (nStakeModifier : UInt64) :
    (rounds nRound : Nat) → (nSelectionIntervalStop : Int) → (nStakeModifierNew : UInt64) →
      (mapSelectedBlocks : List uint256) → Except String UInt64
  | 0, _, _, nStakeModifierNew, _ => .ok nStakeModifierNew
  | rounds + 1, nRound, nSelectionIntervalStop, nStakeModifierNew, mapSelectedBlocks =>
    let nSelectionIntervalStop :=
      nSelectionIntervalStop + GetStakeModifierSelectionIntervalSection params nRound
    match SelectBlockFromCandidates sha256 LookupBlockIndex vSortedByTimestamp mapSelectedBlocks
        nSelectionIntervalStop nStakeModifier with
    | none => .error "ComputeNextStakeModifier: unable to select block at round"
    | some pindex =>
      SelectionRounds params vSortedByTimestamp nStakeModifier rounds (nRound + 1)
        nSelectionIntervalStop
        (nStakeModifierNew ||| (pindex.GetStakeEntropyBit.toUInt64 <<< nRound.toUInt64))
        (mapSelectedBlocks ++ [pindex.phashBlock])

end Select

/-- The order `std::sort` puts the candidates in: not after a candidate that
compares less. -/
def CandidateLE (a b : Int × uint256) : Prop := CandidateLess b a = false

instance : DecidableRel CandidateLE := fun a b => inferInstanceAs (Decidable (CandidateLess b a = false))

/-- `std::sort` under `CandidateLess`. -/
def SortCandidates (v : List (Int × uint256)) : List (Int × uint256) := v.insertionSort CandidateLE

/-- The start of the selection interval: the start of the parent's modifier
interval, less a selection interval.  Times are not negative, so `/` is the
source's division. -/
def SelectionIntervalStart (params : ConsensusParams) (pindexPrev : CBlockIndex) : Int :=
  (pindexPrev.GetBlockTime / params.nModifierInterval) * params.nModifierInterval -
    GetStakeModifierSelectionInterval params

/-- `ComputeNextStakeModifier` for `pindexCurrent`, whose parent and the
parent's ancestors are `ancestry`, empty for genesis: the modifier and
whether it was generated.  `rand` is `GetRand` in the shuffle. -/
def ComputeNextStakeModifier (network : ChainType) (params : ConsensusParams)
    (sha256 : List UInt8 → uint256) (LookupBlockIndex : uint256 → Option CBlockIndex)
    (rand : Nat → Nat) (pindexCurrent : CBlockIndex) (ancestry : List CBlockIndex) :
    Except String (UInt64 × Bool) :=
  match ancestry with
  -- the genesis block's modifier is 0
  | [] => .ok (0, true)
  | pindexPrev :: ancestors => do
    let (nStakeModifier, nModifierTime) ← getOrFail "ComputeNextStakeModifier: unable to get last modifier"
      (GetLastStakeModifier (pindexPrev :: ancestors))
    if nModifierTime / params.nModifierInterval ≥ pindexPrev.GetBlockTime / params.nModifierInterval then
      pure (nStakeModifier, false)
    else if nModifierTime / params.nModifierInterval ≥
        pindexCurrent.GetBlockTime / params.nModifierInterval &&
        IsProtocolV04 network pindexCurrent.nTime then
      pure (nStakeModifier, false)
    else
      let nSelectionIntervalStart := SelectionIntervalStart params pindexPrev
      let vSortedByTimestamp := SortCandidates (Shuffle rand
        (StakeModifierCandidates ((pindexPrev :: ancestors).map CandidateOf) nSelectionIntervalStart))
      let nStakeModifierNew ← SelectionRounds sha256 LookupBlockIndex params vSortedByTimestamp
        nStakeModifier (min 64 vSortedByTimestamp.length) 0 nSelectionIntervalStart 0 []
      pure (nStakeModifierNew, true)

/-! ## The modifier the rounds are meant to give

Round `r` stops at the interval's start plus the first `r + 1` sections.
Among the candidates not selected in earlier rounds it takes the one of
least selection hash, the earliest among equals, of the first of them and
the later ones not past the stop.  Bit `r` of the modifier is the entropy
bit of the block it takes. -/

/-- `nSelectionIntervalStop` of round `r`. -/
def SelectionStop (params : ConsensusParams) (nSelectionIntervalStart : Int) (r : Nat) : Int :=
  nSelectionIntervalStart +
    ((List.range (r + 1)).map (GetStakeModifierSelectionIntervalSection params)).sum

/-- The block a round takes from the sorted candidates, given the hashes
taken before. -/
def ReferenceChoice (score : CBlockIndex → Nat) (stop : Int) (selected : List uint256)
    (sorted : List CBlockIndex) : Option CBlockIndex :=
  match sorted.filter (fun pindex => !decide (pindex.phashBlock ∈ selected)) with
  | [] => none
  | first :: rest =>
    some (leastOf score first (rest.filter fun pindex => !decide (pindex.GetBlockTime > stop)))

/-- The blocks the first `r` rounds take, in order. -/
def ReferenceSelections (params : ConsensusParams) (score : CBlockIndex → Nat)
    (nSelectionIntervalStart : Int) (sorted : List CBlockIndex) : Nat → Option (List CBlockIndex)
  | 0 => some []
  | r + 1 => do
    let selected ← ReferenceSelections params score nSelectionIntervalStart sorted r
    let chosen ← ReferenceChoice score (SelectionStop params nSelectionIntervalStart r)
      (selected.map CBlockIndex.phashBlock) sorted
    pure (selected ++ [chosen])

/-- The sum over the rounds `r` of the entropy bit of the block taken in
round `r`, shifted left by `r`. -/
def EntropySum : List CBlockIndex → Nat
  | [] => 0
  | pindex :: rest => pindex.GetStakeEntropyBit.toNat + 2 * EntropySum rest

/-! ## The candidate order -/

/-- Two different candidates compare one way or the other. -/
theorem CandidateLess_trichotomy {a b : Int × uint256} (differ : a ≠ b) :
    CandidateLess a b = true ∨ CandidateLess b a = true := by
  by_cases hashes : a.2 = b.2
  · -- same hash: the times differ and decide
    have times : a.1 ≠ b.1 := fun same => differ (Prod.ext same hashes)
    unfold CandidateLess
    rw [if_pos times, if_pos (Ne.symm times)]
    rcases Int.lt_or_gt_of_ne times with less | greater
    · exact .inl (decide_eq_true less)
    · exact .inr (decide_eq_true greater)
  · exact CandidateLess_total hashes

instance : Std.Total CandidateLE where
  total a b := by
    unfold CandidateLE
    cases back : CandidateLess b a
    · exact .inl rfl
    · cases forth : CandidateLess a b
      · exact .inr rfl
      · have looped := CandidateLess_trans back forth
        rw [CandidateLess_irrefl] at looped
        cases looped

instance : IsTrans (Int × uint256) CandidateLE where
  trans a b c first second := by
    unfold CandidateLE at first second ⊢
    cases less : CandidateLess c a
    · rfl
    · -- `c < a` with `a` not after `b` would put `c` before `b`
      by_cases same : a = b
      · subst same
        rw [less] at second
        cases second
      · rcases CandidateLess_trichotomy same with forth | back
        · rw [CandidateLess_trans less forth] at second
          cases second
        · rw [back] at first
          cases first

theorem SortCandidates_perm (v : List (Int × uint256)) : (SortCandidates v).Perm v :=
  List.perm_insertionSort CandidateLE v

theorem SortCandidates_sortedBy (v : List (Int × uint256)) :
    SortedBy CandidateLess (SortCandidates v) :=
  List.pairwise_insertionSort CandidateLE v

/-- In a sorted list the times do not go down. -/
theorem time_le_of_sortedBy {a b : Int × uint256} (notBefore : CandidateLess b a = false) :
    a.1 ≤ b.1 := by
  unfold CandidateLess at notBefore
  by_cases times : b.1 = a.1
  · rw [times]
  · rw [if_pos times] at notBefore
    have notLess : ¬ b.1 < a.1 := of_decide_eq_false notBefore
    omega

/-! ## One round -/

section Select

variable (sha256 : List UInt8 → uint256) (LookupBlockIndex : uint256 → Option CBlockIndex)

/-- With every candidate in the block index, the loop of
`SelectBlockFromCandidates` is the scan for the least selection hash that
skips the selected hashes and stops past `nSelectionIntervalStop`. -/
theorem SelectCandidatesLoop_eq_scanLeast {mapSelectedBlocks : List uint256} {stop : Int}
    {nStakeModifierPrev : UInt64} (blocks : List CBlockIndex)
    (indexed : ∀ pindex ∈ blocks, LookupBlockIndex pindex.phashBlock = some pindex)
    (best : Option CBlockIndex) :
    SelectCandidatesLoop sha256 LookupBlockIndex mapSelectedBlocks stop nStakeModifierPrev
        (best.map fun pindex => (pindex, SelectionHash sha256 nStakeModifierPrev pindex))
        (blocks.map CandidateOf) =
      some ((scanLeast (SelectionHash sha256 nStakeModifierPrev)
          (fun pindex => decide (pindex.phashBlock ∈ mapSelectedBlocks))
          (fun pindex => decide (pindex.GetBlockTime > stop)) best blocks).map
        fun pindex => (pindex, SelectionHash sha256 nStakeModifierPrev pindex)) := by
  induction blocks generalizing best with
  | nil => rfl
  | cons x xs ih =>
      have found : LookupBlockIndex (CandidateOf x).2 = some x := indexed x List.mem_cons_self
      have rest := fun pindex member => indexed pindex (List.mem_cons_of_mem x member)
      rw [List.map_cons, SelectCandidatesLoop, found, scanLeast]
      dsimp only
      cases best with
      | none =>
          simp only [Option.map_none, Option.isSome_none, Bool.false_and, Bool.false_eq_true,
            if_false]
          by_cases skipped : x.phashBlock ∈ mapSelectedBlocks
          · rw [if_pos skipped, if_pos (decide_eq_true skipped)]
            exact ih rest none
          · rw [if_neg skipped, if_neg (by simpa using skipped)]
            exact ih rest (some x)
      | some chosen =>
          simp only [Option.map_some, Option.isSome_some, Bool.true_and]
          by_cases past : x.GetBlockTime > stop
          · have late : decide (x.GetBlockTime > stop) = true := decide_eq_true past
            rw [if_pos late, if_pos late]
            rfl
          · have notLate : ¬ decide (x.GetBlockTime > stop) = true := by simpa using past
            rw [if_neg notLate, if_neg notLate]
            by_cases skipped : x.phashBlock ∈ mapSelectedBlocks
            · rw [if_pos skipped, if_pos (decide_eq_true skipped)]
              exact ih rest (some chosen)
            · have kept : ¬ decide (x.phashBlock ∈ mapSelectedBlocks) = true := by
                simpa using skipped
              rw [if_neg skipped, if_neg kept, Option.getD_some, keepLeast]
              -- the source keeps the earlier block unless the new hash is strictly smaller
              by_cases smaller : SelectionHash sha256 nStakeModifierPrev x <
                  SelectionHash sha256 nStakeModifierPrev chosen
              · rw [if_pos smaller, if_pos smaller]
                exact ih rest (some x)
              · rw [if_neg smaller, if_neg smaller]
                exact ih rest (some chosen)

/-- Over candidates sorted by time and all in the block index, the round
takes the block `ReferenceChoice` describes. -/
theorem SelectBlockFromCandidates_eq_ReferenceChoice {sorted : List CBlockIndex}
    (indexed : ∀ pindex ∈ sorted, LookupBlockIndex pindex.phashBlock = some pindex)
    (sortedBy : SortedBy CandidateLess (sorted.map CandidateOf)) (mapSelectedBlocks : List uint256)
    (stop : Int) (nStakeModifierPrev : UInt64) :
    SelectBlockFromCandidates sha256 LookupBlockIndex (sorted.map CandidateOf) mapSelectedBlocks stop
        nStakeModifierPrev =
      ReferenceChoice (SelectionHash sha256 nStakeModifierPrev) stop mapSelectedBlocks sorted := by
  -- being past the stop carries over along a list sorted by time
  have inherited : sorted.Pairwise fun x y =>
      decide (x.GetBlockTime > stop) = true → decide (y.GetBlockTime > stop) = true := by
    apply (List.pairwise_map.mp sortedBy).imp
    intro x y notBefore past
    have later := time_le_of_sortedBy notBefore
    simp only [CandidateOf] at later
    simp only [decide_eq_true_eq] at past ⊢
    omega
  have loop := @SelectCandidatesLoop_eq_scanLeast sha256 LookupBlockIndex mapSelectedBlocks stop
    nStakeModifierPrev sorted indexed none
  rw [Option.map_none] at loop
  unfold SelectBlockFromCandidates ReferenceChoice
  rw [loop, scanLeast_none sorted inherited]
  cases sorted.filter fun pindex => !decide (pindex.phashBlock ∈ mapSelectedBlocks) with
  | nil => rfl
  | cons first rest => rfl

end Select

/-! ## The rounds -/

theorem ReferenceChoice_spec {score : CBlockIndex → Nat} {stop : Int} {selected : List uint256}
    {sorted : List CBlockIndex} {chosen : CBlockIndex}
    (choice : ReferenceChoice score stop selected sorted = some chosen) :
    chosen ∈ sorted ∧ chosen.phashBlock ∉ selected := by
  unfold ReferenceChoice at choice
  split at choice
  · cases choice
  · rename_i first rest unselected
    cases choice
    have fromList := @leastOf_mem CBlockIndex score first
      (rest.filter fun pindex => !decide (pindex.GetBlockTime > stop))
    have inFilter : leastOf score first
        (rest.filter fun pindex => !decide (pindex.GetBlockTime > stop)) ∈ first :: rest := by
      rcases List.mem_cons.mp fromList with here | later
      · rw [here]
        exact List.mem_cons_self
      · exact List.mem_cons_of_mem _ (List.mem_filter.mp later).1
    rw [← unselected] at inFilter
    obtain ⟨member, kept⟩ := List.mem_filter.mp inFilter
    exact ⟨member, by simpa using kept⟩

theorem ReferenceChoice_of_unselected {score : CBlockIndex → Nat} {stop : Int}
    {selected : List uint256} {sorted : List CBlockIndex} {pindex : CBlockIndex}
    (member : pindex ∈ sorted) (unselected : pindex.phashBlock ∉ selected) :
    ∃ chosen, ReferenceChoice score stop selected sorted = some chosen := by
  have nonempty : sorted.filter (fun pindex => !decide (pindex.phashBlock ∈ selected)) ≠ [] := by
    intro empty
    rw [List.filter_eq_nil_iff] at empty
    simp only [Bool.not_eq_eq_eq_not, Bool.not_true, decide_eq_false_iff_not, not_not] at empty
    exact unselected (empty pindex member)
  unfold ReferenceChoice
  split
  · contradiction
  · exact ⟨_, rfl⟩

/-- The blocks the first `r` rounds take are `r` different candidates. -/
theorem ReferenceSelections_spec {params : ConsensusParams} {score : CBlockIndex → Nat}
    {start : Int} {sorted : List CBlockIndex} (r : Nat) {selected : List CBlockIndex}
    (taken : ReferenceSelections params score start sorted r = some selected) :
    selected.length = r ∧ (∀ pindex ∈ selected, pindex ∈ sorted) ∧
      (selected.map CBlockIndex.phashBlock).Nodup := by
  induction r generalizing selected with
  | zero =>
      cases taken
      exact ⟨rfl, (fun _ member => by cases member), List.nodup_nil⟩
  | succ r ih =>
      simp only [ReferenceSelections, Option.bind_eq_bind, Option.bind_eq_some_iff,
        Option.pure_def, Option.some.injEq] at taken
      obtain ⟨before, previous, chosen, choice, rfl⟩ := taken
      obtain ⟨length, within, distinct⟩ := ih previous
      obtain ⟨member, unselected⟩ := ReferenceChoice_spec choice
      refine ⟨by simp [length], ?_, ?_⟩
      · intro pindex inSelected
        rcases List.mem_append.mp inSelected with earlier | last
        · exact within pindex earlier
        · rw [List.mem_singleton.mp last]
          exact member
      · rw [List.map_append, List.nodup_append]
        refine ⟨distinct, List.nodup_singleton _, ?_⟩
        intro hash earlier hash' last same
        rw [List.mem_singleton.mp last] at same
        rw [same] at earlier
        exact unselected earlier

/-! ## The modifier's bits -/

theorem GetStakeEntropyBit_toNat_le (pindex : CBlockIndex) : pindex.GetStakeEntropyBit.toNat ≤ 1 := by
  have masked : pindex.nFlags.toNat &&& 2 ≤ 2 := Nat.and_le_right
  simp only [CBlockIndex.GetStakeEntropyBit, CBlockIndex.BLOCK_STAKE_ENTROPY, UInt32.toNat_shiftRight,
    UInt32.toNat_and]
  simp only [show ((1 : UInt32) <<< 1).toNat = 2 from rfl, show (1 : UInt32).toNat % 32 = 1 from rfl,
    Nat.shiftRight_one]
  omega

theorem EntropySum_append (selected : List CBlockIndex) (chosen : CBlockIndex) :
    EntropySum (selected ++ [chosen]) =
      EntropySum selected + chosen.GetStakeEntropyBit.toNat * 2 ^ selected.length := by
  induction selected with
  | nil => simp [EntropySum]
  | cons pindex rest ih =>
      simp only [List.cons_append, EntropySum, ih, List.length_cons, Nat.pow_succ]
      rw [← Nat.mul_assoc]
      omega

theorem EntropySum_lt (selected : List CBlockIndex) : EntropySum selected < 2 ^ selected.length := by
  induction selected with
  | nil => simp [EntropySum]
  | cons pindex rest ih =>
      have bit := GetStakeEntropyBit_toNat_le pindex
      simp only [EntropySum, List.length_cons, Nat.pow_succ]
      omega

/-- Setting bit `r` of a modifier whose bits from `r` on are clear adds it. -/
theorem or_entropy_bit {nStakeModifierNew : UInt64} {r : Nat} (below : nStakeModifierNew.toNat < 2 ^ r)
    (inRange : r < 64) (pindex : CBlockIndex) :
    (nStakeModifierNew ||| (pindex.GetStakeEntropyBit.toUInt64 <<< r.toUInt64)).toNat =
      nStakeModifierNew.toNat + pindex.GetStakeEntropyBit.toNat * 2 ^ r := by
  have bit := GetStakeEntropyBit_toNat_le pindex
  have shift : (r.toUInt64.toNat % 64) = r := by
    simp only [Nat.toUInt64_eq, UInt64.toNat_ofNat']
    omega
  have fits : pindex.GetStakeEntropyBit.toNat * 2 ^ r < 2 ^ 64 :=
    calc pindex.GetStakeEntropyBit.toNat * 2 ^ r ≤ 1 * 2 ^ r := Nat.mul_le_mul_right _ bit
      _ < 2 ^ 64 := by
        rw [Nat.one_mul]
        exact Nat.pow_lt_pow_right (by decide) inRange
  rw [UInt64.toNat_or, UInt64.toNat_shiftLeft, UInt32.toNat_toUInt64, shift, Nat.shiftLeft_eq,
    Nat.mod_eq_of_lt fits]
  rcases Nat.le_one_iff_eq_zero_or_eq_one.mp bit with zero | one
  · rw [zero, Nat.zero_mul, Nat.or_zero, Nat.add_zero]
  · rw [one, Nat.one_mul, Nat.or_two_pow_eq_add_of_lt below]

/-! ## The rounds take the blocks described, with their bits -/

theorem SelectionStop_succ (params : ConsensusParams) (start : Int) (r : Nat) :
    SelectionStop params start (r + 1) =
      SelectionStop params start r + GetStakeModifierSelectionIntervalSection params (r + 1) := by
  simp only [SelectionStop, List.range_succ, List.map_append, List.sum_append, List.map_cons,
    List.map_nil, List.sum_cons, List.sum_nil]
  omega

/-- When fewer than all candidates are taken, one is left. -/
theorem exists_unselected {sorted selected : List CBlockIndex}
    (distinct : (sorted.map CBlockIndex.phashBlock).Nodup) (fewer : selected.length < sorted.length) :
    ∃ pindex ∈ sorted, pindex.phashBlock ∉ selected.map CBlockIndex.phashBlock := by
  apply Classical.byContradiction
  intro allTaken
  have covered : sorted.map CBlockIndex.phashBlock ⊆ selected.map CBlockIndex.phashBlock := by
    intro hash member
    obtain ⟨pindex, inSorted, rfl⟩ := List.mem_map.mp member
    apply Classical.byContradiction
    intro missing
    exact allTaken ⟨pindex, inSorted, missing⟩
  have tooMany := distinct.length_le_of_subset covered
  simp only [List.length_map] at tooMany
  omega

section Rounds

variable (sha256 : List UInt8 → uint256) (LookupBlockIndex : uint256 → Option CBlockIndex)
  {params : ConsensusParams} {sorted : List CBlockIndex} {nStakeModifier : UInt64} {start : Int}

/-- From round `r` on, the rounds take the blocks `ReferenceSelections`
describes and set their entropy bits.  The induction is on the rounds left;
its invariant is that the hashes selected and the bits set so far are those
of the blocks taken so far. -/
theorem SelectionRounds_reference
    (indexed : ∀ pindex ∈ sorted, LookupBlockIndex pindex.phashBlock = some pindex)
    (distinct : (sorted.map CBlockIndex.phashBlock).Nodup)
    (sortedBy : SortedBy CandidateLess (sorted.map CandidateOf))
    (rounds r : Nat) (enough : r + rounds ≤ min 64 sorted.length) {stop : Int}
    (stopIn : stop + GetStakeModifierSelectionIntervalSection params r = SelectionStop params start r)
    {selected : List CBlockIndex}
    (taken : ReferenceSelections params (SelectionHash sha256 nStakeModifier) start sorted r =
      some selected)
    {nStakeModifierNew : UInt64} (bits : nStakeModifierNew.toNat = EntropySum selected) :
    ∃ final modifier,
      ReferenceSelections params (SelectionHash sha256 nStakeModifier) start sorted (r + rounds) =
        some final ∧
      SelectionRounds sha256 LookupBlockIndex params (sorted.map CandidateOf) nStakeModifier rounds r
        stop nStakeModifierNew (selected.map CBlockIndex.phashBlock) = .ok modifier ∧
      modifier.toNat = EntropySum final := by
  induction rounds generalizing r stop selected nStakeModifierNew with
  | zero => exact ⟨selected, nStakeModifierNew, taken, rfl, bits⟩
  | succ rounds ih =>
      obtain ⟨length, -, -⟩ := ReferenceSelections_spec r taken
      have fewer : selected.length < sorted.length := by omega
      obtain ⟨pindex, member, unselected⟩ := exists_unselected distinct fewer
      obtain ⟨chosen, choice⟩ := @ReferenceChoice_of_unselected (SelectionHash sha256 nStakeModifier)
        (SelectionStop params start r) _ _ _ member unselected
      -- this round takes `chosen`, as the description does
      have pick : SelectBlockFromCandidates sha256 LookupBlockIndex (sorted.map CandidateOf)
          (selected.map CBlockIndex.phashBlock) (stop + GetStakeModifierSelectionIntervalSection params r)
          nStakeModifier = some chosen := by
        rw [stopIn, SelectBlockFromCandidates_eq_ReferenceChoice sha256 LookupBlockIndex indexed sortedBy]
        exact choice
      have takenNext : ReferenceSelections params (SelectionHash sha256 nStakeModifier) start sorted
          (r + 1) = some (selected ++ [chosen]) := by
        simp [ReferenceSelections, taken, choice]
      have stopNext : stop + GetStakeModifierSelectionIntervalSection params r +
          GetStakeModifierSelectionIntervalSection params (r + 1) = SelectionStop params start (r + 1) := by
        rw [stopIn, SelectionStop_succ]
      have bitsNext : (nStakeModifierNew ||| (chosen.GetStakeEntropyBit.toUInt64 <<< r.toUInt64)).toNat =
          EntropySum (selected ++ [chosen]) := by
        have below : nStakeModifierNew.toNat < 2 ^ r := by
          rw [bits, ← length]
          exact EntropySum_lt selected
        rw [or_entropy_bit below (by omega), EntropySum_append, bits, length]
      obtain ⟨final, modifier, takenFinal, run, finalBits⟩ :=
        ih (r + 1) (by omega) stopNext takenNext bitsNext
      refine ⟨final, modifier, ?_, ?_, finalBits⟩
      · rw [show r + (rounds + 1) = r + 1 + rounds by omega]
        exact takenFinal
      · rw [SelectionRounds, pick]
        simp only [List.map_append, List.map_cons, List.map_nil] at run
        exact run

end Rounds

/-- The blocks `ComputeNextStakeModifier` walks through: `pindexPrev` and its
ancestors, back to the first one before the start of the selection
interval. -/
def CandidateBlocks (params : ConsensusParams) (pindexPrev : CBlockIndex)
    (ancestors : List CBlockIndex) : List CBlockIndex :=
  (pindexPrev :: ancestors).takeWhile fun pindex =>
    decide (pindex.GetBlockTime ≥ SelectionIntervalStart params pindexPrev)

theorem StakeModifierCandidates_map (params : ConsensusParams) (pindexPrev : CBlockIndex)
    (ancestors : List CBlockIndex) :
    StakeModifierCandidates ((pindexPrev :: ancestors).map CandidateOf)
        (SelectionIntervalStart params pindexPrev) =
      (CandidateBlocks params pindexPrev ancestors).map CandidateOf := by
  unfold StakeModifierCandidates CandidateBlocks
  rw [List.takeWhile_map]
  rfl

/-- The block index as a map from hashes to the entries of `chain`. -/
def chainLookup (chain : List CBlockIndex) (hash : uint256) : Option CBlockIndex :=
  chain.find? fun pindex => pindex.phashBlock == hash

def skewParent : CBlockIndex := indexEntry 5 5 0 2160000 0 0

def skewBefore : CBlockIndex := indexEntry 4 4 0 1398070 0 0

def skewAfter : CBlockIndex := indexEntry 3 3 0 1398090 0 2

def skewAncestors : List CBlockIndex :=
  [skewBefore, skewAfter, indexEntry 2 2 0 1002 0 0, indexEntry 1 1 0 1001 0 0,
    indexEntry 0 0 0 1000 0 4]

def skewChain : List CBlockIndex := skewParent :: skewAncestors

/-- The block whose modifier is computed, ten minutes after the parent. -/
def skewCurrent : CBlockIndex := indexEntry 6 6 0 2160600 0 0

theorem skewChain_candidates : CandidateBlocks mainParams skewParent skewAncestors = [skewParent] :=
  rfl

end Peercoin.Kernel
