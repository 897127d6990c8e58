import PeercoinFormal.Validation.Context
import PeercoinFormal.Ledger.Result

/-!
# validation.cpp: PeercoinContextualBlockChecks

The proof-of-stake checks of a block against its index entry: the stake
kernel, the two duplicate-stake checks, the stake modifier and its
checkpoint, and then the writes into the entry.  `setStakeSeen`, a global of
the source, is passed in and returned.  On a duplicate stake found on the
entry itself the source also invalidates the entry; the model keeps only the
error.
-/

set_option autoImplicit false

namespace Peercoin.Validation

open Peercoin.Primitives Peercoin.Chain Ledger

/-- `setStakeSeen`: the stakes, a prevout and a time, recorded so far. -/
abbrev StakeSeen := List (COutPoint × UInt32)

/-- The kernel check of `PeercoinContextualBlockChecks`: the hash proof of a
proof-of-stake block, or `uint256()` for a proof-of-work block. -/
def ProofOfStakeHash (ctx : Context) (block : CBlock) (pprev : Option CBlockIndex) :
    Except String uint256 :=
  match block.coinstake? with
  | some coinstake =>
    if block.IsProofOfStake then
      getOrFail "check proof-of-stake failed"
        (ctx.CheckProofOfStake pprev coinstake block.nBits (if coinstake.nTime ≠ 0 then coinstake.nTime else block.nTime))
    else .ok uint256.ZERO
  | none => .ok uint256.ZERO

/-- The writes of `PeercoinContextualBlockChecks` into the entry when not
only checking. -/
def WriteStakeFields (block : CBlock) (pindex : CBlockIndex) (hashProofOfStake : uint256)
    (setStakeSeen : StakeSeen) : CBlockIndex × StakeSeen :=
  if block.IsProofOfStake then
    let pindex := { pindex with
      prevoutStake := block.GetProofOfStake.1
      nStakeTime := ((block.coinstake?.map CTransaction.nTime).getD 0)
      hashProofOfStake }
    (pindex, (pindex.prevoutStake, pindex.nTime) :: setStakeSeen)
  else (pindex, setStakeSeen)

def PeercoinContextualBlockChecks (ctx : Context) (block : CBlock) (pindex : CBlockIndex)
    (pprev : Option CBlockIndex) (fJustCheck : Bool) (setStakeSeen : StakeSeen) :
    Except String (CBlockIndex × StakeSeen) := do
  let hashProofOfStake ← ProofOfStakeHash ctx block pprev
  rejectIf (block.IsProofOfStake && pindex.IsProofOfStake &&
      block.GetProofOfStake.1 == pindex.prevoutStake) "Duplicate coinstake found"
  rejectIf (block.IsProofOfStake && setStakeSeen.contains block.GetProofOfStake)
    "Duplicate coinstake found"
  let nEntropyBit := ctx.GetStakeEntropyBit block
  let (nStakeModifier, fGeneratedStakeModifier) ←
    getOrFail "ComputeNextStakeModifier() failed" (ctx.ComputeNextStakeModifier pindex)
  -- the checksum is of the entry with its stake fields set; the entry itself is restored
  let withEntropy ← getOrFail "SetStakeEntropyBit() failed" (pindex.SetStakeEntropyBit nEntropyBit)
  let nStakeModifierChecksum := ctx.GetStakeModifierChecksum
    { withEntropy.SetStakeModifier nStakeModifier fGeneratedStakeModifier with hashProofOfStake }
  rejectIf (!ctx.CheckStakeModifierCheckpoints pindex.nHeight nStakeModifierChecksum)
    "Rejected by stake modifier checkpoint"
  if fJustCheck then pure (pindex, setStakeSeen)
  else
    let written := WriteStakeFields block pindex hashProofOfStake setStakeSeen
    let pindex ← getOrFail "SetStakeEntropyBit() failed" (written.1.SetStakeEntropyBit nEntropyBit)
    pure ({ pindex.SetStakeModifier nStakeModifier fGeneratedStakeModifier with
      nStakeModifierChecksum }, written.2)

/-- What a successful check leaves in the entry: the entry itself when only
checking, else the entry with its stake fields written and its entropy bit,
stake modifier and checksum set. -/
theorem PeercoinContextualBlockChecks_ok {ctx : Context} {block : CBlock}
    {pindex pindex' : CBlockIndex} {pprev : Option CBlockIndex} {fJustCheck : Bool}
    {setStakeSeen setStakeSeen' : StakeSeen}
    (checked : PeercoinContextualBlockChecks ctx block pindex pprev fJustCheck setStakeSeen =
      .ok (pindex', setStakeSeen')) :
    pindex' = pindex ∨
      ∃ hashProofOfStake nEntropyBit nStakeModifier fGenerated nStakeModifierChecksum entropySet,
        (WriteStakeFields block pindex hashProofOfStake setStakeSeen).1.SetStakeEntropyBit
          nEntropyBit = some entropySet ∧
        pindex' = { entropySet.SetStakeModifier nStakeModifier fGenerated with
          nStakeModifierChecksum } := by
  unfold PeercoinContextualBlockChecks at checked
  obtain ⟨hashProofOfStake, -, checked⟩ := bind_eq_ok.mp checked
  obtain ⟨⟨⟩, -, checked⟩ := bind_eq_ok.mp checked
  obtain ⟨⟨⟩, -, checked⟩ := bind_eq_ok.mp checked
  obtain ⟨⟨nStakeModifier, fGenerated⟩, -, checked⟩ := bind_eq_ok.mp checked
  obtain ⟨withEntropy, -, checked⟩ := bind_eq_ok.mp checked
  obtain ⟨⟨⟩, -, checked⟩ := bind_eq_ok.mp checked
  cases fJustCheck
  · obtain ⟨entropySet, setEntropy, done⟩ := bind_eq_ok.mp checked
    cases done
    exact .inr ⟨hashProofOfStake, _, nStakeModifier, fGenerated, _, entropySet,
      getOrFail_eq_ok.mp setEntropy, rfl⟩
  · cases checked
    exact .inl rfl

/-- The stake fields written leave the entry's flags, height, time and hash. -/
theorem WriteStakeFields_keeps (block : CBlock) (pindex : CBlockIndex) (hashProofOfStake : uint256)
    (setStakeSeen : StakeSeen) :
    let written := (WriteStakeFields block pindex hashProofOfStake setStakeSeen).1
    written.nFlags = pindex.nFlags ∧ written.nHeight = pindex.nHeight ∧
      written.nTime = pindex.nTime ∧ written.phashBlock = pindex.phashBlock := by
  unfold WriteStakeFields
  split <;> exact ⟨rfl, rfl, rfl, rfl⟩

theorem SetStakeEntropyBit_keeps {index later : CBlockIndex} {nEntropyBit : UInt32}
    (set : index.SetStakeEntropyBit nEntropyBit = some later) :
    later.nHeight = index.nHeight ∧ later.nTime = index.nTime ∧
      later.phashBlock = index.phashBlock := by
  unfold CBlockIndex.SetStakeEntropyBit at set
  split at set
  · cases set
  · cases set
    exact ⟨rfl, rfl, rfl⟩

/-- The checks never clear a flag of the entry. -/
theorem PeercoinContextualBlockChecks_FlagsGrow {ctx : Context} {block : CBlock}
    {pindex pindex' : CBlockIndex} {pprev : Option CBlockIndex} {fJustCheck : Bool}
    {setStakeSeen setStakeSeen' : StakeSeen}
    (checked : PeercoinContextualBlockChecks ctx block pindex pprev fJustCheck setStakeSeen =
      .ok (pindex', setStakeSeen')) :
    CBlockIndex.FlagsGrow pindex pindex' := by
  rcases PeercoinContextualBlockChecks_ok checked with rfl | ⟨hash, bit, modifier, generated, checksum,
    entropySet, setEntropy, rfl⟩
  · exact CBlockIndex.FlagsGrow.refl _
  · have written : CBlockIndex.FlagsGrow pindex (WriteStakeFields block pindex hash setStakeSeen).1 :=
      ⟨0, by rw [(WriteStakeFields_keeps block pindex hash setStakeSeen).1]; simp⟩
    exact (written.trans (CBlockIndex.FlagsGrow.SetStakeEntropyBit setEntropy)).trans
      (CBlockIndex.FlagsGrow.SetStakeModifier entropySet modifier generated)

/-- The checks leave the entry's height, time and hash. -/
theorem PeercoinContextualBlockChecks_keeps {ctx : Context} {block : CBlock}
    {pindex pindex' : CBlockIndex} {pprev : Option CBlockIndex} {fJustCheck : Bool}
    {setStakeSeen setStakeSeen' : StakeSeen}
    (checked : PeercoinContextualBlockChecks ctx block pindex pprev fJustCheck setStakeSeen =
      .ok (pindex', setStakeSeen')) :
    pindex'.nHeight = pindex.nHeight ∧ pindex'.nTime = pindex.nTime ∧
      pindex'.phashBlock = pindex.phashBlock := by
  rcases PeercoinContextualBlockChecks_ok checked with rfl | ⟨hash, bit, modifier, generated, checksum,
    entropySet, setEntropy, rfl⟩
  · exact ⟨rfl, rfl, rfl⟩
  · obtain ⟨-, height, time, hashBlock⟩ := WriteStakeFields_keeps block pindex hash setStakeSeen
    obtain ⟨height', time', hashBlock'⟩ := SetStakeEntropyBit_keeps setEntropy
    exact ⟨height'.trans height, time'.trans time, hashBlock'.trans hashBlock⟩

/-! ## The duplicate-stake guard -/

/-- What a successful check of a proof-of-stake block records in
`setStakeSeen`: the coinstake's prevout with the entry's time, where the
guard looks up the coinstake's own time. -/
theorem PeercoinContextualBlockChecks_stakeSeen {ctx : Context} {block : CBlock}
    {pindex pindex' : CBlockIndex} {pprev : Option CBlockIndex}
    {setStakeSeen setStakeSeen' : StakeSeen} (stake : block.IsProofOfStake = true)
    (checked : PeercoinContextualBlockChecks ctx block pindex pprev false setStakeSeen =
      .ok (pindex', setStakeSeen')) :
    setStakeSeen' = (block.GetProofOfStake.1, pindex.nTime) :: setStakeSeen := by
  unfold PeercoinContextualBlockChecks at checked
  obtain ⟨hashProofOfStake, -, checked⟩ := bind_eq_ok.mp checked
  obtain ⟨⟨⟩, -, checked⟩ := bind_eq_ok.mp checked
  obtain ⟨⟨⟩, -, checked⟩ := bind_eq_ok.mp checked
  obtain ⟨⟨nStakeModifier, fGenerated⟩, -, checked⟩ := bind_eq_ok.mp checked
  obtain ⟨withEntropy, -, checked⟩ := bind_eq_ok.mp checked
  obtain ⟨⟨⟩, -, checked⟩ := bind_eq_ok.mp checked
  obtain ⟨entropySet, -, done⟩ := bind_eq_ok.mp checked
  cases done
  simp [WriteStakeFields, stake]

/-- The guard: a proof-of-stake block whose kernel checks out and whose stake
is in `setStakeSeen` is rejected as a duplicate. -/
theorem PeercoinContextualBlockChecks_duplicate {ctx : Context} {block : CBlock}
    {pindex : CBlockIndex} {pprev : Option CBlockIndex} {fJustCheck : Bool}
    {setStakeSeen : StakeSeen} {hashProofOfStake : uint256} (stake : block.IsProofOfStake = true)
    (kernel : ProofOfStakeHash ctx block pprev = .ok hashProofOfStake)
    (seen : setStakeSeen.contains block.GetProofOfStake = true) :
    PeercoinContextualBlockChecks ctx block pindex pprev fJustCheck setStakeSeen =
      .error "Duplicate coinstake found" := by
  unfold PeercoinContextualBlockChecks
  rw [kernel, ok_bind]
  by_cases onEntry : (block.IsProofOfStake && pindex.IsProofOfStake &&
      block.GetProofOfStake.1 == pindex.prevoutStake) = true
  · rw [onEntry]
    rfl
  · rw [Bool.not_eq_true] at onEntry
    rw [onEntry, rejectIf_false, ok_bind, stake, seen]
    rfl

/-- After a successful check of a proof-of-stake block, the guard catches a
block with the same stake only when the coinstake's time is the entry's, or
the stake was seen before. -/
theorem PeercoinContextualBlockChecks_records_own_stake_iff {ctx : Context} {block : CBlock}
    {pindex pindex' : CBlockIndex} {pprev : Option CBlockIndex}
    {setStakeSeen setStakeSeen' : StakeSeen} (stake : block.IsProofOfStake = true)
    (checked : PeercoinContextualBlockChecks ctx block pindex pprev false setStakeSeen =
      .ok (pindex', setStakeSeen')) :
    setStakeSeen'.contains block.GetProofOfStake = true ↔
      block.GetProofOfStake.2 = pindex.nTime ∨ setStakeSeen.contains block.GetProofOfStake = true := by
  rw [PeercoinContextualBlockChecks_stakeSeen stake checked]
  obtain ⟨prevout, nTime⟩ := block.GetProofOfStake
  rw [List.contains_cons, Bool.or_eq_true, beq_iff_eq, Prod.mk.injEq]
  exact or_congr_left (and_iff_right rfl)

end Peercoin.Validation
