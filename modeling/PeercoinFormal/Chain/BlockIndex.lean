import Mathlib
import PeercoinFormal.Primitives.Block

/-!
# chain.h and node/blockstorage.cpp: block index entries

A `CBlockIndex` entry with the fields the validation model reads or writes:
the header fields, Peercoin's money supply, and its proof-of-stake fields
with the three flag bits.  The links `pprev` and `pskip` are not fields
here: a walk towards genesis only ever meets ancestors, so the models that
walk keep an entry's ancestors as a list.  The file positions, validity
status, sequence ids, chain trust and maximum time of an entry are left out.

The flag setters only ever set bits.  An entry takes its first flags from
the header it is built from, and `AddToBlockIndex` takes the proof-of-stake
bit from the header as well.
-/

set_option autoImplicit false

namespace Peercoin.Chain

open Peercoin.Primitives

structure CBlockIndex where
  phashBlock : uint256
  nHeight : Nat
  nVersion : Int32
  hashMerkleRoot : uint256
  nTime : UInt32
  nBits : UInt32
  nNonce : UInt32
  nMint : Int
  nMoneySupply : Int
  nFlags : UInt32
  nHeightStake : Nat
  nStakeModifier : UInt64
  nStakeModifierChecksum : UInt32
  prevoutStake : COutPoint
  nStakeTime : UInt32
  hashProofOfStake : uint256

namespace CBlockIndex

def BLOCK_PROOF_OF_STAKE : UInt32 := (1 : UInt32) <<< 0

def BLOCK_STAKE_ENTROPY : UInt32 := (1 : UInt32) <<< 1

def BLOCK_STAKE_MODIFIER : UInt32 := (1 : UInt32) <<< 2

/-- `CBlockIndex(const CBlockHeader&)`: the header's fields, its flags
included, and every other field at its default. -/
def ofHeader (block : CBlockHeader) : CBlockIndex where
  phashBlock := uint256.ZERO
  nHeight := 0
  nVersion := block.nVersion
  hashMerkleRoot := block.hashMerkleRoot
  nTime := block.nTime
  nBits := block.nBits
  nNonce := block.nNonce
  nMint := 0
  nMoneySupply := 0
  nFlags := block.nFlags
  nHeightStake := 0
  nStakeModifier := 0
  nStakeModifierChecksum := 0
  prevoutStake := ⟨uint256.ZERO, COutPoint.NULL_INDEX⟩
  nStakeTime := 0
  hashProofOfStake := uint256.ZERO

variable (index : CBlockIndex)

def GetBlockTime : Int := index.nTime.toNat

def IsProofOfWork : Bool := index.nFlags &&& BLOCK_PROOF_OF_STAKE == 0

def IsProofOfStake : Bool := index.nFlags &&& BLOCK_PROOF_OF_STAKE != 0

def SetProofOfStake : CBlockIndex := { index with nFlags := index.nFlags ||| BLOCK_PROOF_OF_STAKE }

def GetStakeEntropyBit : UInt32 := (index.nFlags &&& BLOCK_STAKE_ENTROPY) >>> 1

/-- `SetStakeEntropyBit`; `none` is its `false`. -/
def SetStakeEntropyBit (nEntropyBit : UInt32) : Option CBlockIndex :=
  if nEntropyBit > 1 then none
  else some { index with
    nFlags := index.nFlags ||| (if nEntropyBit ≠ 0 then BLOCK_STAKE_ENTROPY else 0) }

def GeneratedStakeModifier : Bool := index.nFlags &&& BLOCK_STAKE_MODIFIER != 0

def SetStakeModifier (nModifier : UInt64) (fGeneratedStakeModifier : Bool) : CBlockIndex :=
  { index with
    nStakeModifier := nModifier
    nFlags := if fGeneratedStakeModifier then index.nFlags ||| BLOCK_STAKE_MODIFIER
      else index.nFlags }

end CBlockIndex

/-- `BlockManager::AddToBlockIndex` for a header not yet in the index, whose
parent entry, if the index has one, is `pprev`.  The chain trust, the best
header and `pskip` are not modelled. -/
def AddToBlockIndex (sha256 : List UInt8 → uint256) (block : CBlockHeader)
    (pprev : Option CBlockIndex) : CBlockIndex :=
  let pindexNew := { CBlockIndex.ofHeader block with phashBlock := block.GetHash sha256 }
  let pindexNew := match pprev with
    | none => pindexNew
    | some pprev =>
      { pindexNew with
        nHeight := pprev.nHeight + 1
        nHeightStake := pprev.nHeightStake + (block.nFlags &&& CBlockIndex.BLOCK_PROOF_OF_STAKE).toNat }
  if block.nFlags &&& CBlockIndex.BLOCK_PROOF_OF_STAKE != 0 then pindexNew.SetProofOfStake
  else pindexNew

/-! ## The setters only set bits -/

namespace CBlockIndex

/-- `later` carries every flag `index` has, and maybe more. -/
def FlagsGrow (index later : CBlockIndex) : Prop := ∃ bits, later.nFlags = index.nFlags ||| bits

theorem FlagsGrow.refl (index : CBlockIndex) : FlagsGrow index index :=
  ⟨0, by simp⟩

theorem FlagsGrow.trans {index middle later : CBlockIndex} (first : FlagsGrow index middle)
    (second : FlagsGrow middle later) : FlagsGrow index later := by
  obtain ⟨bits, firstFlags⟩ := first
  obtain ⟨bits', secondFlags⟩ := second
  exact ⟨bits ||| bits', by rw [secondFlags, firstFlags, UInt32.or_assoc]⟩

theorem FlagsGrow.SetProofOfStake (index : CBlockIndex) : FlagsGrow index index.SetProofOfStake :=
  ⟨_, rfl⟩

theorem FlagsGrow.SetStakeEntropyBit {index later : CBlockIndex} {nEntropyBit : UInt32}
    (set : index.SetStakeEntropyBit nEntropyBit = some later) : FlagsGrow index later := by
  unfold CBlockIndex.SetStakeEntropyBit at set
  split at set
  · cases set
  · cases set
    exact ⟨_, rfl⟩

theorem FlagsGrow.SetStakeModifier (index : CBlockIndex) (nModifier : UInt64)
    (fGeneratedStakeModifier : Bool) :
    FlagsGrow index (index.SetStakeModifier nModifier fGeneratedStakeModifier) := by
  cases fGeneratedStakeModifier
  · exact ⟨0, by simp [CBlockIndex.SetStakeModifier]⟩
  · exact ⟨_, rfl⟩

/-- A flag bit, once set, stays set. -/
theorem FlagsGrow.keeps {index later : CBlockIndex} (grows : FlagsGrow index later)
    {mask : UInt32} (set : index.nFlags &&& mask ≠ 0) : later.nFlags &&& mask ≠ 0 := by
  obtain ⟨bits, flags⟩ := grows
  have distrib : (index.nFlags ||| bits) &&& mask = (index.nFlags &&& mask) ||| (bits &&& mask) :=
    UInt32.toBitVec_inj.1 BitVec.and_or_distrib_right
  rw [flags, distrib]
  intro zero
  exact set (UInt32.or_eq_zero_iff.mp zero).1

theorem FlagsGrow.IsProofOfStake {index later : CBlockIndex} (grows : FlagsGrow index later)
    (stake : index.IsProofOfStake = true) : later.IsProofOfStake = true := by
  simp only [CBlockIndex.IsProofOfStake, bne_iff_ne, ne_eq] at stake ⊢
  exact grows.keeps stake

theorem IsProofOfStake_SetProofOfStake (index : CBlockIndex) :
    index.SetProofOfStake.IsProofOfStake = true := by
  have distrib : (index.nFlags ||| BLOCK_PROOF_OF_STAKE) &&& BLOCK_PROOF_OF_STAKE =
      (index.nFlags &&& BLOCK_PROOF_OF_STAKE) ||| (BLOCK_PROOF_OF_STAKE &&& BLOCK_PROOF_OF_STAKE) :=
    UInt32.toBitVec_inj.1 BitVec.and_or_distrib_right
  simp only [IsProofOfStake, SetProofOfStake, bne_iff_ne, ne_eq, distrib, UInt32.and_self,
    UInt32.or_eq_zero_iff]
  intro zero
  exact absurd zero.2 (by decide)

end CBlockIndex

/-- `AddToBlockIndex` makes a proof-of-stake entry of every header with the
stake flag set. -/
theorem AddToBlockIndex_IsProofOfStake (sha256 : List UInt8 → uint256) (block : CBlockHeader)
    (pprev : Option CBlockIndex) (flagged : block.nFlags &&& CBlockIndex.BLOCK_PROOF_OF_STAKE ≠ 0) :
    (AddToBlockIndex sha256 block pprev).IsProofOfStake = true := by
  unfold AddToBlockIndex
  rw [if_pos (by simpa using flagged)]
  exact CBlockIndex.IsProofOfStake_SetProofOfStake _

/-! ## The active chain -/

/-- `CChain`: the blocks of the active chain, the one at height `h` at
position `h`. -/
structure CChain where
  vChain : List CBlockIndex

namespace CChain

/-- `CChain::Contains`: the active chain's block at the entry's height is
the entry. -/
def Contains (chain : CChain) (pindex : CBlockIndex) : Bool :=
  chain.vChain[pindex.nHeight]?.map CBlockIndex.phashBlock == some pindex.phashBlock

/-- `CChain::Next`: the block after the entry, if the entry is on the active
chain and is not its tip. -/
def Next (chain : CChain) (pindex : CBlockIndex) : Option CBlockIndex :=
  if chain.Contains pindex then chain.vChain[pindex.nHeight + 1]? else none

end CChain

/-! ## Chains of ancestors

A walk towards genesis meets only ancestors, so the models that walk take a
block with its ancestors as a list, the block first and genesis last. -/

def nMedianTimeSpan : Nat := 11

/-- `CBlockIndex::GetMedianTimePast` of the head of `chain`: the middle one
of the times of the last `nMedianTimeSpan` entries, sorted.  Every sort of
a list of numbers gives the same list, `std::sort`'s as this one's. -/
def GetMedianTimePast (chain : List CBlockIndex) : Int :=
  let pmedian := ((chain.take nMedianTimeSpan).map CBlockIndex.GetBlockTime).insertionSort
    (· ≤ ·)
  pmedian.getD (pmedian.length / 2) 0

/-- The median is one of the times it is taken over. -/
theorem GetMedianTimePast_mem {chain : List CBlockIndex} (nonempty : chain ≠ []) :
    GetMedianTimePast chain ∈ (chain.take nMedianTimeSpan).map CBlockIndex.GetBlockTime := by
  have present : 0 < ((chain.take nMedianTimeSpan).map CBlockIndex.GetBlockTime).length := by
    cases chain with
    | nil => contradiction
    | cons pindex ancestors => simp [nMedianTimeSpan]
  unfold GetMedianTimePast
  generalize (chain.take nMedianTimeSpan).map CBlockIndex.GetBlockTime = times at present ⊢
  have perm := List.perm_insertionSort (fun a b : Int => a ≤ b) times
  have inside : (times.insertionSort (· ≤ ·)).length / 2 <
      (times.insertionSort (· ≤ ·)).length := by
    rw [perm.length_eq]
    omega
  simp only
  rw [List.getD_eq_getElem?_getD, List.getElem?_eq_getElem inside, Option.getD_some]
  exact perm.mem_iff.mp (List.getElem_mem inside)

/-- The heights along a chain, as `AddToBlockIndex` and `ConnectBlock` set
them: genesis at height zero, every other entry one above its parent, with a
stake height equal to its parent's or one more. -/
def HeightsLinked : List CBlockIndex → Prop
  | [] => True
  | [genesis] => genesis.nHeight = 0
  | block :: pprev :: ancestors =>
    block.nHeight = pprev.nHeight + 1 ∧ pprev.nHeightStake ≤ block.nHeightStake ∧
      block.nHeightStake ≤ pprev.nHeightStake + 1 ∧ HeightsLinked (pprev :: ancestors)

def decideHeightsLinked : (chain : List CBlockIndex) → Decidable (HeightsLinked chain)
  | [] => isTrue trivial
  | [genesis] => inferInstanceAs (Decidable (genesis.nHeight = 0))
  | block :: pprev :: ancestors =>
    have := decideHeightsLinked (pprev :: ancestors)
    inferInstanceAs (Decidable (block.nHeight = pprev.nHeight + 1 ∧
      pprev.nHeightStake ≤ block.nHeightStake ∧ block.nHeightStake ≤ pprev.nHeightStake + 1 ∧
      HeightsLinked (pprev :: ancestors)))

instance : DecidablePred HeightsLinked := decideHeightsLinked

namespace HeightsLinked

theorem tail {block : CBlockIndex} {ancestors : List CBlockIndex}
    (linked : HeightsLinked (block :: ancestors)) : HeightsLinked ancestors := by
  cases ancestors with
  | nil => trivial
  | cons pprev older => exact linked.2.2.2

theorem drop {chain : List CBlockIndex} (linked : HeightsLinked chain) (n : Nat) :
    HeightsLinked (chain.drop n) := by
  induction n generalizing chain with
  | zero => exact linked
  | succ n ih =>
    cases chain with
    | nil => trivial
    | cons block ancestors => exact ih linked.tail

/-- An entry's height is the number of its ancestors. -/
theorem nHeight_getElem {chain : List CBlockIndex} (linked : HeightsLinked chain) (i : Nat)
    (inChain : i < chain.length) : chain[i].nHeight = chain.length - 1 - i := by
  induction chain generalizing i with
  | nil => simp at inChain
  | cons block ancestors ih =>
    cases ancestors with
    | nil =>
      have first : i = 0 := by simp at inChain; omega
      subst first
      exact linked
    | cons pprev older =>
      cases i with
      | zero =>
        have parent := ih linked.tail 0 (by simp)
        simp only [List.getElem_cons_zero, List.length_cons] at parent ⊢
        rw [linked.1, parent]
        omega
      | succ i =>
        have older := ih linked.tail i (by simp at inChain ⊢; omega)
        simp only [List.getElem_cons_succ, List.length_cons] at older ⊢
        rw [older]
        omega

/-- Along `i` blocks the stake height grows by at most `i`. -/
theorem nHeightStake_getElem {chain : List CBlockIndex} (linked : HeightsLinked chain) (i : Nat)
    (inChain : i < chain.length) :
    chain[i].nHeightStake ≤ chain[0].nHeightStake ∧
      chain[0].nHeightStake ≤ chain[i].nHeightStake + i := by
  induction chain generalizing i with
  | nil => simp at inChain
  | cons block ancestors ih =>
    cases i with
    | zero => simp
    | succ i =>
      cases ancestors with
      | nil => simp at inChain
      | cons pprev older =>
        obtain ⟨_, grows, bounded, rest⟩ := linked
        have older := ih rest i (by simp at inChain ⊢; omega)
        simp only [List.getElem_cons_succ, List.getElem_cons_zero] at older ⊢
        omega

/-- No entry of a chain is higher than its head. -/
theorem nHeight_le_head {block : CBlockIndex} {ancestors : List CBlockIndex}
    (linked : HeightsLinked (block :: ancestors)) :
    ∀ b ∈ block :: ancestors, b.nHeight ≤ block.nHeight := by
  intro b member
  obtain ⟨i, inChain, rfl⟩ := List.getElem_of_mem member
  have head := linked.nHeight_getElem 0 (by simp)
  have entry := linked.nHeight_getElem i inChain
  simp only [List.getElem_cons_zero] at head
  omega

end HeightsLinked

end Peercoin.Chain
