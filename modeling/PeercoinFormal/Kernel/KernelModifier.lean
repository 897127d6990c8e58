import PeercoinFormal.Chain.Params

/-!
# kernel.cpp: the stake modifier a kernel hashes

`GetKernelStakeModifier` picks the stake modifier that a coinstake's kernel
hashes.  From protocol V05 on (`GetKernelStakeModifierV05`) it walks back
from the kernel's parent block to the nearest block that generated a
modifier and is older than the kernel by the minimum stake age less one
selection interval.  Before V05 (`GetKernelStakeModifierV03`) it walks
forward from the block holding the staked coin to the first generating
block a selection interval later.  That forward walk follows the active
chain with `CChain::Next` below the point where the kernel's branch leaves
it, and a reversed list `tmpChain` of the branch's own blocks above.

A block's ancestors are a list, the nearest first, as in `Pow.AsertAnchor`.
The forward walk is run with fuel; each of its steps moves up one height,
so the active chain's length and that of `tmpChain` bound it.
-/

set_option autoImplicit false

namespace Peercoin.Kernel

open Peercoin.Chain Peercoin.Pow Peercoin.Primitives

def MODIFIER_INTERVAL_RATIO : Int := 3

/-- `GetStakeModifierSelectionIntervalSection`, for `0 ≤ nSection < 64`. -/
def GetStakeModifierSelectionIntervalSection (params : ConsensusParams) (nSection : Nat) : Int :=
  params.nModifierInterval * 63 / (63 + (63 - (nSection : Int)) * ( MODIFIER_INTERVAL_RATIO - 1))

def GetStakeModifierSelectionInterval (params : ConsensusParams) : Int :=
  (List.range 64).foldl (fun nSelectionInterval nSection =>
    nSelectionInterval + GetStakeModifierSelectionIntervalSection params nSection) 0

def nProtocolV05SwitchTime : UInt32 := 1461700000

def nProtocolV05TestSwitchTime : UInt32 := 1447700000

def IsProtocolV05 (network : ChainType) (nTimeTx : UInt32) : Bool :=
  nTimeTx ≥ (if network ≠ .MAIN then nProtocolV05TestSwitchTime else nProtocolV05SwitchTime)

/-- What a kernel modifier lookup returns: the modifier, and the height and
time of the block it was taken from. -/
abbrev KernelModifier := UInt64 × Nat × Int

/-! ## From V05: back from the kernel's parent -/

section V05

variable (params : ConsensusParams) (nTimeTx : UInt32)

/-- The loop test of `GetKernelStakeModifierV05`: a modifier generated at
`nStakeModifierTime` is still too recent for a kernel at `nTimeTx`. -/
def TooRecent (nStakeModifierTime : Int) : Bool :=
  nStakeModifierTime + params.nStakeMinAge - GetStakeModifierSelectionInterval params >
    (nTimeTx.toNat : Int)

/-- The loop of `GetKernelStakeModifierV05` at `pindex`, over the ancestors
of `pindex`; `nStakeModifierHeight` and `nStakeModifierTime` are those of
the last generating block passed.  `none` is its `false`: genesis reached. -/
def ModifierV05Loop (pindex : CBlockIndex) (nStakeModifierHeight : Nat)
    (nStakeModifierTime : Int) : List CBlockIndex → Option KernelModifier
  | [] =>
    if TooRecent params nTimeTx nStakeModifierTime then none
    else some (pindex.nStakeModifier, nStakeModifierHeight, nStakeModifierTime)
  | pprev :: older =>
    if TooRecent params nTimeTx nStakeModifierTime then
      if pprev.GeneratedStakeModifier then
        ModifierV05Loop pprev pprev.nHeight pprev.GetBlockTime older
      else ModifierV05Loop pprev nStakeModifierHeight nStakeModifierTime older
    else some (pindex.nStakeModifier, nStakeModifierHeight, nStakeModifierTime)

/-- `GetKernelStakeModifierV05` for `pindexPrev` with its ancestors. -/
def GetKernelStakeModifierV05 (pindexPrev : CBlockIndex) (ancestors : List CBlockIndex) :
    Option KernelModifier :=
  if TooRecent params nTimeTx pindexPrev.GetBlockTime then
    ModifierV05Loop params nTimeTx pindexPrev pindexPrev.nHeight pindexPrev.GetBlockTime ancestors
  else none

/-- A block whose modifier a V05 kernel at `nTimeTx` may hash: it generated
one, long enough ago. -/
def SuitableV05 (block : CBlockIndex) : Bool :=
  block.GeneratedStakeModifier && !TooRecent params nTimeTx block.GetBlockTime

def modifierOf (block : CBlockIndex) : KernelModifier :=
  (block.nStakeModifier, block.nHeight, block.GetBlockTime)

theorem ModifierV05Loop_of_old {pindex : CBlockIndex} {nStakeModifierHeight : Nat}
    {nStakeModifierTime : Int} (old : TooRecent params nTimeTx nStakeModifierTime = false)
    (ancestors : List CBlockIndex) :
    ModifierV05Loop params nTimeTx pindex nStakeModifierHeight nStakeModifierTime ancestors =
      some (pindex.nStakeModifier, nStakeModifierHeight, nStakeModifierTime) := by
  cases ancestors <;> simp [ModifierV05Loop, old]

/-- The loop's invariant: the time it tests is too recent, so it stops only
at a block that is both generating and old enough, the first one back. -/
theorem ModifierV05Loop_eq_find (ancestors : List CBlockIndex) :
    ∀ (pindex : CBlockIndex) (nStakeModifierHeight : Nat) (nStakeModifierTime : Int),
      TooRecent params nTimeTx nStakeModifierTime = true →
      ModifierV05Loop params nTimeTx pindex nStakeModifierHeight nStakeModifierTime ancestors =
        (ancestors.find? (SuitableV05 params nTimeTx)).map modifierOf := by
  induction ancestors with
  | nil =>
    intro pindex nStakeModifierHeight nStakeModifierTime recent
    simp [ModifierV05Loop, recent]
  | cons pprev older ih =>
    intro pindex nStakeModifierHeight nStakeModifierTime recent
    rw [ModifierV05Loop.eq_2, if_pos recent]
    by_cases generated : pprev.GeneratedStakeModifier = true
    · rw [if_pos generated]
      cases old : TooRecent params nTimeTx pprev.GetBlockTime
      · have suitable : SuitableV05 params nTimeTx pprev = true := by
          simp [SuitableV05, generated, old]
        rw [ModifierV05Loop_of_old params nTimeTx old, List.find?_cons_of_pos suitable]
        rfl
      · have unsuitable : SuitableV05 params nTimeTx pprev = false := by
          simp [SuitableV05, old]
        rw [ih _ _ _ old, List.find?_cons_of_neg (by simp [unsuitable])]
    · have unsuitable : SuitableV05 params nTimeTx pprev = false := by
        simp [SuitableV05, generated]
      rw [if_neg generated, ih _ _ _ recent, List.find?_cons_of_neg (by simp [unsuitable])]

/-- `GetKernelStakeModifierV05` fails exactly when the kernel's parent is
itself old enough, or when no strict ancestor is suitable; otherwise it
answers the nearest suitable strict ancestor's modifier, height and time. -/
theorem GetKernelStakeModifierV05_eq_find (pindexPrev : CBlockIndex)
    (ancestors : List CBlockIndex) :
    GetKernelStakeModifierV05 params nTimeTx pindexPrev ancestors =
      if pindexPrev.GetBlockTime + params.nStakeMinAge - GetStakeModifierSelectionInterval params ≤
          (nTimeTx.toNat : Int) then none
      else (ancestors.find? (SuitableV05 params nTimeTx)).map modifierOf := by
  unfold GetKernelStakeModifierV05
  by_cases old : pindexPrev.GetBlockTime + params.nStakeMinAge -
      GetStakeModifierSelectionInterval params ≤ (nTimeTx.toNat : Int)
  · have notRecent : TooRecent params nTimeTx pindexPrev.GetBlockTime = false := by
      simpa [TooRecent] using old
    rw [if_pos old, notRecent]
    rfl
  · have recent : TooRecent params nTimeTx pindexPrev.GetBlockTime = true := by
      simp only [TooRecent, decide_eq_true_eq]
      omega
    rw [if_neg old, if_pos recent, ModifierV05Loop_eq_find params nTimeTx ancestors _ _ _ recent]

end V05

/-! ## Before V05: forward from the staked coin's block -/

/-- The loop of `GetKernelStakeModifierV03` that collects `tmpChain`: from
`pindexPrev` back through at most `nDepth` blocks, while they are off the
active chain. -/
def CollectOffChain (chain : CChain) : Nat → List CBlockIndex → List CBlockIndex
  | 0, _ => []
  | _ + 1, [] => []
  | nDepth + 1, it :: older =>
    if chain.Contains it then [] else it :: CollectOffChain chain nDepth older

/-- A run of the forward walk: the blocks it moves to in order, the indices
of `tmpChain` it reads, and the modifier it answers (`none` is `false`). -/
structure V03Run where
  visited : List CBlockIndex
  reads : List Nat
  result : Option KernelModifier

/-- The forward loop of `GetKernelStakeModifierV03` at `pindex`, with `n`
the next index of `tmpChain`, until a generating block reaches `threshold`.
It takes `tmpChain[n++]` once `pindex` is as high as the parent of
`tmpChain`'s first block, and `CChain::Next` below; it fails when it has
read past `tmpChain`'s end or `Next` has no block.  Out of fuel it answers
nothing. -/
def ModifierV03Loop (chain : CChain) (tmpChain : List CBlockIndex) (threshold : Int) :
    Nat → CBlockIndex → Nat → Nat → Int → V03Run
  | 0, _, _, _, _ => ⟨[], [], none⟩
  | fuel + 1, pindex, n, nStakeModifierHeight, nStakeModifierTime =>
    if nStakeModifierTime < threshold then
      let fromTmpChain : Bool := match tmpChain with
        | first :: _ => decide ((pindex.nHeight : Int) ≥ (first.nHeight : Int) - 1)
        | [] => false
      let reads := if fromTmpChain then [n] else []
      let n' := if fromTmpChain then n + 1 else n
      match (if fromTmpChain then tmpChain[n]? else chain.Next pindex) with
      | none => ⟨[], reads, none⟩
      | some next =>
        if n' > tmpChain.length then ⟨[], reads, none⟩
        else
          let run := if next.GeneratedStakeModifier then
              ModifierV03Loop chain tmpChain threshold fuel next n' next.nHeight next.GetBlockTime
            else ModifierV03Loop chain tmpChain threshold fuel next n' nStakeModifierHeight
              nStakeModifierTime
          ⟨next :: run.visited, reads ++ run.reads, run.result⟩
    else ⟨[], [], some (pindex.nStakeModifier, nStakeModifierHeight, nStakeModifierTime)⟩

/-- `GetKernelStakeModifierV03` for `pindexPrev` with its ancestors, where
`pindexFrom` is what the block index gives for the hash of the staked coin's
block. -/
def GetKernelStakeModifierV03 (params : ConsensusParams) (chain : CChain)
    (pindexPrev : CBlockIndex) (ancestors : List CBlockIndex) (pindexFrom : Option CBlockIndex) :
    V03Run :=
  match pindexFrom with
  | none => ⟨[], [], none⟩
  | some pindexFrom =>
    let nDepth := pindexPrev.nHeight + 1 - pindexFrom.nHeight
    let tmpChain := (CollectOffChain chain nDepth (pindexPrev :: ancestors)).reverse
    ModifierV03Loop chain tmpChain
      (pindexFrom.GetBlockTime + GetStakeModifierSelectionInterval params)
      (chain.vChain.length + tmpChain.length + 1) pindexFrom 0 pindexFrom.nHeight
      pindexFrom.GetBlockTime

/-- `GetKernelStakeModifier`: by the kernel's time, the V05 walk back or the
V03 walk forward. -/
def GetKernelStakeModifier (network : ChainType) (params : ConsensusParams) (chain : CChain)
    (pindexPrev : CBlockIndex) (ancestors : List CBlockIndex) (pindexFrom : Option CBlockIndex)
    (nTimeTx : UInt32) : Option KernelModifier :=
  if IsProtocolV05 network nTimeTx then GetKernelStakeModifierV05 params nTimeTx pindexPrev ancestors
  else (GetKernelStakeModifierV03 params chain pindexPrev ancestors pindexFrom).result

/-! ## Walks on fixed chains -/

/-- An entry at `height` whose hash is its height and `tag`, with the stake
modifier flag set when `generated`. -/
def modifierEntry (height : Nat) (tag : UInt8) (nTime : UInt32) (generated : Bool)
    (nStakeModifier : UInt64) : CBlockIndex :=
  { CBlockIndex.ofHeader ⟨5, uint256.ZERO, uint256.ZERO, nTime, 0, 0, if generated then 4 else 0⟩ with
    phashBlock := ⟨UInt8.ofNat height :: tag :: List.replicate 30 0, by simp⟩
    nHeight := height
    nStakeModifier := nStakeModifier }

/-- Genesis, a block `kernelParent` on it, and a generating block
`laterBlock` on that, a selection interval (761920 s on the main network)
after genesis. -/
def kernelGenesis : CBlockIndex := modifierEntry 0 0 1000 true 11

def kernelParent : CBlockIndex := modifierEntry 1 0 2000 false 11

def laterBlock : CBlockIndex := modifierEntry 2 0 800000 true 22

/-- A branch off genesis: `branchFrom` at height 1 and `branchPrev` on it,
neither generating. -/
def branchFrom : CBlockIndex := modifierEntry 1 1 3000 false 0

def branchPrev : CBlockIndex := modifierEntry 2 1 4000 false 0

/-- With `kernelParent` on the active chain, the V03 walk from genesis
answers `false` when `kernelParent` is the tip and `laterBlock`'s modifier
when the active chain goes on to `laterBlock`, a block that is not an
ancestor of `kernelParent`.  On the branch, the walk from `branchFrom` to
`branchPrev` moves to `branchFrom` again (as `tmpChain[0]`) and then reads
`tmpChain[2]` of a `tmpChain` of two blocks. -/
theorem kernelModifierV03_leaves_ancestry :
    (GetKernelStakeModifierV03 mainParams ⟨[kernelGenesis, kernelParent]⟩ kernelParent
        [kernelGenesis] (some kernelGenesis)).result = none ∧
      (GetKernelStakeModifierV03 mainParams ⟨[kernelGenesis, kernelParent, laterBlock]⟩
        kernelParent [kernelGenesis] (some kernelGenesis)).result =
        some (laterBlock.nStakeModifier, laterBlock.nHeight, laterBlock.GetBlockTime) ∧
      laterBlock.phashBlock ∉ [kernelParent, kernelGenesis].map CBlockIndex.phashBlock ∧
      ((GetKernelStakeModifierV03 mainParams ⟨[kernelGenesis, laterBlock]⟩ branchPrev
        [branchFrom, kernelGenesis] (some branchFrom)).visited.map CBlockIndex.phashBlock) =
        [branchFrom.phashBlock, branchPrev.phashBlock] ∧
      (GetKernelStakeModifierV03 mainParams ⟨[kernelGenesis, laterBlock]⟩ branchPrev
        [branchFrom, kernelGenesis] (some branchFrom)).reads = [0, 1, 2] := by
  refine ⟨?_, ?_, ?_, ?_, ?_⟩ <;> decide

end Peercoin.Kernel
