import PeercoinFormal.Pow.AsertAnchor

/-!
# chain.cpp: skip pointers, `GetAncestor` and `LastCommonAncestor`

`m_block_index` is the list of its entries in the order
`BlockManager::AddToBlockIndex` added them, each with its `pprev` and `pskip`
links; a `CBlockIndex*` is the position of its entry, which never moves.

On an index whose entries are linked as `AddToBlockIndex` links them
(`LinkedTree`), `GetAncestor` returns the entry `pprev` reaches in
`nHeight - height` steps, whatever its heuristic picks at each round: a
`pskip` it follows always lands on the ancestor at `GetSkipHeight`.  From
there `LastCommonAncestor` returns the deepest common ancestor, and
`AddToBlockIndex` keeps the index linked.
-/

set_option autoImplicit false

namespace Peercoin.Chain.SkipList

open Peercoin.Primitives
open Peercoin.Pow (GetSkipHeight GetSkipHeight_lt)

/-- An entry of `m_block_index` with its two links. -/
structure BlockEntry where
  index : CBlockIndex
  pprev : Option Nat
  pskip : Option Nat

/-- Reading the entry a `CBlockIndex*` points to. -/
def Deref (blocks : List BlockEntry) (pindex : Nat) : Except String BlockEntry :=
  match blocks[pindex]? with
  | some entry => .ok entry
  | none => .error "dangling CBlockIndex pointer"

/-- `pindex->pprev`; a dangling pointer reads as an entry without parent. -/
def PrevOf (blocks : List BlockEntry) (pindex : Nat) : Option Nat :=
  blocks[pindex]?.bind BlockEntry.pprev

/-- The test of `GetAncestor`'s loop for taking `pskip` at `heightWalk` on the
way down to `height`: "only follow pskip if pprev->pskip isn't better than
pskip->pprev".  The source's `heightSkipPrev < heightSkip - 2` is over `int`. -/
def FollowSkip (height heightWalk : Nat) : Bool :=
  let heightSkip := GetSkipHeight heightWalk
  let heightSkipPrev := GetSkipHeight (heightWalk - 1)
  heightSkip == height ||
    (height < heightSkip && !(heightSkipPrev + 2 < heightSkip && height ≤ heightSkipPrev))

/-- One round of `GetAncestor`'s loop at the entry `walk` of height
`heightWalk`: the entry it moves to and the height it is then at. -/
def GetAncestorStep (walk : BlockEntry) (height heightWalk : Nat) : Except String (Nat × Nat) :=
  match (if FollowSkip height heightWalk then walk.pskip else none), walk.pprev with
  | some pskip, _ => .ok (pskip, GetSkipHeight heightWalk)
  | none, some pprev => .ok (pprev, heightWalk - 1)
  | none, none => .error "assertion failed: pindexWalk->pprev"

theorem FollowSkip_le {height heightWalk : Nat} (follow : FollowSkip height heightWalk = true) :
    height ≤ GetSkipHeight heightWalk := by
  simp only [FollowSkip, Bool.or_eq_true, beq_iff_eq, Bool.and_eq_true, decide_eq_true_eq] at follow
  omega

/-- A round of the loop goes down, and never below `height`. -/
theorem GetAncestorStep_bounds {walk : BlockEntry} {height heightWalk next heightNext : Nat}
    (step : GetAncestorStep walk height heightWalk = .ok (next, heightNext))
    (above : height < heightWalk) : height ≤ heightNext ∧ heightNext < heightWalk := by
  unfold GetAncestorStep at step
  split at step
  · rename_i pskip _ skipIs
    cases step
    have follow : FollowSkip height heightWalk = true := by
      by_contra notFollow
      rw [if_neg notFollow] at skipIs
      cases skipIs
    exact ⟨FollowSkip_le follow, GetSkipHeight_lt (by omega)⟩
  · cases step
    omega
  · cases step

/-- The two places a round can go: `pskip` at the skip height, or `pprev`. -/
theorem GetAncestorStep_cases {walk : BlockEntry} {height heightWalk next heightNext : Nat}
    (step : GetAncestorStep walk height heightWalk = .ok (next, heightNext)) :
    (walk.pskip = some next ∧ heightNext = GetSkipHeight heightWalk) ∨
      (walk.pprev = some next ∧ heightNext = heightWalk - 1) := by
  unfold GetAncestorStep at step
  split at step
  · rename_i pskip _ skipIs
    cases step
    by_cases follow : FollowSkip height heightWalk = true
    · rw [if_pos follow] at skipIs
      exact .inl ⟨skipIs, rfl⟩
    · rw [if_neg follow] at skipIs
      cases skipIs
  · rename_i pprev _ prevIs
    cases step
    exact .inr ⟨prevIs, rfl⟩
  · cases step

theorem GetAncestorStep_ok (walk : BlockEntry) (height heightWalk : Nat) {pprev : Nat}
    (prevIs : walk.pprev = some pprev) :
    ∃ next heightNext, GetAncestorStep walk height heightWalk = .ok (next, heightNext) := by
  unfold GetAncestorStep
  split
  · exact ⟨_, _, rfl⟩
  · exact ⟨_, _, rfl⟩
  · rename_i noPrev
    rw [prevIs] at noPrev
    cases noPrev

set_option linter.unusedVariables false in
/-- The loop of `CBlockIndex::GetAncestor` from `pindexWalk` at `heightWalk`
down to `height`. -/
def GetAncestorWalk (blocks : List BlockEntry) (height pindexWalk heightWalk : Nat) :
    Except String Nat :=
  if above : height < heightWalk then
    match Deref blocks pindexWalk with
    | .error e => .error e
    | .ok walk =>
      match step : GetAncestorStep walk height heightWalk with
      | .ok (next, heightNext) => GetAncestorWalk blocks height next heightNext
      | .error e => .error e
  else .ok pindexWalk
termination_by heightWalk
decreasing_by exact (GetAncestorStep_bounds step above).2

/-- `CBlockIndex::GetAncestor` of the entry at `pindex`; `none` is `nullptr`. -/
def GetAncestor (blocks : List BlockEntry) (pindex : Nat) (height : Int) : Except String (Option Nat) :=
  match Deref blocks pindex with
  | .error e => .error e
  | .ok entry =>
    if height > entry.index.nHeight ∨ height < 0 then .ok none
    else (GetAncestorWalk blocks height.toNat pindex entry.index.nHeight).map some

/-- `CBlockIndex::BuildSkip` of an entry of height `nHeight` under `pprev`: its `pskip`. -/
def BuildSkip (blocks : List BlockEntry) (pprev : Option Nat) (nHeight : Nat) :
    Except String (Option Nat) :=
  match pprev with
  | some pprev => GetAncestor blocks pprev (GetSkipHeight nHeight)
  | none => .ok none

/-- The loop of `LastCommonAncestor`: both pointers step to `pprev` until
they meet or one is `nullptr`, for at most `fuel` rounds. -/
def LastCommonAncestorLoop (blocks : List BlockEntry) :
    (fuel : Nat) → (pa pb : Option Nat) → Option Nat × Option Nat
  | fuel + 1, some pa, some pb =>
    if pa = pb then (some pa, some pb)
    else LastCommonAncestorLoop blocks fuel (PrevOf blocks pa) (PrevOf blocks pb)
  | _, pa, pb => (pa, pb)

/-- The first step of `LastCommonAncestor`: the higher of `pa` and `pb`
replaced by its ancestor at the other's height. -/
def EqualizeHeights (blocks : List BlockEntry) (pa pb : Nat) (ea eb : BlockEntry) :
    Except String (Option Nat × Option Nat) :=
  if ea.index.nHeight > eb.index.nHeight then
    (GetAncestor blocks pa eb.index.nHeight).map fun pa => (pa, some pb)
  else if eb.index.nHeight > ea.index.nHeight then
    (GetAncestor blocks pb ea.index.nHeight).map fun pb => (some pa, pb)
  else .ok (some pa, some pb)

/-- `LastCommonAncestor(pa, pb)`.  The loop is given a round for every entry
of the index, more than a walk down a tree takes. -/
def LastCommonAncestor (blocks : List BlockEntry) (pa pb : Nat) : Except String (Option Nat) :=
  match Deref blocks pa, Deref blocks pb with
  | .ok ea, .ok eb =>
    match EqualizeHeights blocks pa pb ea eb with
    | .ok (pa, pb) =>
      let (pa, pb) := LastCommonAncestorLoop blocks blocks.length pa pb
      if pa = pb then .ok pa else .error "assertion failed: pa == pb"
    | .error e => .error e
  | .error e, _ => .error e
  | _, .error e => .error e

/-! ## Adding headers -/

namespace BlockManager

/-- `BlockManager::LookupBlockIndex`. -/
def LookupBlockIndex (m_block_index : List BlockEntry) (hash : uint256) : Option Nat :=
  m_block_index.findIdx? fun entry => entry.index.phashBlock == hash

/-- `BlockManager::AddToBlockIndex` on `m_block_index`: the index after the
call and the pointer it returns.  `try_emplace` puts the new entry in before
`hashPrevBlock` is looked up, so a header naming its own hash as parent finds
the new entry, still of height 0.  The chain trust, `nTimeMax` and the best
header are not modelled. -/
def AddToBlockIndex (sha256 : List UInt8 → uint256) (m_block_index : List BlockEntry)
    (block : CBlockHeader) : Except String (List BlockEntry × Nat) :=
  let hash := block.GetHash sha256
  match LookupBlockIndex m_block_index hash with
  | some pindex => .ok (m_block_index, pindex)
  | none =>
    let placed := m_block_index ++ [⟨{ CBlockIndex.ofHeader block with phashBlock := hash }, none, none⟩]
    let miPrev := LookupBlockIndex placed block.hashPrevBlock
    let pindexNew := Chain.AddToBlockIndex sha256 block
      (miPrev.bind fun pprev => placed[pprev]?.map BlockEntry.index)
    match BuildSkip (m_block_index ++ [⟨pindexNew, miPrev, none⟩]) miPrev pindexNew.nHeight with
    | .ok pskip => .ok (m_block_index ++ [⟨pindexNew, miPrev, pskip⟩], m_block_index.length)
    | .error e => .error e

/-- `AddToBlockIndex` for each header in turn, as `AcceptBlockHeader` calls
it; a failed assertion ends the run. -/
def AddHeaders (sha256 : List UInt8 → uint256) (m_block_index : List BlockEntry) :
    List CBlockHeader → Except String (List BlockEntry)
  | [] => .ok m_block_index
  | block :: headers =>
    match AddToBlockIndex sha256 m_block_index block with
    | .ok (m_block_index, _) => AddHeaders sha256 m_block_index headers
    | .error e => .error e

end BlockManager

/-! ## Linked indexes -/

/-- The links `AddToBlockIndex` leaves on `entry`, at position `pindex`: a
root has height 0; an entry with a parent, added before it, is one higher;
and `pskip` is what `BuildSkip` found. -/
structure Linked (blocks : List BlockEntry) (pindex : Nat) (entry : BlockEntry) : Prop where
  parent : match entry.pprev with
    | none => entry.index.nHeight = 0
    | some pprev => pprev < pindex ∧ ∃ prev, blocks[pprev]? = some prev ∧
        entry.index.nHeight = prev.index.nHeight + 1
  skip : BuildSkip blocks entry.pprev entry.index.nHeight = .ok entry.pskip

/-- Every entry of the index is linked as `AddToBlockIndex` links it. -/
def LinkedTree (blocks : List BlockEntry) : Prop :=
  ∀ pindex entry, blocks[pindex]? = some entry → Linked blocks pindex entry

/-- A block index with its entries linked. -/
structure BlockTree where
  m_block_index : List BlockEntry
  linked : LinkedTree m_block_index

/-- The entry reached from `pindex` by following `pprev` `steps` times;
`none` once a root's `pprev` is followed. -/
def FollowPrev (blocks : List BlockEntry) (steps pindex : Nat) : Option Nat :=
  (fun walk : Option Nat => walk.bind (PrevOf blocks))^[steps] (some pindex)

/-- `ancestor` is `pindex` or one of its ancestors. -/
def IsAncestor (blocks : List BlockEntry) (ancestor pindex : Nat) : Prop :=
  ∃ steps, FollowPrev blocks steps pindex = some ancestor

/-- `found` is the deepest common ancestor of `pa` and `pb`: an ancestor of
both that every common ancestor is an ancestor of; `none` when they have no
common ancestor. -/
structure DeepestCommonAncestor (blocks : List BlockEntry) (pa pb : Nat) (found : Option Nat) : Prop where
  common : ∀ c, found = some c → IsAncestor blocks c pa ∧ IsAncestor blocks c pb
  deepest : ∀ ancestor, IsAncestor blocks ancestor pa → IsAncestor blocks ancestor pb →
    ∃ c, found = some c ∧ IsAncestor blocks ancestor c

/-! ## Following `pprev` -/

section FollowPrev

variable (blocks : List BlockEntry)

@[simp] theorem FollowPrev_zero (pindex : Nat) : FollowPrev blocks 0 pindex = some pindex := rfl

theorem FollowPrev_none (steps : Nat) :
    (fun walk : Option Nat => walk.bind (PrevOf blocks))^[steps] none = none :=
  Function.iterate_fixed rfl steps

theorem FollowPrev_succ (steps pindex : Nat) :
    FollowPrev blocks (steps + 1) pindex = (PrevOf blocks pindex).bind (FollowPrev blocks steps) := by
  unfold FollowPrev
  rw [Function.iterate_succ_apply, Option.bind_some]
  cases PrevOf blocks pindex with
  | none => exact FollowPrev_none blocks steps
  | some pprev => rfl

theorem FollowPrev_add (steps steps' pindex : Nat) :
    FollowPrev blocks (steps + steps') pindex =
      (FollowPrev blocks steps' pindex).bind (FollowPrev blocks steps) := by
  unfold FollowPrev
  rw [Function.iterate_add_apply]
  cases (fun walk : Option Nat => walk.bind (PrevOf blocks))^[steps'] (some pindex) with
  | none => exact FollowPrev_none blocks steps
  | some ancestor => rfl

theorem FollowPrev_of_pprev {pindex pprev : Nat} {entry : BlockEntry}
    (entryAt : blocks[pindex]? = some entry) (prevIs : entry.pprev = some pprev) (steps : Nat) :
    FollowPrev blocks (steps + 1) pindex = FollowPrev blocks steps pprev := by
  rw [FollowPrev_succ, PrevOf, entryAt, Option.bind_some, prevIs, Option.bind_some]

theorem IsAncestor.refl (pindex : Nat) : IsAncestor blocks pindex pindex := ⟨0, rfl⟩

theorem IsAncestor.trans {ancestor middle pindex : Nat} (first : IsAncestor blocks ancestor middle)
    (second : IsAncestor blocks middle pindex) : IsAncestor blocks ancestor pindex := by
  obtain ⟨steps, reach⟩ := first
  obtain ⟨steps', reach'⟩ := second
  refine ⟨steps + steps', ?_⟩
  rw [FollowPrev_add, reach', Option.bind_some, reach]

theorem IsAncestor.of_pprev {pindex pprev : Nat} {entry : BlockEntry}
    (entryAt : blocks[pindex]? = some entry) (prevIs : entry.pprev = some pprev) :
    IsAncestor blocks pprev pindex :=
  ⟨1, by rw [FollowPrev_of_pprev blocks entryAt prevIs]; rfl⟩

/-- An ancestor other than the entry itself is an ancestor of its parent. -/
theorem IsAncestor.to_pprev {pindex pprev ancestor : Nat} {entry : BlockEntry}
    (entryAt : blocks[pindex]? = some entry) (prevIs : entry.pprev = some pprev)
    (reach : IsAncestor blocks ancestor pindex) (other : ancestor ≠ pindex) :
    IsAncestor blocks ancestor pprev := by
  obtain ⟨steps, reach⟩ := reach
  cases steps with
  | zero =>
    cases reach
    exact absurd rfl other
  | succ steps =>
    rw [FollowPrev_of_pprev blocks entryAt prevIs] at reach
    exact ⟨steps, reach⟩

theorem DeepestCommonAncestor.symm {pa pb : Nat} {found : Option Nat}
    (deepest : DeepestCommonAncestor blocks pa pb found) : DeepestCommonAncestor blocks pb pa found :=
  ⟨fun c foundIs => (deepest.common c foundIs).symm,
    fun ancestor inB inA => deepest.deepest ancestor inA inB⟩

theorem PrevOf_of_getElem {pindex : Nat} {entry : BlockEntry} (entryAt : blocks[pindex]? = some entry) :
    PrevOf blocks pindex = entry.pprev := by
  rw [PrevOf, entryAt, Option.bind_some]

theorem LastCommonAncestorLoop_none_left (fuel : Nat) (pb : Option Nat) :
    LastCommonAncestorLoop blocks fuel none pb = (none, pb) := by
  cases fuel <;> rfl

theorem LastCommonAncestorLoop_step (fuel pa pb : Nat) :
    LastCommonAncestorLoop blocks (fuel + 1) (some pa) (some pb) =
      if pa = pb then (some pa, some pb)
      else LastCommonAncestorLoop blocks fuel (PrevOf blocks pa) (PrevOf blocks pb) := rfl

/-- Two pointers that are equal end the loop at once. -/
theorem LastCommonAncestorLoop_self (fuel pindex : Nat) :
    ∃ found, LastCommonAncestorLoop blocks (fuel + 1) (some pindex) (some pindex) = (found, found) ∧
      DeepestCommonAncestor blocks pindex pindex found := by
  refine ⟨some pindex, by rw [LastCommonAncestorLoop_step, if_pos rfl], ?_, ?_⟩
  · intro c foundIs
    cases foundIs
    exact ⟨IsAncestor.refl blocks pindex, IsAncestor.refl blocks pindex⟩
  · exact fun ancestor reach _ => ⟨pindex, rfl, reach⟩

end FollowPrev

/-! ## The shape of a linked index -/

namespace LinkedTree

variable {blocks : List BlockEntry}

theorem of_pprev (tree : LinkedTree blocks) {pindex pprev : Nat} {entry : BlockEntry}
    (entryAt : blocks[pindex]? = some entry) (prevIs : entry.pprev = some pprev) :
    pprev < pindex ∧ (∃ prev, blocks[pprev]? = some prev ∧
      entry.index.nHeight = prev.index.nHeight + 1) ∧
      GetAncestor blocks pprev (GetSkipHeight entry.index.nHeight) = .ok entry.pskip := by
  obtain ⟨parent, skip⟩ := tree pindex entry entryAt
  rw [prevIs] at parent skip
  exact ⟨parent.1, parent.2, skip⟩

theorem of_root (tree : LinkedTree blocks) {pindex : Nat} {entry : BlockEntry}
    (entryAt : blocks[pindex]? = some entry) (noPrev : entry.pprev = none) :
    entry.index.nHeight = 0 := by
  obtain ⟨parent, -⟩ := tree pindex entry entryAt
  rw [noPrev] at parent
  exact parent

/-- An entry above height 0 has a parent, added before it and one lower. -/
theorem parent (tree : LinkedTree blocks) {pindex : Nat} {entry : BlockEntry}
    (entryAt : blocks[pindex]? = some entry) (positive : 0 < entry.index.nHeight) :
    ∃ pprev prev, entry.pprev = some pprev ∧ pprev < pindex ∧ blocks[pprev]? = some prev ∧
      entry.index.nHeight = prev.index.nHeight + 1 := by
  cases prevIs : entry.pprev with
  | none =>
    have root := tree.of_root entryAt prevIs
    omega
  | some pprev =>
    obtain ⟨before, ⟨prev, prevAt, higher⟩, -⟩ := tree.of_pprev entryAt prevIs
    exact ⟨pprev, prev, rfl, before, prevAt, higher⟩

theorem pprev_of_height_zero (tree : LinkedTree blocks) {pindex : Nat} {entry : BlockEntry}
    (entryAt : blocks[pindex]? = some entry) (root : entry.index.nHeight = 0) : entry.pprev = none := by
  cases prevIs : entry.pprev with
  | none => rfl
  | some pprev =>
    obtain ⟨-, ⟨prev, -, higher⟩, -⟩ := tree.of_pprev entryAt prevIs
    omega

/-- What following `pprev` reaches: `steps` below the start, never past a root. -/
theorem FollowPrev_some (tree : LinkedTree blocks) (steps : Nat) :
    ∀ {pindex ancestor : Nat} {entry : BlockEntry}, blocks[pindex]? = some entry →
      FollowPrev blocks steps pindex = some ancestor →
      steps ≤ entry.index.nHeight ∧ ancestor + steps ≤ pindex ∧
        ∃ found, blocks[ancestor]? = some found ∧
          found.index.nHeight = entry.index.nHeight - steps := by
  induction steps with
  | zero =>
    intro pindex ancestor entry entryAt reach
    cases reach
    exact ⟨Nat.zero_le _, Nat.le_refl _, entry, entryAt, rfl⟩
  | succ steps ih =>
    intro pindex ancestor entry entryAt reach
    cases prevIs : entry.pprev with
    | none =>
      rw [FollowPrev_succ, PrevOf, entryAt, Option.bind_some, prevIs, Option.bind_none] at reach
      cases reach
    | some pprev =>
      obtain ⟨before, ⟨prev, prevAt, higher⟩, -⟩ := tree.of_pprev entryAt prevIs
      rw [FollowPrev_of_pprev blocks entryAt prevIs] at reach
      obtain ⟨within, below, found, foundAt, foundHeight⟩ := ih prevAt reach
      exact ⟨by omega, by omega, found, foundAt, by omega⟩

/-- Following `pprev` at most `nHeight` times never runs past a root. -/
theorem FollowPrev_isSome (tree : LinkedTree blocks) (steps : Nat) :
    ∀ {pindex : Nat} {entry : BlockEntry}, blocks[pindex]? = some entry →
      steps ≤ entry.index.nHeight → ∃ ancestor, FollowPrev blocks steps pindex = some ancestor := by
  induction steps with
  | zero => exact fun _ _ => ⟨_, rfl⟩
  | succ steps ih =>
    intro pindex entry entryAt within
    obtain ⟨pprev, prev, prevIs, -, prevAt, higher⟩ := tree.parent entryAt (by omega)
    rw [FollowPrev_of_pprev blocks entryAt prevIs]
    exact ih prevAt (by omega)

/-- An ancestor as high as the entry is the entry itself. -/
theorem IsAncestor.eq_of_height (tree : LinkedTree blocks) {pindex ancestor : Nat}
    {entry found : BlockEntry} (entryAt : blocks[pindex]? = some entry)
    (foundAt : blocks[ancestor]? = some found) (reach : IsAncestor blocks ancestor pindex)
    (level : entry.index.nHeight ≤ found.index.nHeight) : ancestor = pindex := by
  obtain ⟨steps, reach⟩ := reach
  obtain ⟨within, below, found', foundAt', foundHeight⟩ := tree.FollowPrev_some steps entryAt reach
  rw [foundAt] at foundAt'
  cases foundAt'
  have none : steps = 0 := by omega
  subst none
  cases reach
  rfl

/-- An ancestor no higher than the entry `steps` below `pindex` is an ancestor
of that entry. -/
theorem IsAncestor.through (tree : LinkedTree blocks) {pindex middle ancestor steps : Nat}
    {entry found : BlockEntry} (entryAt : blocks[pindex]? = some entry)
    (middleIs : FollowPrev blocks steps pindex = some middle)
    (foundAt : blocks[ancestor]? = some found) (reach : IsAncestor blocks ancestor pindex)
    (lower : found.index.nHeight ≤ entry.index.nHeight - steps) :
    IsAncestor blocks ancestor middle := by
  obtain ⟨steps', reach⟩ := reach
  obtain ⟨within, -, found', foundAt', foundHeight⟩ := tree.FollowPrev_some steps' entryAt reach
  rw [foundAt] at foundAt'
  cases foundAt'
  have inside := (tree.FollowPrev_some steps entryAt middleIs).1
  refine ⟨steps' - steps, ?_⟩
  rw [← Option.bind_some middle (FollowPrev blocks (steps' - steps)), ← middleIs, ← FollowPrev_add,
    Nat.sub_add_cancel (by omega), reach]

/-- An entry's height is at most its position. -/
theorem height_le (tree : LinkedTree blocks) {pindex : Nat} {entry : BlockEntry}
    (entryAt : blocks[pindex]? = some entry) : entry.index.nHeight ≤ pindex := by
  obtain ⟨ancestor, reach⟩ := tree.FollowPrev_isSome entry.index.nHeight entryAt (Nat.le_refl _)
  have below := (tree.FollowPrev_some _ entryAt reach).2.1
  omega

end LinkedTree

/-! ## `GetAncestor` -/

theorem Deref_of_getElem {blocks : List BlockEntry} {pindex : Nat} {entry : BlockEntry}
    (entryAt : blocks[pindex]? = some entry) : Deref blocks pindex = .ok entry := by
  rw [Deref, entryAt]

theorem GetAncestorWalk_stop (blocks : List BlockEntry) {height heightWalk : Nat} (pindexWalk : Nat)
    (reached : ¬height < heightWalk) : GetAncestorWalk blocks height pindexWalk heightWalk = .ok pindexWalk := by
  rw [GetAncestorWalk, dif_neg reached]

theorem GetAncestorWalk_of_step {blocks : List BlockEntry} {height pindexWalk heightWalk : Nat}
    {walk : BlockEntry} (walkAt : blocks[pindexWalk]? = some walk) (above : height < heightWalk)
    {next heightNext : Nat} (step : GetAncestorStep walk height heightWalk = .ok (next, heightNext)) :
    GetAncestorWalk blocks height pindexWalk heightWalk = GetAncestorWalk blocks height next heightNext := by
  rw [GetAncestorWalk, dif_pos above]
  simp only [Deref_of_getElem walkAt]
  split
  · rename_i stepIs
    rw [step] at stepIs
    cases stepIs
    rfl
  · rename_i stepIs
    rw [step] at stepIs
    cases stepIs

theorem GetAncestor_out {blocks : List BlockEntry} {pindex : Nat} {entry : BlockEntry}
    (entryAt : blocks[pindex]? = some entry) {height : Int}
    (outside : height < 0 ∨ entry.index.nHeight < height) : GetAncestor blocks pindex height = .ok none := by
  simp only [GetAncestor, Deref_of_getElem entryAt]
  rw [if_pos (by omega)]

theorem GetAncestor_of_le {blocks : List BlockEntry} {pindex : Nat} {entry : BlockEntry}
    (entryAt : blocks[pindex]? = some entry) {height : Nat} (below : height ≤ entry.index.nHeight) :
    GetAncestor blocks pindex height =
      (GetAncestorWalk blocks height pindex entry.index.nHeight).map some := by
  simp only [GetAncestor, Deref_of_getElem entryAt]
  rw [if_neg (by omega), Int.toNat_natCast]

namespace LinkedTree

variable {blocks : List BlockEntry}

/-- The walk from `pindex` to `height` ends where `pprev` does in
`nHeight - height` steps. -/
def WalksTo (blocks : List BlockEntry) (pindex : Nat) (entry : BlockEntry) : Prop :=
  ∀ height, height ≤ entry.index.nHeight →
    ∃ ancestor, FollowPrev blocks (entry.index.nHeight - height) pindex = some ancestor ∧
      GetAncestorWalk blocks height pindex entry.index.nHeight = .ok ancestor

/-- `pskip` lands on the ancestor at the skip height, once the walk from the
parent is known to be right. -/
theorem pskip_lands (tree : LinkedTree blocks) {pindex pprev pskip : Nat} {entry prev : BlockEntry}
    (entryAt : blocks[pindex]? = some entry) (prevIs : entry.pprev = some pprev)
    (prevAt : blocks[pprev]? = some prev) (walksFromPrev : WalksTo blocks pprev prev)
    (skipIs : entry.pskip = some pskip) :
    ∃ landed, blocks[pskip]? = some landed ∧ landed.index.nHeight = GetSkipHeight entry.index.nHeight ∧
      pskip < pindex ∧ FollowPrev blocks (entry.index.nHeight - GetSkipHeight entry.index.nHeight) pindex =
        some pskip := by
  obtain ⟨before, ⟨prev', prevAt', higher⟩, built⟩ := tree.of_pprev entryAt prevIs
  rw [prevAt] at prevAt'
  cases prevAt'
  have skipBelow := GetSkipHeight_lt (show 0 < entry.index.nHeight by omega)
  obtain ⟨ancestor, reach, walk⟩ := walksFromPrev (GetSkipHeight entry.index.nHeight) (by omega)
  rw [GetAncestor_of_le prevAt (by omega), walk, skipIs] at built
  cases built
  obtain ⟨-, below, landed, landedAt, landedHeight⟩ := tree.FollowPrev_some _ prevAt reach
  refine ⟨landed, landedAt, by omega, by omega, ?_⟩
  rw [show entry.index.nHeight - GetSkipHeight entry.index.nHeight =
    prev.index.nHeight - GetSkipHeight entry.index.nHeight + 1 by omega,
    FollowPrev_of_pprev blocks entryAt prevIs, reach]

/-- The walk of `GetAncestor` is right from every entry.  By strong induction
on the position: a round moves to `pprev` or `pskip`, both added before. -/
theorem walksTo (tree : LinkedTree blocks) (pindex : Nat) :
    ∀ {entry}, blocks[pindex]? = some entry → WalksTo blocks pindex entry := by
  induction pindex using Nat.strong_induction_on with
  | _ pindex ih =>
  intro entry entryAt height below
  rcases Nat.lt_or_ge height entry.index.nHeight with above | reached
  · obtain ⟨pprev, prev, prevIs, before, prevAt, higher⟩ := tree.parent entryAt (by omega)
    obtain ⟨next, heightNext, step⟩ := GetAncestorStep_ok entry height entry.index.nHeight prevIs
    obtain ⟨notPast, lower⟩ := GetAncestorStep_bounds step above
    -- where the round lands: an ancestor added before, at height `heightNext`
    obtain ⟨landed, landedAt, landedHeight, landedBefore, landedReach⟩ :
        ∃ landed, blocks[next]? = some landed ∧ landed.index.nHeight = heightNext ∧ next < pindex ∧
          FollowPrev blocks (entry.index.nHeight - heightNext) pindex = some next := by
      rcases GetAncestorStep_cases step with ⟨skipIs, rfl⟩ | ⟨prevIs', rfl⟩
      · exact tree.pskip_lands entryAt prevIs prevAt (ih pprev before prevAt) skipIs
      · rw [prevIs] at prevIs'
        cases prevIs'
        refine ⟨prev, prevAt, by omega, before, ?_⟩
        rw [show entry.index.nHeight - (entry.index.nHeight - 1) = 0 + 1 by omega,
          FollowPrev_of_pprev blocks entryAt prevIs]
        rfl
    obtain ⟨ancestor, reach, walk⟩ := ih next landedBefore landedAt height (by omega)
    refine ⟨ancestor, ?_, ?_⟩
    · rw [show entry.index.nHeight - height =
        landed.index.nHeight - height + (entry.index.nHeight - heightNext) by omega,
        FollowPrev_add, landedReach, Option.bind_some, reach]
    · rw [GetAncestorWalk_of_step entryAt above step, ← landedHeight, walk]
  · have level : height = entry.index.nHeight := by omega
    subst level
    exact ⟨pindex, by simp, GetAncestorWalk_stop blocks pindex (Nat.lt_irrefl _)⟩

/-- `GetAncestor` is `nullptr` outside `[0, nHeight]`, and inside it the
entry `pprev` reaches in `nHeight - height` steps. -/
theorem GetAncestor_eq (tree : LinkedTree blocks) {pindex : Nat} {entry : BlockEntry}
    (entryAt : blocks[pindex]? = some entry) (height : Int) :
    ((height < 0 ∨ entry.index.nHeight < height) → GetAncestor blocks pindex height = .ok none) ∧
      (0 ≤ height → height ≤ entry.index.nHeight →
        ∃ ancestor, FollowPrev blocks (entry.index.nHeight - height.toNat) pindex = some ancestor ∧
          GetAncestor blocks pindex height = .ok (some ancestor)) := by
  refine ⟨GetAncestor_out entryAt, fun nonneg within => ?_⟩
  obtain ⟨ancestor, reach, walk⟩ := tree.walksTo pindex entryAt height.toNat (by omega)
  refine ⟨ancestor, reach, ?_⟩
  rw [show height = (height.toNat : Int) by omega, GetAncestor_of_le entryAt (by omega), walk]
  rfl

/-! ## `LastCommonAncestor` -/

/-- A common ancestor of two entries at one height is neither of them, when
they differ. -/
theorem apart (tree : LinkedTree blocks) {pa pb ancestor : Nat} {ea eb : BlockEntry}
    (paAt : blocks[pa]? = some ea) (pbAt : blocks[pb]? = some eb)
    (level : ea.index.nHeight = eb.index.nHeight) (different : pa ≠ pb)
    (inA : IsAncestor blocks ancestor pa) (inB : IsAncestor blocks ancestor pb) :
    ancestor ≠ pa ∧ ancestor ≠ pb := by
  constructor
  · rintro rfl
    exact different (IsAncestor.eq_of_height tree pbAt paAt inB (by omega))
  · rintro rfl
    exact different (IsAncestor.eq_of_height tree paAt pbAt inA (by omega)).symm

/-- Two entries at one height meet in the deepest common ancestor, or both
run past their roots; by induction on the height. -/
theorem LastCommonAncestorLoop_eq (tree : LinkedTree blocks) (depth : Nat) :
    ∀ {fuel pa pb : Nat} {ea eb : BlockEntry}, blocks[pa]? = some ea → blocks[pb]? = some eb →
      ea.index.nHeight = depth → eb.index.nHeight = depth → depth < fuel →
      ∃ found, LastCommonAncestorLoop blocks fuel (some pa) (some pb) = (found, found) ∧
        DeepestCommonAncestor blocks pa pb found := by
  induction depth with
  | zero =>
    intro fuel pa pb ea eb paAt pbAt paHeight pbHeight enough
    obtain ⟨fuel, rfl⟩ : ∃ rounds, fuel = rounds + 1 := ⟨fuel - 1, by omega⟩
    by_cases same : pa = pb
    · subst same
      exact LastCommonAncestorLoop_self blocks fuel pa
    -- two roots: both pointers become `nullptr`, and there is no common ancestor
    rw [LastCommonAncestorLoop_step, if_neg same, PrevOf_of_getElem blocks paAt,
      tree.pprev_of_height_zero paAt paHeight, PrevOf_of_getElem blocks pbAt,
      tree.pprev_of_height_zero pbAt pbHeight, LastCommonAncestorLoop_none_left]
    refine ⟨none, rfl, ?_, ?_⟩
    · intro c foundIs
      cases foundIs
    intro ancestor inA inB
    obtain ⟨steps, reach⟩ := inA
    obtain ⟨-, -, found, foundAt, foundHeight⟩ := tree.FollowPrev_some steps paAt reach
    have atA := IsAncestor.eq_of_height tree paAt foundAt ⟨steps, reach⟩ (by omega)
    exact absurd atA (tree.apart paAt pbAt (by omega) same ⟨steps, reach⟩ inB).1
  | succ depth ih =>
    intro fuel pa pb ea eb paAt pbAt paHeight pbHeight enough
    obtain ⟨fuel, rfl⟩ : ∃ rounds, fuel = rounds + 1 := ⟨fuel - 1, by omega⟩
    by_cases same : pa = pb
    · subst same
      exact LastCommonAncestorLoop_self blocks fuel pa
    -- both step to their parents, one lower
    obtain ⟨ja, prevA, prevIsA, -, prevAAt, higherA⟩ := tree.parent paAt (by omega)
    obtain ⟨jb, prevB, prevIsB, -, prevBAt, higherB⟩ := tree.parent pbAt (by omega)
    rw [LastCommonAncestorLoop_step, if_neg same, PrevOf_of_getElem blocks paAt, prevIsA,
      PrevOf_of_getElem blocks pbAt, prevIsB]
    have lowerA : prevA.index.nHeight = depth := by omega
    have lowerB : prevB.index.nHeight = depth := by omega
    have enough' : depth < fuel := by omega
    obtain ⟨found, loop, deepest⟩ := ih prevAAt prevBAt lowerA lowerB enough'
    refine ⟨found, loop, fun c foundIs => ?_, fun ancestor inA inB => ?_⟩
    · obtain ⟨inA', inB'⟩ := deepest.common c foundIs
      exact ⟨inA'.trans blocks (IsAncestor.of_pprev blocks paAt prevIsA),
        inB'.trans blocks (IsAncestor.of_pprev blocks pbAt prevIsB)⟩
    · obtain ⟨notA, notB⟩ := tree.apart paAt pbAt (by omega) same inA inB
      exact deepest.deepest ancestor (IsAncestor.to_pprev blocks paAt prevIsA inA notA)
        (IsAncestor.to_pprev blocks pbAt prevIsB inB notB)

/-- Lifting one side: the deepest common ancestor of an ancestor of `pa` no
lower than `pb` and of `pb` is that of `pa` and `pb`. -/
theorem deepest_of_left (tree : LinkedTree blocks) {pa pb middle steps : Nat} {ea eb : BlockEntry}
    (paAt : blocks[pa]? = some ea) (pbAt : blocks[pb]? = some eb)
    (middleIs : FollowPrev blocks steps pa = some middle)
    (lower : eb.index.nHeight ≤ ea.index.nHeight - steps) {found : Option Nat}
    (deepest : DeepestCommonAncestor blocks middle pb found) :
    DeepestCommonAncestor blocks pa pb found := by
  refine ⟨fun c foundIs => ?_, fun ancestor inA inB => ?_⟩
  · obtain ⟨inMiddle, inB⟩ := deepest.common c foundIs
    exact ⟨inMiddle.trans blocks ⟨steps, middleIs⟩, inB⟩
  · obtain ⟨stepsB, reachB⟩ := inB
    obtain ⟨-, -, found, foundAt, foundHeight⟩ := tree.FollowPrev_some stepsB pbAt reachB
    exact deepest.deepest ancestor (IsAncestor.through tree paAt middleIs foundAt inA (by omega))
      ⟨stepsB, reachB⟩

/-- The ancestor `GetAncestor` returns at a height the entry reaches: an
entry of the index at that height, `nHeight - height` steps down. -/
theorem GetAncestor_at (tree : LinkedTree blocks) {pindex height : Nat} {entry : BlockEntry}
    (entryAt : blocks[pindex]? = some entry) (below : height ≤ entry.index.nHeight) :
    ∃ ancestor found, GetAncestor blocks pindex height = .ok (some ancestor) ∧
      blocks[ancestor]? = some found ∧ found.index.nHeight = height ∧
      FollowPrev blocks (entry.index.nHeight - height) pindex = some ancestor := by
  obtain ⟨ancestor, reach, get⟩ := (tree.GetAncestor_eq entryAt height).2 (by omega) (by omega)
  rw [Int.toNat_natCast] at reach
  obtain ⟨-, -, found, foundAt, foundHeight⟩ := tree.FollowPrev_some _ entryAt reach
  exact ⟨ancestor, found, get, foundAt, by omega, reach⟩

/-- With a round for every entry of the index, the loop from two entries of
one height ends where both pointers agree, at their deepest common ancestor. -/
theorem LastCommonAncestorLoop_meets (tree : LinkedTree blocks) {pa pb : Nat} {ea eb : BlockEntry}
    (paAt : blocks[pa]? = some ea) (pbAt : blocks[pb]? = some eb)
    (level : ea.index.nHeight = eb.index.nHeight) :
    ∃ found, LastCommonAncestorLoop blocks blocks.length (some pa) (some pb) = (found, found) ∧
      DeepestCommonAncestor blocks pa pb found := by
  have inIndex := (List.getElem?_eq_some_iff.mp paAt).1
  have low := tree.height_le paAt
  exact tree.LastCommonAncestorLoop_eq _ paAt pbAt rfl level.symm (by omega)

/-- `LastCommonAncestor` returns the deepest common ancestor, and fails no
assertion.  The higher of the two is first brought down to the other's
height. -/
theorem LastCommonAncestor_deepest (tree : LinkedTree blocks) {pa pb : Nat} {ea eb : BlockEntry}
    (paAt : blocks[pa]? = some ea) (pbAt : blocks[pb]? = some eb) :
    ∃ found, LastCommonAncestor blocks pa pb = .ok found ∧ DeepestCommonAncestor blocks pa pb found := by
  simp only [LastCommonAncestor, Deref_of_getElem paAt, Deref_of_getElem pbAt, EqualizeHeights]
  by_cases higherA : ea.index.nHeight > eb.index.nHeight
  · obtain ⟨a, ea', getA, aAt, aHeight, reach⟩ := tree.GetAncestor_at paAt (Nat.le_of_lt higherA)
    obtain ⟨found, loop, deepest⟩ := tree.LastCommonAncestorLoop_meets aAt pbAt aHeight
    rw [if_pos higherA, getA]
    simp only [Except.map, loop, if_true]
    exact ⟨found, rfl, tree.deepest_of_left paAt pbAt reach (by omega) deepest⟩
  by_cases higherB : eb.index.nHeight > ea.index.nHeight
  · obtain ⟨b, eb', getB, bAt, bHeight, reach⟩ := tree.GetAncestor_at pbAt (Nat.le_of_lt higherB)
    obtain ⟨found, loop, deepest⟩ := tree.LastCommonAncestorLoop_meets paAt bAt bHeight.symm
    rw [if_neg higherA, if_pos higherB, getB]
    simp only [Except.map, loop, if_true]
    exact ⟨found, rfl, (tree.deepest_of_left pbAt paAt reach (by omega) deepest.symm).symm⟩
  · obtain ⟨found, loop, deepest⟩ := tree.LastCommonAncestorLoop_meets paAt pbAt (by omega)
    rw [if_neg higherA, if_neg higherB]
    simp only [loop, if_true]
    exact ⟨found, rfl, deepest⟩

end LinkedTree

/-! ## Adding an entry keeps the index linked -/

/-- Every link points to an entry added before. -/
def LinksBack (blocks : List BlockEntry) : Prop :=
  ∀ (pindex : Nat) (entry : BlockEntry), blocks[pindex]? = some entry →
    (∀ pprev, entry.pprev = some pprev → pprev < pindex) ∧
      ∀ pskip, entry.pskip = some pskip → pskip < pindex

theorem LinkedTree.linksBack {blocks : List BlockEntry} (tree : LinkedTree blocks) : LinksBack blocks := by
  intro pindex entry entryAt
  refine ⟨fun pprev prevIs => (tree.of_pprev entryAt prevIs).1, fun pskip skipIs => ?_⟩
  cases prevIs : entry.pprev with
  | none =>
    have built := (tree pindex entry entryAt).skip
    rw [prevIs, BuildSkip, skipIs] at built
    cases built
  | some pprev =>
    obtain ⟨-, ⟨prev, prevAt, -⟩, -⟩ := tree.of_pprev entryAt prevIs
    obtain ⟨-, -, -, before, -⟩ := tree.pskip_lands entryAt prevIs prevAt (tree.walksTo pprev prevAt) skipIs
    exact before

section Append

variable {blocks : List BlockEntry} (extra : List BlockEntry)

theorem GetAncestorWalk_of_error {height pindexWalk heightWalk : Nat} {walk : BlockEntry}
    (walkAt : blocks[pindexWalk]? = some walk) (above : height < heightWalk) {e : String}
    (step : GetAncestorStep walk height heightWalk = .error e) :
    GetAncestorWalk blocks height pindexWalk heightWalk = .error e := by
  rw [GetAncestorWalk, dif_pos above]
  simp only [Deref_of_getElem walkAt]
  split
  · rename_i stepIs
    rw [step] at stepIs
    cases stepIs
  · rename_i stepIs
    rw [step] at stepIs
    cases stepIs
    rfl

/-- The walk from an entry of the index reads only entries added before it, so
entries added later do not change it.  By strong induction on the height. -/
theorem GetAncestorWalk_append (back : LinksBack blocks) (height heightWalk : Nat) :
    ∀ {pindexWalk}, pindexWalk < blocks.length →
      GetAncestorWalk (blocks ++ extra) height pindexWalk heightWalk =
        GetAncestorWalk blocks height pindexWalk heightWalk := by
  induction heightWalk using Nat.strong_induction_on with
  | _ heightWalk ih =>
  intro pindexWalk inIndex
  by_cases above : height < heightWalk
  · have walkAt : blocks[pindexWalk]? = some blocks[pindexWalk] := List.getElem?_eq_getElem inIndex
    have walkAt' : (blocks ++ extra)[pindexWalk]? = some blocks[pindexWalk] := by
      rw [List.getElem?_append_left inIndex, walkAt]
    cases step : GetAncestorStep blocks[pindexWalk] height heightWalk with
    | error e =>
      rw [GetAncestorWalk_of_error walkAt' above step, GetAncestorWalk_of_error walkAt above step]
    | ok landing =>
      obtain ⟨next, heightNext⟩ := landing
      rw [GetAncestorWalk_of_step walkAt' above step, GetAncestorWalk_of_step walkAt above step]
      have earlier : next < pindexWalk := by
        rcases GetAncestorStep_cases step with ⟨skipIs, -⟩ | ⟨prevIs, -⟩
        · exact (back pindexWalk _ walkAt).2 next skipIs
        · exact (back pindexWalk _ walkAt).1 next prevIs
      exact ih heightNext (GetAncestorStep_bounds step above).2 (by omega)
  · rw [GetAncestorWalk_stop _ _ above, GetAncestorWalk_stop _ _ above]

theorem GetAncestor_append (back : LinksBack blocks) {pindex : Nat} (inIndex : pindex < blocks.length)
    (height : Int) : GetAncestor (blocks ++ extra) pindex height = GetAncestor blocks pindex height := by
  have entryAt : blocks[pindex]? = some blocks[pindex] := List.getElem?_eq_getElem inIndex
  have entryAt' : (blocks ++ extra)[pindex]? = some blocks[pindex] := by
    rw [List.getElem?_append_left inIndex, entryAt]
  simp only [GetAncestor, Deref_of_getElem entryAt, Deref_of_getElem entryAt']
  rw [GetAncestorWalk_append extra back _ _ inIndex]

theorem BuildSkip_append (back : LinksBack blocks) {pprev : Option Nat}
    (inIndex : ∀ p, pprev = some p → p < blocks.length) (nHeight : Nat) :
    BuildSkip (blocks ++ extra) pprev nHeight = BuildSkip blocks pprev nHeight := by
  cases pprev with
  | none => rfl
  | some p => exact GetAncestor_append extra back (inIndex p rfl) _

theorem Linked.append (back : LinksBack blocks) {pindex : Nat} {entry : BlockEntry}
    (inIndex : pindex < blocks.length) (linked : Linked blocks pindex entry) :
    Linked (blocks ++ extra) pindex entry := by
  obtain ⟨parent, skip⟩ := linked
  have prevIn : ∀ p, entry.pprev = some p → p < blocks.length := by
    intro p prevIs
    rw [prevIs] at parent
    omega
  refine ⟨?_, by rw [BuildSkip_append extra back prevIn, skip]⟩
  cases prevIs : entry.pprev with
  | none =>
    rw [prevIs] at parent
    exact parent
  | some p =>
    rw [prevIs] at parent
    obtain ⟨before, prev, prevAt, higher⟩ := parent
    exact ⟨before, prev, by rw [List.getElem?_append_left (by omega), prevAt], higher⟩

/-- An entry linked at the end of a linked index leaves it linked. -/
theorem LinkedTree.push (tree : LinkedTree blocks) {entry : BlockEntry}
    (linked : Linked (blocks ++ [entry]) blocks.length entry) : LinkedTree (blocks ++ [entry]) := by
  intro pindex found foundAt
  rcases Nat.lt_or_ge pindex blocks.length with old | new
  · rw [List.getElem?_append_left old] at foundAt
    exact Linked.append [entry] tree.linksBack old (tree pindex found foundAt)
  · rw [List.getElem?_append_right new] at foundAt
    have last : pindex - blocks.length = 0 := by
      by_contra past
      rw [List.getElem?_eq_none (by simp; omega)] at foundAt
      cases foundAt
    rw [last] at foundAt
    cases foundAt
    rw [show pindex = blocks.length by omega]
    exact linked

end Append

theorem AddToBlockIndex_nHeight_none (sha256 : List UInt8 → uint256) (block : CBlockHeader) :
    (Chain.AddToBlockIndex sha256 block none).nHeight = 0 := by
  unfold Chain.AddToBlockIndex
  dsimp only
  split <;> rfl

theorem AddToBlockIndex_nHeight_some (sha256 : List UInt8 → uint256) (block : CBlockHeader)
    (pprev : CBlockIndex) : (Chain.AddToBlockIndex sha256 block (some pprev)).nHeight = pprev.nHeight + 1 := by
  unfold Chain.AddToBlockIndex
  dsimp only
  split <;> rfl

namespace BlockManager

theorem LookupBlockIndex_lt {m_block_index : List BlockEntry} {hash : uint256} {pindex : Nat}
    (found : LookupBlockIndex m_block_index hash = some pindex) : pindex < m_block_index.length := by
  rw [LookupBlockIndex, List.findIdx?_eq_some_iff_getElem] at found
  exact found.1

/-- Looking up a hash past an entry of another hash. -/
theorem LookupBlockIndex_append_other (m_block_index : List BlockEntry) {entry : BlockEntry}
    {hash : uint256} (other : entry.index.phashBlock ≠ hash) :
    LookupBlockIndex (m_block_index ++ [entry]) hash = LookupBlockIndex m_block_index hash := by
  rw [LookupBlockIndex, LookupBlockIndex, List.findIdx?_append]
  simp [other]

/-- On a linked index, `AddToBlockIndex` of a header that does not name
itself as parent fails no assertion and leaves the index linked, the pointer
it returns inside it. -/
theorem AddToBlockIndex_linked (sha256 : List UInt8 → uint256) {m_block_index : List BlockEntry}
    (tree : LinkedTree m_block_index) (block : CBlockHeader)
    (notOwnParent : block.hashPrevBlock ≠ block.GetHash sha256) :
    ∃ blocks pindex, AddToBlockIndex sha256 m_block_index block = .ok (blocks, pindex) ∧
      LinkedTree blocks ∧ pindex < blocks.length := by
  unfold AddToBlockIndex
  dsimp only
  cases known : LookupBlockIndex m_block_index (block.GetHash sha256) with
  | some pindex => exact ⟨m_block_index, pindex, rfl, tree, LookupBlockIndex_lt known⟩
  | none =>
    dsimp only
    rw [LookupBlockIndex_append_other _ (Ne.symm notOwnParent)]
    cases parentFound : LookupBlockIndex m_block_index block.hashPrevBlock with
    | none =>
      -- a header whose parent is unknown becomes a root
      refine ⟨_, _, rfl, tree.push ⟨?_, rfl⟩, by simp⟩
      exact AddToBlockIndex_nHeight_none sha256 block
    | some pprev =>
      have inIndex := LookupBlockIndex_lt parentFound
      have prevAt : m_block_index[pprev]? = some m_block_index[pprev] :=
        List.getElem?_eq_getElem inIndex
      have placedAt : ∀ extra : List BlockEntry,
          (m_block_index ++ extra)[pprev]? = some m_block_index[pprev] := fun extra => by
        rw [List.getElem?_append_left inIndex, prevAt]
      simp only [Option.bind_some, placedAt, Option.map_some, AddToBlockIndex_nHeight_some]
      -- `BuildSkip` reads only entries added before, and finds the ancestor at the skip height
      have skipBelow := Pow.GetSkipHeight_lt (show 0 < m_block_index[pprev].index.nHeight + 1 by omega)
      obtain ⟨pskip, -, getSkip, -⟩ := tree.GetAncestor_at prevAt (show
        GetSkipHeight (m_block_index[pprev].index.nHeight + 1) ≤ m_block_index[pprev].index.nHeight by
          omega)
      have built : ∀ extra : List BlockEntry, BuildSkip (m_block_index ++ extra) (some pprev)
          (m_block_index[pprev].index.nHeight + 1) = .ok (some pskip) := fun extra => by
        rw [BuildSkip_append extra tree.linksBack (fun p prevIs => by cases prevIs; exact inIndex)]
        exact getSkip
      rw [built]
      refine ⟨_, _, rfl, tree.push ⟨⟨inIndex, _, placedAt _, ?_⟩, ?_⟩, by simp⟩
      · exact AddToBlockIndex_nHeight_some sha256 block _
      · dsimp only
        rw [AddToBlockIndex_nHeight_some]
        exact built _

/-- A run of `AddToBlockIndex` calls keeps the index linked. -/
theorem AddHeaders_linked (sha256 : List UInt8 → uint256) (headers : List CBlockHeader) :
    ∀ {m_block_index : List BlockEntry}, LinkedTree m_block_index →
      (∀ block ∈ headers, block.hashPrevBlock ≠ block.GetHash sha256) →
      ∃ blocks, AddHeaders sha256 m_block_index headers = .ok blocks ∧ LinkedTree blocks := by
  induction headers with
  | nil => exact fun tree _ => ⟨_, rfl, tree⟩
  | cons block headers ih =>
    intro m_block_index tree notOwnParent
    obtain ⟨blocks, pindex, added, tree', -⟩ :=
      AddToBlockIndex_linked sha256 tree block (notOwnParent block (List.mem_cons_self ..))
    rw [AddHeaders, added]
    exact ih tree' fun block' mem => notOwnParent block' (List.mem_cons_of_mem _ mem)

end BlockManager

theorem LinkedTree.nil : LinkedTree [] := fun _ _ entryAt => by cases entryAt

/-- On a block index linked as `AddToBlockIndex` links it, `GetAncestor` is
`nullptr` outside `[0, nHeight]` and otherwise the entry `pprev` reaches in
`nHeight - height` steps; `LastCommonAncestor` returns the deepest common
ancestor; and adding headers that do not name themselves as parent keeps the
index linked. -/
theorem GetAncestor_follows_pprev :
    (∀ (tree : BlockTree) (pindex : Nat) (entry : BlockEntry),
      tree.m_block_index[pindex]? = some entry → ∀ height : Int,
        ((height < 0 ∨ entry.index.nHeight < height) →
          GetAncestor tree.m_block_index pindex height = .ok none) ∧
        (0 ≤ height → height ≤ entry.index.nHeight → ∃ ancestor,
          FollowPrev tree.m_block_index (entry.index.nHeight - height.toNat) pindex = some ancestor ∧
            GetAncestor tree.m_block_index pindex height = .ok (some ancestor))) ∧
    (∀ (tree : BlockTree) (pa pb : Nat), pa < tree.m_block_index.length →
      pb < tree.m_block_index.length →
      ∃ found, LastCommonAncestor tree.m_block_index pa pb = .ok found ∧
        DeepestCommonAncestor tree.m_block_index pa pb found) ∧
    (∀ (sha256 : List UInt8 → uint256) (tree : BlockTree) (headers : List CBlockHeader),
      (∀ block ∈ headers, block.hashPrevBlock ≠ block.GetHash sha256) →
      ∃ blocks, BlockManager.AddHeaders sha256 tree.m_block_index headers = .ok blocks ∧
        LinkedTree blocks) := by
  refine ⟨fun tree pindex entry entryAt height => tree.linked.GetAncestor_eq entryAt height, ?_, ?_⟩
  · intro tree pa pb paIn pbIn
    exact tree.linked.LastCommonAncestor_deepest (List.getElem?_eq_getElem paIn)
      (List.getElem?_eq_getElem pbIn)
  · intro sha256 tree headers notOwnParent
    exact BlockManager.AddHeaders_linked sha256 headers tree.linked notOwnParent

end Peercoin.Chain.SkipList
