import PeercoinFormal.Validation.ConnectBlock
import PeercoinFormal.Pow.Target

/-!
# kernel.cpp and index/txindex.cpp: the staked coin and the kernel hash

`CheckProofOfStake` finds the transaction that the coinstake's kernel input
spends through the transaction index.  `FindTxPosition` gives the position
that `TxIndex::CustomAppend` recorded for the txid, and the header of the
block there and the transaction at the recorded offset are read from disk,
unless `cachedTxs` already holds a header and a transaction for the txid.
`GetCoinAge` reads the same way and puts what it read into `cachedTxs`,
which nothing ever empties.  `CheckStakeKernelHash` then hashes the stake
modifier, the time of the staked coin's block, the coin's offset in that
block, the coin's time, its output index and the coinstake's time, and
compares the hash with the coin-day weight times the target.

The block files are modelled at the level of blocks: each position holds the
block written there, and a position is written once.  The reader parses the
block's header, skips `nTxOffset` bytes and parses a transaction; the model
takes the block's transaction that starts at that offset.  `CustomAppend`
records only such offsets.  Disconnecting a block touches neither the block
files nor the index: `TxIndex` keeps the default `CustomRewind`.

Both functions read `txPrev->vout[prevout.n]` with no bound check.  An index
past the end is undefined behaviour in C++; the model stops there with
`voutOutOfRange`.
-/

set_option autoImplicit false

namespace Peercoin.Kernel

open Peercoin.Primitives Peercoin.Serialize Peercoin.Chain Peercoin.Pow Peercoin.Arith
  Peercoin.Validation Ledger

def nProtocolV03SwitchTime : UInt32 := 1363800000

def nProtocolV03TestSwitchTime : UInt32 := 1359781000

def IsProtocolV03 (network : ChainType) (nTimeCoinStake : UInt32) : Bool :=
  nTimeCoinStake ≥ (if network ≠ .MAIN then nProtocolV03TestSwitchTime else nProtocolV03SwitchTime)

/-- `CBlockHeader::NORMAL_SERIALIZE_SIZE`. -/
def NORMAL_SERIALIZE_SIZE : Nat := 80

/-! ## The transaction index and the block files -/

/-- `CDiskTxPos`: the place of a block in the block files (`FlatFilePos`)
and the offset of a transaction after the block's header.  The offset is a
`uint32_t`; in a block within the weight limit it stays far below `2 ^ 32`. -/
structure CDiskTxPos where
  nFile : Nat
  nPos : Nat
  nTxOffset : Nat
  deriving DecidableEq

/-- The block files: the block written at each file and position. -/
abbrev BlockFiles := Store (Nat × Nat) CBlock

/-- `TxIndex`: its database `m_db` from txids to positions, and `cachedTxs`
from txids to a header and a transaction. -/
structure TxIndex where
  m_db : Store uint256 CDiskTxPos
  cachedTxs : Store uint256 (CBlockHeader × CTransaction)

/-- The loop of `TxIndex::CustomAppend`: each transaction's txid with its
position, the offset moving on by the transaction's serialized size. -/
def TxPositions (sha256 : List UInt8 → uint256) (nFile nPos : Nat) :
    Nat → List CTransaction → List (uint256 × CDiskTxPos)
  | _, [] => []
  | nTxOffset, tx :: vtx =>
    (tx.GetHash sha256, ⟨nFile, nPos, nTxOffset⟩) ::
      TxPositions sha256 nFile nPos (nTxOffset + (SerializeTransaction true tx).length) vtx

/-- `TxIndex::CustomAppend` for the block at `height` written at
`(nFile, nPos)`. -/
def TxIndex.CustomAppend (sha256 : List UInt8 → uint256) (txindex : TxIndex)
    (height nFile nPos : Nat) (block : CBlock) : TxIndex :=
  -- the genesis block's transaction is not indexed: its outputs cannot be spent
  if height = 0 then txindex
  else { txindex with
    m_db := insertAll txindex.m_db
      (TxPositions sha256 nFile nPos (GetSizeOfCompactSize block.vtx.length) block.vtx) }

def TxIndex.FindTxPosition (txindex : TxIndex) (txid : uint256) : Option CDiskTxPos :=
  txindex.m_db.lookup txid

/-- The transaction that starts `nTxOffset` bytes after the header, among
the transactions laid out from `offset` on. -/
def TxAtOffset (nTxOffset : Nat) : Nat → List CTransaction → Option CTransaction
  | _, [] => none
  | offset, tx :: vtx =>
    if offset = nTxOffset then some tx
    else TxAtOffset nTxOffset (offset + (SerializeTransaction true tx).length) vtx

/-- `file >> header`, a seek of `postx.nTxOffset` and `file >> txPrev` on the
block file at `postx`; `none` is the exception the reads raise.  The stream
is of type `SER_DISK`, not `SER_POSMARKER`, so the header's `nFlags` stays
zero. -/
def ReadTxFromDisk (files : BlockFiles) (postx : CDiskTxPos) :
    Option (CBlockHeader × CTransaction) := do
  let block ← files.lookup (postx.nFile, postx.nPos)
  let txPrev ← TxAtOffset postx.nTxOffset (GetSizeOfCompactSize block.vtx.length) block.vtx
  pure ({ block.toCBlockHeader with nFlags := 0 }, txPrev)

/-- The header and transaction taken for `txid`: from `cachedTxs`, else
read from disk at `postx`. -/
def TxIndex.CachedOrRead (txindex : TxIndex) (files : BlockFiles) (txid : uint256)
    (postx : CDiskTxPos) : Option (CBlockHeader × CTransaction) :=
  match txindex.cachedTxs.lookup txid with
  | some entry => some entry
  | none => ReadTxFromDisk files postx

/-- The read of `txPrev` in the loop of `GetCoinAge`: from `cachedTxs`, else
from disk at the position the index records, which is then put into
`cachedTxs`. -/
def GetCoinAgeTxPrev (files : BlockFiles) (txindex : TxIndex) (txid : uint256) :
    Except String ((CBlockHeader × CTransaction) × TxIndex) :=
  match txindex.cachedTxs.lookup txid with
  | some entry => .ok (entry, txindex)
  | none => do
    let postx ← getOrFail "tx missing in tx index in GetCoinAge()" (txindex.FindTxPosition txid)
    let entry ← getOrFail "deserialize or I/O error in GetCoinAge()" (ReadTxFromDisk files postx)
    pure (entry, { txindex with cachedTxs := txindex.cachedTxs.insert txid entry })

/-! ## The kernel -/

/-- What the kernel check calls and this model leaves open:
`GetKernelStakeModifier` from the parent of the block being checked, for the
hash of the staked coin's block and the kernel's time, and `VerifyScript` of
the coinstake's first input against the output it spends. -/
structure KernelContext where
  network : ChainType
  params : ConsensusParams
  sha256 : List UInt8 → uint256
  GetKernelStakeModifier : uint256 → UInt32 → Option UInt64
  VerifyScript : CTransaction → CTxOut → Bool

/-- Where the model stops at `txPrev->vout[prevout.n]` with `prevout.n`
past the end of `vout`. -/
def voutOutOfRange : String := "txPrev->vout[prevout.n] read past the end of vout"

/-- `CheckStakeKernelHash`: the hash proof of the kernel, or why it fails.
The source returns `false` without a message when the stake modifier is not
found and when the hash is above the target. -/
def CheckStakeKernelHash (kctx : KernelContext) (nBits : UInt32) (blockFrom : CBlockHeader)
    (nTxPrevOffset : UInt32) (txPrev : CTransaction) (prevout : COutPoint) (nTimeTx : UInt32) :
    Except String uint256 := do
  let nTimeBlockFrom := blockFrom.nTime
  let nTimeTxPrev := timeOr txPrev.nTime nTimeBlockFrom
  rejectIf (nTimeTx < nTimeTxPrev) "CheckStakeKernelHash() : nTime violation"
  rejectIf ((nTimeBlockFrom.toNat : Int) + kctx.params.nStakeMinAge > nTimeTx.toNat)
    "CheckStakeKernelHash() : min age violation"
  let bnTargetPerCoinDay := CBigNum.SetCompact nBits
  let txout ← getOrFail voutOutOfRange txPrev.vout[prevout.n.toNat]?
  let fV03 := IsProtocolV03 kctx.network nTimeTx
  -- from v0.3 the weight starts from zero at the minimum age
  let nTimeWeight : Int :=
    min ((nTimeTx.toNat : Int) - nTimeTxPrev.toNat) kctx.params.nStakeMaxAge -
      (if fV03 then kctx.params.nStakeMinAge else 0)
  let bnCoinDayWeight := ((txout.nValue.toInt * nTimeWeight).tdiv COIN.toInt).tdiv (24 * 60 * 60)
  let modifier ←
    if fV03 then
      (fun nStakeModifier : UInt64 => ser_writedata64 nStakeModifier.toNat) <$>
        getOrFail "GetKernelStakeModifier() failed"
          (kctx.GetKernelStakeModifier (blockFrom.GetHash kctx.sha256) nTimeTx)
    else pure (serializeUInt32 nBits)
  let hashProofOfStake := GetHash kctx.sha256 (modifier ++ serializeUInt32 nTimeBlockFrom ++
    serializeUInt32 nTxPrevOffset ++ serializeUInt32 nTimeTxPrev ++ serializeUInt32 prevout.n ++
    serializeUInt32 nTimeTx)
  rejectIf ((UintToArith256 hashProofOfStake : Int) > bnCoinDayWeight * bnTargetPerCoinDay)
    "CheckStakeKernelHash() : hash above target"
  pure hashProofOfStake

/-- The lookups of `CheckProofOfStake` for the kernel's txid: the position
the index records, and the header and `txPrev` taken there.  The source's
line that would cache the read is commented out. -/
def TxIndex.FindKernelTx (txindex : TxIndex) (files : BlockFiles) (txid : uint256) :
    Except String (CDiskTxPos × CBlockHeader × CTransaction) := do
  let postx ← getOrFail "CheckProofOfStake() : tx index not found" (txindex.FindTxPosition txid)
  let entry ← getOrFail "deserialize or I/O error in CheckProofOfStake()"
    (txindex.CachedOrRead files txid postx)
  pure (postx, entry)

/-- `CheckProofOfStake` for the coinstake `tx`, with the node's transaction
index and block files. -/
def CheckProofOfStake (kctx : KernelContext) (files : BlockFiles) (txindex : TxIndex)
    (tx : CTransaction) (nBits nTimeTx : UInt32) : Except String uint256 := do
  rejectIf (!tx.IsCoinStake) "CheckProofOfStake() : called on non-coinstake"
  -- a coinstake has a first input, `vin[0]`
  let txin ← getOrFail "CheckProofOfStake() : called on non-coinstake" tx.vin.head?
  let (postx, header, txPrev) ← txindex.FindKernelTx files txin.prevout.hash
  rejectIf (txPrev.GetHash kctx.sha256 != txin.prevout.hash) "txid mismatch in CheckProofOfStake()"
  let prevOut ← getOrFail voutOutOfRange txPrev.vout[txin.prevout.n.toNat]?
  rejectIf (!kctx.VerifyScript tx prevOut) "invalid-pos-script"
  -- every failure of the kernel hash is rejected alike
  match CheckStakeKernelHash kctx nBits header
      (UInt32.ofNat (postx.nTxOffset + NORMAL_SERIALIZE_SIZE)) txPrev txin.prevout nTimeTx with
  | .ok hashProofOfStake => pure hashProofOfStake
  | .error _ => throw "check-kernel-failed"

/-! ## A node's block files and transaction index -/

/-- The block files and the transaction index of a node. -/
structure NodeState where
  files : BlockFiles
  txindex : TxIndex

/-- What changes a node's block files and transaction index. -/
inductive NodeEvent where
  /-- `WriteBlockToDisk` at a position -/
  | writeBlock (nFile nPos : Nat) (block : CBlock)
  /-- the index's `BlockConnected` for the block written at a position -/
  | blockConnected (height nFile nPos : Nat)
  /-- the read of `GetCoinAge` for a txid -/
  | coinAgeRead (txid : uint256)

def NodeState.empty : NodeState := ⟨∅, ⟨∅, ∅⟩⟩

section Node

variable (sha256 : List UInt8 → uint256)

def NodeState.step (node : NodeState) : NodeEvent → NodeState
  | .writeBlock nFile nPos block =>
    -- `FindBlockPos` hands out each position once
    match node.files.lookup (nFile, nPos) with
    | none => { node with files := node.files.insert (nFile, nPos) block }
    | some _ => node
  | .blockConnected height nFile nPos =>
    match node.files.lookup (nFile, nPos) with
    | some block => { node with txindex := node.txindex.CustomAppend sha256 height nFile nPos block }
    | none => node
  | .coinAgeRead txid =>
    match GetCoinAgeTxPrev node.files node.txindex txid with
    | .ok (_, txindex) => { node with txindex }
    | .error _ => node

def NodeState.run (node : NodeState) : List NodeEvent → NodeState
  | [] => node
  | event :: events => (node.step sha256 event).run events

/-- Every position the index records holds a transaction with the txid it
is recorded under. -/
def IndexReadsBack (files : BlockFiles) (txindex : TxIndex) : Prop :=
  ∀ txid postx, txindex.FindTxPosition txid = some postx →
    ∃ entry, ReadTxFromDisk files postx = some entry ∧ entry.2.GetHash sha256 = txid

/-- Every entry of `cachedTxs` was read from the block files, and its
transaction has the txid it is cached under. -/
def CacheReadsBack (files : BlockFiles) (txindex : TxIndex) : Prop :=
  ∀ txid entry, txindex.cachedTxs.lookup txid = some entry →
    entry.2.GetHash sha256 = txid ∧ ∃ postx, ReadTxFromDisk files postx = some entry

/-- What holds of the block files and index of every node. -/
structure NodeState.Sound (node : NodeState) : Prop where
  index : IndexReadsBack sha256 node.files node.txindex
  cache : CacheReadsBack sha256 node.files node.txindex

end Node

/-- Every entry of `cachedTxs` is what the block files hold at the position
the index records now for its txid. -/
def CacheCurrent (files : BlockFiles) (txindex : TxIndex) : Prop :=
  ∀ txid entry, txindex.cachedTxs.lookup txid = some entry →
    ∃ postx, txindex.FindTxPosition txid = some postx ∧ ReadTxFromDisk files postx = some entry

/-- The event records a txid that `cachedTxs` already holds: it connects a
block above genesis with a transaction of that txid. -/
def NodeState.RecordsCached (sha256 : List UInt8 → uint256) (node : NodeState) :
    NodeEvent → Prop
  | .blockConnected height nFile nPos =>
    ∃ block, node.files.lookup (nFile, nPos) = some block ∧ height ≠ 0 ∧
      ∃ tx ∈ block.vtx, (node.txindex.cachedTxs.lookup (tx.GetHash sha256)).isSome
  | _ => False

/-- A run in which no event records a txid that is already cached. -/
def NodeState.QuietRun (sha256 : List UInt8 → uint256) (node : NodeState) :
    List NodeEvent → Prop
  | [] => True
  | event :: events =>
    ¬ node.RecordsCached sha256 event ∧ (node.step sha256 event).QuietRun sha256 events

/-! ## Reading back what the index records -/

section ReadBack

variable (sha256 : List UInt8 → uint256)

theorem SerializeTransaction_length_pos (fAllowWitness : Bool) (tx : CTransaction) :
    0 < (SerializeTransaction fAllowWitness tx).length := by
  simp [SerializeTransaction, serializeInt32, ser_writedata32]

theorem TxPositions_offset_le {nFile nPos offset : Nat} {vtx : List CTransaction}
    {txid : uint256} {postx : CDiskTxPos}
    (member : (txid, postx) ∈ TxPositions sha256 nFile nPos offset vtx) :
    offset ≤ postx.nTxOffset := by
  induction vtx generalizing offset with
  | nil => cases member
  | cons tx vtx ih =>
      rcases List.mem_cons.mp member with here | later
      · cases here
        exact Nat.le_refl offset
      · have past := ih later
        omega

/-- Each recorded position is that of a transaction of the recorded txid:
the offsets grow with every transaction, so the read stops at the right one. -/
theorem TxPositions_reads_back {nFile nPos offset : Nat} {vtx : List CTransaction}
    {txid : uint256} {postx : CDiskTxPos}
    (member : (txid, postx) ∈ TxPositions sha256 nFile nPos offset vtx) :
    postx.nFile = nFile ∧ postx.nPos = nPos ∧
      ∃ tx, TxAtOffset postx.nTxOffset offset vtx = some tx ∧ tx.GetHash sha256 = txid := by
  induction vtx generalizing offset with
  | nil => cases member
  | cons tx vtx ih =>
      rcases List.mem_cons.mp member with here | later
      · cases here
        exact ⟨rfl, rfl, tx, if_pos rfl, rfl⟩
      · obtain ⟨file, pos, found, atOffset, hash⟩ := ih later
        have past := TxPositions_offset_le sha256 later
        have nonempty := SerializeTransaction_length_pos true tx
        refine ⟨file, pos, found, ?_, hash⟩
        rw [TxAtOffset, if_neg (by omega)]
        exact atOffset

theorem TxPositions_keys (nFile nPos offset : Nat) (vtx : List CTransaction) :
    (TxPositions sha256 nFile nPos offset vtx).map Prod.fst = vtx.map (CTransaction.GetHash sha256) := by
  induction vtx generalizing offset with
  | nil => rfl
  | cons tx vtx ih => simp only [TxPositions, List.map_cons, ih]

end ReadBack

theorem ReadTxFromDisk_eq_some {files : BlockFiles} {postx : CDiskTxPos}
    {entry : CBlockHeader × CTransaction} :
    ReadTxFromDisk files postx = some entry ↔
      ∃ block, files.lookup (postx.nFile, postx.nPos) = some block ∧
        ∃ tx, TxAtOffset postx.nTxOffset (GetSizeOfCompactSize block.vtx.length) block.vtx = some tx ∧
          entry = ({ block.toCBlockHeader with nFlags := 0 }, tx) := by
  simp only [ReadTxFromDisk, Option.bind_eq_bind, Option.bind_eq_some_iff, Option.pure_def,
    Option.some.injEq]
  constructor
  · rintro ⟨block, stored, tx, atOffset, rfl⟩
    exact ⟨block, stored, tx, atOffset, rfl⟩
  · rintro ⟨block, stored, tx, atOffset, rfl⟩
    exact ⟨block, stored, tx, atOffset, rfl⟩

/-- A block written at a fresh position leaves every earlier read as it was. -/
theorem ReadTxFromDisk_insert {files : BlockFiles} {place : Nat × Nat} (block : CBlock)
    (fresh : files.lookup place = none) {postx : CDiskTxPos} {entry : CBlockHeader × CTransaction}
    (read : ReadTxFromDisk files postx = some entry) :
    ReadTxFromDisk (files.insert place block) postx = some entry := by
  obtain ⟨stored, found, rest⟩ := ReadTxFromDisk_eq_some.mp read
  have elsewhere : (postx.nFile, postx.nPos) ≠ place := by
    rintro same
    rw [same, fresh] at found
    cases found
  apply ReadTxFromDisk_eq_some.mpr
  rw [Finmap.lookup_insert_of_ne _ elsewhere]
  exact ⟨stored, found, rest⟩

@[simp] theorem CustomAppend_cachedTxs (sha256 : List UInt8 → uint256) (txindex : TxIndex)
    (height nFile nPos : Nat) (block : CBlock) :
    (txindex.CustomAppend sha256 height nFile nPos block).cachedTxs = txindex.cachedTxs := by
  unfold TxIndex.CustomAppend
  split <;> rfl

@[simp] theorem CustomAppend_genesis (sha256 : List UInt8 → uint256) (txindex : TxIndex)
    (nFile nPos : Nat) (block : CBlock) : txindex.CustomAppend sha256 0 nFile nPos block = txindex :=
  if_pos rfl

/-- `CustomAppend` changes the index only at the txids of the block. -/
theorem CustomAppend_FindTxPosition_of_not_mem (sha256 : List UInt8 → uint256)
    {txindex : TxIndex} {height nFile nPos : Nat} {block : CBlock} {txid : uint256}
    (outside : txid ∉ block.vtx.map (CTransaction.GetHash sha256)) :
    (txindex.CustomAppend sha256 height nFile nPos block).FindTxPosition txid =
      txindex.FindTxPosition txid := by
  unfold TxIndex.CustomAppend TxIndex.FindTxPosition
  split
  · rfl
  · rw [← TxPositions_keys sha256 nFile nPos] at outside
    exact lookup_insertAll_of_not_mem outside

/-- What `GetCoinAgeTxPrev` does to the index: nothing on a cache hit, else
it caches what it read at the recorded position. -/
theorem GetCoinAgeTxPrev_ok {files : BlockFiles} {txindex txindex' : TxIndex} {txid : uint256}
    {entry : CBlockHeader × CTransaction}
    (run : GetCoinAgeTxPrev files txindex txid = .ok (entry, txindex')) :
    txindex' = txindex ∨
      ∃ postx, txindex.FindTxPosition txid = some postx ∧ ReadTxFromDisk files postx = some entry ∧
        txindex' = { txindex with cachedTxs := txindex.cachedTxs.insert txid entry } := by
  unfold GetCoinAgeTxPrev at run
  split at run
  · cases run
    exact .inl rfl
  · obtain ⟨postx, found, run⟩ := bind_eq_ok.mp run
    obtain ⟨read, readOk, run⟩ := bind_eq_ok.mp run
    cases run
    exact .inr ⟨postx, getOrFail_eq_ok.mp found, getOrFail_eq_ok.mp readOk, rfl⟩

/-! ## Every node's index and cache read back -/

section Sound

variable (sha256 : List UInt8 → uint256)

theorem CustomAppend_reads_back {files : BlockFiles} {txindex : TxIndex}
    {height nFile nPos : Nat} {block : CBlock} (stored : files.lookup (nFile, nPos) = some block)
    (sound : IndexReadsBack sha256 files txindex) :
    IndexReadsBack sha256 files (txindex.CustomAppend sha256 height nFile nPos block) := by
  intro txid postx found
  unfold TxIndex.CustomAppend TxIndex.FindTxPosition at found
  split at found
  · exact sound txid postx found
  · rcases lookup_insertAll_eq_some found with before | recorded
    · exact sound txid postx before
    · obtain ⟨file, pos, tx, atOffset, hash⟩ := TxPositions_reads_back sha256 recorded
      refine ⟨_, ReadTxFromDisk_eq_some.mpr ⟨block, ?_, tx, atOffset, rfl⟩, hash⟩
      rw [file, pos]
      exact stored

theorem NodeState.empty_sound : NodeState.empty.Sound sha256 := by
  constructor
  · intro txid postx found
    simp [NodeState.empty, TxIndex.FindTxPosition] at found
  · intro txid entry cached
    simp [NodeState.empty] at cached

/-- One event keeps the node sound. -/
theorem NodeState.step_sound {node : NodeState} (sound : node.Sound sha256) (event : NodeEvent) :
    (node.step sha256 event).Sound sha256 := by
  cases event with
  | writeBlock nFile nPos block =>
      dsimp only [NodeState.step]
      cases fresh : node.files.lookup (nFile, nPos) with
      | some _ => exact sound
      | none =>
          constructor
          · intro txid postx found
            obtain ⟨entry, read, hash⟩ := sound.index txid postx found
            exact ⟨entry, ReadTxFromDisk_insert block fresh read, hash⟩
          · intro txid entry cached
            obtain ⟨hash, postx, read⟩ := sound.cache txid entry cached
            exact ⟨hash, postx, ReadTxFromDisk_insert block fresh read⟩
  | blockConnected height nFile nPos =>
      dsimp only [NodeState.step]
      cases stored : node.files.lookup (nFile, nPos) with
      | none => exact sound
      | some block =>
          constructor
          · exact CustomAppend_reads_back sha256 stored sound.index
          · intro txid entry cached
            rw [CustomAppend_cachedTxs] at cached
            exact sound.cache txid entry cached
  | coinAgeRead txid =>
      dsimp only [NodeState.step]
      cases run : GetCoinAgeTxPrev node.files node.txindex txid with
      | error _ => exact sound
      | ok result =>
          obtain ⟨entry, txindex'⟩ := result
          rcases GetCoinAgeTxPrev_ok run with same | ⟨postx, found, read, rfl⟩
          · subst same
            exact sound
          · constructor
            · exact sound.index
            · intro txid' entry' cached
              by_cases here : txid' = txid
              · subst here
                rw [Finmap.lookup_insert] at cached
                cases cached
                obtain ⟨stored, reread, hash⟩ := sound.index txid' postx found
                rw [read] at reread
                cases reread
                exact ⟨hash, postx, read⟩
              · rw [Finmap.lookup_insert_of_ne _ here] at cached
                exact sound.cache txid' entry' cached

/-- Every node reached from a sound one, by any run of events, is sound. -/
theorem NodeState.run_sound {node : NodeState} (sound : node.Sound sha256) (events : List NodeEvent) :
    (node.run sha256 events).Sound sha256 := by
  induction events generalizing node with
  | nil => exact sound
  | cons event events ih => exact ih (node.step_sound sha256 sound event)

/-- In a sound node, the kernel's lookup of an indexed txid takes a
transaction of that txid. -/
theorem CachedOrRead_sound {node : NodeState} (sound : node.Sound sha256) {txid : uint256}
    {postx : CDiskTxPos} (indexed : node.txindex.FindTxPosition txid = some postx) :
    ∃ entry, node.txindex.CachedOrRead node.files txid postx = some entry ∧
      entry.2.GetHash sha256 = txid := by
  unfold TxIndex.CachedOrRead
  cases cached : node.txindex.cachedTxs.lookup txid with
  | some entry => exact ⟨entry, rfl, (sound.cache txid entry cached).1⟩
  | none => exact sound.index txid postx indexed

end Sound

/-! ## The kernel check in every node -/

/-- In every sound node, a coinstake whose kernel spends an indexed
transaction at an output index past its last output reaches the unchecked
read `txPrev->vout[prevout.n]`: nothing before it compares the index with
the outputs. -/
theorem CheckProofOfStake_reads_past_vout {kctx : KernelContext} {node : NodeState}
    (sound : node.Sound kctx.sha256) {tx : CTransaction} {txin : CTxIn} {postx : CDiskTxPos}
    {header : CBlockHeader} {txPrev : CTransaction} (nBits nTimeTx : UInt32)
    (coinstake : tx.IsCoinStake = true) (first : tx.vin.head? = some txin)
    (indexed : node.txindex.FindTxPosition txin.prevout.hash = some postx)
    (taken : node.txindex.CachedOrRead node.files txin.prevout.hash postx = some (header, txPrev))
    (past : txPrev.vout.length ≤ txin.prevout.n.toNat) :
    CheckProofOfStake kctx node.files node.txindex tx nBits nTimeTx = .error voutOutOfRange := by
  -- the lookup takes a transaction of the kernel's txid, so the txid check passes
  obtain ⟨entry, takenEntry, hash⟩ := CachedOrRead_sound kctx.sha256 sound indexed
  rw [taken] at takenEntry
  cases takenEntry
  have sameTxid : txPrev.GetHash kctx.sha256 = txin.prevout.hash := hash
  have found : node.txindex.FindKernelTx node.files txin.prevout.hash = .ok (postx, header, txPrev) := by
    simp only [TxIndex.FindKernelTx, indexed, taken, getOrFail, ok_bind]
    rfl
  have outside : txPrev.vout[txin.prevout.n.toNat]? = none := List.getElem?_eq_none past
  simp only [CheckProofOfStake, coinstake, first, found, sameTxid, outside, Bool.not_true,
    rejectIf_false, getOrFail, ok_bind, bne_self_eq_false]
  rfl

/-- Where the cache is current, the kernel's lookup is the read at the
recorded position, as with an empty cache. -/
theorem CachedOrRead_of_current {files : BlockFiles} {txindex : TxIndex}
    (current : CacheCurrent files txindex) {txid : uint256} {postx : CDiskTxPos}
    (indexed : txindex.FindTxPosition txid = some postx) :
    txindex.CachedOrRead files txid postx = ReadTxFromDisk files postx := by
  unfold TxIndex.CachedOrRead
  cases cached : txindex.cachedTxs.lookup txid with
  | none => rfl
  | some entry =>
      obtain ⟨recorded, found, read⟩ := current txid entry cached
      rw [indexed] at found
      cases found
      exact read.symm

theorem FindKernelTx_of_current {files : BlockFiles} {txindex txindex' : TxIndex}
    (current : CacheCurrent files txindex) (current' : CacheCurrent files txindex')
    (same : txindex.m_db = txindex'.m_db) (txid : uint256) :
    txindex.FindKernelTx files txid = txindex'.FindKernelTx files txid := by
  have position : txindex'.FindTxPosition txid = txindex.FindTxPosition txid := by
    rw [TxIndex.FindTxPosition, TxIndex.FindTxPosition, same]
  unfold TxIndex.FindKernelTx
  rw [position]
  cases found : txindex.FindTxPosition txid with
  | none => rfl
  | some postx =>
      simp only [getOrFail, ok_bind]
      rw [CachedOrRead_of_current current found, CachedOrRead_of_current current' (position ▸ found)]

/-- Two nodes with the same block files and index whose caches are current
agree on every kernel check. -/
theorem CheckProofOfStake_of_current {kctx : KernelContext} {files : BlockFiles}
    {txindex txindex' : TxIndex} (current : CacheCurrent files txindex)
    (current' : CacheCurrent files txindex') (same : txindex.m_db = txindex'.m_db)
    (tx : CTransaction) (nBits nTimeTx : UInt32) :
    CheckProofOfStake kctx files txindex tx nBits nTimeTx =
      CheckProofOfStake kctx files txindex' tx nBits nTimeTx := by
  unfold CheckProofOfStake
  simp only [FindKernelTx_of_current current current' same]

/-! ## When the cache stays current -/

section Current

variable (sha256 : List UInt8 → uint256)

theorem NodeState.empty_current : CacheCurrent NodeState.empty.files NodeState.empty.txindex := by
  intro txid entry cached
  simp [NodeState.empty] at cached

/-- One event keeps the cache current unless it records a txid the cache
already holds. -/
theorem NodeState.step_current {node : NodeState} (current : CacheCurrent node.files node.txindex)
    {event : NodeEvent} (quiet : ¬ node.RecordsCached sha256 event) :
    CacheCurrent (node.step sha256 event).files (node.step sha256 event).txindex := by
  cases event with
  | writeBlock nFile nPos block =>
      dsimp only [NodeState.step]
      cases fresh : node.files.lookup (nFile, nPos) with
      | some _ => exact current
      | none =>
          intro txid entry cached
          obtain ⟨postx, found, read⟩ := current txid entry cached
          exact ⟨postx, found, ReadTxFromDisk_insert block fresh read⟩
  | blockConnected height nFile nPos =>
      dsimp only [NodeState.step]
      cases stored : node.files.lookup (nFile, nPos) with
      | none => exact current
      | some block =>
          dsimp only
          intro txid entry cached
          rw [CustomAppend_cachedTxs] at cached
          obtain ⟨postx, found, read⟩ := current txid entry cached
          refine ⟨postx, ?_, read⟩
          by_cases genesis : height = 0
          · subst genesis
            rw [CustomAppend_genesis]
            exact found
          · -- a cached txid is none of the block's, so its position stays
            have outside : txid ∉ block.vtx.map (CTransaction.GetHash sha256) := by
              intro member
              obtain ⟨tx, inBlock, recorded⟩ := List.mem_map.mp member
              subst recorded
              exact quiet ⟨block, stored, genesis, tx, inBlock, by rw [cached]; rfl⟩
            rw [CustomAppend_FindTxPosition_of_not_mem sha256 outside]
            exact found
  | coinAgeRead txid =>
      dsimp only [NodeState.step]
      cases run : GetCoinAgeTxPrev node.files node.txindex txid with
      | error _ => exact current
      | ok result =>
          obtain ⟨entry, txindex'⟩ := result
          rcases GetCoinAgeTxPrev_ok run with same | ⟨postx, found, read, rfl⟩
          · subst same
            exact current
          · intro txid' entry' cached
            by_cases here : txid' = txid
            · subst here
              rw [Finmap.lookup_insert] at cached
              cases cached
              exact ⟨postx, found, read⟩
            · rw [Finmap.lookup_insert_of_ne _ here] at cached
              exact current txid' entry' cached

theorem NodeState.run_current {node : NodeState} (current : CacheCurrent node.files node.txindex)
    {events : List NodeEvent} (quiet : node.QuietRun sha256 events) :
    CacheCurrent (node.run sha256 events).files (node.run sha256 events).txindex := by
  induction events generalizing node with
  | nil => exact current
  | cons event events ih => exact ih (node.step_current sha256 current quiet.1) quiet.2

/-- Two nodes reached by runs in which no cached txid is recorded again, and
that hold the same block files and index, agree on every kernel check,
whatever reads filled their caches. -/
theorem quiet_runs_agree {events events' : List NodeEvent}
    (quiet : NodeState.empty.QuietRun sha256 events) (quiet' : NodeState.empty.QuietRun sha256 events')
    (sameFiles : (NodeState.empty.run sha256 events).files = (NodeState.empty.run sha256 events').files)
    (sameIndex : (NodeState.empty.run sha256 events).txindex.m_db =
      (NodeState.empty.run sha256 events').txindex.m_db)
    (kctx : KernelContext) (tx : CTransaction) (nBits nTimeTx : UInt32) :
    CheckProofOfStake kctx (NodeState.empty.run sha256 events).files
        (NodeState.empty.run sha256 events).txindex tx nBits nTimeTx =
      CheckProofOfStake kctx (NodeState.empty.run sha256 events').files
        (NodeState.empty.run sha256 events').txindex tx nBits nTimeTx := by
  have current := NodeState.run_current sha256 NodeState.empty_current quiet
  have current' := NodeState.run_current sha256 NodeState.empty_current quiet'
  rw [← sameFiles] at current'
  rw [← sameFiles]
  exact CheckProofOfStake_of_current current current' sameIndex tx nBits nTimeTx

end Current

/-! ## A staked coin, its kernel and a transaction mined again

`stakedTx` pays 100 coins to one output and has no time of its own; the node
`stakedNode` wrote a block holding it at file 0, position 0, and connected
it at height 1.  A coinstake a minimum stake age and a day later spends it
by `kernelCoinstake`. -/

/-- The main network's kernel with a zero stake modifier and every script
accepted, hashing with `sumHash`. -/
def mainKernel : KernelContext where
  network := .MAIN
  params := mainParams
  sha256 := sumHash
  GetKernelStakeModifier := fun _ _ => some 0
  VerifyScript := fun _ _ => true

def stakedTx : CTransaction :=
  ⟨[⟨⟨uint256.ONE, 0⟩, [0x51], 0xFFFFFFFF, ⟨[]⟩⟩], [⟨100 * COIN, [0x51]⟩], 1, 0, 0⟩

/-- A block at `nTime` holding `stakedTx` after the coinbase. -/
def stakedBlock (nTime : UInt32) : CBlock :=
  ⟨⟨1, uint256.ZERO, uint256.ZERO, nTime, 0x1d00ffff, 0, 0⟩, [exampleCoinbase, stakedTx], []⟩

def stakedTime : UInt32 := 1400000000

/-- Thirty days and one day after `stakedTime`. -/
def kernelTime : UInt32 := 1402678400

def stakedNode : NodeState :=
  NodeState.empty.run sumHash [.writeBlock 0 0 (stakedBlock stakedTime), .blockConnected 1 0 0]

/-- A coinstake at `kernelTime` whose kernel spends output `n` of `stakedTx`. -/
def kernelCoinstake (n : UInt32) : CTransaction :=
  ⟨[⟨⟨stakedTx.GetHash sumHash, n⟩, [0x51], 0xFFFFFFFF, ⟨[]⟩⟩],
    [⟨0, []⟩, ⟨100 * COIN, [0x51]⟩], 1, kernelTime, 0⟩

/-- A proof-of-stake block at `kernelTime`: an empty coinbase, then
`kernelCoinstake n`. -/
def kernelBlock (n : UInt32) : CBlock :=
  ⟨⟨1, uint256.ZERO, uint256.ZERO, kernelTime, 0x1d00ffff, 0, 0⟩,
    [⟨[⟨⟨uint256.ZERO, COutPoint.NULL_INDEX⟩, [1, 2], 0xFFFFFFFF, ⟨[]⟩⟩], [⟨0, []⟩], 1, 0, 0⟩,
      kernelCoinstake n], []⟩

set_option maxRecDepth 20000 in
theorem kernelBlock_reads_past_vout :
    CheckBlock acceptingContext sumHash (kernelBlock 1) true true true = .ok () ∧
      stakedTx.vout.length = 1 ∧
      CheckProofOfStake mainKernel stakedNode.files stakedNode.txindex (kernelCoinstake 1)
        0x1d00ffff kernelTime = .error voutOutOfRange := by
  refine ⟨rfl, rfl, ?_⟩
  have sound : stakedNode.Sound mainKernel.sha256 :=
    NodeState.run_sound sumHash (NodeState.empty_sound sumHash) _
  exact CheckProofOfStake_reads_past_vout sound 0x1d00ffff kernelTime rfl rfl rfl rfl (by decide)

/-- `stakedBlock` is written and connected; a node reads `stakedTx` for the
coin age, the chain is reorganised and `stakedTx` is mined again in a block
about a day later, at file 0, position 1. -/
def reminedTime : UInt32 := 1400100000

def cachingNode : NodeState :=
  NodeState.empty.run sumHash
    [.writeBlock 0 0 (stakedBlock stakedTime), .blockConnected 1 0 0,
      .coinAgeRead (stakedTx.GetHash sumHash),
      .writeBlock 0 1 (stakedBlock reminedTime), .blockConnected 1 0 1]

/-- The same blocks, written and connected without the coin-age read. -/
def freshNode : NodeState :=
  NodeState.empty.run sumHash
    [.writeBlock 0 0 (stakedBlock stakedTime), .blockConnected 1 0 0,
      .writeBlock 0 1 (stakedBlock reminedTime), .blockConnected 1 0 1]

set_option maxRecDepth 20000 in
theorem remined_stake_verdicts_differ :
    cachingNode.files = freshNode.files ∧ cachingNode.txindex.m_db = freshNode.txindex.m_db ∧
      cachingNode.txindex.cachedTxs.lookup (stakedTx.GetHash sumHash) =
        some ({ (stakedBlock stakedTime).toCBlockHeader with nFlags := 0 }, stakedTx) ∧
      (cachingNode.txindex.FindTxPosition (stakedTx.GetHash sumHash)).bind
          (ReadTxFromDisk cachingNode.files) =
        some ({ (stakedBlock reminedTime).toCBlockHeader with nFlags := 0 }, stakedTx) ∧
      (∃ hashProofOfStake, CheckProofOfStake mainKernel cachingNode.files cachingNode.txindex
        (kernelCoinstake 0) 0x1d00ffff kernelTime = .ok hashProofOfStake) ∧
      CheckProofOfStake mainKernel freshNode.files freshNode.txindex (kernelCoinstake 0)
        0x1d00ffff kernelTime = .error "check-kernel-failed" :=
  ⟨rfl, rfl, rfl, rfl, ⟨_, rfl⟩, rfl⟩

end Peercoin.Kernel
