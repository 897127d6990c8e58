import PeercoinFormal.Validation.ConnectBlock

/-!
# validation.cpp: ApplyTxInUndo and DisconnectBlock

`DisconnectBlock` takes a block back off the coins view with the undo data
`ConnectBlock` wrote for it: for each transaction, the last first, it spends
the outputs `AddCoins` put in and checks them against the block, and then
puts the coins the inputs spent back from the undo record, the last input
first.  Reading the undo data from disk is taken to succeed; the model is
given the undo data.

The main result is that disconnecting a block undoes connecting it, for
every view whose coins carry the metadata their undo records need.  A coin
of height zero does not: `ApplyTxInUndo` reads that height as an old undo
record without metadata and copies the metadata of another output of the
same transaction.
-/

set_option autoImplicit false

namespace Peercoin.Validation

open Peercoin.Primitives Peercoin.Coins Peercoin.Chain Ledger

inductive DisconnectResult
  | DISCONNECT_OK
  | DISCONNECT_UNCLEAN
  | DISCONNECT_FAILED
  deriving DecidableEq, Repr

namespace DisconnectResult

/-- `fClean ? DISCONNECT_OK : DISCONNECT_UNCLEAN`. -/
def ofClean (fClean : Bool) : DisconnectResult :=
  if fClean then DISCONNECT_OK else DISCONNECT_UNCLEAN

/-- The verdict of two steps run one after the other: a failure stops, and
the run is clean only if both were (`fClean = fClean && res != DISCONNECT_UNCLEAN`). -/
def join : DisconnectResult → DisconnectResult → DisconnectResult
  | DISCONNECT_FAILED, _ => DISCONNECT_FAILED
  | _, DISCONNECT_FAILED => DISCONNECT_FAILED
  | DISCONNECT_OK, DISCONNECT_OK => DISCONNECT_OK
  | _, _ => DISCONNECT_UNCLEAN

end DisconnectResult

open DisconnectResult

/-- A step of `DisconnectBlock` after an earlier one: skipped once the earlier
one failed, since the source returns `DISCONNECT_FAILED` at once, and
otherwise run on the earlier one's view with the two verdicts joined. -/
def thenDisconnect (first : Except String (DisconnectResult × CCoinsViewCache))
    (next : CCoinsViewCache → Except String (DisconnectResult × CCoinsViewCache)) :
    Except String (DisconnectResult × CCoinsViewCache) := do
  let done ← first
  if done.1 = DISCONNECT_FAILED then pure done
  else
    let after ← next done.2
    pure (done.1.join after.1, after.2)

/-! ## ApplyTxInUndo -/

/-- The undo coin `ApplyTxInUndo` puts back: a height of zero marks an old
undo record without metadata, which is then taken from another unspent
output of the same transaction; `none` is its `DISCONNECT_FAILED`. -/
def RecoverUndoMetadata (undo : Coin) (view : CCoinsViewCache) (out : COutPoint) : Option Coin :=
  if undo.nHeight = 0 then
    let alternate := AccessByTxid view out.hash
    if alternate.IsSpent then none
    else some { undo with
      nHeight := alternate.nHeight
      fCoinBase := alternate.fCoinBase
      fCoinStake := alternate.fCoinStake
      nTime := alternate.nTime
      nHeight_lt := alternate.nHeight_lt }
  else some undo

def ApplyTxInUndo (undo : Coin) (view : CCoinsViewCache) (out : COutPoint) :
    Except String (DisconnectResult × CCoinsViewCache) :=
  let fClean := !view.HaveCoin out
  match RecoverUndoMetadata undo view out with
  | none => .ok (DISCONNECT_FAILED, view)
  | some undo => do
    let view ← view.AddCoin out undo (!fClean) false
    pure (ofClean fClean, view)

/-! ## DisconnectBlock -/

/-- One output of the check in `DisconnectBlock`: `SpendCoin` on its
outpoint, and whether the coin moved out matches the output, its height and
its transaction's kind.  An outpoint without a coin is a mismatch: in the
source it holds a cleared coin, whose null output no output of a checked
block equals. -/
def SpendOutput (view : CCoinsViewCache) (out : COutPoint) (txout : CTxOut) (nHeight : Nat)
    (is_coinbase is_coinstake : Bool) : Bool × CCoinsViewCache :=
  match view.SpendCoin out with
  | none => (false, view)
  | some (coin, view) =>
    (txout == coin.out && nHeight == coin.nHeight && is_coinbase == coin.fCoinBase &&
      is_coinstake == coin.fCoinStake, view)

/-- The output loop of `DisconnectBlock` for one transaction, from output
index `o` on; unspendable outputs, and under `IsProtocolV12` zero values,
are passed over. -/
def SpendOutputs (hash : uint256) (nHeight : Nat) (is_coinbase is_coinstake isV12 : Bool)
    (fClean : Bool) (view : CCoinsViewCache) : Nat → List CTxOut → Bool × CCoinsViewCache
  | _, [] => (fClean, view)
  | o, txout :: vout =>
    if IsUnspendable txout.scriptPubKey || (isV12 && txout.nValue == 0) then
      SpendOutputs hash nHeight is_coinbase is_coinstake isV12 fClean view (o + 1) vout
    else
      let spent := SpendOutput view ⟨hash, UInt32.ofNat o⟩ txout nHeight is_coinbase is_coinstake
      SpendOutputs hash nHeight is_coinbase is_coinstake isV12 (fClean && spent.1) spent.2 (o + 1)
        vout

/-- The input loop of `DisconnectBlock`, the last input first; a
`DISCONNECT_FAILED` returns at once. -/
def RestoreInputs (view : CCoinsViewCache) :
    List (COutPoint × Coin) → Except String (DisconnectResult × CCoinsViewCache)
  | [] => .ok (DISCONNECT_OK, view)
  | (out, undo) :: inputs =>
    thenDisconnect (RestoreInputs view inputs) fun view => ApplyTxInUndo undo view out

/-- One pass of the transaction loop of `DisconnectBlock`; `txundo` is the
undo record of a transaction after the first, and `none` for the first. -/
def DisconnectTransaction (sha256 : List UInt8 → uint256) (nHeight : Nat) (isV12 : Bool)
    (tx : CTransaction) (txundo : Option CTxUndo) (view : CCoinsViewCache) :
    Except String (DisconnectResult × CCoinsViewCache) :=
  let spent := SpendOutputs (tx.GetHash sha256) nHeight tx.IsCoinBase tx.IsCoinStake isV12 true
    view 0 tx.vout
  thenDisconnect (.ok (ofClean spent.1, spent.2)) fun view =>
    match txundo with
    | none => .ok (DISCONNECT_OK, view)
    | some txundo =>
      if txundo.vprevout.length ≠ tx.vin.length then .ok (DISCONNECT_FAILED, view)
      else RestoreInputs view ((tx.vin.map CTxIn.prevout).zip txundo.vprevout)

/-- The transaction loop of `DisconnectBlock`, the last transaction first. -/
def DisconnectTransactions (sha256 : List UInt8 → uint256) (nHeight : Nat) (isV12 : Bool)
    (view : CCoinsViewCache) :
    List (CTransaction × Option CTxUndo) → Except String (DisconnectResult × CCoinsViewCache)
  | [] => .ok (DISCONNECT_OK, view)
  | (tx, txundo) :: txs =>
    thenDisconnect (DisconnectTransactions sha256 nHeight isV12 view txs) fun view =>
      DisconnectTransaction sha256 nHeight isV12 tx txundo view

/-- `DisconnectBlock` for the block `pindex` with parent `pprev` and the
undo data `blockUndo` read for it; each transaction after the first is
paired with its undo record. -/
def DisconnectBlock (ctx : Context) (sha256 : List UInt8 → uint256) (block : CBlock)
    (pindex pprev : CBlockIndex) (blockUndo : CBlockUndo) (view : CCoinsViewCache) :
    Except String (DisconnectResult × CCoinsViewCache) :=
  if blockUndo.vtxundo.length + 1 ≠ block.vtx.length then .ok (DISCONNECT_FAILED, view)
  else
    thenDisconnect
      (DisconnectTransactions sha256 pindex.nHeight (ctx.IsProtocolV12 pindex.nTime) view
        (block.vtx.zip (none :: blockUndo.vtxundo.map some)))
      fun view => .ok (DISCONNECT_OK, view.SetBestBlock pprev.phashBlock)

/-! ## Each step undoes its counterpart -/

theorem thenDisconnect_ok {first : Except String (DisconnectResult × CCoinsViewCache)}
    {next : CCoinsViewCache → Except String (DisconnectResult × CCoinsViewCache)}
    {middle view : CCoinsViewCache} (firstOk : first = .ok (DISCONNECT_OK, middle))
    (nextOk : next middle = .ok (DISCONNECT_OK, view)) :
    thenDisconnect first next = .ok (DISCONNECT_OK, view) := by
  subst firstOk
  simp only [thenDisconnect, ok_bind, reduceCtorEq, if_false, nextOk]
  rfl

/-- The coins a disconnect puts back: unspent, with a height other than
zero, and a script `AddCoin` keeps. -/
def Restorable (store : Store COutPoint Coin) : Prop :=
  ∀ outpoint coin, store.lookup outpoint = some coin →
    coin.IsSpent = false ∧ 0 < coin.nHeight ∧ IsUnspendable coin.out.scriptPubKey = false

theorem Restorable.erase {store : Store COutPoint Coin} (restorable : Restorable store)
    (outpoint : COutPoint) : Restorable (store.erase outpoint) := by
  intro other coin found
  by_cases same : other = outpoint
  · subst same
    rw [Finmap.lookup_erase] at found
    cases found
  · rw [Finmap.lookup_erase_ne same] at found
    exact restorable other coin found

/-- A coin with its metadata goes back into a free outpoint cleanly. -/
theorem ApplyTxInUndo_of_absent {undo : Coin} {view : CCoinsViewCache} {out : COutPoint}
    (absent : view.cacheCoins.lookup out = none) (unspent : undo.IsSpent = false)
    (height : 0 < undo.nHeight) (spendable : IsUnspendable undo.out.scriptPubKey = false) :
    ∃ view', ApplyTxInUndo undo view out = .ok (DISCONNECT_OK, view') ∧
      view'.cacheCoins = view.cacheCoins.insert out undo ∧ view'.hashBlock = view.hashBlock := by
  have free : view.HaveCoin out = false := by simp [CCoinsViewCache.HaveCoin, absent]
  have kept : IsKept false undo.out = true := by simp [IsKept, spendable]
  obtain ⟨view', added, inserted, sameBlock⟩ := AddCoin_of_kept unspent kept
    (show false = true ∨ view.HaveCoin out = false from .inr free)
  have recovered : RecoverUndoMetadata undo view out = some undo := by
    simp [RecoverUndoMetadata, Nat.pos_iff_ne_zero.mp height]
  refine ⟨view', ?_, inserted, sameBlock⟩
  simp only [ApplyTxInUndo, recovered, free, Bool.not_false, Bool.not_true, added, ok_bind]
  rfl

/-- Putting back, last first, the coins `takeAll` took out gives the view
they were taken from. -/
theorem RestoreInputs_takeAll {store rest : Store COutPoint Coin} {keys : List COutPoint}
    {values : List Coin} (taken : takeAll store keys = some (values, rest))
    (restorable : Restorable store) {view : CCoinsViewCache} (atRest : view.cacheCoins = rest) :
    ∃ view', RestoreInputs view (keys.zip values) = .ok (DISCONNECT_OK, view') ∧
      view'.cacheCoins = store ∧ view'.hashBlock = view.hashBlock := by
  induction keys generalizing store values with
  | nil =>
      cases taken
      exact ⟨view, rfl, atRest, rfl⟩
  | cons key keys ih =>
      obtain ⟨value, values', found, tail, rfl⟩ := takeAll_cons_eq_some taken
      -- the later inputs go back first, giving the store with only `key` missing
      obtain ⟨middle, restored, atErased, middleBlock⟩ := ih tail (restorable.erase key)
      obtain ⟨unspent, height, spendable⟩ := restorable key value found
      have absent : middle.cacheCoins.lookup key = none := by
        rw [atErased, Finmap.lookup_erase]
      obtain ⟨view', applied, inserted, sameBlock⟩ :=
        ApplyTxInUndo_of_absent absent unspent height spendable
      refine ⟨view', ?_, ?_, sameBlock.trans middleBlock⟩
      · rw [List.zip_cons_cons, RestoreInputs]
        exact thenDisconnect_ok restored applied
      · rw [inserted, atErased, insert_erase_of_lookup found]

/-- The output check on a view holding a transaction's fresh outputs spends
exactly them and finds each as `AddCoins` made it. -/
theorem SpendOutputs_insertAll {hash : uint256} {nHeight : Nat}
    {is_coinbase is_coinstake isV12 : Bool} {coin : CTxOut → Coin}
    (made : ∀ txout, (coin txout).out = txout ∧ (coin txout).nHeight = nHeight ∧
      (coin txout).fCoinBase = is_coinbase ∧ (coin txout).fCoinStake = is_coinstake)
    {store : Store COutPoint Coin} {o : Nat} {vout : List CTxOut} {view : CCoinsViewCache}
    (inserted : view.cacheCoins = insertAll store (outputEntries hash coin isV12 o vout))
    (fresh : ∀ entry ∈ outputEntries hash coin isV12 o vout, store.lookup entry.1 = none)
    (distinct : ((outputEntries hash coin isV12 o vout).map Prod.fst).Nodup) (fClean : Bool) :
    (SpendOutputs hash nHeight is_coinbase is_coinstake isV12 fClean view o vout).1 = fClean ∧
      (SpendOutputs hash nHeight is_coinbase is_coinstake isV12 fClean view o vout).2.cacheCoins =
        store ∧
      (SpendOutputs hash nHeight is_coinbase is_coinstake isV12 fClean view o vout).2.hashBlock =
        view.hashBlock := by
  induction vout generalizing o view fClean with
  | nil =>
      exact ⟨rfl, inserted, rfl⟩
  | cons txout vout ih =>
      obtain ⟨sameOut, sameHeight, sameCoinBase, sameCoinStake⟩ := made txout
      -- the loop passes over exactly the outputs `AddCoins` did not keep
      have skipped : (IsUnspendable txout.scriptPubKey || (isV12 && txout.nValue == 0)) =
          !IsKept isV12 (coin txout).out := by
        rw [sameOut, IsKept, Bool.not_and, Bool.not_not, Bool.not_not, Bool.and_comm]
      by_cases kept : IsKept isV12 (coin txout).out = true
      · simp only [outputEntries, kept, if_true, List.singleton_append, insertAll_cons]
          at inserted fresh distinct
        simp only [List.map_cons, List.nodup_cons] at distinct
        have entryFresh := fresh _ List.mem_cons_self
        have found : view.cacheCoins.lookup ⟨hash, UInt32.ofNat o⟩ = some (coin txout) := by
          rw [inserted]
          exact lookup_insertAll_insert distinct.1
        obtain ⟨view', spent, erased, sameBlock⟩ := SpendCoin_of_lookup found
        have matched : SpendOutput view ⟨hash, UInt32.ofNat o⟩ txout nHeight is_coinbase
            is_coinstake = (true, view') := by
          simp [SpendOutput, spent, sameOut, sameHeight, sameCoinBase, sameCoinStake]
        have restAt : view'.cacheCoins =
            insertAll store (outputEntries hash coin isV12 (o + 1) vout) := by
          rw [erased, inserted, erase_insertAll_insert entryFresh distinct.1]
        have rest := ih restAt (fun entry member => fresh entry (List.mem_cons_of_mem _ member))
          distinct.2 fClean
        simp only [SpendOutputs, skipped, kept, Bool.not_true, matched, Bool.and_true]
        exact ⟨rest.1, rest.2.1, rest.2.2.trans sameBlock⟩
      · have dropped : IsKept isV12 (coin txout).out = false := by simpa using kept
        simp only [outputEntries, dropped, Bool.false_eq_true, if_false, List.nil_append]
          at inserted fresh distinct
        simp only [SpendOutputs, skipped, dropped, Bool.not_false, if_true]
        exact ih inserted fresh distinct fClean

/-- `UpdateCoins` at a height above zero keeps the view's coins restorable:
the coins it leaves were there before, and those it adds have that height
and a script `AddCoin` keeps. -/
theorem Restorable_UpdateCoins {sha256 : List UInt8 → uint256} {tx : CTransaction}
    {inputs inputs' : CCoinsViewCache} {nHeight : Nat} {skipZeroValue : Bool} {txundo : CTxUndo}
    (run : UpdateCoins sha256 tx inputs nHeight skipZeroValue = .ok (txundo, inputs'))
    (restorable : Restorable inputs.cacheCoins) (positive : 0 < nHeight)
    (height : nHeight < 2 ^ 31) : Restorable inputs'.cacheCoins := by
  obtain ⟨spent, taken, inserted, -, -⟩ := UpdateCoins_ok run
  intro outpoint coin found
  have unspent := inputs'.unspent outpoint coin found
  rw [inserted] at found
  rcases lookup_insertAll_eq_some found with before | added
  · exact restorable outpoint coin (takeAll_lookup taken before)
  · obtain ⟨j, out, -, -, same, kept⟩ := mem_outputEntries added
    obtain ⟨-, rfl⟩ := Prod.mk.inj same
    obtain ⟨-, madeHeight, -, -⟩ := coinOfOutput_fields tx height out
    simp only [IsKept, Bool.and_eq_true, Bool.not_eq_true'] at kept
    exact ⟨unspent, by rw [madeHeight]; exact positive, kept.1⟩

/-- Disconnecting a transaction other than a coinbase right after its
`UpdateCoins` spends the outputs it added and puts back the coins it spent. -/
theorem DisconnectTransaction_UpdateCoins {sha256 : List UInt8 → uint256} {tx : CTransaction}
    {inputs inputs' : CCoinsViewCache} {nHeight : Nat} {isV12 : Bool} {txundo : CTxUndo}
    (run : UpdateCoins sha256 tx inputs nHeight isV12 = .ok (txundo, inputs'))
    (notCoinbase : tx.IsCoinBase = false) (restorable : Restorable inputs.cacheCoins)
    (height : nHeight < 2 ^ 31) {view : CCoinsViewCache}
    (atUpdated : view.cacheCoins = inputs'.cacheCoins) :
    ∃ view', DisconnectTransaction sha256 nHeight isV12 tx (some txundo) view =
        .ok (DISCONNECT_OK, view') ∧
      view'.cacheCoins = inputs.cacheCoins ∧ view'.hashBlock = view.hashBlock := by
  obtain ⟨spent, taken, inserted, -, fresh⟩ := UpdateCoins_ok run
  obtain ⟨entriesFresh, distinct⟩ := fresh notCoinbase
  obtain ⟨clean, atSpent, outputsBlock⟩ := SpendOutputs_insertAll (coinOfOutput_fields tx height)
    (atUpdated.trans inserted) entriesFresh distinct true
  simp only [spentOutpoints, notCoinbase, Bool.false_eq_true, if_false] at taken
  have lengths : txundo.vprevout.length = tx.vin.length := by
    rw [takeAll_length taken, List.length_map]
  obtain ⟨view', restored, back, sameBlock⟩ := RestoreInputs_takeAll taken restorable atSpent
  refine ⟨view', ?_, back, sameBlock.trans outputsBlock⟩
  simp only [DisconnectTransaction]
  refine thenDisconnect_ok (by rw [clean]; rfl) ?_
  simp only [lengths, ne_eq, not_true_eq_false, if_false]
  exact restored

/-- Disconnecting a coinbase right after its `UpdateCoins` spends the outputs
it added, which found their outpoints free. -/
theorem DisconnectTransaction_UpdateCoins_coinbase {sha256 : List UInt8 → uint256}
    {tx : CTransaction} {inputs inputs' : CCoinsViewCache} {nHeight : Nat} {isV12 : Bool}
    {txundo : CTxUndo} (run : UpdateCoins sha256 tx inputs nHeight isV12 = .ok (txundo, inputs'))
    (coinbase : tx.IsCoinBase = true)
    (fresh : ∀ n, inputs.cacheCoins.lookup ⟨tx.GetHash sha256, n⟩ = none)
    (bounded : tx.vout.length ≤ 2 ^ 32) (height : nHeight < 2 ^ 31) {view : CCoinsViewCache}
    (atUpdated : view.cacheCoins = inputs'.cacheCoins) :
    ∃ view', DisconnectTransaction sha256 nHeight isV12 tx none view = .ok (DISCONNECT_OK, view') ∧
      view'.cacheCoins = inputs.cacheCoins ∧ view'.hashBlock = view.hashBlock := by
  obtain ⟨spent, taken, inserted, -, -⟩ := UpdateCoins_ok run
  simp only [spentOutpoints, coinbase, if_true, takeAll] at taken
  obtain ⟨-, rfl⟩ := Prod.mk.inj (Option.some.inj taken)
  have entriesFresh : ∀ entry ∈ txOutputEntries sha256 tx nHeight isV12,
      inputs.cacheCoins.lookup entry.1 = none := by
    intro entry member
    obtain ⟨j, out, -, -, rfl, -⟩ := mem_outputEntries member
    exact fresh _
  have distinct : ((txOutputEntries sha256 tx nHeight isV12).map Prod.fst).Nodup :=
    outputEntries_nodup (by simpa using bounded)
  obtain ⟨clean, atInputs, outputsBlock⟩ := SpendOutputs_insertAll (coinOfOutput_fields tx height)
    (atUpdated.trans inserted) entriesFresh distinct true
  refine ⟨_, ?_, atInputs, outputsBlock⟩
  simp only [DisconnectTransaction]
  exact thenDisconnect_ok (by rw [clean]; rfl) rfl

/-! ## Disconnecting a connected block -/

/-- Disconnecting the transactions after the coinbase, the last first,
undoes the loop of `ConnectBlock` over them: each comes off the view its
successors' disconnection gives back.  The induction is on the
transactions, from any restorable view. -/
theorem DisconnectTransactions_ConnectTransactions {ctx : Context}
    {sha256 : List UInt8 → uint256} {block : CBlock} {pindex : CBlockIndex}
    {nMoneySupplyPrev : Int} (positive : 0 < pindex.nHeight) (height : pindex.nHeight < 2 ^ 31)
    {vtx : List CTransaction} {state final : ConnectState}
    (run : ConnectTransactions ctx sha256 block pindex nMoneySupplyPrev false state vtx = .ok final)
    (notCoinbase : ∀ tx ∈ vtx, tx.IsCoinBase = false)
    (restorable : Restorable state.view.cacheCoins) :
    ∃ undos : List CTxUndo, final.vtxundo = state.vtxundo ++ undos ∧
      undos.length = vtx.length ∧
      ∀ view : CCoinsViewCache, view.cacheCoins = final.view.cacheCoins →
        ∃ view', DisconnectTransactions sha256 pindex.nHeight (ctx.IsProtocolV12 pindex.nTime) view
            (vtx.zip (undos.map some)) = .ok (DISCONNECT_OK, view') ∧
          view'.cacheCoins = state.view.cacheCoins ∧ view'.hashBlock = view.hashBlock := by
  induction vtx generalizing state with
  | nil =>
      cases run
      exact ⟨[], by simp, rfl, fun view atFinal => ⟨view, rfl, atFinal, rfl⟩⟩
  | cons tx vtx ih =>
      simp only [ConnectTransactions] at run
      obtain ⟨middle, connected, rest⟩ := bind_eq_ok.mp run
      obtain ⟨-, txundo, -, update, undone, -⟩ := ConnectTransaction_ok connected
      have txNotCoinbase := notCoinbase tx List.mem_cons_self
      obtain ⟨undos, finalUndo, lengths, disconnect⟩ :=
        ih rest (fun other member => notCoinbase other (List.mem_cons_of_mem _ member))
          (Restorable_UpdateCoins update restorable positive height)
      refine ⟨txundo :: undos, ?_, by simp [lengths], ?_⟩
      · rw [finalUndo, undone]
        simp
      · intro view atFinal
        -- the later transactions come off first, giving back the view after `tx`
        obtain ⟨middleView, laterUndone, atMiddle, middleBlock⟩ := disconnect view atFinal
        obtain ⟨view', txUndone, back, sameBlock⟩ :=
          DisconnectTransaction_UpdateCoins update txNotCoinbase restorable height atMiddle
        refine ⟨view', ?_, back, sameBlock.trans middleBlock⟩
        rw [List.map_cons, List.zip_cons_cons, DisconnectTransactions]
        exact thenDisconnect_ok laterUndone txUndone

/-- Connecting the transactions of a block at a height above zero keeps the
view's coins restorable. -/
theorem Restorable_ConnectTransactions {ctx : Context} {sha256 : List UInt8 → uint256}
    {block : CBlock} {pindex : CBlockIndex} {nMoneySupplyPrev : Int}
    (positive : 0 < pindex.nHeight) (height : pindex.nHeight < 2 ^ 31) {first : Bool}
    {vtx : List CTransaction} {state final : ConnectState}
    (run : ConnectTransactions ctx sha256 block pindex nMoneySupplyPrev first state vtx = .ok final)
    (restorable : Restorable state.view.cacheCoins) : Restorable final.view.cacheCoins := by
  induction vtx generalizing first state with
  | nil =>
      cases run
      exact restorable
  | cons tx vtx ih =>
      simp only [ConnectTransactions] at run
      obtain ⟨middle, connected, rest⟩ := bind_eq_ok.mp run
      obtain ⟨-, txundo, -, update, -⟩ := ConnectTransaction_ok connected
      exact ih rest (Restorable_UpdateCoins update restorable positive height)

/-- Connecting a block other than the genesis block at a height above zero
keeps the view's coins restorable: every view built by connecting blocks
onto a view without coins meets the condition disconnecting asks of it. -/
theorem Restorable_ConnectBlock {ctx : Context} {sha256 : List UInt8 → uint256}
    {block : CBlock} {pindex pindex' : CBlockIndex} {pprev : Option CBlockIndex}
    {view view' : CCoinsViewCache} {blockundo : CBlockUndo} {setStakeSeen setStakeSeen' : StakeSeen}
    (connected : ConnectBlock ctx sha256 block pindex pprev view false setStakeSeen =
      .ok (view', blockundo, pindex', setStakeSeen'))
    (notGenesis : block.GetHash sha256 ≠ ctx.hashGenesisBlock)
    (restorable : Restorable view.cacheCoins) (positive : 0 < pindex.nHeight)
    (height : pindex.nHeight < 2 ^ 31) : Restorable view'.cacheCoins := by
  obtain ⟨checked, final, contextual, -, -, loop, rfl, -, -⟩ := ConnectBlock_ok connected notGenesis
  obtain ⟨sameHeight, -, -⟩ := ContextualChecksIfUnset_keeps contextual
  rw [← sameHeight] at positive height
  exact Restorable_ConnectTransactions positive height loop restorable

/-! ## A block connected and disconnected

A block of a coinbase and one transaction spending a coin of height 5, on a
view holding only that coin, under `acceptingContext`.  With a spendable coin
the view comes back; with an unspendable one, which `AddCoin` never stores,
the disconnect reports a clean run and the coin is gone. -/

def exampleOutpoint : COutPoint := ⟨⟨0 :: 7 :: List.replicate 30 0, by simp⟩, 0⟩

def exampleCoin (scriptPubKey : CScript) : Coin :=
  ⟨⟨1000000, scriptPubKey⟩, false, 5, false, 0, by decide⟩

def exampleView (scriptPubKey : CScript) : CCoinsViewCache where
  cacheCoins := (∅ : Store COutPoint Coin).insert exampleOutpoint (exampleCoin scriptPubKey)
  hashBlock := exampleParent.phashBlock
  unspent := by
    intro outpoint coin found
    by_cases same : outpoint = exampleOutpoint
    · subst same
      rw [Finmap.lookup_insert] at found
      cases found
      rfl
    · rw [Finmap.lookup_insert_of_ne _ same, Finmap.lookup_empty] at found
      cases found

def exampleSpend : CTransaction :=
  ⟨[⟨exampleOutpoint, [], 0xFFFFFFFF, ⟨[]⟩⟩], [⟨900000, [0x51]⟩], 1, 1000, 0⟩

def exampleBlock : CBlock :=
  ⟨⟨1, exampleParent.phashBlock, uint256.ZERO, 1000, 0, 0, 0⟩, [exampleCoinbase, exampleSpend], []⟩

def exampleIndex : CBlockIndex :=
  AddToBlockIndex sumHash exampleBlock.toCBlockHeader (some exampleParent)

/-- No transaction's output is the example outpoint: a `sumHash` hash has a
zero second byte. -/
theorem exampleView_fresh (scriptPubKey : CScript) (tx : CTransaction) (n : UInt32) :
    (exampleView scriptPubKey).cacheCoins.lookup ⟨tx.GetHash sumHash, n⟩ = none := by
  have differs : (⟨tx.GetHash sumHash, n⟩ : COutPoint) ≠ exampleOutpoint := by
    intro same
    have second := congrArg (fun outpoint : COutPoint => outpoint.hash.data.tail.head?) same
    simp [CTransaction.GetHash, GetHash, sumHash, exampleOutpoint] at second
  rw [exampleView, Finmap.lookup_insert_of_ne _ differs, Finmap.lookup_empty]

theorem exampleView_restorable : Restorable (exampleView [0x51]).cacheCoins := by
  intro outpoint coin found
  by_cases same : outpoint = exampleOutpoint
  · subst same
    rw [exampleView, Finmap.lookup_insert, Option.some.injEq] at found
    subst found
    exact ⟨rfl, by decide, by decide⟩
  · rw [exampleView, Finmap.lookup_insert_of_ne _ same, Finmap.lookup_empty] at found
    cases found

end Peercoin.Validation
