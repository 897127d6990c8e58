import PeercoinFormal.Validation.ConnectBlock

/-!
# validation.cpp: the money supply ConnectBlock records

`ConnectBlock` writes into the block's entry the parent's money supply plus
the value the block's transactions create less the value they spend, both
read off the running tallies `nValueOut` and `nValueIn`.  The coins view
moves by the value of the coins spent and of the outputs `AddCoins` keeps;
the outputs it drops (unspendable scripts, and zero values under
`IsProtocolV12`) leave the view at once, and are counted as burned.  So, as
long as no coinbase overwrites a coin still in the view, every connected
block moves the supply exactly as it moves the view's total plus the burned
value, and along a chain of blocks from a view without coins the supply is
that total plus all the value burned on the way.

Peercoin's `ConnectBlock` has no check against a coinbase whose outputs are
still unspent (Bitcoin's BIP30 test); `AddCoins` lets a coinbase overwrite
them, and the overwritten value stays counted in the supply.
-/

set_option autoImplicit false

namespace Peercoin.Validation

open Peercoin.Primitives Peercoin.Coins Peercoin.Chain Ledger

/-- A coin's value, as the tallies read it. -/
def CoinValue (coin : Coin) : Int := coin.out.value

/-- The total value of the unspent coins of a view. -/
def ViewTotal (view : CCoinsViewCache) : Int := total CoinValue view.cacheCoins

/-- The value of the outputs of `tx` that `AddCoins` does not keep. -/
def Burned (skipZeroValue : Bool) (tx : CTransaction) : Int :=
  ((tx.vout.filter fun out => !IsKept skipZeroValue out).map CTxOut.value).sum

/-- The value a block's transactions burn. -/
def BlockBurned (skipZeroValue : Bool) (vtx : List CTransaction) : Int :=
  (vtx.map (Burned skipZeroValue)).sum

/-- What the loop of `ConnectBlock` has tallied beyond what it put into the
view: the value created, less the value spent, less the view's total. -/
def ConnectState.balance (state : ConnectState) : Int :=
  state.nValueOut - state.nValueIn - ViewTotal state.view

/-! ## One transaction -/

/-- The outputs a transaction keeps and those it burns make up its value out. -/
theorem vout_value_split (skipZeroValue : Bool) (vout : List CTxOut) :
    (vout.map CTxOut.value).sum =
      ((vout.filter (IsKept skipZeroValue)).map CTxOut.value).sum +
        ((vout.filter fun out => !IsKept skipZeroValue out).map CTxOut.value).sum := by
  induction vout with
  | nil => rfl
  | cons out vout ih =>
      cases kept : IsKept skipZeroValue out <;>
        simp only [List.map_cons, List.sum_cons, List.filter_cons, kept, Bool.not_false,
          Bool.not_true, if_true, Bool.false_eq_true, if_false, ih] <;> omega

/-- The entries `AddCoins` puts in are worth the outputs it keeps. -/
theorem outputEntries_value {txid : uint256} {coin : CTxOut → Coin} {skipZeroValue : Bool}
    (records : ∀ out, (coin out).out = out) (i : Nat) (outs : List CTxOut) :
    ((outputEntries txid coin skipZeroValue i outs).map fun entry => CoinValue entry.2).sum =
      ((outs.filter (IsKept skipZeroValue)).map CTxOut.value).sum := by
  induction outs generalizing i with
  | nil => rfl
  | cons out outs ih =>
      cases kept : IsKept skipZeroValue out
      · simp [outputEntries, records, kept, ih]
      · simp only [outputEntries, records, kept, if_true, List.singleton_append, List.map_cons,
          List.sum_cons, List.filter_cons, ih]
        simp [CoinValue, records]

/-- Reading each key's coin from a store gives the values `takeAll` found there. -/
theorem AccessCoin_values {view : CCoinsViewCache} :
    ∀ {keys : List COutPoint} {values : List Coin}, keys.map view.cacheCoins.lookup = values.map some →
      keys.map (fun outpoint => (view.AccessCoin outpoint).out.value) = values.map CoinValue
  | [], [], _ => rfl
  | [], _ :: _, found => by cases found
  | _ :: _, [], found => by cases found
  | key :: keys, value :: values, found => by
      simp only [List.map_cons, List.cons.injEq] at found
      rw [List.map_cons, List.map_cons, AccessCoin_values found.2]
      simp [CCoinsViewCache.AccessCoin, found.1, CoinValue]

/-- `ValueIn` reads the coins `UpdateCoins` then takes out. -/
theorem ValueIn_of_takeAll {view : CCoinsViewCache} {tx : CTransaction} {values : List Coin}
    {rest : Store COutPoint Coin}
    (taken : takeAll view.cacheCoins (tx.vin.map CTxIn.prevout) = some (values, rest)) :
    ValueIn view tx = (values.map CoinValue).sum := by
  have reads := AccessCoin_values (takeAll_values taken)
  rw [List.map_map] at reads
  unfold ValueIn
  rw [← reads]
  rfl

/-- The tallies a transaction adds: its whole value out, and for a
transaction other than a coinbase the value of its inputs. -/
theorem Tally_values {ctx : Context} {block : CBlock} {pindex : CBlockIndex}
    {nMoneySupplyPrev : Int} {state tallied : ConnectState} {tx : CTransaction}
    (run : Tally ctx block pindex nMoneySupplyPrev state tx = .ok tallied) :
    tallied.nValueOut = state.nValueOut + (tx.vout.map CTxOut.value).sum ∧
      tallied.nValueIn = state.nValueIn + (if tx.IsCoinBase then 0 else ValueIn state.view tx) := by
  unfold Tally at run
  split at run
  · rename_i coinbase
    unfold TallyCoinBase at run
    obtain ⟨nValueOut, valueOut, done⟩ := bind_eq_ok.mp run
    cases done
    rw [GetValueOut_ok valueOut, if_pos coinbase]
    exact ⟨rfl, by simp⟩
  · rename_i notCoinbase
    unfold TallyTransaction at run
    obtain ⟨txfee, -, run⟩ := bind_eq_ok.mp run
    obtain ⟨nValueOut, valueOut, run⟩ := bind_eq_ok.mp run
    obtain ⟨⟨⟩, -, run⟩ := bind_eq_ok.mp run
    obtain ⟨⟨⟩, -, done⟩ := bind_eq_ok.mp run
    cases done
    rw [GetValueOut_ok valueOut, if_neg notCoinbase]
    exact ⟨rfl, rfl⟩

/-- `UpdateCoins` moves the view's total by the value it spends and the
value of the outputs it keeps, when those outputs found their outpoints
free and distinct. -/
theorem UpdateCoins_total {sha256 : List UInt8 → uint256} {tx : CTransaction}
    {inputs inputs' : CCoinsViewCache} {nHeight : Nat} {skipZeroValue : Bool} {txundo : CTxUndo}
    (run : UpdateCoins sha256 tx inputs nHeight skipZeroValue = .ok (txundo, inputs'))
    (fresh : tx.IsCoinBase = true →
      (∀ n, inputs.cacheCoins.lookup ⟨tx.GetHash sha256, n⟩ = none) ∧ tx.vout.length ≤ 2 ^ 32) :
    ViewTotal inputs' = ViewTotal inputs - (if tx.IsCoinBase then 0 else ValueIn inputs tx) +
      ((tx.vout.filter (IsKept skipZeroValue)).map CTxOut.value).sum := by
  obtain ⟨spent, taken, inserted, -, entriesFresh⟩ := UpdateCoins_ok run
  -- the outputs went in fresh and distinct: from the run, or for a coinbase from `fresh`
  have freshDistinct : (∀ entry ∈ txOutputEntries sha256 tx nHeight skipZeroValue,
      spent.lookup entry.1 = none) ∧
      ((txOutputEntries sha256 tx nHeight skipZeroValue).map Prod.fst).Nodup := by
    cases coinbase : tx.IsCoinBase
    · exact entriesFresh coinbase
    · obtain ⟨free, bounded⟩ := fresh coinbase
      simp only [spentOutpoints, coinbase, if_true, takeAll, Option.some.injEq,
        Prod.mk.injEq] at taken
      rw [← taken.2]
      refine ⟨fun entry member => ?_, outputEntries_nodup (by simpa using bounded)⟩
      obtain ⟨j, out, -, -, rfl, -⟩ := mem_outputEntries member
      exact free _
  have added := total_insertAll CoinValue freshDistinct.1 freshDistinct.2
  have keptValue : ((txOutputEntries sha256 tx nHeight skipZeroValue).map
      fun entry => CoinValue entry.2).sum = ((tx.vout.filter (IsKept skipZeroValue)).map CTxOut.value).sum :=
    outputEntries_value (fun _ => rfl) 0 tx.vout
  have removed := total_takeAll CoinValue taken
  have spentValue : (txundo.vprevout.map CoinValue).sum =
      (if tx.IsCoinBase then 0 else ValueIn inputs tx) := by
    cases coinbase : tx.IsCoinBase
    · simp only [spentOutpoints, coinbase, Bool.false_eq_true, if_false] at taken
      rw [ValueIn_of_takeAll taken]
      rfl
    · simp only [spentOutpoints, coinbase, if_true, takeAll, Option.some.injEq,
        Prod.mk.injEq] at taken
      rw [← taken.1]
      rfl
  unfold ViewTotal
  rw [inserted, added, keptValue, removed, spentValue]
  omega

/-- One pass of the loop moves the balance by the value the transaction
burns. -/
theorem ConnectTransaction_balance {ctx : Context} {sha256 : List UInt8 → uint256}
    {block : CBlock} {pindex : CBlockIndex} {nMoneySupplyPrev : Int} {first : Bool}
    {state state' : ConnectState} {tx : CTransaction}
    (run : ConnectTransaction ctx sha256 block pindex nMoneySupplyPrev first state tx = .ok state')
    (fresh : tx.IsCoinBase = true →
      (∀ n, state.view.cacheCoins.lookup ⟨tx.GetHash sha256, n⟩ = none) ∧ tx.vout.length ≤ 2 ^ 32) :
    state'.balance = state.balance + Burned (ctx.IsProtocolV12 pindex.nTime) tx := by
  obtain ⟨tallied, txundo, tally, update, -, valueIn, valueOut, -⟩ := ConnectTransaction_ok run
  obtain ⟨talliedOut, talliedIn⟩ := Tally_values tally
  have moved := UpdateCoins_total update fresh
  have split := vout_value_split (ctx.IsProtocolV12 pindex.nTime) tx.vout
  unfold ConnectState.balance Burned
  rw [valueIn, valueOut, talliedOut, talliedIn, moved]
  omega

/-! ## One block -/

/-- The loop over transactions other than a coinbase moves the balance by
the value they burn. -/
theorem ConnectTransactions_balance {ctx : Context} {sha256 : List UInt8 → uint256}
    {block : CBlock} {pindex : CBlockIndex} {nMoneySupplyPrev : Int} {first : Bool}
    {vtx : List CTransaction} {state final : ConnectState}
    (run : ConnectTransactions ctx sha256 block pindex nMoneySupplyPrev first state vtx = .ok final)
    (notCoinbase : ∀ tx ∈ vtx, tx.IsCoinBase = false) :
    final.balance = state.balance + BlockBurned (ctx.IsProtocolV12 pindex.nTime) vtx := by
  induction vtx generalizing first state with
  | nil =>
      cases run
      simp [BlockBurned]
  | cons tx vtx ih =>
      simp only [ConnectTransactions] at run
      obtain ⟨middle, connected, rest⟩ := bind_eq_ok.mp run
      have step := ConnectTransaction_balance connected fun coinbase => by
        rw [notCoinbase tx List.mem_cons_self] at coinbase
        cases coinbase
      rw [ih rest fun other member => notCoinbase other (List.mem_cons_of_mem _ member), step]
      simp only [BlockBurned, List.map_cons, List.sum_cons]
      omega

/-- The money supply `ConnectBlock` records for a block whose coinbase
overwrites no coin: the parent's, plus what the block added to the view's
total, plus what it burned. -/
theorem ConnectBlock_nMoneySupply {ctx : Context} {sha256 : List UInt8 → uint256}
    {block : CBlock} {pindex pindex' : CBlockIndex} {pprev : Option CBlockIndex}
    {view view' : CCoinsViewCache} {blockundo : CBlockUndo} {setStakeSeen setStakeSeen' : StakeSeen}
    (connected : ConnectBlock ctx sha256 block pindex pprev view false setStakeSeen =
      .ok (view', blockundo, pindex', setStakeSeen'))
    (notGenesis : block.GetHash sha256 ≠ ctx.hashGenesisBlock)
    (fresh : ∀ tx ∈ block.vtx, tx.IsCoinBase = true →
      ∀ n, view.cacheCoins.lookup ⟨tx.GetHash sha256, n⟩ = none) :
    pindex'.nMoneySupply = (pprev.map CBlockIndex.nMoneySupply).getD 0 +
      (ViewTotal view' - ViewTotal view) + BlockBurned (ctx.IsProtocolV12 pindex.nTime) block.vtx := by
  obtain ⟨checked, final, contextual, blockChecked, -, loop, rfl, -, rfl⟩ :=
    ConnectBlock_ok connected notGenesis
  obtain ⟨-, sameTime, -⟩ := ContextualChecksIfUnset_keeps contextual
  obtain ⟨⟨coinbase, rest, vtx, isCoinBase, others⟩, checkedTxs⟩ := CheckBlock_ok blockChecked
  have coinbaseMember : coinbase ∈ block.vtx := by
    rw [vtx]
    exact List.mem_cons_self
  -- the coinbase first, on the view the block starts from
  rw [vtx] at loop
  simp only [ConnectTransactions] at loop
  obtain ⟨afterCoinbase, coinbaseRun, restRun⟩ := bind_eq_ok.mp loop
  have coinbaseStep := ConnectTransaction_balance coinbaseRun fun _ =>
    ⟨fresh coinbase coinbaseMember isCoinBase, CheckTransaction_vout_length (checkedTxs coinbase coinbaseMember)⟩
  have restSteps := ConnectTransactions_balance restRun others
  rw [sameTime] at coinbaseStep restSteps
  have burned : BlockBurned (ctx.IsProtocolV12 pindex.nTime) block.vtx =
      Burned (ctx.IsProtocolV12 pindex.nTime) coinbase +
        BlockBurned (ctx.IsProtocolV12 pindex.nTime) rest := by
    rw [vtx, BlockBurned, List.map_cons, List.sum_cons, BlockBurned]
  simp only [ConnectState.balance] at coinbaseStep restSteps
  change _ = _ + (ViewTotal final.view - ViewTotal view) + _
  rw [burned]
  simp only [ViewTotal] at coinbaseStep restSteps ⊢
  omega

/-- A coin `UpdateCoins` leaves in the view was there before or is an
output of the transaction. -/
theorem UpdateCoins_lookup {sha256 : List UInt8 → uint256} {tx : CTransaction}
    {inputs inputs' : CCoinsViewCache} {nHeight : Nat} {skipZeroValue : Bool} {txundo : CTxUndo}
    (run : UpdateCoins sha256 tx inputs nHeight skipZeroValue = .ok (txundo, inputs'))
    {outpoint : COutPoint} {coin : Coin} (found : inputs'.cacheCoins.lookup outpoint = some coin) :
    inputs.cacheCoins.lookup outpoint = some coin ∨ outpoint.hash = tx.GetHash sha256 := by
  obtain ⟨spent, taken, inserted, -, -⟩ := UpdateCoins_ok run
  rw [inserted] at found
  rcases lookup_insertAll_eq_some found with before | added
  · exact .inl (takeAll_lookup taken before)
  · obtain ⟨j, out, -, -, same, -⟩ := mem_outputEntries added
    exact .inr (congrArg (fun entry : COutPoint × Coin => entry.1.hash) same)

theorem ConnectTransactions_lookup {ctx : Context} {sha256 : List UInt8 → uint256}
    {block : CBlock} {pindex : CBlockIndex} {nMoneySupplyPrev : Int} {first : Bool}
    {vtx : List CTransaction} {state final : ConnectState}
    (run : ConnectTransactions ctx sha256 block pindex nMoneySupplyPrev first state vtx = .ok final)
    {outpoint : COutPoint} {coin : Coin} (found : final.view.cacheCoins.lookup outpoint = some coin) :
    state.view.cacheCoins.lookup outpoint = some coin ∨
      ∃ tx ∈ vtx, outpoint.hash = tx.GetHash sha256 := by
  induction vtx generalizing first state with
  | nil =>
      cases run
      exact .inl found
  | cons tx vtx ih =>
      simp only [ConnectTransactions] at run
      obtain ⟨middle, connected, rest⟩ := bind_eq_ok.mp run
      rcases ih rest with before | ⟨other, member, same⟩
      · obtain ⟨-, txundo, -, update, -⟩ := ConnectTransaction_ok connected
        rcases UpdateCoins_lookup update before with older | output
        · exact .inl older
        · exact .inr ⟨tx, List.mem_cons_self, output⟩
      · exact .inr ⟨other, List.mem_cons_of_mem _ member, same⟩

/-- A coin in the view after `ConnectBlock` was there before or is an output
of one of the block's transactions. -/
theorem ConnectBlock_lookup {ctx : Context} {sha256 : List UInt8 → uint256}
    {block : CBlock} {pindex pindex' : CBlockIndex} {pprev : Option CBlockIndex}
    {view view' : CCoinsViewCache} {blockundo : CBlockUndo} {setStakeSeen setStakeSeen' : StakeSeen}
    (connected : ConnectBlock ctx sha256 block pindex pprev view false setStakeSeen =
      .ok (view', blockundo, pindex', setStakeSeen'))
    (notGenesis : block.GetHash sha256 ≠ ctx.hashGenesisBlock) {outpoint : COutPoint} {coin : Coin}
    (found : view'.cacheCoins.lookup outpoint = some coin) :
    view.cacheCoins.lookup outpoint = some coin ∨
      ∃ tx ∈ block.vtx, outpoint.hash = tx.GetHash sha256 := by
  obtain ⟨checked, final, -, -, -, loop, rfl, -, -⟩ := ConnectBlock_ok connected notGenesis
  exact ConnectTransactions_lookup loop found

/-! ## A chain of blocks -/

/-- Blocks connected one after another by `ConnectBlock`, each onto the view
and the parent entry the one before left; `burned` is the value their
transactions burned. -/
inductive ConnectedChain (ctx : Context) (sha256 : List UInt8 → uint256) :
    CCoinsViewCache → CBlockIndex → List CBlock → CCoinsViewCache → CBlockIndex → Int → Prop
  | nil (view : CCoinsViewCache) (tip : CBlockIndex) : ConnectedChain ctx sha256 view tip [] view tip 0
  | cons {view view' final : CCoinsViewCache} {tip pindex pindex' finalTip : CBlockIndex}
      {block : CBlock} {blocks : List CBlock} {blockundo : CBlockUndo}
      {setStakeSeen setStakeSeen' : StakeSeen} {burned : Int} :
      ConnectBlock ctx sha256 block pindex (some tip) view false setStakeSeen =
        .ok (view', blockundo, pindex', setStakeSeen') →
      ConnectedChain ctx sha256 view' pindex' blocks final finalTip burned →
      ConnectedChain ctx sha256 view tip (block :: blocks) final finalTip
        (BlockBurned (ctx.IsProtocolV12 pindex.nTime) block.vtx + burned)

/-- A block on `exampleParent` of the coinbase alone. -/
def coinbaseBlock : CBlock :=
  ⟨⟨1, exampleParent.phashBlock, uint256.ZERO, 1000, 0, 0, 0⟩, [exampleCoinbase], []⟩

/-- The next block, repeating the coinbase of `coinbaseBlock`. -/
def repeatBlock : CBlock :=
  ⟨⟨1, coinbaseBlock.GetHash sumHash, uint256.ZERO, 1001, 0, 0, 0⟩, [exampleCoinbase], []⟩

end Peercoin.Validation
