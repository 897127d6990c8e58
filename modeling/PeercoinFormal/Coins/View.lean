import PeercoinFormal.Coins.Coin
import PeercoinFormal.Ledger.Store
import PeercoinFormal.Ledger.Result
import PeercoinFormal.Primitives.TransactionFormat

/-!
# coins.cpp: the coins view

`CCoinsViewCache` is modelled by the unspent coins it shows (its own
entries over those of the views behind it) and its best block.  The
cache's FRESH and DIRTY flags only decide what a flush writes to the
parent, and a spent entry reads as a missing one everywhere but in
`SpendCoin`, where both make the callers of this model take the same
branch; so the model keeps an unspent coin per outpoint, as a `Store`.
The record carries the fact that every coin in it is unspent.
-/

set_option autoImplicit false

namespace Peercoin.Coins

open Peercoin.Primitives Ledger

/-- `Coin()`: what `AccessCoin` returns for an outpoint without a coin. -/
def Coin.empty : Coin := ⟨default, false, 0, false, 0, by decide⟩

/-- The `Coin` constructor; the height goes into a 31-bit bit-field. -/
def Coin.new (outIn : CTxOut) (nHeightIn : Nat) (fCoinBaseIn fCoinStakeIn : Bool)
    (nTimeIn : UInt32) : Coin :=
  ⟨outIn, fCoinBaseIn, nHeightIn % 2 ^ 31, fCoinStakeIn, nTimeIn, Nat.mod_lt _ (by decide)⟩

@[ext] structure CCoinsViewCache where
  cacheCoins : Store COutPoint Coin
  hashBlock : uint256
  unspent : ∀ outpoint coin, cacheCoins.lookup outpoint = some coin → coin.IsSpent = false

namespace CCoinsViewCache

variable (view : CCoinsViewCache)

def HaveCoin (outpoint : COutPoint) : Bool := (view.cacheCoins.lookup outpoint).isSome

def AccessCoin (outpoint : COutPoint) : Coin := (view.cacheCoins.lookup outpoint).getD Coin.empty

def GetBestBlock : uint256 := view.hashBlock

def SetBestBlock (hashBlock : uint256) : CCoinsViewCache := { view with hashBlock }

/-- `SpendCoin`, moving the coin out; `none` is its `false`. -/
def SpendCoin (outpoint : COutPoint) : Option (Coin × CCoinsViewCache) :=
  match found : view.cacheCoins.lookup outpoint with
  | none => none
  | some coin =>
    some (coin, { view with
      cacheCoins := view.cacheCoins.erase outpoint
      unspent := fun other coin' left => by
        by_cases same : other = outpoint
        · subst same
          rw [Finmap.lookup_erase] at left
          cases left
        · rw [Finmap.lookup_erase_ne same] at left
          exact view.unspent other coin' left })

/-- `AddCoin`; an `.error` is the failed assertion or the `logic_error` it
throws. -/
def AddCoin (outpoint : COutPoint) (coin : Coin) (possible_overwrite skipZeroValue : Bool) :
    Except String CCoinsViewCache :=
  if spent : coin.IsSpent then .error "assertion failed: !coin.IsSpent()"
  else if IsUnspendable coin.out.scriptPubKey then .ok view
  else if coin.out.nValue = 0 ∧ skipZeroValue then .ok view
  else if ¬ possible_overwrite ∧ view.HaveCoin outpoint then
    .error "Attempted to overwrite an unspent coin (when possible_overwrite is false)"
  else
    .ok { view with
      cacheCoins := view.cacheCoins.insert outpoint coin
      unspent := fun other coin' found => by
        by_cases same : other = outpoint
        · subst same
          rw [Finmap.lookup_insert] at found
          cases found
          simpa using spent
        · rw [Finmap.lookup_insert_of_ne _ same] at found
          exact view.unspent other coin' found }

/-- `HaveInputs`: every input of a transaction other than a coinbase is
here. -/
def HaveInputs (tx : CTransaction) : Bool :=
  tx.IsCoinBase || tx.vin.all fun txin => view.HaveCoin txin.prevout

end CCoinsViewCache

/-! ## What one call does -/

/-- The outputs `AddCoin` keeps: it drops unspendable scripts, and zero
values when asked to. -/
def IsKept (skipZeroValue : Bool) (out : CTxOut) : Bool :=
  !IsUnspendable out.scriptPubKey && !(out.nValue == 0 && skipZeroValue)

section Spec

variable {view view' : CCoinsViewCache} {outpoint : COutPoint} {coin : Coin}

theorem SpendCoin_of_lookup_none (absent : view.cacheCoins.lookup outpoint = none) :
    view.SpendCoin outpoint = none := by
  unfold CCoinsViewCache.SpendCoin
  split
  · rfl
  · rename_i found
    rw [absent] at found
    cases found

theorem SpendCoin_of_lookup (found : view.cacheCoins.lookup outpoint = some coin) :
    ∃ view', view.SpendCoin outpoint = some (coin, view') ∧
      view'.cacheCoins = view.cacheCoins.erase outpoint ∧ view'.hashBlock = view.hashBlock := by
  unfold CCoinsViewCache.SpendCoin
  split
  · rename_i absent
    rw [absent] at found
    cases found
  · rename_i coin' found'
    rw [found] at found'
    cases found'
    exact ⟨_, rfl, rfl, rfl⟩

theorem SpendCoin_eq_some {view' : CCoinsViewCache}
    (spent : view.SpendCoin outpoint = some (coin, view')) :
    view.cacheCoins.lookup outpoint = some coin ∧
      view'.cacheCoins = view.cacheCoins.erase outpoint ∧ view'.hashBlock = view.hashBlock := by
  cases found : view.cacheCoins.lookup outpoint with
  | none =>
      rw [SpendCoin_of_lookup_none found] at spent
      cases spent
  | some coin' =>
      obtain ⟨view'', spent', erased, sameBlock⟩ := SpendCoin_of_lookup found
      rw [spent'] at spent
      cases spent
      exact ⟨rfl, erased, sameBlock⟩

/-- Everything a successful `AddCoin` can do: keep the view, or put the coin
in, and the second only where an overwrite is allowed or nothing is there. -/
theorem AddCoin_ok {possible_overwrite skipZeroValue : Bool}
    (added : view.AddCoin outpoint coin possible_overwrite skipZeroValue = .ok view') :
    coin.IsSpent = false ∧
      (IsKept skipZeroValue coin.out = false ∧ view' = view ∨
        IsKept skipZeroValue coin.out = true ∧ (possible_overwrite ∨ view.HaveCoin outpoint = false) ∧
          view'.cacheCoins = view.cacheCoins.insert outpoint coin ∧
          view'.hashBlock = view.hashBlock) := by
  unfold CCoinsViewCache.AddCoin at added
  by_cases spent : coin.IsSpent = true
  · rw [dif_pos spent] at added
    cases added
  rw [dif_neg spent] at added
  refine ⟨by simpa using spent, ?_⟩
  by_cases unspendable : IsUnspendable coin.out.scriptPubKey = true
  · rw [if_pos unspendable] at added
    cases added
    exact .inl ⟨by simp [IsKept, unspendable], rfl⟩
  rw [if_neg unspendable] at added
  by_cases skipped : coin.out.nValue = 0 ∧ skipZeroValue = true
  · rw [if_pos skipped] at added
    cases added
    exact .inl ⟨by simp [IsKept, skipped.1, skipped.2], rfl⟩
  rw [if_neg skipped] at added
  have kept : IsKept skipZeroValue coin.out = true := by
    simp only [IsKept, unspendable, Bool.not_false, Bool.true_and, Bool.not_eq_eq_eq_not,
      Bool.not_true, Bool.and_eq_false_iff, beq_eq_false_iff_ne]
    by_cases zero : coin.out.nValue = 0
    · exact .inr (by simpa [zero] using skipped)
    · exact .inl zero
  by_cases refused : ¬ possible_overwrite = true ∧ view.HaveCoin outpoint = true
  · rw [if_pos refused] at added
    cases added
  rw [if_neg refused] at added
  cases added
  refine .inr ⟨kept, ?_, rfl, rfl⟩
  by_cases allowed : possible_overwrite = true
  · exact .inl allowed
  · exact .inr (by simpa [allowed] using refused)

/-- `AddCoin` puts in a kept, unspent coin where an overwrite is allowed or
nothing is there. -/
theorem AddCoin_of_kept {possible_overwrite skipZeroValue : Bool} (unspent : coin.IsSpent = false)
    (kept : IsKept skipZeroValue coin.out = true)
    (allowed : possible_overwrite = true ∨ view.HaveCoin outpoint = false) :
    ∃ view', view.AddCoin outpoint coin possible_overwrite skipZeroValue = .ok view' ∧
      view'.cacheCoins = view.cacheCoins.insert outpoint coin ∧ view'.hashBlock = view.hashBlock := by
  simp only [IsKept, Bool.and_eq_true, Bool.not_eq_true', Bool.and_eq_false_iff,
    beq_eq_false_iff_ne] at kept
  obtain ⟨spendable, notSkipped⟩ := kept
  have notRefused : ¬ (¬ possible_overwrite = true ∧ view.HaveCoin outpoint = true) := by
    rintro ⟨refused, present⟩
    rcases allowed with allowed | absent
    · exact refused allowed
    · rw [absent] at present
      cases present
  have keptValue : ¬ (coin.out.nValue = 0 ∧ skipZeroValue = true) := by
    rintro ⟨zero, skip⟩
    rcases notSkipped with nonzero | noSkip
    · exact nonzero zero
    · rw [skip] at noSkip
      cases noSkip
  unfold CCoinsViewCache.AddCoin
  rw [dif_neg (by simp [unspent]), if_neg (by simp [spendable]), if_neg keptValue,
    if_neg notRefused]
  exact ⟨_, rfl, rfl, rfl⟩

end Spec

def MAX_BLOCK_WEIGHT : Nat := 4000000

def WITNESS_SCALE_FACTOR : Nat := 4

def MIN_TRANSACTION_OUTPUT_WEIGHT : Nat :=
  WITNESS_SCALE_FACTOR * (serializeCTxOut default).length

def MAX_OUTPUTS_PER_BLOCK : Nat := MAX_BLOCK_WEIGHT / MIN_TRANSACTION_OUTPUT_WEIGHT

/-- `AccessByTxid`: the first unspent output of `txid` among the first
`MAX_OUTPUTS_PER_BLOCK`, or the empty coin. -/
def AccessByTxid (view : CCoinsViewCache) (txid : uint256) : Coin :=
  match (List.range MAX_OUTPUTS_PER_BLOCK).find? fun n =>
      !(view.AccessCoin ⟨txid, UInt32.ofNat n⟩).IsSpent with
  | some n => view.AccessCoin ⟨txid, UInt32.ofNat n⟩
  | none => Coin.empty

/-- The coin `AddCoins` makes of output `out` of `tx`. -/
def coinOfOutput (tx : CTransaction) (nHeight : Nat) (out : CTxOut) : Coin :=
  Coin.new out nHeight tx.IsCoinBase tx.IsCoinStake tx.nTime

/-- The coin of an output records it, the height, below `2 ^ 31`, and the
transaction's kind. -/
theorem coinOfOutput_fields (tx : CTransaction) {nHeight : Nat} (height : nHeight < 2 ^ 31)
    (out : CTxOut) :
    (coinOfOutput tx nHeight out).out = out ∧ (coinOfOutput tx nHeight out).nHeight = nHeight ∧
      (coinOfOutput tx nHeight out).fCoinBase = tx.IsCoinBase ∧
      (coinOfOutput tx nHeight out).fCoinStake = tx.IsCoinStake :=
  ⟨rfl, Nat.mod_eq_of_lt height, rfl, rfl⟩

/-- The loop of `AddCoins` from output index `i` on. -/
def AddCoinsLoop (txid : uint256) (coin : CTxOut → Coin) (fCoinbase check_for_overwrite
    skipZeroValue : Bool) (view : CCoinsViewCache) : Nat → List CTxOut →
    Except String CCoinsViewCache
  | _, [] => .ok view
  | i, out :: outs => do
    let outpoint : COutPoint := ⟨txid, UInt32.ofNat i⟩
    let overwrite := if check_for_overwrite then view.HaveCoin outpoint else fCoinbase
    let view ← view.AddCoin outpoint (coin out) overwrite skipZeroValue
    AddCoinsLoop txid coin fCoinbase check_for_overwrite skipZeroValue view (i + 1) outs

/-- The entries the loop of `AddCoins` puts in, from output index `i` on. -/
def outputEntries (txid : uint256) (coin : CTxOut → Coin) (skipZeroValue : Bool) :
    Nat → List CTxOut → List (COutPoint × Coin)
  | _, [] => []
  | i, out :: outs =>
    (if IsKept skipZeroValue (coin out).out then [(⟨txid, UInt32.ofNat i⟩, coin out)] else []) ++
      outputEntries txid coin skipZeroValue (i + 1) outs

/-- Each entry of `outputEntries` is the coin of a kept output, at that
output's index in the run. -/
theorem mem_outputEntries {txid : uint256} {coin : CTxOut → Coin} {skipZeroValue : Bool}
    {i : Nat} {outs : List CTxOut} {entry : COutPoint × Coin}
    (member : entry ∈ outputEntries txid coin skipZeroValue i outs) :
    ∃ j out, i ≤ j ∧ j < i + outs.length ∧ entry = (⟨txid, UInt32.ofNat j⟩, coin out) ∧
      IsKept skipZeroValue (coin out).out = true := by
  induction outs generalizing i with
  | nil => cases member
  | cons out outs ih =>
      simp only [outputEntries, List.mem_append] at member
      rcases member with here | later
      · split at here
        · rename_i kept
          rw [List.mem_singleton] at here
          exact ⟨i, out, Nat.le_refl i, by simp, here, kept⟩
        · cases here
      · obtain ⟨j, out', lower, upper, same, kept⟩ := ih later
        exact ⟨j, out', by omega, by simp only [List.length_cons]; omega, same, kept⟩

/-- Output indices below `2 ^ 32` give distinct outpoints. -/
theorem outputEntries_nodup {txid : uint256} {coin : CTxOut → Coin} {skipZeroValue : Bool}
    {i : Nat} {outs : List CTxOut} (bounded : i + outs.length ≤ 2 ^ 32) :
    ((outputEntries txid coin skipZeroValue i outs).map Prod.fst).Nodup := by
  induction outs generalizing i with
  | nil => exact List.nodup_nil
  | cons out outs ih =>
      simp only [List.length_cons] at bounded
      have rest := ih (i := i + 1) (by omega)
      simp only [outputEntries]
      split
      · refine List.nodup_cons.mpr ⟨fun member => ?_, rest⟩
        obtain ⟨entry, later, same⟩ := List.mem_map.mp member
        obtain ⟨j, out', lower, upper, rfl, -⟩ := mem_outputEntries later
        -- two indices below `2 ^ 32` name the same output only if they are equal
        have outpoints : (⟨txid, UInt32.ofNat j⟩ : COutPoint) = ⟨txid, UInt32.ofNat i⟩ := same
        have indices := congrArg (fun outpoint : COutPoint => outpoint.n.toNat) outpoints
        simp only [UInt32.toNat_ofNat', Nat.mod_eq_of_lt (show j < 2 ^ 32 by omega),
          Nat.mod_eq_of_lt (show i < 2 ^ 32 by omega)] at indices
        omega
      · exact rest

/-- A run of the loop of `AddCoins` without the overwrite check puts in its
entries one after another; where it may not overwrite, a run that succeeds
found each of their outpoints free, and no two alike. -/
theorem AddCoinsLoop_ok {txid : uint256} {coin : CTxOut → Coin} {fCoinbase skipZeroValue : Bool}
    {view view' : CCoinsViewCache} {i : Nat} {outs : List CTxOut}
    (run : AddCoinsLoop txid coin fCoinbase false skipZeroValue view i outs = .ok view') :
    view'.cacheCoins = insertAll view.cacheCoins (outputEntries txid coin skipZeroValue i outs) ∧
      view'.hashBlock = view.hashBlock ∧
      (fCoinbase = false →
        (∀ entry ∈ outputEntries txid coin skipZeroValue i outs,
          view.cacheCoins.lookup entry.1 = none) ∧
        ((outputEntries txid coin skipZeroValue i outs).map Prod.fst).Nodup) := by
  induction outs generalizing i view with
  | nil =>
      cases run
      exact ⟨rfl, rfl, fun _ => ⟨by simp [outputEntries], List.nodup_nil⟩⟩
  | cons out outs ih =>
      simp only [AddCoinsLoop, Bool.false_eq_true, if_false] at run
      obtain ⟨mid, added, rest⟩ := bind_eq_ok.mp run
      obtain ⟨insertRest, sameBlock, restFresh⟩ := ih rest
      obtain ⟨-, ⟨dropped, rfl⟩ | ⟨kept, allowed, inserted, midBlock⟩⟩ := AddCoin_ok added
      · -- an output `AddCoin` drops adds no entry
        simp only [outputEntries, dropped, Bool.false_eq_true, if_false, List.nil_append]
        exact ⟨insertRest, sameBlock, restFresh⟩
      · simp only [outputEntries, kept, if_true, List.singleton_append]
        refine ⟨by rw [insertRest, inserted, insertAll_cons], sameBlock.trans midBlock, ?_⟩
        intro notCoinbase
        obtain ⟨fresh, distinct⟩ := restFresh notCoinbase
        have free : view.cacheCoins.lookup ⟨txid, UInt32.ofNat i⟩ = none := by
          simpa [notCoinbase, CCoinsViewCache.HaveCoin] using allowed
        -- a later entry found its outpoint free after this one went in
        have later : ∀ entry ∈ outputEntries txid coin skipZeroValue (i + 1) outs,
            entry.1 ≠ ⟨txid, UInt32.ofNat i⟩ ∧ view.cacheCoins.lookup entry.1 = none := by
          intro entry member
          have absent := fresh entry member
          rw [inserted] at absent
          by_cases same : entry.1 = ⟨txid, UInt32.ofNat i⟩
          · rw [same, Finmap.lookup_insert] at absent
            cases absent
          · rw [Finmap.lookup_insert_of_ne _ same] at absent
            exact ⟨same, absent⟩
        refine ⟨?_, ?_⟩
        · intro entry member
          rcases List.mem_cons.mp member with rfl | member
          · exact free
          · exact (later entry member).2
        · refine List.nodup_cons.mpr ⟨fun member => ?_, distinct⟩
          obtain ⟨entry, member, same⟩ := List.mem_map.mp member
          exact (later entry member).1 same

def AddCoins (sha256 : List UInt8 → uint256) (cache : CCoinsViewCache) (tx : CTransaction)
    (nHeight : Nat) (check_for_overwrite skipZeroValue : Bool) : Except String CCoinsViewCache :=
  AddCoinsLoop (tx.GetHash sha256) (coinOfOutput tx nHeight) tx.IsCoinBase check_for_overwrite
    skipZeroValue cache 0 tx.vout

end Peercoin.Coins
