import PeercoinFormal.Merkle.Levels
import PeercoinFormal.Validation.ConnectBlock

/-!
# consensus/merkle.cpp: the transaction tree and its mutation flag

`ComputeMerkleRoot` hashes a level two by two until one hash is left, pairing
the last hash with itself when a level has an odd count, and sets `mutated`
when some complete pair of a level holds two equal hashes.  `CheckMerkleRoot`
(validation.cpp) rejects a block whose header root differs ("bad-txnmrklroot")
or whose tree is mutated ("bad-txns-duplicate").

The flag is what makes the root commit to the transactions: two lists of
txids with the same root and the same number of levels are equal unless one
tree is flagged or double SHA-256 has a collision on 64-byte inputs; and the
duplication of CVE-2012-2459 keeps the root but is flagged.  The caller's
`mutated` pointer is always given here; without it the root is the same.
The memo `m_checked_merkle_root` is left out.
-/

set_option autoImplicit false

namespace Peercoin.Validation

open Peercoin.Primitives Ledger MerkleLevels

/-- `SHA256D64(out, in, blocks)` over the level itself: the double SHA-256 of
each 64-byte block, that is of each two consecutive hashes. -/
def SHA256D64 (sha256 : List UInt8 → uint256) : List uint256 → List uint256
  | a :: b :: rest => GetHash sha256 (a.data ++ b.data) :: SHA256D64 sha256 rest
  | _ => []

/-- `if (hashes.size() & 1) hashes.push_back(hashes.back())`. -/
def PushBackOdd (hashes : List uint256) : List uint256 :=
  if hashes.length &&& 1 = 1 then hashes ++ hashes.getLast?.toList else hashes

theorem length_SHA256D64 (sha256 : List UInt8 → uint256) :
    ∀ hashes : List uint256, (SHA256D64 sha256 hashes).length = hashes.length / 2
  | _ :: _ :: rest => by
      simp only [SHA256D64, List.length_cons, length_SHA256D64 sha256 rest]
      omega
  | [_] => by simp [SHA256D64]
  | [] => by simp [SHA256D64]

theorem length_PushBackOdd (hashes : List uint256) :
    (PushBackOdd hashes).length = 2 * ((hashes.length + 1) / 2) := by
  rw [PushBackOdd, Nat.and_one_is_mod]
  split
  · cases last : hashes.getLast? with
    | none =>
        rw [List.getLast?_eq_none_iff] at last
        subst last
        simp at *
    | some x =>
        simp only [Option.toList_some, List.length_append, List.length_singleton]
        omega
  · omega

/-- The loop `while (hashes.size() > 1)`, with the `mutation` found so far. -/
def ComputeMerkleRootLoop (sha256 : List UInt8 → uint256) (hashes : List uint256) (mutation : Bool) :
    List uint256 × Bool :=
  if 1 < hashes.length then
    -- the test looks at complete pairs only, before the odd hash is doubled
    ComputeMerkleRootLoop sha256 (SHA256D64 sha256 (PushBackOdd hashes)) (mutation || HasEqualPair hashes)
  else (hashes, mutation)
termination_by hashes.length
decreasing_by
  rw [length_SHA256D64, length_PushBackOdd]
  omega

/-- `ComputeMerkleRoot(hashes, &mutated)`: the root, and `mutated`; an empty
list has the root `uint256()`. -/
def ComputeMerkleRoot (sha256 : List UInt8 → uint256) (hashes : List uint256) : uint256 × Bool :=
  match ComputeMerkleRootLoop sha256 hashes false with
  | ([], mutation) => (uint256.ZERO, mutation)
  | (root :: _, mutation) => (root, mutation)

/-- `BlockMerkleRoot`: the tree over the txids of `vtx`. -/
def BlockMerkleRoot (sha256 : List UInt8 → uint256) (block : CBlock) : uint256 × Bool :=
  ComputeMerkleRoot sha256 (block.vtx.map (CTransaction.GetHash sha256))

/-- `CheckMerkleRoot` of validation.cpp. -/
def CheckMerkleRoot (sha256 : List UInt8 → uint256) (block : CBlock) : Except String Unit := do
  let (hashMerkleRoot2, mutated) := BlockMerkleRoot sha256 block
  rejectIf (block.hashMerkleRoot != hashMerkleRoot2) "bad-txnmrklroot"
  rejectIf mutated "bad-txns-duplicate"

/-- The node over a pair: the double SHA-256 of its 64 bytes. -/
def HashPair (sha256 : List UInt8 → uint256) (pair : uint256 × uint256) : uint256 :=
  GetHash sha256 (pair.1.data ++ pair.2.data)

/-- Two different 64-byte messages with one double SHA-256. -/
def Sha256D64Collision (sha256 : List UInt8 → uint256) : Prop :=
  ∃ m m' : List UInt8, m.length = 64 ∧ m'.length = 64 ∧ m ≠ m' ∧ GetHash sha256 m = GetHash sha256 m'

section

variable (sha256 : List UInt8 → uint256)

theorem PushBackOdd_cons_cons (a b : uint256) (rest : List uint256) :
    PushBackOdd (a :: b :: rest) = a :: b :: PushBackOdd rest := by
  simp only [PushBackOdd, Nat.and_one_is_mod, List.length_cons]
  have parity : (rest.length + 1 + 1) % 2 = rest.length % 2 := by omega
  rw [parity]
  split
  · cases rest with
    | nil => simp at *
    | cons c rest => simp [List.getLast?_cons_cons]
  · rfl

/-- Hashing the doubled level two by two is hashing its pairs. -/
theorem SHA256D64_PushBackOdd :
    ∀ hashes : List uint256, SHA256D64 sha256 (PushBackOdd hashes) = (pairs hashes).map (HashPair sha256)
  | a :: b :: rest => by
      rw [PushBackOdd_cons_cons, SHA256D64, SHA256D64_PushBackOdd rest]
      rfl
  | [a] => by simp [PushBackOdd, SHA256D64, pairs, HashPair]
  | [] => by simp [PushBackOdd, SHA256D64, pairs]

theorem ComputeMerkleRootLoop_stop {hashes : List uint256} {mutation : Bool} (few : hashes.length ≤ 1) :
    ComputeMerkleRootLoop sha256 hashes mutation = (hashes, mutation) := by
  rw [ComputeMerkleRootLoop, if_neg (by omega)]

theorem ComputeMerkleRootLoop_step {hashes : List uint256} {mutation : Bool} (several : 1 < hashes.length) :
    ComputeMerkleRootLoop sha256 hashes mutation =
      ComputeMerkleRootLoop sha256 ((pairs hashes).map (HashPair sha256)) (mutation || HasEqualPair hashes) := by
  rw [ComputeMerkleRootLoop, if_pos several, SHA256D64_PushBackOdd]

/-- The flag found on entry is carried through: the loop's levels do not
depend on it, and its result is the flag or'ed with what the levels find. -/
theorem ComputeMerkleRootLoop_mutation :
    ∀ (n : Nat) (hashes : List uint256), hashes.length ≤ n → ∀ mutation : Bool,
      ComputeMerkleRootLoop sha256 hashes mutation =
        ((ComputeMerkleRootLoop sha256 hashes false).1,
          mutation || (ComputeMerkleRootLoop sha256 hashes false).2)
  | 0, hashes, short, mutation => by
      rw [ComputeMerkleRootLoop_stop sha256 (by omega), ComputeMerkleRootLoop_stop sha256 (by omega),
        Bool.or_false]
  | n + 1, hashes, short, mutation => by
      by_cases several : 1 < hashes.length
      · have shorter : ((pairs hashes).map (HashPair sha256)).length ≤ n := by
          rw [List.length_map, length_pairs]
          omega
        rw [ComputeMerkleRootLoop_step sha256 several, ComputeMerkleRootLoop_step sha256 several,
          ComputeMerkleRootLoop_mutation n _ shorter, ComputeMerkleRootLoop_mutation n _ shorter (false || _),
          Bool.false_or, Bool.or_assoc]
      · rw [ComputeMerkleRootLoop_stop sha256 (by omega), ComputeMerkleRootLoop_stop sha256 (by omega),
          Bool.or_false]

@[simp] theorem ComputeMerkleRoot_single (x : uint256) : ComputeMerkleRoot sha256 [x] = (x, false) := by
  rw [ComputeMerkleRoot, ComputeMerkleRootLoop_stop sha256 (by simp)]

/-- One level of the tree: the root is the next level's, and the tree is
flagged when this level has an equal pair or a later level is flagged. -/
theorem ComputeMerkleRoot_step {hashes : List uint256} (several : 1 < hashes.length) :
    ComputeMerkleRoot sha256 hashes =
      ((ComputeMerkleRoot sha256 ((pairs hashes).map (HashPair sha256))).1,
        HasEqualPair hashes || (ComputeMerkleRoot sha256 ((pairs hashes).map (HashPair sha256))).2) := by
  have carried := ComputeMerkleRootLoop_mutation sha256 _ ((pairs hashes).map (HashPair sha256)) le_rfl
    (HasEqualPair hashes)
  unfold ComputeMerkleRoot
  rw [ComputeMerkleRootLoop_step sha256 several, Bool.false_or, carried]
  cases (ComputeMerkleRootLoop sha256 ((pairs hashes).map (HashPair sha256)) false) with
  | mk level mutation => cases level <;> rfl

theorem Sha256D64Collision_of_HashPair (collision : Collision (HashPair sha256)) :
    Sha256D64Collision sha256 := by
  obtain ⟨⟨a, b⟩, ⟨c, d⟩, apart, same⟩ := collision
  refine ⟨a.data ++ b.data, c.data ++ d.data, by simp [a.size_eq, b.size_eq],
    by simp [c.size_eq, d.size_eq], ?_, same⟩
  intro bytes
  obtain ⟨first, second⟩ := List.append_inj bytes (by rw [a.size_eq, c.size_eq])
  apply apart
  cases a
  cases b
  cases c
  cases d
  simp only at first second
  subst first second
  rfl

/-- The trees over two lists with one number of levels: the same root means
the same lists, unless a tree is flagged or double SHA-256 collides. -/
theorem ComputeMerkleRoot_eq_or_mutated :
    ∀ (levels : Nat) (hashes hashes' : List uint256), hashes ≠ [] → hashes' ≠ [] →
      Nat.clog 2 hashes.length = levels → Nat.clog 2 hashes'.length = levels →
      (ComputeMerkleRoot sha256 hashes).1 = (ComputeMerkleRoot sha256 hashes').1 →
      hashes = hashes' ∨ (ComputeMerkleRoot sha256 hashes).2 = true ∨
        (ComputeMerkleRoot sha256 hashes').2 = true ∨ Sha256D64Collision sha256
  | 0, hashes, hashes', nonempty, nonempty', depth, depth', sameRoot => by
      -- no level above the leaves: each list is one hash, its own root
      obtain ⟨x, rfl⟩ := eq_singleton_of_clog_eq_zero nonempty depth
      obtain ⟨x', rfl⟩ := eq_singleton_of_clog_eq_zero nonempty' depth'
      have same : x = x' := by simpa only [ComputeMerkleRoot_single] using sameRoot
      exact .inl (by rw [same])
  | levels + 1, hashes, hashes', nonempty, nonempty', depth, depth', sameRoot => by
      have nextDepth : Nat.clog 2 ((pairs hashes).map (HashPair sha256)).length = levels := by
        rw [List.length_map]
        exact clog_length_pairs depth
      have nextDepth' : Nat.clog 2 ((pairs hashes').map (HashPair sha256)).length = levels := by
        rw [List.length_map]
        exact clog_length_pairs depth'
      rw [ComputeMerkleRoot_step sha256 (one_lt_length_of_clog_eq_succ depth),
        ComputeMerkleRoot_step sha256 (one_lt_length_of_clog_eq_succ depth')] at sameRoot ⊢
      rcases ComputeMerkleRoot_eq_or_mutated levels _ _ (by simpa using nonempty) (by simpa using nonempty')
          nextDepth nextDepth' sameRoot
        with sameNext | flagged | flagged | collision
      · -- equal next levels: equal pairings, or a collision of the pair hash
        rcases eq_or_Collision_of_map_eq (HashPair sha256) sameNext with samePairs | collision
        · rcases eq_or_HasEqualPair_of_pairs_eq samePairs with same | flagged | flagged
          · exact .inl same
          · exact .inr (.inl (by simp [flagged]))
          · exact .inr (.inr (.inl (by simp [flagged])))
        · exact .inr (.inr (.inr (Sha256D64Collision_of_HashPair sha256 collision)))
      · exact .inr (.inl (by simp [flagged]))
      · exact .inr (.inr (.inl (by simp [flagged])))
      · exact .inr (.inr (.inr collision))

/-- CVE-2012-2459: a level of odd count at least three and the same level with
its last hash repeated give one root, and the second is flagged. -/
theorem ComputeMerkleRoot_append_last {hashes : List uint256} {last : uint256}
    (odd : hashes.length % 2 = 1) (several : 3 ≤ hashes.length) (isLast : hashes.getLast? = some last) :
    ComputeMerkleRoot sha256 (hashes ++ [last]) = ((ComputeMerkleRoot sha256 hashes).1, true) := by
  have longer : 1 < (hashes ++ [last]).length := by simp; omega
  rw [ComputeMerkleRoot_step sha256 longer, pairs_append_last odd isLast, HasEqualPair_append_last odd isLast,
    Bool.true_or, ComputeMerkleRoot_step sha256 (show 1 < hashes.length by omega)]

theorem CheckMerkleRoot_eq_ok {block : CBlock} :
    CheckMerkleRoot sha256 block = .ok () ↔ BlockMerkleRoot sha256 block = (block.hashMerkleRoot, false) := by
  unfold CheckMerkleRoot
  cases BlockMerkleRoot sha256 block with
  | mk root mutated =>
      by_cases sameRoot : block.hashMerkleRoot = root
      · cases mutated <;> simp [rejectIf, sameRoot, ok_bind]
      · simp [rejectIf, sameRoot, Ne.symm sameRoot, error_bind]

end

/-- A block with the txid of `exampleCoinbase` as its root. -/
def singleTxBlock : CBlock :=
  ⟨⟨1, uint256.ZERO, exampleCoinbase.GetHash sumHash, 1000, 0, 0, 0⟩, [exampleCoinbase], []⟩

/-- The mutated block of CVE-2012-2459: a block with an odd number, at least
three, of transactions, and the same block with its last transaction repeated,
share the header (so the block hash) and the tree root, and the second is
rejected with "bad-txns-duplicate". -/
theorem CheckMerkleRoot_rejects_repeated_last (sha256 : List UInt8 → uint256) {block : CBlock}
    {last : CTransaction} (odd : block.vtx.length % 2 = 1) (several : 3 ≤ block.vtx.length)
    (isLast : block.vtx.getLast? = some last) (checked : CheckMerkleRoot sha256 block = .ok ()) :
    (BlockMerkleRoot sha256 { block with vtx := block.vtx ++ [last] }).1 = block.hashMerkleRoot ∧
      CheckMerkleRoot sha256 { block with vtx := block.vtx ++ [last] } = .error "bad-txns-duplicate" := by
  rw [CheckMerkleRoot_eq_ok, BlockMerkleRoot] at checked
  have repeated : BlockMerkleRoot sha256 { block with vtx := block.vtx ++ [last] } = (block.hashMerkleRoot, true) := by
    rw [BlockMerkleRoot, List.map_append, List.map_singleton,
      ComputeMerkleRoot_append_last sha256 (by simpa using odd) (by simpa using several)
        (by rw [List.getLast?_map, isLast]; rfl), checked]
  refine ⟨by rw [repeated], ?_⟩
  unfold CheckMerkleRoot
  rw [repeated]
  simp only [rejectIf, bne_self_eq_false, Bool.false_eq_true, if_false, if_true]
  rfl

/-- Three coinbases told apart by their lock time. -/
def lockedCoinbase (nLockTime : UInt32) : CTransaction := { exampleCoinbase with nLockTime }

def threeTxBlock : CBlock :=
  ⟨⟨1, uint256.ZERO,
    (ComputeMerkleRoot sumHash ([lockedCoinbase 0, lockedCoinbase 1, lockedCoinbase 2].map
      (CTransaction.GetHash sumHash))).1, 1000, 0, 0, 0⟩,
    [lockedCoinbase 0, lockedCoinbase 1, lockedCoinbase 2], []⟩

set_option maxRecDepth 20000 in
theorem threeTxBlock_repeated_rejected :
    CheckMerkleRoot sumHash threeTxBlock = .ok () ∧
      (BlockMerkleRoot sumHash { threeTxBlock with vtx := threeTxBlock.vtx ++ [lockedCoinbase 2] }).1 =
          threeTxBlock.hashMerkleRoot ∧
        CheckMerkleRoot sumHash { threeTxBlock with vtx := threeTxBlock.vtx ++ [lockedCoinbase 2] } =
          .error "bad-txns-duplicate" := by
  have distinct : HasEqualPair ([lockedCoinbase 0, lockedCoinbase 1, lockedCoinbase 2].map
      (CTransaction.GetHash sumHash)) = false := by decide
  have distinctNodes : HasEqualPair ((pairs ([lockedCoinbase 0, lockedCoinbase 1, lockedCoinbase 2].map
      (CTransaction.GetHash sumHash))).map (HashPair sumHash)) = false := by decide
  have checked : CheckMerkleRoot sumHash threeTxBlock = .ok () := by
    rw [CheckMerkleRoot_eq_ok, BlockMerkleRoot, Prod.mk.injEq]
    refine ⟨rfl, ?_⟩
    show (ComputeMerkleRoot sumHash ([lockedCoinbase 0, lockedCoinbase 1, lockedCoinbase 2].map
      (CTransaction.GetHash sumHash))).2 = false
    rw [ComputeMerkleRoot_step sumHash (by simp), distinct, Bool.false_or,
      ComputeMerkleRoot_step sumHash (by simp [pairs]), distinctNodes, Bool.false_or]
    simp [pairs]
  exact ⟨checked, CheckMerkleRoot_rejects_repeated_last sumHash (by rfl) (by simp [threeTxBlock]) rfl checked⟩

end Peercoin.Validation
