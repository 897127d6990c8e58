import Mathlib
import PeercoinFormal.Primitives.Transaction
import PeercoinFormal.Sorting.Unstable

/-!
# kernel.cpp: the candidate order of ComputeNextStakeModifier

`ComputeNextStakeModifier` collects the blocks of the selection interval as
(time, hash) pairs, shuffles them with the node's own random numbers and
sorts them with `std::sort`, which is not stable.  The selection rounds that
follow read the sorted list, so every node computes the same modifier only
if the sorted list does not depend on the shuffle.  It does not: the
comparator, time first and then the hash as eight 32-bit words from the most
significant down, is a strict order, total on pairs with different hashes.

The selection rounds themselves are not modelled; the walk that collects
the candidates is, over the list of ancestors from `pindexPrev` back.
-/

set_option autoImplicit false

namespace Peercoin.Kernel

open Peercoin.Primitives Codec Sorting

/-! ## The comparator -/

/-- Word `i` of a hash as `(const uint32_t *)hash.data()` reads it on the
little-endian machines the node runs on: bytes `4 i` to `4 i + 3`, least
significant first. -/
def hashWord (hash : uint256) (i : Nat) : UInt32 :=
  UInt32.ofNat (leValue ((hash.data.drop (4 * i)).take 4))

/-- The word loop of the comparator, `do { --cnt; ... } while (cnt)`, from
word `cnt - 1` down to word 0; equal hashes compare `false`. -/
def WordsLess (pa pb : uint256) : Nat → Bool
  | 0 => false
  | cnt + 1 =>
    if hashWord pa cnt ≠ hashWord pb cnt then hashWord pa cnt < hashWord pb cnt
    else WordsLess pa pb cnt

/-- The comparator `ComputeNextStakeModifier` passes to `std::sort`. -/
def CandidateLess (a b : Int × uint256) : Bool :=
  if a.1 ≠ b.1 then a.1 < b.1 else WordsLess a.2 b.2 8

/-! ## The candidates and the shuffle -/

/-- The walk from `pindexPrev` towards genesis collecting each block's time
and hash while the time is not before the interval's start; `ancestry` is
`pindexPrev` and its ancestors, each block's time and hash. -/
def StakeModifierCandidates (ancestry : List (Int × uint256)) (nSelectionIntervalStart : Int) :
    List (Int × uint256) :=
  ancestry.takeWhile fun candidate => candidate.1 ≥ nSelectionIntervalStart

/-- `std::swap(v[i], v[j])`; indices out of range leave the list. -/
def swapAt {α : Type} (v : List α) (i j : Nat) : List α :=
  if h : i < v.length ∧ j < v.length then (v.set i v[j]).set j v[i] else v

/-- The shuffle loop from index `i` down to 2, `GetRand` being `rand`. -/
def ShuffleFrom {α : Type} (rand : Nat → Nat) : Nat → List α → List α
  | 0, v => v
  | 1, v => v
  | i + 2, v => ShuffleFrom rand (i + 1) (swapAt v (i + 2) (rand (i + 2)))

/-- `for (int i = v.size() - 1; i > 1; --i) std::swap(v[i], v[GetRand(i)]);` -/
def Shuffle {α : Type} (rand : Nat → Nat) (v : List α) : List α := ShuffleFrom rand (v.length - 1) v

theorem swapAt_perm {α : Type} (v : List α) (i j : Nat) : (swapAt v i j).Perm v := by
  unfold swapAt
  split
  · rename_i inRange
    exact List.set_set_perm inRange.1 inRange.2
  · exact List.Perm.refl v

/-- The shuffle only swaps, so it permutes the candidates. -/
theorem ShuffleFrom_perm {α : Type} (rand : Nat → Nat) (i : Nat) (v : List α) :
    (ShuffleFrom rand i v).Perm v := by
  induction i generalizing v with
  | zero => exact List.Perm.refl v
  | succ i ih =>
      cases i with
      | zero => exact List.Perm.refl v
      | succ i =>
          rw [ShuffleFrom]
          exact (ih _).trans (swapAt_perm v _ _)

theorem Shuffle_perm {α : Type} (rand : Nat → Nat) (v : List α) : (Shuffle rand v).Perm v :=
  ShuffleFrom_perm rand _ v

/-! ## A strict order, total on different hashes -/

theorem hashWord_toNat (hash : uint256) (i : Nat) :
    (hashWord hash i).toNat = leValue ((hash.data.drop (4 * i)).take 4) := by
  have small := leValue_lt ((hash.data.drop (4 * i)).take 4)
  have short : ((hash.data.drop (4 * i)).take 4).length ≤ 4 := List.length_take_le _ _
  have fits : leValue ((hash.data.drop (4 * i)).take 4) < 2 ^ 32 :=
    calc leValue ((hash.data.drop (4 * i)).take 4)
        < 256 ^ ((hash.data.drop (4 * i)).take 4).length := small
      _ ≤ 256 ^ 4 := Nat.pow_le_pow_right (by decide) short
      _ = 2 ^ 32 := rfl
  rw [hashWord, UInt32.toNat_ofNat', Nat.mod_eq_of_lt fits]

/-- The eight words of a hash determine it. -/
theorem eq_of_hashWord {a b : uint256} (same : ∀ i < 8, hashWord a i = hashWord b i) : a = b := by
  -- each word gives back its four bytes
  have chunks : ∀ i < 8, (a.data.drop (4 * i)).take 4 = (b.data.drop (4 * i)).take 4 := by
    intro i lt
    have values := congrArg UInt32.toNat (same i lt)
    rw [hashWord_toNat, hashWord_toNat] at values
    have lengths : ((a.data.drop (4 * i)).take 4).length = ((b.data.drop (4 * i)).take 4).length := by
      simp [a.size_eq, b.size_eq]
    rw [← leBytes_leValue ((a.data.drop (4 * i)).take 4), ← leBytes_leValue ((b.data.drop (4 * i)).take 4),
      lengths, values]
  obtain ⟨data, size⟩ := a
  obtain ⟨data', size'⟩ := b
  simp only [uint256.mk.injEq]
  apply List.ext_getElem?
  intro k
  by_cases inside : k < 32
  · -- byte `k` is byte `k % 4` of word `k / 4`
    have byte := congrArg (fun chunk : List UInt8 => chunk[k % 4]?) (chunks (k / 4) (by omega))
    simp only [List.getElem?_take, List.getElem?_drop, Nat.mod_lt k (show 4 > 0 by decide),
      if_true] at byte
    rwa [Nat.div_add_mod] at byte
  · rw [List.getElem?_eq_none (by omega), List.getElem?_eq_none (by omega)]

theorem WordsLess_irrefl (pa : uint256) (cnt : Nat) : WordsLess pa pa cnt = false := by
  induction cnt with
  | zero => rfl
  | succ cnt ih => simp [WordsLess, ih]

theorem WordsLess_trans {pa pb pc : uint256} {cnt : Nat} (first : WordsLess pa pb cnt = true)
    (second : WordsLess pb pc cnt = true) : WordsLess pa pc cnt = true := by
  induction cnt with
  | zero => cases first
  | succ cnt ih =>
      unfold WordsLess at first second ⊢
      by_cases ab : hashWord pa cnt = hashWord pb cnt
      · -- the first two agree on this word: the order of `pb` and `pc` decides
        rw [if_neg (not_not.mpr ab)] at first
        rw [ab]
        by_cases bc : hashWord pb cnt = hashWord pc cnt
        · rw [if_neg (not_not.mpr bc)] at second ⊢
          exact ih first second
        · rw [if_pos bc] at second ⊢
          exact second
      · rw [if_pos ab] at first
        by_cases bc : hashWord pb cnt = hashWord pc cnt
        · rw [← bc, if_pos ab]
          exact first
        · rw [if_pos bc] at second
          have lt : hashWord pa cnt < hashWord pc cnt :=
            UInt32.lt_trans (of_decide_eq_true first) (of_decide_eq_true second)
          rw [if_pos (UInt32.ne_of_lt lt)]
          exact decide_eq_true lt

/-- Two hashes agree on the words below `cnt` or compare one way or the other. -/
theorem WordsLess_total (pa pb : uint256) (cnt : Nat) :
    (∀ i < cnt, hashWord pa i = hashWord pb i) ∨ WordsLess pa pb cnt = true ∨
      WordsLess pb pa cnt = true := by
  induction cnt with
  | zero => exact .inl fun i lt => absurd lt (Nat.not_lt_zero i)
  | succ cnt ih =>
      unfold WordsLess
      by_cases same : hashWord pa cnt = hashWord pb cnt
      · rw [if_neg (not_not.mpr same), if_neg (not_not.mpr same.symm)]
        rcases ih with equal | less | greater
        · refine .inl fun i lt => ?_
          rcases Nat.lt_succ_iff_lt_or_eq.mp lt with lower | rfl
          · exact equal i lower
          · exact same
        · exact .inr (.inl less)
        · exact .inr (.inr greater)
      · rw [if_pos same, if_pos (Ne.symm same)]
        rcases Nat.lt_or_gt_of_ne (fun values => same (UInt32.toNat_inj.mp values)) with less | greater
        · exact .inr (.inl (decide_eq_true (UInt32.lt_iff_toNat_lt.mpr less)))
        · exact .inr (.inr (decide_eq_true (UInt32.lt_iff_toNat_lt.mpr greater)))

theorem CandidateLess_irrefl (a : Int × uint256) : CandidateLess a a = false := by
  simp [CandidateLess, WordsLess_irrefl]

theorem CandidateLess_trans {a b c : Int × uint256} (first : CandidateLess a b = true)
    (second : CandidateLess b c = true) : CandidateLess a c = true := by
  unfold CandidateLess at first second ⊢
  by_cases ab : a.1 = b.1 <;> by_cases bc : b.1 = c.1
  · rw [if_neg (not_not.mpr ab)] at first
    rw [if_neg (not_not.mpr bc)] at second
    rw [if_neg (not_not.mpr (ab.trans bc))]
    exact WordsLess_trans first second
  · rw [if_neg (not_not.mpr ab)] at first
    rw [if_pos bc] at second
    rw [ab, if_pos bc]
    exact second
  · rw [if_pos ab] at first
    rw [if_neg (not_not.mpr bc)] at second
    rw [← bc, if_pos ab]
    exact first
  · rw [if_pos ab] at first
    rw [if_pos bc] at second
    have lt : a.1 < c.1 := Int.lt_trans (of_decide_eq_true first) (of_decide_eq_true second)
    rw [if_pos (Int.ne_of_lt lt)]
    exact decide_eq_true lt

/-- Pairs with different hashes compare one way or the other. -/
theorem CandidateLess_total {a b : Int × uint256} (differ : a.2 ≠ b.2) :
    CandidateLess a b = true ∨ CandidateLess b a = true := by
  unfold CandidateLess
  by_cases times : a.1 = b.1
  · rw [if_neg (not_not.mpr times), if_neg (not_not.mpr times.symm)]
    rcases WordsLess_total a.2 b.2 8 with equal | less | greater
    · exact absurd (eq_of_hashWord equal) differ
    · exact .inl less
    · exact .inr greater
  · rw [if_pos times, if_pos (Ne.symm times)]
    rcases Int.lt_or_gt_of_ne times with less | greater
    · exact .inl (decide_eq_true less)
    · exact .inr (decide_eq_true greater)

/-- On candidates with pairwise different hashes the comparator is a strict
total order. -/
theorem CandidateLess_strictTotalOn {candidates : List (Int × uint256)}
    (distinct : (candidates.map Prod.snd).Nodup) : StrictTotalOn CandidateLess candidates where
  irrefl a _ := CandidateLess_irrefl a
  trans _ _ _ _ _ _ first second := CandidateLess_trans first second
  total _ memA _ memB differ :=
    CandidateLess_total fun same => differ (List.inj_on_of_nodup_map distinct memA memB same)

/-- However the node's random numbers shuffle the candidates, every list
`std::sort` may return for them is the same one, so the selection rounds
that read it, and the stake modifier, do not depend on them. -/
theorem sorted_candidates_unique (rand rand' : Nat → Nat)
    {candidates sorted sorted' : List (Int × uint256)} (distinct : (candidates.map Prod.snd).Nodup)
    (sorts : sorted.Perm (Shuffle rand candidates)) (sortedBy : SortedBy CandidateLess sorted)
    (sorts' : sorted'.Perm (Shuffle rand' candidates)) (sortedBy' : SortedBy CandidateLess sorted') :
    sorted = sorted' :=
  eq_of_perm_of_sortedBy (CandidateLess_strictTotalOn distinct) (List.Nodup.of_map Prod.snd distinct)
    (sorts.trans (Shuffle_perm rand candidates)) (sorts'.trans (Shuffle_perm rand' candidates))
    sortedBy sortedBy'

/-- Three candidates, two of them at one time. -/
def exampleCandidates : List (Int × uint256) :=
  [(100, uint256.ofLowByte 1), (100, ⟨List.replicate 31 0 ++ [1], by simp⟩),
    (90, uint256.ofLowByte 2)]

/-- Their order: time first, then the hash whose top word is smaller. -/
def exampleSorted : List (Int × uint256) :=
  [(90, uint256.ofLowByte 2), (100, uint256.ofLowByte 1),
    (100, ⟨List.replicate 31 0 ++ [1], by simp⟩)]

theorem exampleCandidates_sort_alike :
    (exampleCandidates.map Prod.snd).Nodup ∧
      exampleSorted.Perm (Shuffle (fun _ => 0) exampleCandidates) ∧
      SortedBy CandidateLess exampleSorted ∧
      exampleSorted.Perm (Shuffle (fun i => i - 1) exampleCandidates) ∧ exampleSorted = exampleSorted :=
  have distinct : (exampleCandidates.map Prod.snd).Nodup := by decide
  have sorts : exampleSorted.Perm (Shuffle (fun _ => 0) exampleCandidates) := by decide
  have sorts' : exampleSorted.Perm (Shuffle (fun i => i - 1) exampleCandidates) := by decide
  have sortedBy : SortedBy CandidateLess exampleSorted := by
    unfold SortedBy
    decide
  ⟨distinct, sorts, sortedBy, sorts',
    sorted_candidates_unique _ _ distinct sorts sortedBy sorts' sortedBy⟩

end Peercoin.Kernel
