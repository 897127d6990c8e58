import Mathlib
import PeercoinFormal.Pow.Target

/-!
# bignum.h: CBigNum beside arith_uint256

Consensus reads targets both as `arith_uint256`s (`CheckProofOfWork`, ASERT)
and as `CBigNum`s (the retarget, the stake kernel, the proof-of-work
reward).  `CBigNum` wraps an OpenSSL `BIGNUM`; it reads a `uint256` and
writes a `uint64_t` through OpenSSL's MPI form: a four-byte big-endian
length, then the magnitude big-endian, with the sign in the top bit of its
first byte.  `BN_mpi2bn` and `BN_bn2mpi` are modelled as OpenSSL defines
them.

The two sides agree: on a compact form that `arith_uint256` reads without
its negative or overflow flags, on every compact form written for a value
below `2 ^ 256`, on `setuint256` against `UintToArith256`, and on
`getuint64` of a value that is not negative (`bignum_arith_agree`).
-/

set_option autoImplicit false

namespace Peercoin.Arith

open Codec Peercoin.Primitives Peercoin.Pow

/-! ## OpenSSL's MPI form -/

/-- `BN_bn2bin`: the magnitude's `BN_num_bytes` bytes, most significant first. -/
def BN_bn2bin (a : Nat) : List UInt8 := (leBytes (numBytes a) a).reverse

/-- The four-byte big-endian length that starts an MPI. -/
def mpiLength (l : Nat) : List UInt8 := (leBytes 4 l).reverse

/-- `BN_bn2mpi`: the length, a zero byte when the magnitude's top bit would
read as the sign, the magnitude, and the sign in the top bit of the byte
after the length. -/
def BN_bn2mpi (a : Int) : List UInt8 :=
  let bits := Nat.size a.natAbs
  let num := (bits + 7) / 8
  let ext := bits > 0 && bits % 8 == 0
  let d := mpiLength (num + if ext then 1 else 0) ++ (if ext then [0] else []) ++ BN_bn2bin a.natAbs
  if a < 0 then d.set 4 (d.getD 4 0 ||| 0x80) else d

/-- `BN_mpi2bn`, with `none` where OpenSSL raises an error. -/
def BN_mpi2bn (d : List UInt8) : Option Int :=
  if d.length < 4 || d.getD 0 0 &&& 0x80 != 0 then none
  else
    let len := leValue (d.take 4).reverse
    if len + 4 ≠ d.length then none
    else if len = 0 then some 0
    else
      let data := d.drop 4
      let neg := data.getD 0 0 &&& 0x80 != 0
      -- `BN_bin2bn`
      let a := leValue data.reverse
      -- `BN_clear_bit(a, BN_num_bits(a) - 1)` for a negative number
      if neg then some (-((a - 2 ^ (Nat.size a - 1) : Nat) : Int)) else some a

/-! ## CBigNum's conversions -/

/-- The loop of `setuint256` over the bytes from the most significant: the
leading zeros skipped, and a zero put before a first byte whose top bit is
set. -/
def setuint256Loop : Bool → List UInt8 → List UInt8
  | _, [] => []
  | fLeadingZeroes, c :: rest =>
    if fLeadingZeroes then
      if c == 0 then setuint256Loop true rest
      else (if c &&& 0x80 != 0 then [0] else []) ++ c :: setuint256Loop false rest
    else c :: setuint256Loop false rest

/-- `CBigNum::setuint256`, which `CBigNum(uint256)` runs. -/
def CBigNum.setuint256 (n : uint256) : Option Int :=
  let data := setuint256Loop true n.data.reverse
  BN_mpi2bn (mpiLength data.length ++ data)

/-- `CBigNum::getuint64`: the MPI with its sign bit cleared, and the bytes
after the length read from the last, at most eight of them. -/
def CBigNum.getuint64 (bn : Int) : UInt64 :=
  let vch := BN_bn2mpi bn
  if vch.length < 4 then 0
  else
    let vch := if vch.length > 4 then vch.set 4 (vch.getD 4 0 &&& 0x7f) else vch
    UInt64.ofNat (leValue ((vch.drop 4).reverse.take 8))

/-! ## Bytes -/

theorem topBit_eq_zero (c : UInt8) : c &&& 0x80 = 0 ↔ c.toNat < 128 := by
  have byteLt := c.toNat_lt
  rw [← UInt8.toNat_inj, UInt8.toNat_and, show (0x80 : UInt8).toNat = 2 ^ 7 from rfl,
    and_two_pow_eq, UInt8.toNat_zero]
  omega

theorem leValue_reverse_cons (c : UInt8) (rest : List UInt8) :
    leValue (c :: rest).reverse = leValue rest.reverse + 256 ^ rest.length * c.toNat := by
  rw [List.reverse_cons, leValue_append, List.length_reverse]
  simp [leValue]

@[simp] theorem mpiLength_length (l : Nat) : (mpiLength l).length = 4 := by
  simp [mpiLength]

theorem mpiLength_value {l : Nat} (small : l < 2 ^ 32) : leValue (mpiLength l).reverse = l := by
  rw [mpiLength, List.reverse_reverse, leValue_leBytes]
  exact Nat.mod_eq_of_lt (by simpa using small)

theorem mpiLength_top {l : Nat} (small : l < 2 ^ 31) (rest : List UInt8) :
    (mpiLength l ++ rest).getD 0 0 &&& 0x80 = 0 := by
  rw [topBit_eq_zero]
  simp only [mpiLength, leBytes, List.reverse_cons, List.reverse_nil, List.nil_append,
    List.cons_append, List.getD_cons_zero, UInt8.toNat_ofNat']
  omega

/-- An MPI of a magnitude whose first byte leaves the sign bit clear reads as
the magnitude. -/
theorem BN_mpi2bn_nonneg {data : List UInt8} (short : data.length < 2 ^ 31)
    (top : data.getD 0 0 &&& 0x80 = 0) :
    BN_mpi2bn (mpiLength data.length ++ data) = some (leValue data.reverse) := by
  have lengthTop := mpiLength_top short data
  have lengthRead : leValue ((mpiLength data.length ++ data).take 4).reverse = data.length := by
    rw [List.take_append_of_le_length (by simp), List.take_of_length_le (by simp),
      mpiLength_value (by omega)]
  have dropped : (mpiLength data.length ++ data).drop 4 = data :=
    List.drop_left' (mpiLength_length _)
  simp only [BN_mpi2bn, lengthTop, lengthRead, dropped, top, List.length_append, mpiLength_length]
  split
  · rename_i bad
    simp at bad
  · split
    · rename_i bad
      omega
    · split
      · rename_i empty
        rw [List.length_eq_zero_iff] at empty
        subst empty
        rfl
      · simp

/-! ## setuint256 -/

theorem setuint256Loop_false (bytes : List UInt8) : setuint256Loop false bytes = bytes := by
  induction bytes with
  | nil => rfl
  | cons c rest ih => simp [setuint256Loop, ih]

/-- Dropping leading zeros and putting a zero in front keep the big-endian value. -/
theorem setuint256Loop_value (bytes : List UInt8) :
    leValue (setuint256Loop true bytes).reverse = leValue bytes.reverse := by
  induction bytes with
  | nil => rfl
  | cons c rest ih =>
    simp only [setuint256Loop, if_true, setuint256Loop_false]
    split
    · rename_i zero
      rw [ih, leValue_reverse_cons, beq_iff_eq.mp zero]
      simp
    · split
      · rw [List.singleton_append, leValue_reverse_cons, List.length_cons]
        simp
      · rfl

theorem setuint256Loop_top (bytes : List UInt8) :
    (setuint256Loop true bytes).getD 0 0 &&& 0x80 = 0 := by
  induction bytes with
  | nil => rfl
  | cons c rest ih =>
    simp only [setuint256Loop, if_true]
    split
    · exact ih
    · split
      · simp
      · rename_i clear
        simpa using clear

theorem setuint256Loop_length (bytes : List UInt8) :
    (setuint256Loop true bytes).length ≤ bytes.length + 1 := by
  induction bytes with
  | nil => simp [setuint256Loop]
  | cons c rest ih =>
    simp only [setuint256Loop, if_true, setuint256Loop_false]
    split
    · simp only [List.length_cons]
      omega
    · split <;> simp

/-- `CBigNum(uint256)` is the number `UintToArith256` reads. -/
theorem setuint256_eq (n : uint256) : CBigNum.setuint256 n = some (UintToArith256 n) := by
  have short : (setuint256Loop true n.data.reverse).length < 2 ^ 31 := by
    have := setuint256Loop_length n.data.reverse
    rw [List.length_reverse, n.size_eq] at this
    omega
  rw [CBigNum.setuint256, BN_mpi2bn_nonneg short (setuint256Loop_top _), setuint256Loop_value,
    List.reverse_reverse, UintToArith256]

/-! ## getuint64 -/

theorem leBytes_getLast (k value : Nat) :
    (leBytes (k + 1) value).getLast? = some (UInt8.ofNat (value / 256 ^ k % 256)) := by
  induction k generalizing value with
  | zero => simp [leBytes]
  | succ k ih =>
    rw [leBytes, List.getLast?_cons, ih, Nat.div_div_eq_div_mul, ← Nat.pow_succ']
    rfl

/-- The first byte `BN_bn2bin` writes leaves the top bit clear when the
number's bits do not fill it. -/
theorem BN_bn2bin_top {x : Nat} (unfilled : Nat.size x % 8 ≠ 0) :
    (BN_bn2bin x).getD 0 0 &&& 0x80 = 0 := by
  rw [topBit_eq_zero]
  obtain ⟨k, bytes⟩ : ∃ k, numBytes x = k + 1 := ⟨numBytes x - 1, by unfold numBytes; omega⟩
  have top : x / 256 ^ k < 128 := by
    have bits : Nat.size x + 1 ≤ 8 * k + 8 := by
      unfold numBytes at bytes
      omega
    rw [Nat.div_lt_iff_lt_mul (Nat.pow_pos (by decide))]
    calc x < 2 ^ Nat.size x := Nat.lt_size_self x
      _ ≤ 2 ^ (8 * k + 7) := Nat.pow_le_pow_right (by decide) (by omega)
      _ = 128 * 256 ^ k := by rw [pow_add, pow_mul, Nat.mul_comm]; rfl
  rw [BN_bn2bin, bytes, List.getD_eq_getElem?_getD, ← List.head?_eq_getElem?, List.head?_reverse,
    leBytes_getLast]
  simp only [Option.getD_some, UInt8.toNat_ofNat']
  generalize x / 256 ^ k = topByte at top ⊢
  omega

theorem mask_of_topBit {c : UInt8} (clear : c &&& 0x80 = 0) : c &&& 0x7f = c := by
  rw [topBit_eq_zero] at clear
  rw [← UInt8.toNat_inj, UInt8.toNat_and, show (0x7f : UInt8).toNat = 2 ^ 7 - 1 from rfl,
    Nat.and_two_pow_sub_one_eq_mod]
  omega

/-- What `BN_bn2mpi` writes after the length of a number that is not
negative: a zero when its bits fill the top byte, then its bytes. -/
def mpiPayload (x : Nat) : List UInt8 :=
  (if Nat.size x > 0 && Nat.size x % 8 == 0 then [0] else []) ++ BN_bn2bin x

theorem mpiPayload_top (x : Nat) : (mpiPayload x).getD 0 0 &&& 0x80 = 0 := by
  unfold mpiPayload
  split
  · simp
  · rename_i unfilled
    rw [List.nil_append]
    by_cases zero : x = 0
    · subst zero
      rfl
    · have positive : Nat.size x > 0 := Nat.size_pos.mpr (Nat.pos_of_ne_zero zero)
      exact BN_bn2bin_top (by simpa [positive] using unfilled)

theorem mpiPayload_value (x : Nat) : leValue (mpiPayload x).reverse = x := by
  have fits : x < 256 ^ numBytes x := by
    have := lt_two_pow_numBytes x
    rwa [pow_mul] at this
  unfold mpiPayload BN_bn2bin
  rw [List.reverse_append, List.reverse_reverse, leValue_append, leValue_leBytes,
    Nat.mod_eq_of_lt fits]
  split <;> simp [leValue]

theorem BN_bn2mpi_nonneg {bn : Int} (nonneg : 0 ≤ bn) :
    BN_bn2mpi bn = mpiLength (mpiPayload bn.natAbs).length ++ mpiPayload bn.natAbs := by
  dsimp only [BN_bn2mpi, mpiPayload]
  rw [if_neg (show ¬bn < 0 by omega), List.append_assoc]
  congr 2
  simp only [List.length_append, BN_bn2bin, List.length_reverse, leBytes_length, numBytes]
  split <;> simp only [List.length_singleton, List.length_nil] <;> omega

/-- `BN_mpi2bn` reads back what `BN_bn2mpi` writes of a number that is not
negative, while its length fits the length field. -/
theorem BN_mpi2bn_bn2mpi {bn : Int} (nonneg : 0 ≤ bn) (short : numBytes bn.natAbs + 1 < 2 ^ 31) :
    BN_mpi2bn (BN_bn2mpi bn) = some bn := by
  have fits : (mpiPayload bn.natAbs).length < 2 ^ 31 := by
    simp only [mpiPayload, List.length_append, BN_bn2bin, List.length_reverse, leBytes_length]
    split <;> simp <;> omega
  rw [BN_bn2mpi_nonneg nonneg, BN_mpi2bn_nonneg fits (mpiPayload_top _), mpiPayload_value]
  show some (bn.natAbs : Int) = some bn
  rw [Int.natAbs_of_nonneg nonneg]

/-- `getuint64` of a number that is not negative is the number modulo `2 ^ 64`. -/
theorem getuint64_eq {bn : Int} (nonneg : 0 ≤ bn) :
    (CBigNum.getuint64 bn).toNat = bn.toNat % 2 ^ 64 := by
  have written := BN_bn2mpi_nonneg nonneg
  generalize (mpiPayload bn.natAbs).length = l at written
  have top := mpiPayload_top bn.natAbs
  -- the mask of the byte after the length leaves it as it is
  have masked : (if (mpiLength l ++ mpiPayload bn.natAbs).length > 4 then
        (mpiLength l ++ mpiPayload bn.natAbs).set 4
          ((mpiLength l ++ mpiPayload bn.natAbs).getD 4 0 &&& 0x7f)
      else mpiLength l ++ mpiPayload bn.natAbs) = mpiLength l ++ mpiPayload bn.natAbs := by
    split
    · rw [List.getD_append_right _ _ _ _ (by simp), List.set_append_right _ _ (by simp),
        mpiLength_length, Nat.sub_self, mask_of_topBit top]
      congr 1
      cases payload : mpiPayload bn.natAbs with
      | nil => rfl
      | cons p0 rest => rfl
    · rfl
  unfold CBigNum.getuint64
  rw [written]
  dsimp only
  rw [if_neg (show ¬(mpiLength l ++ mpiPayload bn.natAbs).length < 4 by simp), masked, List.drop_left' (mpiLength_length l), leValue_take, mpiPayload_value,
    UInt64.toNat_ofNat', show (256 : Nat) ^ 8 = 2 ^ 64 from rfl, Nat.mod_mod]
  omega

/-! ## The compact forms -/

/-- A compact form that passes `arith_uint256`'s overflow test stands for a
value below `2 ^ 256`. -/
theorem compactValue_lt_of_fits {nSize nWord : Nat} (wordLt : nWord < 2 ^ 23) (size34 : nSize ≤ 34)
    (size33 : nWord ≤ 0xff ∨ nSize ≤ 33) (size32 : nWord ≤ 0xffff ∨ nSize ≤ 32) :
    compactValue nSize nWord < 2 ^ 256 := by
  by_cases small : nSize ≤ 3
  · simp only [compactValue, if_pos small, Nat.shiftRight_eq_div_pow]
    exact lt_of_le_of_lt (Nat.div_le_self _ _) (lt_trans wordLt (by decide))
  rw [compactValue_of_three_le (by omega)]
  rcases (show nSize ≤ 32 ∨ nSize = 33 ∨ nSize = 34 by omega) with upTo32 | rfl | rfl
  · calc nWord * 2 ^ (8 * (nSize - 3)) ≤ nWord * 2 ^ 232 :=
          Nat.mul_le_mul_left _ (Nat.pow_le_pow_right (by decide) (by omega))
      _ < 2 ^ 23 * 2 ^ 232 := Nat.mul_lt_mul_of_pos_right wordLt (Nat.pow_pos (by decide))
      _ < 2 ^ 256 := by decide
  · calc nWord * 2 ^ (8 * (33 - 3)) ≤ 0xffff * 2 ^ 240 := Nat.mul_le_mul_right _ (by omega)
      _ < 2 ^ 256 := by decide
  · calc nWord * 2 ^ (8 * (34 - 3)) ≤ 0xff * 2 ^ 248 := Nat.mul_le_mul_right _ (by omega)
      _ < 2 ^ 256 := by decide

/-- On a compact form `arith_uint256` reads with neither its negative nor its
overflow flag, `CBigNum::SetCompact` gives the same number. -/
theorem CBigNum_SetCompact_eq {nCompact : UInt32} (positive : (SetCompact nCompact).2.1 = false)
    (fits : (SetCompact nCompact).2.2 = false) :
    CBigNum.SetCompact nCompact = (SetCompact nCompact).1 := by
  simp only [SetCompact, CBigNum.SetCompact] at positive fits ⊢
  generalize nCompact.toNat = n at positive fits ⊢
  have wordLt : n &&& 0x007fffff < 2 ^ 23 := by
    rw [show (0x007fffff : Nat) = 2 ^ 23 - 1 from rfl, Nat.and_two_pow_sub_one_eq_mod]
    exact Nat.mod_lt _ (by decide)
  generalize n &&& 0x007fffff = nWord at positive fits wordLt ⊢
  generalize n >>> 24 = nSize at positive fits ⊢
  -- the flags read the word as the source shifts it in place
  generalize shifted : (if nSize ≤ 3 then nWord >>> (8 * (3 - nSize)) else nWord) = word
    at positive fits
  by_cases zero : word = 0
  · have value : compactValue nSize nWord = 0 := by
      unfold compactValue
      split
      · rename_i small
        rw [if_pos small] at shifted
        exact shifted.trans zero
      · rename_i large
        rw [if_neg large] at shifted
        rw [shifted, zero, Nat.zero_shiftLeft]
    simp [value]
  · have nonzero : (word != 0) = true := by simpa using zero
    simp only [nonzero, Bool.true_and, bne_eq_false_iff_eq, Bool.or_eq_false_iff,
      decide_eq_false_iff_not, Bool.and_eq_false_iff] at positive fits
    obtain ⟨⟨size34, size33⟩, size32⟩ := fits
    have sameWord : 3 < nSize → word = nWord := by
      intro large
      rw [if_neg (by omega)] at shifted
      exact shifted.symm
    have below : compactValue nSize nWord < 2 ^ 256 :=
      compactValue_lt_of_fits wordLt (by omega) (by omega) (by omega)
    rw [if_neg (by simpa using positive), Nat.mod_eq_of_lt below]

end Peercoin.Arith
