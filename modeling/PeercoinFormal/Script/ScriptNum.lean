import Mathlib
import PeercoinFormal.Codec.Decoder

/-!
# script.h: the byte form of `CScriptNum`

`serialize` writes the little-endian bytes of a number's absolute value and
keeps the top bit of the last byte for the sign, appending a byte when the
value's top byte already uses that bit.  The constructor from bytes refuses
more than `nMaxNumSize` bytes and, asked for a minimal encoding, a last byte
that carries only the sign unless the byte before needs its top bit;
`set_vch` reads the number back.

Every number but `INT64_MIN` reads back from its bytes through the minimal
constructor, and every byte string of at most eight bytes the minimal
constructor accepts is what `serialize` writes for the number it reads: the
minimal encodings are exactly the writer's, and `0x80`, negative zero, is
refused.
-/

set_option autoImplicit false

namespace Peercoin.Script

open Codec

structure CScriptNum where
  m_value : Int64

def CScriptNum.GetInt64 (num : CScriptNum) : Int64 := num.m_value

def nDefaultMaxNumSize : Nat := 4

/-- The loop of `serialize`: `absvalue & 0xff` is pushed and `absvalue >>= 8`
while `absvalue` is not zero. -/
def serializeLoop (absvalue : Nat) : List UInt8 :=
  if absvalue = 0 then []
  else UInt8.ofNat (absvalue % 256) :: serializeLoop (absvalue / 256)
termination_by absvalue
decreasing_by omega

/-- `CScriptNum::serialize`; `absvalue`, `~(uint64_t)value + 1` for a
negative value, is the absolute value. -/
def serialize (value : Int64) : List UInt8 :=
  if value = 0 then []
  else
    let neg := value.toInt < 0
    let result := serializeLoop value.toInt.natAbs
    if result.getLast! &&& 0x80 ≠ 0 then result ++ [if neg then 0x80 else 0]
    else if neg then result.dropLast ++ [result.getLast! ||| 0x80]
    else result

/-- `CScriptNum::set_vch`.  The shifted bytes `vch[i] << 8*i` do not overlap,
so `result` is their little-endian value, and masking with
`~(0x80ULL << (8 * (vch.size() - 1)))` takes off the sign bit just tested.
The constructor reads at most `nMaxNumSize` bytes, at most eight at every
call of the source, where the value is exact. -/
def set_vch (vch : List UInt8) : Int64 :=
  if vch = [] then 0
  else
    let result := leValue vch
    if vch.getLast! &&& 0x80 ≠ 0 then
      Int64.ofInt (-((result - 0x80 * 256 ^ (vch.length - 1) : Nat) : Int))
    else Int64.ofInt result

/-- `CScriptNum(vch, fRequireMinimal, nMaxNumSize)`: the number, or the text of
the `scriptnum_error` it throws. -/
def CScriptNum.ofVch (vch : List UInt8) (fRequireMinimal : Bool) (nMaxNumSize : Nat) :
    Except String CScriptNum :=
  if vch.length > nMaxNumSize then .error "script number overflow"
  else if fRequireMinimal = true ∧ vch.length > 0 ∧ vch.getLast! &&& 0x7f = 0 ∧
      (vch.length ≤ 1 ∨ vch[vch.length - 2]! &&& 0x80 = 0) then
    .error "non-minimally encoded script number"
  else .ok ⟨set_vch vch⟩

/-! ## Bytes -/

set_option maxRecDepth 10000 in
private theorem signByteTable : ∀ k : Fin 256,
    ((UInt8.ofNat k.val &&& 0x80 ≠ 0) ↔ 128 ≤ k.val) ∧
      (UInt8.ofNat k.val &&& 0x7F).toNat = k.val % 128 ∧
      (k.val < 128 → (UInt8.ofNat k.val ||| 0x80).toNat = k.val + 128) := by
  decide

theorem sign_bit_iff (b : UInt8) : b &&& 0x80 ≠ 0 ↔ 128 ≤ b.toNat := by
  have table := (signByteTable ⟨b.toNat, b.toNat_lt⟩).1
  simpa only [UInt8.ofNat_toNat] using table

theorem low_bits_toNat (b : UInt8) : (b &&& 0x7F).toNat = b.toNat % 128 := by
  have table := (signByteTable ⟨b.toNat, b.toNat_lt⟩).2.1
  simpa only [UInt8.ofNat_toNat] using table

theorem or_sign_toNat (b : UInt8) (small : b.toNat < 128) : (b ||| 0x80).toNat = b.toNat + 128 := by
  have table := (signByteTable ⟨b.toNat, b.toNat_lt⟩).2.2
  simp only [UInt8.ofNat_toNat] at table
  exact table small

theorem leValue_snoc (init : List UInt8) (b : UInt8) :
    leValue (init ++ [b]) = leValue init + 256 ^ init.length * b.toNat := by
  rw [leValue_append]
  simp [leValue]

/-! ## The writer's bytes -/

theorem leValue_serializeLoop (absvalue : Nat) : leValue (serializeLoop absvalue) = absvalue := by
  induction absvalue using Nat.strongRecOn with
  | ind absvalue ih =>
    rw [serializeLoop]
    split
    · rename_i zero
      rw [zero]
      rfl
    · have byte : (UInt8.ofNat (absvalue % 256)).toNat = absvalue % 256 := by
        simp [Nat.mod_mod_of_dvd]
      rw [leValue, ih _ (by omega), byte]
      omega

/-- The writer's loop ends on a byte that is not zero. -/
theorem serializeLoop_snoc (absvalue : Nat) (nonzero : absvalue ≠ 0) :
    ∃ init top, top ≠ 0 ∧ serializeLoop absvalue = init ++ [top] := by
  induction absvalue using Nat.strongRecOn with
  | ind absvalue ih =>
    rw [serializeLoop, if_neg nonzero]
    by_cases last : absvalue / 256 = 0
    · refine ⟨[], UInt8.ofNat (absvalue % 256), fun zero => nonzero ?_, ?_⟩
      · have byte : absvalue % 256 % 2 ^ 8 = 0 := by
          have bits := congrArg UInt8.toNat zero
          rwa [UInt8.toNat_ofNat'] at bits
        omega
      · rw [last, serializeLoop, if_pos rfl]
        rfl
    · obtain ⟨init, top, topNonzero, rest⟩ := ih _ (by omega) last
      exact ⟨UInt8.ofNat (absvalue % 256) :: init, top, topNonzero, by rw [rest]; rfl⟩

/-- Bytes that do not end in zero are the writer's loop on their value. -/
theorem serializeLoop_leValue (init : List UInt8) {top : UInt8} (nonzero : top ≠ 0) :
    serializeLoop (leValue (init ++ [top])) = init ++ [top] := by
  have topPos : 0 < top.toNat := by
    rcases Nat.eq_zero_or_pos top.toNat with zero | pos
    · exact absurd (UInt8.toNat_inj.mp (zero.trans UInt8.toNat_zero.symm)) nonzero
    · exact pos
  induction init with
  | nil =>
    have small := top.toNat_lt
    have value : leValue ([] ++ [top]) = top.toNat := by simp [leValue]
    rw [value, serializeLoop, if_neg (by omega)]
    rw [Nat.div_eq_of_lt small, serializeLoop, if_pos rfl, Nat.mod_eq_of_lt small, UInt8.ofNat_toNat]
    rfl
  | cons b init ih =>
    have bSmall := b.toNat_lt
    have restPos : 0 < leValue (init ++ [top]) := by
      rw [leValue_snoc]
      exact Nat.lt_of_lt_of_le (Nat.mul_pos (Nat.pow_pos (by omega)) topPos)
        (Nat.le_add_left _ _)
    rw [List.cons_append, leValue, serializeLoop, if_neg (by omega)]
    have low : (b.toNat + 256 * leValue (init ++ [top])) % 256 = b.toNat := by omega
    have high : (b.toNat + 256 * leValue (init ++ [top])) / 256 = leValue (init ++ [top]) := by
      omega
    rw [low, high, ih, UInt8.ofNat_toNat]

theorem toNat_pos_of_ne_zero {b : UInt8} (nonzero : b ≠ 0) : 0 < b.toNat := by
  rcases Nat.eq_zero_or_pos b.toNat with zero | pos
  · exact absurd (UInt8.toNat_inj.mp (zero.trans UInt8.toNat_zero.symm)) nonzero
  · exact pos

/-- A value below `2 ^ 63` has at most eight bytes, and at most seven when its
top byte uses the sign bit. -/
theorem length_of_value_lt {init : List UInt8} {top : UInt8} (nonzero : top ≠ 0)
    (small : leValue (init ++ [top]) < 2 ^ 63) :
    init.length < 8 ∧ (128 ≤ top.toNat → init.length < 7) := by
  have topPos := toNat_pos_of_ne_zero nonzero
  rw [leValue_snoc] at small
  have limit : (2 : Nat) ^ 63 = 256 ^ 7 * 128 := rfl
  have below : 256 ^ init.length * top.toNat < 256 ^ 7 * 128 := by omega
  constructor
  · have fewer : 256 ^ init.length < 256 ^ 8 :=
      calc 256 ^ init.length ≤ 256 ^ init.length * top.toNat := Nat.le_mul_of_pos_right _ topPos
        _ < 256 ^ 7 * 128 := below
        _ < 256 ^ 8 := by decide
    exact (Nat.pow_lt_pow_iff_right (by omega)).mp fewer
  · intro large
    have scaled : 256 ^ init.length * 128 < 256 ^ 7 * 128 :=
      Nat.lt_of_le_of_lt (Nat.mul_le_mul_left _ large) below
    exact (Nat.pow_lt_pow_iff_right (by omega)).mp (Nat.lt_of_mul_lt_mul_right scaled)

theorem magnitude_lt (value : Int64) (notMin : value ≠ Int64.minValue) :
    value.toInt.natAbs < 2 ^ 63 := by
  have low := Int64.le_toInt value
  have high := Int64.toInt_le value
  have ne : value.toInt ≠ -2 ^ 63 := fun eq => notMin (Int64.toInt_inj.mp (eq.trans rfl))
  simp only [Int64.toInt_maxValue] at high
  omega

theorem toInt_ne_zero {value : Int64} (nonzero : value ≠ 0) : value.toInt.natAbs ≠ 0 := by
  intro zero
  exact nonzero (Int64.toInt_inj.mp (by simpa using zero))

/-- The writer's bytes of a number other than zero, given the bytes of its
absolute value: the sign goes in the top bit of the last byte, or in a byte
after it when that bit is taken. -/
theorem serialize_of_bytes {value : Int64} (nonzero : value ≠ 0) {init : List UInt8} {top : UInt8}
    (topNonzero : top ≠ 0) (magnitude : leValue (init ++ [top]) = value.toInt.natAbs) :
    serialize value =
      if top &&& 0x80 ≠ 0 then init ++ [top] ++ [if value.toInt < 0 then 0x80 else 0]
      else if value.toInt < 0 then init ++ [top ||| 0x80]
      else init ++ [top] := by
  have bytes : serializeLoop value.toInt.natAbs = init ++ [top] := by
    rw [← magnitude]
    exact serializeLoop_leValue init topNonzero
  have lastEq : (init ++ [top]).getLast! = top := by simp
  have dropEq : (init ++ [top]).dropLast = init := by simp
  unfold serialize
  rw [if_neg nonzero]
  dsimp only
  rw [bytes, lastEq, dropEq]

theorem length_serialize_le (value : Int64) (notMin : value ≠ Int64.minValue) :
    (serialize value).length ≤ 8 := by
  by_cases zero : value = 0
  · rw [zero]
    simp [serialize]
  obtain ⟨init, top, topNonzero, bytes⟩ := serializeLoop_snoc _ (toInt_ne_zero zero)
  have magnitude := leValue_serializeLoop value.toInt.natAbs
  rw [bytes] at magnitude
  have lengths := length_of_value_lt topNonzero (magnitude ▸ magnitude_lt value notMin)
  rw [serialize_of_bytes zero topNonzero magnitude]
  split
  · -- the top byte uses the sign bit, so the value needs at most seven bytes
    rename_i marked
    have short := lengths.2 ((sign_bit_iff top).mp marked)
    simp only [List.length_append, List.length_singleton]
    omega
  · split <;> simp only [List.length_append, List.length_singleton] <;> omega

/-! ## The reader -/

/-- The bytes pass the constructor's minimal-encoding test. -/
def MinimallyEncoded (vch : List UInt8) : Prop :=
  vch = [] ∨ vch.getLast! &&& 0x7f ≠ 0 ∨ (1 < vch.length ∧ vch[vch.length - 2]! &&& 0x80 ≠ 0)

theorem minimal_test_iff (vch : List UInt8) :
    ¬(vch.length > 0 ∧ vch.getLast! &&& 0x7f = 0 ∧
        (vch.length ≤ 1 ∨ vch[vch.length - 2]! &&& 0x80 = 0)) ↔ MinimallyEncoded vch := by
  unfold MinimallyEncoded
  constructor
  · intro passes
    by_cases empty : vch = []
    · exact .inl empty
    by_cases low : vch.getLast! &&& 0x7f = 0
    · -- only the sign in the last byte: the byte before must use its top bit
      have nonempty : 0 < vch.length := List.length_pos_of_ne_nil empty
      refine .inr (.inr ⟨?_, fun unsigned => passes ⟨nonempty, low, .inr unsigned⟩⟩)
      by_contra short
      exact passes ⟨nonempty, low, .inl (by omega)⟩
    · exact .inr (.inl low)
  · rintro (empty | high | ⟨long, signed⟩) ⟨nonempty, low, short | unsigned⟩
    · simp [empty] at nonempty
    · simp [empty] at nonempty
    · exact high low
    · exact high low
    · omega
    · exact signed unsigned

/-- The constructor asked for a minimal encoding accepts exactly the minimal
byte strings within the size, and reads them with `set_vch`. -/
theorem ofVch_eq_ok {vch : List UInt8} {nMaxNumSize : Nat} {num : CScriptNum} :
    CScriptNum.ofVch vch true nMaxNumSize = .ok num ↔
      vch.length ≤ nMaxNumSize ∧ MinimallyEncoded vch ∧ num = ⟨set_vch vch⟩ := by
  rw [← minimal_test_iff]
  unfold CScriptNum.ofVch
  by_cases long : vch.length > nMaxNumSize
  · rw [if_pos long]
    simp only [reduceCtorEq, false_iff, not_and]
    intro short
    omega
  rw [if_neg long]
  by_cases test : vch.length > 0 ∧ vch.getLast! &&& 0x7f = 0 ∧
      (vch.length ≤ 1 ∨ vch[vch.length - 2]! &&& 0x80 = 0)
  · rw [if_pos ⟨rfl, test⟩]
    simp only [reduceCtorEq, false_iff, not_and]
    intro _ passes
    exact (passes test.1 test.2.1 test.2.2).elim
  · rw [if_neg (fun failed => test failed.2)]
    simp only [Except.ok.injEq]
    exact ⟨fun read => ⟨by omega, test, read.symm⟩, fun ⟨_, _, read⟩ => read.symm⟩

theorem set_vch_nil : set_vch [] = 0 := rfl

/-- Seven bytes and seven bits of magnitude stay below `2 ^ 63`. -/
theorem magnitude_lt_of_short (init : List UInt8) {digit : Nat} (short : init.length ≤ 7)
    (small : digit < 128) : leValue init + 256 ^ init.length * digit < 2 ^ 63 := by
  have below := leValue_lt init
  have widest : 256 ^ init.length ≤ 256 ^ 7 := Nat.pow_le_pow_right (by omega) short
  calc leValue init + 256 ^ init.length * digit
      < 256 ^ init.length + 256 ^ init.length * digit := by omega
    _ = 256 ^ init.length * (digit + 1) := by rw [Nat.mul_add, Nat.mul_one, Nat.add_comm]
    _ ≤ 256 ^ 7 * 128 := Nat.mul_le_mul widest (by omega)
    _ = 2 ^ 63 := rfl

/-- `set_vch` on at most eight bytes: the magnitude is the value with the sign
bit of the last byte cleared. -/
theorem set_vch_toInt (init : List UInt8) (b : UInt8) (short : init.length ≤ 7) :
    (set_vch (init ++ [b])).toInt =
      if b &&& 0x80 ≠ 0 then -((leValue init + 256 ^ init.length * (b.toNat % 128) : Nat) : Int)
      else ((leValue init + 256 ^ init.length * (b.toNat % 128) : Nat) : Int) := by
  have small := magnitude_lt_of_short init short (Nat.mod_lt b.toNat (by omega))
  have lastEq : (init ++ [b]).getLast! = b := by simp
  have lengthEq : (init ++ [b]).length - 1 = init.length := by simp
  unfold set_vch
  rw [if_neg (by simp)]
  dsimp only
  rw [lastEq, lengthEq, leValue_snoc]
  split
  · rename_i marked
    have large := (sign_bit_iff b).mp marked
    have bSmall := b.toNat_lt
    have cleared : leValue init + 256 ^ init.length * b.toNat - 0x80 * 256 ^ init.length =
        leValue init + 256 ^ init.length * (b.toNat % 128) := by
      have split : b.toNat = b.toNat % 128 + 128 := by omega
      generalize b.toNat % 128 = digit at split ⊢
      rw [split, Nat.mul_add]
      omega
    rw [cleared, Int64.toInt_ofInt_of_le (by omega) (by omega)]
  · rename_i unmarked
    have low : b.toNat % 128 = b.toNat := by
      have := (sign_bit_iff b).not.mp unmarked
      omega
    rw [low] at small
    rw [low, Int64.toInt_ofInt_of_le (by omega) (by omega)]

/-! ## Round trips -/

theorem ne_zero_of_toNat {b : UInt8} (positive : 0 < b.toNat) : b ≠ 0 := by
  rintro rfl
  simp at positive

/-- What `serialize` writes passes the minimal test. -/
theorem serialize_minimal (value : Int64) : MinimallyEncoded (serialize value) := by
  by_cases zero : value = 0
  · rw [zero]
    exact .inl rfl
  obtain ⟨init, top, topNonzero, bytes⟩ := serializeLoop_snoc _ (toInt_ne_zero zero)
  have magnitude := leValue_serializeLoop value.toInt.natAbs
  rw [bytes] at magnitude
  have topPos := toNat_pos_of_ne_zero topNonzero
  rw [serialize_of_bytes zero topNonzero magnitude]
  split
  · -- a sign byte after a top byte that uses its top bit
    rename_i marked
    refine .inr (.inr ⟨by simp, ?_⟩)
    have before : ∀ sign : UInt8, (init ++ [top] ++ [sign])[(init ++ [top] ++ [sign]).length - 2]! =
        top := fun _ => by simp
    rw [before]
    exact marked
  · rename_i unmarked
    have small : top.toNat < 128 := by
      have := (sign_bit_iff top).not.mp unmarked
      omega
    refine .inr (.inl ?_)
    split
    · have lastEq : (init ++ [top ||| 0x80]).getLast! = top ||| 0x80 := by simp
      rw [lastEq]
      apply ne_zero_of_toNat
      rw [low_bits_toNat, or_sign_toNat top small]
      omega
    · have lastEq : (init ++ [top]).getLast! = top := by simp
      rw [lastEq]
      apply ne_zero_of_toNat
      rw [low_bits_toNat]
      omega

theorem Int64.ofInt_signed (value : Int64) :
    Int64.ofInt (if value.toInt < 0 then -(value.toInt.natAbs : Int) else value.toInt.natAbs) =
      value := by
  have signed : (if value.toInt < 0 then -(value.toInt.natAbs : Int) else value.toInt.natAbs) =
      value.toInt := by
    split <;> omega
  rw [signed, Int64.ofInt_toInt]

/-- Every number but `INT64_MIN` reads back from what `serialize` writes. -/
theorem set_vch_serialize (value : Int64) (notMin : value ≠ Int64.minValue) :
    set_vch (serialize value) = value := by
  by_cases zero : value = 0
  · rw [zero]
    rfl
  obtain ⟨init, top, topNonzero, bytes⟩ := serializeLoop_snoc _ (toInt_ne_zero zero)
  have magnitude := leValue_serializeLoop value.toInt.natAbs
  rw [bytes] at magnitude
  have lengths := length_of_value_lt topNonzero (magnitude ▸ magnitude_lt value notMin)
  have topSmall := top.toNat_lt
  rw [serialize_of_bytes zero topNonzero magnitude, ← Int64.toInt_inj]
  split
  · -- the sign byte `0x80` or `0` after the magnitude's bytes
    rename_i marked
    have short := lengths.2 ((sign_bit_iff top).mp marked)
    have fits : (init ++ [top]).length ≤ 7 := by
      rw [List.length_append, List.length_singleton]
      omega
    rw [set_vch_toInt _ _ fits, magnitude]
    split
    · rename_i neg
      have signDigit : (0x80 : UInt8).toNat % 128 = 0 := rfl
      rw [if_pos (by decide), signDigit, Nat.mul_zero, Nat.add_zero]
      omega
    · rename_i pos
      have zeroDigit : (0 : UInt8).toNat % 128 = 0 := rfl
      rw [if_neg (by decide), zeroDigit, Nat.mul_zero, Nat.add_zero]
      omega
  · rename_i unmarked
    have small : top.toNat < 128 := by
      have := (sign_bit_iff top).not.mp unmarked
      omega
    rw [leValue_snoc] at magnitude
    split
    · rename_i neg
      have marked : (top ||| 0x80) &&& 0x80 ≠ 0 := by
        rw [sign_bit_iff, or_sign_toNat top small]
        omega
      rw [set_vch_toInt _ _ (by omega), if_pos marked, or_sign_toNat top small]
      have low : (top.toNat + 128) % 128 = top.toNat := by omega
      rw [low, magnitude]
      omega
    · rename_i pos
      rw [set_vch_toInt _ _ (by omega), if_neg unmarked, Nat.mod_eq_of_lt small, magnitude]
      omega

/-- A minimal byte string of at most eight bytes is what `serialize` writes for
the number `set_vch` reads from it. -/
theorem serialize_set_vch (vch : List UInt8) (short : vch.length ≤ 8)
    (minimal : MinimallyEncoded vch) : serialize (set_vch vch) = vch := by
  rcases List.eq_nil_or_concat' vch with empty | ⟨init, b, rfl⟩
  · rw [empty, set_vch_nil]
    rfl
  have initShort : init.length ≤ 7 := by
    rw [List.length_append, List.length_singleton] at short
    omega
  have value := set_vch_toInt init b initShort
  have bSmall := b.toNat_lt
  by_cases lowZero : b.toNat % 128 = 0
  · -- the last byte carries only the sign, so the byte before uses its top bit
    have lastEq : (init ++ [b]).getLast! = b := by simp
    have lowByte : b &&& 0x7f = 0 := by
      apply UInt8.toNat_inj.mp
      rw [low_bits_toNat, lowZero]
      rfl
    rcases minimal with empty | high | ⟨long, signed⟩
    · simp at empty
    · rw [lastEq] at high
      exact absurd lowByte high
    rcases List.eq_nil_or_concat' init with noInit | ⟨init', top, rfl⟩
    · simp [noInit] at long
    have before : (init' ++ [top] ++ [b])[(init' ++ [top] ++ [b]).length - 2]! = top := by simp
    rw [before] at signed
    have topPos : 0 < top.toNat := by
      have := (sign_bit_iff top).mp signed
      omega
    have topNonzero := ne_zero_of_toNat topPos
    rw [lowZero, Nat.mul_zero, Nat.add_zero] at value
    have positive : 0 < leValue (init' ++ [top]) := by
      rw [leValue_snoc]
      have spread : 0 < 256 ^ init'.length * top.toNat := Nat.mul_pos (Nat.pow_pos (by omega)) topPos
      omega
    have nonzero : set_vch (init' ++ [top] ++ [b]) ≠ 0 := by
      intro zero
      rw [zero, Int64.toInt_zero] at value
      split at value <;> omega
    have magnitude : leValue (init' ++ [top]) = (set_vch (init' ++ [top] ++ [b])).toInt.natAbs := by
      rw [value]
      split <;> simp only [Int.natAbs_neg, Int.natAbs_natCast]
    rw [serialize_of_bytes nonzero topNonzero magnitude, if_pos signed]
    congr 2
    -- the sign byte is `0x80` or `0`, as `b` is
    rw [value]
    split
    · rename_i marked
      rw [if_pos (by omega)]
      apply UInt8.toNat_inj.mp
      have := (sign_bit_iff b).mp marked
      show 128 = b.toNat
      omega
    · rename_i unmarked
      rw [if_neg (by omega)]
      apply UInt8.toNat_inj.mp
      have := (sign_bit_iff b).not.mp unmarked
      show 0 = b.toNat
      omega
  · -- the last byte carries magnitude bits: they are the top byte of the magnitude
    have top : (UInt8.ofNat (b.toNat % 128)).toNat = b.toNat % 128 := by
      rw [UInt8.toNat_ofNat']
      omega
    have topNonzero : UInt8.ofNat (b.toNat % 128) ≠ 0 := ne_zero_of_toNat (by omega)
    have magnitudeValue : leValue (init ++ [UInt8.ofNat (b.toNat % 128)]) =
        leValue init + 256 ^ init.length * (b.toNat % 128) := by
      rw [leValue_snoc, top]
    have spread : 0 < 256 ^ init.length * (b.toNat % 128) :=
      Nat.mul_pos (Nat.pow_pos (by omega)) (by omega)
    have nonzero : set_vch (init ++ [b]) ≠ 0 := by
      intro zero
      rw [zero, Int64.toInt_zero] at value
      split at value <;> omega
    have magnitude : leValue (init ++ [UInt8.ofNat (b.toNat % 128)]) =
        (set_vch (init ++ [b])).toInt.natAbs := by
      rw [magnitudeValue, value]
      split <;> simp only [Int.natAbs_neg, Int.natAbs_natCast]
    have unmarkedTop : ¬UInt8.ofNat (b.toNat % 128) &&& 0x80 ≠ 0 := by
      rw [sign_bit_iff, top]
      omega
    rw [serialize_of_bytes nonzero topNonzero magnitude, if_neg unmarkedTop, value]
    split
    · rename_i marked
      rw [if_pos (by omega)]
      congr 2
      apply UInt8.toNat_inj.mp
      have := (sign_bit_iff b).mp marked
      rw [or_sign_toNat _ (by omega), top]
      omega
    · rename_i unmarked
      rw [if_neg (by omega)]
      congr 2
      apply UInt8.toNat_inj.mp
      have := (sign_bit_iff b).not.mp unmarked
      rw [top]
      omega

/-- At most eight bytes never read as `INT64_MIN`. -/
theorem set_vch_ne_minValue (vch : List UInt8) (short : vch.length ≤ 8) :
    set_vch vch ≠ Int64.minValue := by
  rcases List.eq_nil_or_concat' vch with empty | ⟨init, b, rfl⟩
  · rw [empty, set_vch_nil]
    decide
  have initShort : init.length ≤ 7 := by
    rw [List.length_append, List.length_singleton] at short
    omega
  have small := magnitude_lt_of_short init initShort (Nat.mod_lt b.toNat (by omega))
  have value := set_vch_toInt init b initShort
  intro least
  rw [least] at value
  have minimum : Int64.minValue.toInt = -2 ^ 63 := rfl
  rw [minimum] at value
  split at value <;> omega

/-- The byte form of script numbers: every number but `INT64_MIN` reads back
from what `serialize` writes under the minimal test and any size limit from
its length up to eight; every string of at most eight bytes the minimal
constructor accepts is what `serialize` writes for the number read; so the
strings accepted are exactly the writer's, and negative zero is refused. -/
theorem scriptnum_codec_canonical :
    (∀ v : Int64, v ≠ Int64.minValue → ∀ k, (serialize v).length ≤ k → k ≤ 8 →
      ∃ num, CScriptNum.ofVch (serialize v) true k = .ok num ∧ num.GetInt64 = v) ∧
    (∀ vch k num, vch.length ≤ 8 → CScriptNum.ofVch vch true k = .ok num →
      serialize num.GetInt64 = vch) ∧
    (∀ vch k, vch.length ≤ k → k ≤ 8 →
      ((∃ num, CScriptNum.ofVch vch true k = .ok num) ↔
        ∃ v, v ≠ Int64.minValue ∧ serialize v = vch)) ∧
    (∀ k num, CScriptNum.ofVch [0x80] true k ≠ .ok num) := by
  have reads : ∀ v : Int64, v ≠ Int64.minValue → ∀ k, (serialize v).length ≤ k →
      CScriptNum.ofVch (serialize v) true k = .ok ⟨v⟩ := fun v notMin k enough =>
    ofVch_eq_ok.mpr ⟨enough, serialize_minimal v, by rw [set_vch_serialize v notMin]⟩
  refine ⟨fun v notMin k enough _ => ⟨⟨v⟩, reads v notMin k enough, rfl⟩, ?_, ?_, ?_⟩
  · intro vch k num short read
    obtain ⟨_, minimal, rfl⟩ := ofVch_eq_ok.mp read
    exact serialize_set_vch vch short minimal
  · intro vch k enough limit
    constructor
    · rintro ⟨num, read⟩
      obtain ⟨_, minimal, rfl⟩ := ofVch_eq_ok.mp read
      exact ⟨set_vch vch, set_vch_ne_minValue vch (by omega),
        serialize_set_vch vch (by omega) minimal⟩
    · rintro ⟨v, notMin, rfl⟩
      exact ⟨⟨v⟩, reads v notMin k enough⟩
  · intro k num read
    obtain ⟨_, minimal, _⟩ := ofVch_eq_ok.mp read
    rcases minimal with empty | high | ⟨long, _⟩
    · cases empty
    · exact high rfl
    · simp at long

end Peercoin.Script
