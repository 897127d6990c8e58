import PeercoinFormal.Primitives.Transaction
import PeercoinFormal.Util.StrEncodings

/-!
# util/moneystr.cpp: FormatMoney and ParseMoney

`FormatMoney` prints an amount as `%d.%06d` of its whole coins and its units,
trims the zeros at the end of the units down to two digits, and puts a minus
sign in front of a negative amount.  `ParseMoney` reads at most ten whole
digits and at most six after the point, and keeps what lies in `MoneyRange`.

Every amount in `MoneyRange` prints to a string that parses back to it
(`ParseMoney_FormatMoney`); a negative amount prints as its magnitude after a
minus sign (`FormatMoney_neg`); every printed amount has two to six digits
after the point (`FormatMoney_fraction`).
-/

set_option autoImplicit false

namespace Peercoin.Util

open Radix Peercoin.Primitives

/-! ## FormatMoney -/

/-- The decimal digits of a number, most significant first; `0` for zero. -/
def decimalDigits (n : Nat) : List UInt8 :=
  if n = 0 then [48] else (Nat.digits 10 n).reverse.map fun d => (48 + d).toUInt8

/-- `%d`. -/
def formatInt (v : Int) : List UInt8 := (if v < 0 then [45] else []) ++ decimalDigits v.natAbs

/-- `%0<width>d`: zeros between the sign and the digits up to `width` characters. -/
def formatIntZeroPadded (width : Nat) (v : Int) : List UInt8 :=
  let sign : List UInt8 := if v < 0 then [45] else []
  let digits := decimalDigits v.natAbs
  sign ++ List.replicate (width - sign.length - digits.length) 48 ++ digits

/-- The trimming loop of `FormatMoney`, which walks down from the last
character, read on the reversed string: the zeros it counts while the
character two places further on is a digit.  Past the string's start it
reads no digit; the point always stops the loop before that. -/
def TrimCount : List UInt8 → Nat
  | [] => 0
  | c :: rest => if c == 48 && IsDigit (rest.getD 1 0) then TrimCount rest + 1 else 0

/-- `FormatMoney`; `/` and `%` of `int64_t` truncate toward zero. -/
def FormatMoney (n : Int64) : List UInt8 :=
  let quotient := n.toInt.tdiv COIN.toInt
  let remainder := n.toInt.tmod COIN.toInt
  let quotient := if n < 0 then -quotient else quotient
  let remainder := if n < 0 then -remainder else remainder
  let str := formatInt quotient ++ 46 :: formatIntZeroPadded 6 remainder
  let nTrim := TrimCount str.reverse
  let str := str.take (str.length - nTrim)
  if n < 0 then 45 :: str else str

/-! ## ParseMoney -/

/-- The loop after the decimal point: each digit weighs `nMult`, which starts
at `COIN / 10` and drops by tens, while `nMult > 0`; the units and the
characters left. -/
def ParseFraction (nUnits nMult : Int) : List UInt8 → Int × List UInt8
  | [] => (nUnits, [])
  | c :: rest =>
    if IsDigit c && nMult > 0 then ParseFraction (nUnits + nMult * digitValue c) (nMult / 10) rest
    else (nUnits, c :: rest)

/-- The loop `for (; *p; p++)` of `ParseMoney`: the whole digits, the units
after a point, and the characters left; `none` at a space or another
character that is not a digit. -/
def ParseMoneyLoop (strWhole : List UInt8) : List UInt8 → Option (List UInt8 × Int × List UInt8)
  | [] => some (strWhole, 0, [])
  | c :: rest =>
    if c == 46 then
      let fraction := ParseFraction 0 (COIN.toInt / 10) rest
      some (strWhole, fraction.1, fraction.2)
    else if IsSpace c then none
    else if !IsDigit c then none
    else ParseMoneyLoop (strWhole ++ [c]) rest

def ParseMoney (money_string : List UInt8) : Option Int64 :=
  if !ContainsNoNUL money_string then none
  else
    let str := TrimString money_string TRIM_PATTERN
    if str.isEmpty then none
    else
      match ParseMoneyLoop [] str with
      | none => none
      | some (strWhole, nUnits, rest) =>
        -- `if (*p)`: the loops stopped before the end
        if !rest.isEmpty then none
        else if strWhole.length > 10 then none
        else if nUnits < 0 || nUnits > COIN.toInt then none
        else
          -- ten digits at most: `nWhole * COIN + nUnits` stays far inside 64 bits
          let value := (LocaleIndependentAtoi strWhole).toInt * COIN.toInt + nUnits
          if !MoneyRangeAmount value then none else some (Int64.ofInt value)

/-! ## Digit strings -/

theorem COIN_toInt : COIN.toInt = 1000000 := rfl

theorem digitChar_toNat {d : Nat} (small : d < 10) : (48 + d).toUInt8.toNat = 48 + d := by
  rw [Nat.toUInt8, UInt8.toNat_ofNat']
  omega

theorem decimalDigits_digits (n : Nat) : ∀ c ∈ decimalDigits n, IsDigit c = true := by
  unfold decimalDigits
  split
  · simp [IsDigit]
  · simp only [List.mem_map, List.mem_reverse]
    rintro _ ⟨d, member, rfl⟩
    have small := Nat.digits_lt_base (by norm_num) member
    rw [IsDigit_iff, digitChar_toNat small]
    omega

theorem decimalDigits_value (n : Nat) : bigEndianValue 10 ((decimalDigits n).map digitValue) = n := by
  unfold decimalDigits
  split
  · rename_i zero
    simp [zero, digitValue, bigEndianValue]
  · have values : ((Nat.digits 10 n).reverse.map fun d => (48 + d).toUInt8).map digitValue =
        (Nat.digits 10 n).reverse := by
      rw [List.map_map]
      conv => rhs; rw [← List.map_id (Nat.digits 10 n).reverse]
      refine List.map_congr_left fun d member => ?_
      have small := Nat.digits_lt_base (by norm_num) (List.mem_reverse.mp member)
      simp only [Function.comp, id, digitValue]
      rw [digitChar_toNat small]
      omega
    rw [values, bigEndianValue_eq, List.reverse_reverse, Nat.ofDigits_digits]

theorem decimalDigits_ne_nil (n : Nat) : decimalDigits n ≠ [] := by
  unfold decimalDigits
  split
  · simp
  · rename_i positive
    simpa using Nat.digits_ne_nil_iff_ne_zero.mpr positive

theorem decimalDigits_length_le {n k : Nat} (below : n < 10 ^ k) (positive : 0 < k) :
    (decimalDigits n).length ≤ k := by
  unfold decimalDigits
  split
  · exact positive
  · simpa using length_digits_le_of_lt (by norm_num) below

theorem zeros_value (m : Nat) :
    bigEndianValue 10 ((List.replicate m (48 : UInt8)).map digitValue) = 0 := by
  rw [List.map_replicate, bigEndianValue_eq, List.reverse_replicate]
  exact Nat.ofDigits_replicate_zero

/-- `%06d` of a number of units: six digits with its value. -/
theorem formatIntZeroPadded_six {r : Nat} (below : r < 1000000) :
    (formatIntZeroPadded 6 r).length = 6 ∧ (∀ c ∈ formatIntZeroPadded 6 r, IsDigit c = true) ∧
      bigEndianValue 10 ((formatIntZeroPadded 6 r).map digitValue) = r := by
  have fits := decimalDigits_length_le (k := 6) below (by norm_num)
  have unsigned : ¬(r : Int) < 0 := by omega
  simp only [formatIntZeroPadded, unsigned, if_false, Int.natAbs_natCast, List.nil_append,
    List.length_nil, Nat.sub_zero]
  refine ⟨by simp only [List.length_append, List.length_replicate]; omega, ?_, ?_⟩
  · simp only [List.mem_append, List.mem_replicate]
    rintro c (⟨-, rfl⟩ | member)
    · rfl
    · exact decimalDigits_digits r c member
  · rw [List.map_append, bigEndianValue_append, zeros_value, decimalDigits_value]
    simp

/-! ## The trimming loop -/

theorem TrimCount_zeros : ∀ (str : List UInt8), ∀ c ∈ str.take (TrimCount str), c = 48
  | [] => by simp
  | c :: rest => by
    unfold TrimCount
    split
    · rename_i trimmed
      simp only [Bool.and_eq_true, beq_iff_eq] at trimmed
      simp only [List.take_succ_cons, List.mem_cons]
      rintro d (rfl | member)
      · exact trimmed.1
      · exact TrimCount_zeros rest d member
    · simp

theorem TrimCount_cons_le (c : UInt8) (rest : List UInt8) : TrimCount (c :: rest) ≤ TrimCount rest + 1 := by
  rw [TrimCount.eq_2]
  split <;> omega

/-- Read from the end, the loop stops two digits before the point. -/
theorem TrimCount_le (whole : List UInt8) :
    ∀ units : List UInt8, 2 ≤ units.length → TrimCount (units ++ 46 :: whole) ≤ units.length - 2
  | [] | [_] => by simp
  | [_, _] => by simp [TrimCount, IsDigit]
  | c :: d :: e :: more => by
    intro long
    have next := TrimCount_le whole (d :: e :: more) (by simp)
    have step := TrimCount_cons_le c ((d :: e :: more) ++ 46 :: whole)
    simp only [List.cons_append, List.length_cons] at next step ⊢
    omega

/-- `FormatMoney` of an amount of magnitude `a`, before its sign. -/
def formatCoins (a : Nat) : List UInt8 :=
  let str := decimalDigits (a / 1000000) ++ 46 :: formatIntZeroPadded 6 (a % 1000000 : Nat)
  str.take (str.length - TrimCount str.reverse)

/-- The printed magnitude: the whole coins, the point, and the six digits of
the units less the `m` zeros the loop trims, at most four. -/
theorem formatCoins_eq (a : Nat) : ∃ m ≤ 4,
    formatCoins a =
        decimalDigits (a / 1000000) ++ 46 :: (formatIntZeroPadded 6 (a % 1000000 : Nat)).take (6 - m) ∧
      (formatIntZeroPadded 6 (a % 1000000 : Nat)).drop (6 - m) = List.replicate m 48 := by
  obtain ⟨six, -, -⟩ := formatIntZeroPadded_six (r := a % 1000000) (Nat.mod_lt _ (by norm_num))
  unfold formatCoins
  generalize formatIntZeroPadded 6 (a % 1000000 : Nat) = units at six ⊢
  generalize decimalDigits (a / 1000000) = whole
  have reversed : (whole ++ 46 :: units).reverse = units.reverse ++ 46 :: whole.reverse := by simp
  set m := TrimCount (whole ++ 46 :: units).reverse
  have bound : m ≤ 4 := by
    have trimmed := TrimCount_le whole.reverse units.reverse (by simp [six])
    rw [← reversed, List.length_reverse, six] at trimmed
    omega
  refine ⟨m, bound, ?_, ?_⟩
  · have kept : (whole ++ 46 :: units).length - m - whole.length = (6 - m) + 1 := by
      simp only [List.length_append, List.length_cons, six]
      omega
    rw [List.take_append, List.take_of_length_le
      (by simp only [List.length_append, List.length_cons, six]; omega), kept, List.take_succ_cons]
  · -- the zeros the loop counts from the end are the last `m` units
    have zeros : ∀ c ∈ (whole ++ 46 :: units).reverse.take m, c = 48 :=
      TrimCount_zeros (whole ++ 46 :: units).reverse
    rw [reversed, List.take_append_of_le_length (by simp only [List.length_reverse, six]; omega),
      List.take_reverse, six] at zeros
    refine List.eq_replicate_iff.mpr ⟨by simp only [List.length_drop, six]; omega, fun c member => ?_⟩
    exact zeros c (List.mem_reverse.mpr member)

/-! ## Reading a printed amount -/

/-- The loop after the point on at most `k + 1` digits, from `nMult = 10 ^ k`:
the digits' value, scaled to `k + 1` places, and nothing left. -/
theorem ParseFraction_digits (k : Nat) (nUnits : Int) {units : List UInt8}
    (all : ∀ c ∈ units, IsDigit c = true) (short : units.length ≤ k + 1) :
    ParseFraction nUnits (10 ^ k) units =
      (nUnits + bigEndianValue 10 (units.map digitValue) * 10 ^ (k + 1 - units.length), []) := by
  induction units generalizing k nUnits with
  | nil => simp [ParseFraction, bigEndianValue]
  | cons c rest ih =>
    have positive : (0 : Int) < 10 ^ k := by positivity
    rw [ParseFraction.eq_2, if_pos (by simp [all c List.mem_cons_self, positive])]
    cases k with
    | zero =>
      -- `nMult` reaches zero with the last digit
      have empty : rest = [] :=
        List.eq_nil_of_length_eq_zero (by simp only [List.length_cons] at short; omega)
      subst empty
      simp [ParseFraction, bigEndianValue]
    | succ k =>
      have next : (10 : Int) ^ (k + 1) / 10 = 10 ^ k := by
        rw [pow_succ, Int.mul_ediv_cancel _ (by norm_num)]
      have fits : rest.length ≤ k + 1 := by simp only [List.length_cons] at short; omega
      have powers : (10 : Int) ^ rest.length * 10 ^ (k + 1 - rest.length) = 10 ^ (k + 1) := by
        rw [← pow_add, Nat.add_sub_cancel' fits]
      rw [next, ih k _ (fun d member => all d (List.mem_cons_of_mem c member)) fits]
      simp only [List.map_cons, bigEndianValue_cons, List.length_map, List.length_cons,
        Prod.mk.injEq, and_true, show k + 1 + 1 - (rest.length + 1) = k + 1 - rest.length by omega]
      push_cast
      rw [← powers]
      ring

theorem ParseMoneyLoop_point (strWhole : List UInt8) {whole : List UInt8}
    (all : ∀ c ∈ whole, IsDigit c = true) (rest : List UInt8) :
    ParseMoneyLoop strWhole (whole ++ 46 :: rest) =
      some (strWhole ++ whole, (ParseFraction 0 (COIN.toInt / 10) rest).1,
        (ParseFraction 0 (COIN.toInt / 10) rest).2) := by
  induction whole generalizing strWhole with
  | nil => simp [ParseMoneyLoop]
  | cons c more ih =>
    have digit := all c List.mem_cons_self
    have notPoint : c ≠ 46 := by
      rintro rfl
      simp [IsDigit] at digit
    rw [List.cons_append, ParseMoneyLoop.eq_2, if_neg (by simpa using notPoint),
      if_neg (by simp [IsDigit_not_space digit]), if_neg (by simp [digit]),
      ih (strWhole ++ [c]) (fun d member => all d (List.mem_cons_of_mem c member))]
    simp

/-- `ParseMoney` of whole digits, a point and at most six digits of units. -/
theorem ParseMoney_point {whole units : List UInt8}
    (wholeDigits : ∀ c ∈ whole, IsDigit c = true) (unitsDigits : ∀ c ∈ units, IsDigit c = true)
    (wholeShort : whole.length ≤ 10) (unitsShort : units.length ≤ 6)
    (inRange : bigEndianValue 10 (whole.map digitValue) * 1000000 +
      bigEndianValue 10 (units.map digitValue) * 10 ^ (6 - units.length) ≤ 21000000000000) :
    ParseMoney (whole ++ 46 :: units) =
      some (Int64.ofInt (bigEndianValue 10 (whole.map digitValue) * 1000000 +
        bigEndianValue 10 (units.map digitValue) * 10 ^ (6 - units.length) : Nat)) := by
  have plain : ∀ c ∈ whole ++ 46 :: units, c ≠ 0 ∧ TRIM_PATTERN.contains c = false := by
    simp only [List.mem_append, List.mem_cons]
    rintro c (member | rfl | member)
    · have digit := wholeDigits c member
      exact ⟨by rintro rfl; simp [IsDigit] at digit, IsDigit_not_trimmed digit⟩
    · exact ⟨by decide, by decide⟩
    · have digit := unitsDigits c member
      exact ⟨by rintro rfl; simp [IsDigit] at digit, IsDigit_not_trimmed digit⟩
  have noNUL : ContainsNoNUL (whole ++ 46 :: units) = true :=
    List.all_eq_true.mpr fun c member => by simpa using (plain c member).1
  have kept : TrimString (whole ++ 46 :: units) TRIM_PATTERN = whole ++ 46 :: units :=
    TrimStringView_eq_self (fun c first => (plain c (List.mem_of_mem_head? first)).2)
      (fun c last => (plain c (List.mem_of_getLast? last)).2)
  have loop := ParseMoneyLoop_point [] wholeDigits units
  rw [show COIN.toInt / 10 = 10 ^ 5 from rfl, ParseFraction_digits 5 0 unitsDigits unitsShort] at loop
  have nUnits : bigEndianValue 10 (units.map digitValue) * 10 ^ (6 - units.length) < 1000000 := by
    have powers : 10 ^ units.length * 10 ^ (6 - units.length) = 1000000 := by
      rw [← pow_add, Nat.add_sub_cancel' unitsShort]
      norm_num
    rw [← powers]
    exact Nat.mul_lt_mul_of_pos_right (digits_value_lt unitsDigits) (by positivity)
  have nWhole := LocaleIndependentAtoi_digits wholeDigits (by omega)
  have nonemptyStr : (whole ++ 46 :: units).isEmpty = false := by simp
  have units_cast : (bigEndianValue 10 (units.map digitValue) : Int) * 10 ^ (5 + 1 - units.length) =
      ((bigEndianValue 10 (units.map digitValue) * 10 ^ (6 - units.length) : Nat) : Int) := by
    push_cast
    rfl
  simp only [ParseMoney, noNUL, kept, loop, Bool.not_true, Bool.false_eq_true, if_false, nonemptyStr,
    List.isEmpty_nil, List.nil_append, zero_add, nWhole, COIN_toInt, units_cast]
  generalize bigEndianValue 10 (units.map digitValue) * 10 ^ (6 - units.length) = unitsValue
    at inRange nUnits ⊢
  generalize bigEndianValue 10 (whole.map digitValue) = coinsValue at inRange ⊢
  rw [if_neg (show ¬whole.length > 10 by omega)]
  split
  · rename_i outside
    rcases Bool.or_eq_true_iff.mp outside with negative | large
    · have := of_decide_eq_true negative
      omega
    · have := of_decide_eq_true large
      omega
  split
  · rename_i outside
    simp only [MoneyRangeAmount, show MAX_MONEY.toInt = 21000000000000 from rfl, Bool.not_eq_true',
      Bool.and_eq_false_iff, decide_eq_false_iff_not] at outside
    omega
  push_cast
  rfl

/-- A printed magnitude of at most `MAX_MONEY` reads back. -/
theorem ParseMoney_formatCoins {a : Nat} (inRange : a ≤ 21000000000000) :
    ParseMoney (formatCoins a) = some (Int64.ofInt a) := by
  obtain ⟨m, bound, printed, trimmed⟩ := formatCoins_eq a
  obtain ⟨six, sixDigits, sixValue⟩ :=
    formatIntZeroPadded_six (r := a % 1000000) (Nat.mod_lt _ (by norm_num))
  generalize formatIntZeroPadded 6 (a % 1000000 : Nat) = units at six sixDigits sixValue trimmed printed
  -- the units the loop kept, and the zeros it trimmed, spell the remainder
  have keptLength : (units.take (6 - m)).length = 6 - m := by
    rw [List.length_take, six]
    omega
  have kept : bigEndianValue 10 ((units.take (6 - m)).map digitValue) * 10 ^ (6 - (6 - m)) =
      a % 1000000 := by
    have whole : units = units.take (6 - m) ++ List.replicate m 48 := by
      rw [← trimmed, List.take_append_drop]
    rw [whole, List.map_append, bigEndianValue_append, zeros_value, List.length_map,
      List.length_replicate, Nat.add_zero] at sixValue
    rw [show 6 - (6 - m) = m by omega, sixValue]
  have coins : a / 1000000 < 10 ^ 8 := by omega
  rw [printed, ParseMoney_point (decimalDigits_digits _)
    (fun c member => sixDigits c (List.mem_of_mem_take member))
    (le_trans (decimalDigits_length_le coins (by norm_num)) (by norm_num)) (by omega)
    (by rw [decimalDigits_value, keptLength, kept]; omega), decimalDigits_value, keptLength, kept]
  congr 2
  omega

/-- `FormatMoney` is the sign, then the printed magnitude. -/
theorem FormatMoney_eq_formatCoins (n : Int64) :
    FormatMoney n = (if n < 0 then [45] else []) ++ formatCoins n.toInt.natAbs := by
  have parts : ∀ N : Int,
      (if N < 0 then -(N.tdiv 1000000) else N.tdiv 1000000) = ((N.natAbs / 1000000 : Nat) : Int) ∧
        (if N < 0 then -(N.tmod 1000000) else N.tmod 1000000) = ((N.natAbs % 1000000 : Nat) : Int) := by
    intro N
    split
    · obtain ⟨a, rfl⟩ : ∃ a : Nat, N = -(a : Int) := ⟨N.natAbs, by omega⟩
      rw [Int.neg_tdiv, Int.neg_tmod, neg_neg, neg_neg, Int.natAbs_neg, Int.natAbs_natCast]
      exact ⟨rfl, rfl⟩
    · obtain ⟨a, rfl⟩ : ∃ a : Nat, N = (a : Int) := ⟨N.natAbs, by omega⟩
      exact ⟨rfl, rfl⟩
  have negative : (n < 0) = (n.toInt < 0) := propext Int64.lt_iff_toInt_lt
  have unsigned : ∀ a : Nat, formatInt (a : Int) = decimalDigits a := by
    intro a
    simp [formatInt]
  obtain ⟨quotient, remainder⟩ := parts n.toInt
  simp only [FormatMoney, COIN_toInt, negative, quotient, remainder, unsigned]
  unfold formatCoins
  split <;> rfl

/-! ## Round trips -/

theorem MAX_MONEY_toInt : MAX_MONEY.toInt = 21000000000000 := rfl

theorem ParseMoney_FormatMoney {n : Int64} (nonneg : 0 ≤ n) (bounded : n ≤ MAX_MONEY) :
    ParseMoney (FormatMoney n) = some n := by
  rw [Int64.le_iff_toInt_le, Int64.toInt_zero] at nonneg
  rw [Int64.le_iff_toInt_le, MAX_MONEY_toInt] at bounded
  have notNegative : ¬n < 0 := by
    rw [Int64.lt_iff_toInt_lt, Int64.toInt_zero]
    omega
  rw [FormatMoney_eq_formatCoins, if_neg notNegative, List.nil_append,
    ParseMoney_formatCoins (by omega), Int.natAbs_of_nonneg nonneg, Int64.ofInt_toInt]

theorem FormatMoney_neg {n : Int64} (bounded : -MAX_MONEY ≤ n) (negative : n < 0) :
    FormatMoney n = 45 :: FormatMoney (-n) := by
  have lower : -21000000000000 ≤ n.toInt := by
    rw [Int64.le_iff_toInt_le, show (-MAX_MONEY).toInt = -21000000000000 from rfl] at bounded
    exact bounded
  have below : n.toInt < 0 := by
    rw [Int64.lt_iff_toInt_lt, Int64.toInt_zero] at negative
    exact negative
  have negated : (-n).toInt = -n.toInt := by
    rw [Int64.toInt_neg]
    exact Int.bmod_eq_of_le (by push_cast; omega) (by push_cast; omega)
  have positive : ¬-n < 0 := by
    rw [Int64.lt_iff_toInt_lt, negated, Int64.toInt_zero]
    omega
  rw [FormatMoney_eq_formatCoins, FormatMoney_eq_formatCoins, if_pos negative, if_neg positive,
    negated, Int.natAbs_neg]
  rfl

/-- Every printed amount has two to six digits after its point. -/
theorem FormatMoney_fraction (n : Int64) :
    ∃ whole units, FormatMoney n = whole ++ 46 :: units ∧ 2 ≤ units.length ∧ units.length ≤ 6 ∧
      ∀ c ∈ units, IsDigit c = true := by
  obtain ⟨m, bound, printed, -⟩ := formatCoins_eq n.toInt.natAbs
  obtain ⟨six, sixDigits, -⟩ :=
    formatIntZeroPadded_six (r := n.toInt.natAbs % 1000000) (Nat.mod_lt _ (by norm_num))
  have kept : ((formatIntZeroPadded 6 (n.toInt.natAbs % 1000000 : Nat)).take (6 - m)).length = 6 - m := by
    rw [List.length_take, six]
    omega
  refine ⟨(if n < 0 then [45] else []) ++ decimalDigits (n.toInt.natAbs / 1000000),
    (formatIntZeroPadded 6 (n.toInt.natAbs % 1000000 : Nat)).take (6 - m), ?_, by rw [kept]; omega,
    by rw [kept]; omega, fun c member => sixDigits c (List.mem_of_mem_take member)⟩
  rw [FormatMoney_eq_formatCoins, printed, List.append_assoc]

theorem MoneyRange_ofInt {value : Int} (inRange : MoneyRangeAmount value = true) :
    MoneyRange (Int64.ofInt value) = true := by
  have bounds : 0 ≤ value ∧ value ≤ 21000000000000 := by
    simp only [MoneyRangeAmount, Bool.and_eq_true] at inRange
    exact ⟨of_decide_eq_true inRange.1, MAX_MONEY_toInt ▸ of_decide_eq_true inRange.2⟩
  rw [← MoneyRangeAmount_toInt, Int64.toInt_ofInt,
    Int.bmod_eq_of_le (by unfold Int64.size; push_cast; omega) (by unfold Int64.size; push_cast; omega)]
  exact inRange

/-- What `ParseMoney` returns lies in `MoneyRange`: the last of its checks. -/
theorem ParseMoney_range {str : List UInt8} {amount : Int64} (parsed : ParseMoney str = some amount) :
    MoneyRange amount = true := by
  unfold ParseMoney at parsed
  dsimp only at parsed
  -- every check but the last returns `none`
  split at parsed
  · cases parsed
  split at parsed
  · cases parsed
  split at parsed
  · cases parsed
  split at parsed
  · cases parsed
  split at parsed
  · cases parsed
  split at parsed
  · cases parsed
  split at parsed
  · cases parsed
  · rename_i inRange
    cases parsed
    exact MoneyRange_ofInt (by simpa using inRange)

theorem FormatMoney_ParseMoney_round_trips :
    (∀ n : Int64, 0 ≤ n → n ≤ MAX_MONEY → ParseMoney (FormatMoney n) = some n) ∧
      (∀ n : Int64, -MAX_MONEY ≤ n → n < 0 → FormatMoney n = 45 :: FormatMoney (-n)) ∧
      ∀ str amount, ParseMoney str = some amount →
        ParseMoney (FormatMoney amount) = some amount ∧
          ∃ whole units, FormatMoney amount = whole ++ 46 :: units ∧ 2 ≤ units.length ∧
            units.length ≤ 6 ∧ ∀ c ∈ units, IsDigit c = true := by
  refine ⟨fun n => ParseMoney_FormatMoney, fun n => FormatMoney_neg, fun str amount parsed => ?_⟩
  have inRange := ParseMoney_range parsed
  simp only [MoneyRange, Bool.and_eq_true, decide_eq_true_eq] at inRange
  exact ⟨ParseMoney_FormatMoney inRange.1 inRange.2, FormatMoney_fraction amount⟩

end Peercoin.Util
