import Mathlib
import PeercoinFormal.Util.StrEncodings

/-!
# bech32.cpp: Bech32 and Bech32m strings

A Bech32 string is a human-readable part (the hrp), the separator `1`, and
data characters from a set of 32, of which the last six are a checksum: the
remainder of a polynomial over GF(32), which `PolyMod` computes one symbol
at a time.  Bech32 and Bech32m differ only in the constant that the
remainder of a valid string equals.

A step of `PolyMod` is linear over xor in its state (`PolyModStep_eq`), and
on a state below `2 ^ 25` it only shifts the symbol in
(`PolyModStep_small`).  So the remainder of a string that ends in six
symbols is the remainder with six zeros there, xor the six symbols read as
one number (`PolyMod_append_checksum`).  `CreateChecksum`'s six symbols are
therefore the only ones that verify.  `Decode` reads back what `Encode`
wrote, and `Encode` writes back, in lower case, what `Decode` read.
-/

set_option autoImplicit false

namespace Peercoin.Bech32

open Radix Util

/-- `bech32::Encoding`; `INVALID` is `none`. -/
inductive Encoding
  | BECH32
  | BECH32M
  deriving DecidableEq, Repr

/-- `CHARSET`, "qpzry9x8gf2tvdw0s3jn54khce6mua7l". -/
def CHARSET : List UInt8 :=
  [0x71, 0x70, 0x7a, 0x72, 0x79, 0x39, 0x78, 0x38, 0x67, 0x66, 0x32, 0x74, 0x76, 0x64, 0x77, 0x30,
   0x73, 0x33, 0x6a, 0x6e, 0x35, 0x34, 0x6b, 0x68, 0x63, 0x65, 0x36, 0x6d, 0x75, 0x61, 0x37, 0x6c]

/-- `CHARSET_REV`: the value of each character below 128, `-1` for one
outside the set. -/
def CHARSET_REV : List Int := [
  -1, -1, -1, -1, -1, -1, -1, -1, -1, -1, -1, -1, -1, -1, -1, -1,
  -1, -1, -1, -1, -1, -1, -1, -1, -1, -1, -1, -1, -1, -1, -1, -1,
  -1, -1, -1, -1, -1, -1, -1, -1, -1, -1, -1, -1, -1, -1, -1, -1,
  15, -1, 10, 17, 21, 20, 26, 30,  7,  5, -1, -1, -1, -1, -1, -1,
  -1, 29, -1, 24, 13, 25,  9,  8, 23, -1, 18, 22, 31, 27, 19, -1,
   1,  0,  3, 16, 11, 28, 12, 14,  6,  4,  2, -1, -1, -1, -1, -1,
  -1, 29, -1, 24, 13, 25,  9,  8, 23, -1, 18, 22, 31, 27, 19, -1,
   1,  0,  3, 16, 11, 28, 12, 14,  6,  4,  2, -1, -1, -1, -1, -1]

/-- `EncodingConstant`. -/
def EncodingConstant : Encoding → Nat
  | .BECH32 => 1
  | .BECH32M => 0x2bc830a3

/-- One pass of the loop of `PolyMod`: multiply the remainder by `x`, add
`v_i`, and reduce by the generator.  The state stays below `2 ^ 30`
(`PolyModStep_lt`), so neither the source's `uint32_t c` nor its
`uint8_t c0` wraps. -/
def PolyModStep (c : Nat) (v_i : UInt8) : Nat :=
  let c0 := c >>> 25
  let c := ((c &&& 0x1ffffff) <<< 5) ^^^ v_i.toNat
  let c := if c0 &&& 1 ≠ 0 then c ^^^ 0x3b6a57b2 else c
  let c := if c0 &&& 2 ≠ 0 then c ^^^ 0x26508e6d else c
  let c := if c0 &&& 4 ≠ 0 then c ^^^ 0x1ea119fa else c
  let c := if c0 &&& 8 ≠ 0 then c ^^^ 0x3d4233dd else c
  if c0 &&& 16 ≠ 0 then c ^^^ 0x2a1462b3 else c

def PolyMod (v : List UInt8) : Nat := v.foldl PolyModStep 1

/-- `ExpandHRP`: the top three bits of each character, a zero, then the low
five bits of each. -/
def ExpandHRP (hrp : List UInt8) : List UInt8 :=
  hrp.map (fun c : UInt8 => c >>> 5) ++ [0] ++ hrp.map (fun c : UInt8 => c &&& 0x1f)

def VerifyChecksum (hrp values : List UInt8) : Option Encoding :=
  let check := PolyMod (ExpandHRP hrp ++ values)
  if check = EncodingConstant .BECH32 then some .BECH32
  else if check = EncodingConstant .BECH32M then some .BECH32M
  else none

def CreateChecksum (encoding : Encoding) (hrp values : List UInt8) : List UInt8 :=
  let mod := PolyMod (ExpandHRP hrp ++ values ++ List.replicate 6 0) ^^^ EncodingConstant encoding
  (List.range 6).map fun i => ((mod >>> (5 * (5 - i))) &&& 31).toUInt8

def LowerCase (c : UInt8) : UInt8 := if c ≥ 65 ∧ c ≤ 90 then c - 65 + 97 else c

/-- The loop of `CheckCharacters` from index `i` on: the indices it pushes
onto `errors`. -/
def CheckCharactersLoop : (i : Nat) → (lower upper : Bool) → List UInt8 → List Nat
  | _, _, _, [] => []
  | i, lower, upper, c :: str =>
    if c ≥ 97 ∧ c ≤ 122 then
      if upper then i :: CheckCharactersLoop (i + 1) lower upper str
      else CheckCharactersLoop (i + 1) true upper str
    else if c ≥ 65 ∧ c ≤ 90 then
      if lower then i :: CheckCharactersLoop (i + 1) lower upper str
      else CheckCharactersLoop (i + 1) lower true str
    else if c < 33 ∨ c > 126 then i :: CheckCharactersLoop (i + 1) lower upper str
    else CheckCharactersLoop (i + 1) lower upper str

def CheckCharacters (str : List UInt8) : Bool := (CheckCharactersLoop 0 false false str).isEmpty

/-- `str.rfind(c)`: the index of the last `c`. -/
def rfind (c : UInt8) : List UInt8 → Option Nat
  | [] => none
  | x :: str =>
    match rfind c str with
    | some pos => some (pos + 1)
    | none => if x = c then some 0 else none

/-- `Encode`; `none` is its assertion, that the hrp has no upper-case
letter, failing. -/
def Encode (encoding : Encoding) (hrp values : List UInt8) : Option (List UInt8) :=
  if hrp.any (fun c => decide (65 ≤ c ∧ c ≤ 90)) then none
  else
    let checksum := CreateChecksum encoding hrp values
    let combined := values ++ checksum
    some (hrp ++ 49 :: combined.map fun c => CHARSET.getD c.toNat 0)

/-- `bech32::DecodeResult` of a string that decodes. -/
structure DecodeResult where
  encoding : Encoding
  hrp : List UInt8
  data : List UInt8
  deriving DecidableEq, Repr

/-- `CHARSET_REV[c]` of one data character, `none` for `-1`.  `Decode`
reads it only after `CheckCharacters` has kept every character below 127,
inside the table. -/
def charValue (c : UInt8) : Option UInt8 :=
  let rev := CHARSET_REV.getD c.toNat (-1)
  if rev = -1 then none else some rev.toNat.toUInt8

/-- `Decode`; `none` is its empty result. -/
def Decode (str : List UInt8) : Option DecodeResult :=
  if !CheckCharacters str then none
  else
    match rfind 49 str with
    | none => none
    | some pos =>
      if str.length > 90 ∨ pos = 0 ∨ pos + 7 > str.length then none
      else
        match (str.drop (pos + 1)).mapM charValue with
        | none => none
        | some values =>
          let hrp := (str.take pos).map LowerCase
          match VerifyChecksum hrp values with
          | none => none
          | some result => some ⟨result, hrp, values.take (values.length - 6)⟩

/-! ## Characters -/

/-- A printable character that is not an upper-case letter. -/
def LowerPrintable (c : UInt8) : Bool := decide (33 ≤ c ∧ c ≤ 126) && !decide (65 ≤ c ∧ c ≤ 90)

theorem LowerCase_eq_ToLower : LowerCase = ToLower := rfl

theorem toNat_toUInt8 (c : UInt8) : c.toNat.toUInt8 = c := UInt8.ofNat_toNat

theorem charValue_CHARSET : ∀ v < 32, charValue (CHARSET.getD v 0) = some v.toUInt8 := by
  decide

theorem CHARSET_lower : ∀ v < 32, LowerPrintable (CHARSET.getD v 0) = true ∧ CHARSET.getD v 0 ≠ 49 := by
  decide

theorem charValue_CHARSET_REV : ∀ n < 128,
    (charValue n.toUInt8).all (fun v => decide (v.toNat < 32) && CHARSET.getD v.toNat 0 == LowerCase n.toUInt8) := by
  decide

/-- A data character's value is a symbol, and the character is that
symbol's in lower case. -/
theorem charValue_eq_some {c v : UInt8} (found : charValue c = some v) :
    v.toNat < 32 ∧ CHARSET.getD v.toNat 0 = LowerCase c := by
  by_cases inTable : c.toNat < 128
  · have read := charValue_CHARSET_REV c.toNat inTable
    rw [toNat_toUInt8, found] at read
    simpa using read
  · -- beyond the table the source reads nothing; the model reads `-1`
    have outside : CHARSET_REV[c.toNat]? = none := List.getElem?_eq_none (by simp [CHARSET_REV]; omega)
    simp [charValue, outside] at found

theorem LowerCase_of_LowerPrintable {c : UInt8} (lower : LowerPrintable c = true) : LowerCase c = c := by
  simp only [LowerPrintable, Bool.and_eq_true, decide_eq_true_eq, Bool.not_eq_true',
    decide_eq_false_iff_not] at lower
  simp [LowerCase, ge_iff_le, lower.2]

set_option maxRecDepth 2000 in
theorem LowerCase_not_upper (c : UInt8) : ¬(65 ≤ LowerCase c ∧ LowerCase c ≤ 90) := by
  have table : ∀ n < 256, ¬(65 ≤ LowerCase n.toUInt8 ∧ LowerCase n.toUInt8 ≤ 90) := by decide
  have read := table c.toNat c.toNat_lt
  rwa [toNat_toUInt8] at read

/-- A string of printable characters none of them upper case passes every
check of `CheckCharacters`. -/
theorem CheckCharactersLoop_lower : ∀ (str : List UInt8) (i : Nat) (lower : Bool),
    (∀ c ∈ str, LowerPrintable c = true) → CheckCharactersLoop i lower false str = [] := by
  intro str
  induction str with
  | nil =>
      intro i lower _
      rfl
  | cons c rest ih =>
      intro i lower printable
      have here := printable c List.mem_cons_self
      have later : ∀ d ∈ rest, LowerPrintable d = true :=
        fun d member => printable d (List.mem_cons_of_mem _ member)
      simp only [LowerPrintable, Bool.and_eq_true, decide_eq_true_eq, Bool.not_eq_true',
        decide_eq_false_iff_not] at here
      obtain ⟨⟨low, high⟩, notUpper⟩ := here
      have inRange : ¬(c < 33 ∨ c > 126) := by
        simp only [UInt8.le_iff_toNat_le, UInt8.lt_iff_toNat_lt, UInt8.reduceToNat] at low high ⊢
        omega
      unfold CheckCharactersLoop
      -- a lower-case letter only sets `lower`; every other character is left alone
      by_cases letter : c ≥ 97 ∧ c ≤ 122
      · simp only [letter, and_self, if_true, Bool.false_eq_true, if_false]
        exact ih (i + 1) true later
      · simp only [letter, if_false, ge_iff_le, notUpper, inRange]
        exact ih (i + 1) lower later

/-! ## The last separator -/

theorem rfind_eq_none {c : UInt8} : ∀ {str : List UInt8}, c ∉ str → rfind c str = none
  | [], _ => rfl
  | x :: str, absent => by
    rw [List.mem_cons, not_or] at absent
    simp only [rfind, rfind_eq_none absent.2, if_neg (Ne.symm absent.1)]

theorem rfind_append {c : UInt8} (front : List UInt8) {rest : List UInt8} (absent : c ∉ rest) :
    rfind c (front ++ c :: rest) = some front.length := by
  induction front with
  | nil => simp [rfind, rfind_eq_none absent]
  | cons x front ih => simp [rfind, ih]

/-- The string splits at the last separator. -/
theorem rfind_spec {c : UInt8} : ∀ {str : List UInt8} {pos : Nat}, rfind c str = some pos →
    str = str.take pos ++ c :: str.drop (pos + 1)
  | [], _, found => by cases found
  | x :: str, pos, found => by
    unfold rfind at found
    split at found
    · rename_i later laterFound
      cases found
      rw [List.take_succ_cons, List.drop_succ_cons, List.cons_append, ← rfind_spec laterFound]
    · split at found
      · rename_i same
        cases found
        simp [same]
      · cases found

/-! ## Data characters -/

theorem mapM_charValue_CHARSET : ∀ symbols : List UInt8, (∀ v ∈ symbols, v.toNat < 32) →
    (symbols.map fun v => CHARSET.getD v.toNat 0).mapM charValue = some symbols := by
  intro symbols
  induction symbols with
  | nil => intro _; rfl
  | cons v rest ih =>
      intro small
      have value : charValue (CHARSET.getD v.toNat 0) = some v := by
        rw [charValue_CHARSET v.toNat (small v List.mem_cons_self), toNat_toUInt8]
      rw [List.map_cons, List.mapM_cons, value, ih (fun w member => small w (List.mem_cons_of_mem _ member))]
      rfl

/-- The data characters `Decode` reads are symbols, and in lower case they
are those symbols' characters. -/
theorem mapM_charValue_eq_some : ∀ {str values : List UInt8}, str.mapM charValue = some values →
    (∀ v ∈ values, v.toNat < 32) ∧ values.map (fun v => CHARSET.getD v.toNat 0) = str.map LowerCase
  | [], values, read => by
    cases read
    simp
  | c :: str, values, read => by
    rw [List.mapM_cons] at read
    obtain ⟨v, found, read⟩ := Option.bind_eq_some_iff.mp read
    obtain ⟨rest, readRest, done⟩ := Option.bind_eq_some_iff.mp read
    cases done
    obtain ⟨symbol, character⟩ := charValue_eq_some found
    obtain ⟨restSmall, restCharacters⟩ := mapM_charValue_eq_some readRest
    refine ⟨?_, by rw [List.map_cons, List.map_cons, character, restCharacters]⟩
    intro w member
    rcases List.mem_cons.mp member with rfl | later
    · exact symbol
    · exact restSmall w later

/-! ## The remainder -/

/-- The multiple of the generator that `PolyModStep` xors in for bit `bit`
of the top bits `c0`. -/
def generatorTerm (c0 bit gen : Nat) : Nat := if c0 &&& bit ≠ 0 then gen else 0

/-- All that `PolyModStep` xors in for the top bits `c0`. -/
def reduction (c0 : Nat) : Nat :=
  generatorTerm c0 1 0x3b6a57b2 ^^^ generatorTerm c0 2 0x26508e6d ^^^
    generatorTerm c0 4 0x1ea119fa ^^^ generatorTerm c0 8 0x3d4233dd ^^^
    generatorTerm c0 16 0x2a1462b3

theorem ite_xor (p : Prop) [Decidable p] (x g : Nat) :
    (if p then x ^^^ g else x) = x ^^^ if p then g else 0 := by
  split <;> simp

theorem PolyModStep_eq (c : Nat) (v_i : UInt8) :
    PolyModStep c v_i = ((c &&& 0x1ffffff) <<< 5) ^^^ v_i.toNat ^^^ reduction (c >>> 25) := by
  simp only [PolyModStep, reduction, generatorTerm, ite_xor]
  ac_rfl

theorem generatorTerm_xor (bit i : Nat) (power : bit = 2 ^ i) (a b gen : Nat) :
    generatorTerm (a ^^^ b) bit gen = generatorTerm a bit gen ^^^ generatorTerm b bit gen := by
  subst power
  unfold generatorTerm
  rw [Nat.and_two_pow, Nat.and_two_pow, Nat.and_two_pow, Nat.testBit_xor]
  cases a.testBit i <;> cases b.testBit i <;> simp

theorem reduction_xor (a b : Nat) : reduction (a ^^^ b) = reduction a ^^^ reduction b := by
  unfold reduction
  rw [generatorTerm_xor 1 0 rfl, generatorTerm_xor 2 1 rfl, generatorTerm_xor 4 2 rfl,
    generatorTerm_xor 8 3 rfl, generatorTerm_xor 16 4 rfl]
  ac_rfl

theorem reduction_zero : reduction 0 = 0 := rfl

theorem reduction_lt (c0 : Nat) : reduction c0 < 2 ^ 30 := by
  have term : ∀ bit gen, gen < 2 ^ 30 → generatorTerm c0 bit gen < 2 ^ 30 := by
    intro bit gen small
    unfold generatorTerm
    split
    · exact small
    · exact Nat.two_pow_pos 30
  unfold reduction
  repeat' apply Nat.xor_lt_two_pow
  all_goals exact term _ _ (by decide)

/-- A step is linear over xor in the state, for the zero symbol. -/
theorem PolyModStep_zero_xor (a b : Nat) :
    PolyModStep (a ^^^ b) 0 = PolyModStep a 0 ^^^ PolyModStep b 0 := by
  rw [PolyModStep_eq, PolyModStep_eq, PolyModStep_eq, Nat.and_xor_distrib_right,
    Nat.shiftLeft_xor_distrib, Nat.shiftRight_xor_distrib, reduction_xor]
  simp only [UInt8.toNat_zero, Nat.xor_zero]
  ac_rfl

/-- The symbol is xored in after the step of the state. -/
theorem PolyModStep_input (c : Nat) (v_i : UInt8) : PolyModStep c v_i = PolyModStep c 0 ^^^ v_i.toNat := by
  rw [PolyModStep_eq, PolyModStep_eq]
  simp only [UInt8.toNat_zero, Nat.xor_zero]
  ac_rfl

theorem PolyModStep_zero (v_i : UInt8) : PolyModStep 0 v_i = v_i.toNat := by
  rw [PolyModStep_eq]
  simp [reduction_zero]

/-- Xor with a number below `2 ^ k` adds it to a multiple of `2 ^ k`. -/
theorem mul_two_pow_xor (c : Nat) {v k : Nat} (small : v < 2 ^ k) : c * 2 ^ k ^^^ v = c * 2 ^ k + v := by
  apply Nat.eq_of_testBit_eq
  intro i
  rw [Nat.testBit_xor, Nat.mul_comm, Nat.testBit_two_pow_mul_add _ small, Nat.testBit_two_pow_mul]
  by_cases low : i < k
  · have notHigh : ¬ k ≤ i := by omega
    simp [low, notHigh]
  · have high : v.testBit i = false :=
      Nat.testBit_lt_two_pow (lt_of_lt_of_le small (Nat.pow_le_pow_right (by omega) (by omega)))
    have atLeast : k ≤ i := by omega
    simp [low, high, atLeast]

/-- On a state below `2 ^ 25` no top bit is set: a step shifts the symbol in. -/
theorem PolyModStep_small {c : Nat} (small : c < 2 ^ 25) {v_i : UInt8} (symbol : v_i.toNat < 32) :
    PolyModStep c v_i = c * 32 + v_i.toNat := by
  have high : c >>> 25 = 0 := by
    rw [Nat.shiftRight_eq_div_pow]
    exact Nat.div_eq_of_lt small
  have low : c &&& 0x1ffffff = c := by
    rw [show (0x1ffffff : Nat) = 2 ^ 25 - 1 from rfl, Nat.and_two_pow_sub_one_eq_mod,
      Nat.mod_eq_of_lt small]
  rw [PolyModStep_eq, high, low, reduction_zero, Nat.xor_zero, Nat.shiftLeft_eq]
  exact mul_two_pow_xor c symbol

theorem PolyModStep_lt (c : Nat) (v_i : UInt8) : PolyModStep c v_i < 2 ^ 30 := by
  have masked : c &&& 0x1ffffff ≤ 0x1ffffff := Nat.and_le_right
  have shifted : (c &&& 0x1ffffff) <<< 5 < 2 ^ 30 := by
    rw [Nat.shiftLeft_eq]
    omega
  have symbol : v_i.toNat < 2 ^ 30 := lt_of_lt_of_le v_i.toNat_lt (by decide)
  rw [PolyModStep_eq]
  exact Nat.xor_lt_two_pow (Nat.xor_lt_two_pow shifted symbol) (reduction_lt _)

theorem PolyMod_lt (v : List UInt8) : PolyMod v < 2 ^ 30 := by
  have run : ∀ (v : List UInt8) (c : Nat), c < 2 ^ 30 → v.foldl PolyModStep c < 2 ^ 30 := by
    intro v
    induction v with
    | nil => exact fun _ small => small
    | cons x rest ih => exact fun c _ => ih _ (PolyModStep_lt c x)
  exact run v 1 (by decide)

theorem foldl_zeros_xor (n : Nat) : ∀ a b : Nat,
    (List.replicate n (0 : UInt8)).foldl PolyModStep (a ^^^ b) =
      (List.replicate n 0).foldl PolyModStep a ^^^ (List.replicate n 0).foldl PolyModStep b := by
  induction n with
  | zero => intro a b; rfl
  | succ n ih =>
      intro a b
      simp only [List.replicate_succ, List.foldl_cons]
      rw [PolyModStep_zero_xor, ih]

/-- The fold from a state is the fold of zeros from that state xor the fold
of the symbols from zero. -/
theorem foldl_split : ∀ (v : List UInt8) (c : Nat),
    v.foldl PolyModStep c =
      (List.replicate v.length 0).foldl PolyModStep c ^^^ v.foldl PolyModStep 0 := by
  intro v
  induction v with
  | nil => intro c; simp
  | cons x rest ih =>
      intro c
      rw [List.foldl_cons, PolyModStep_input, ih, foldl_zeros_xor, List.length_cons,
        List.replicate_succ, List.foldl_cons, List.foldl_cons, PolyModStep_zero, ih x.toNat,
        Nat.xor_assoc]

/-- Symbols below 32 are shifted in one after another while the state stays
below `2 ^ 30`. -/
theorem foldl_of_lt : ∀ (v : List UInt8) (c : Nat), (∀ x ∈ v, x.toNat < 32) →
    c * 32 ^ v.length + bigEndianValue 32 (v.map UInt8.toNat) < 2 ^ 30 →
    v.foldl PolyModStep c = c * 32 ^ v.length + bigEndianValue 32 (v.map UInt8.toNat) := by
  intro v
  induction v with
  | nil =>
      intro c _ _
      simp [bigEndianValue]
  | cons x rest ih =>
      intro c small bound
      have symbol : x.toNat < 32 := small x List.mem_cons_self
      have spread : (c * 32 + x.toNat) * 32 ^ rest.length + bigEndianValue 32 (rest.map UInt8.toNat) =
          c * 32 ^ (x :: rest).length + bigEndianValue 32 ((x :: rest).map UInt8.toNat) := by
        rw [List.map_cons, bigEndianValue_cons, List.length_map, List.length_cons, pow_succ]
        ring
      -- the state is below `2 ^ 25` while a symbol is still to come
      have stateSmall : c < 2 ^ 25 := by
        have grows : c * 32 ≤ c * 32 ^ (x :: rest).length :=
          Nat.mul_le_mul_left _ (Nat.le_self_pow (by simp) 32)
        omega
      rw [List.foldl_cons, PolyModStep_small stateSmall symbol,
        ih _ (fun y member => small y (List.mem_cons_of_mem _ member)) (spread ▸ bound), spread]

/-- The remainder of a string ending in six symbols is the remainder with
zeros in their place, xor the symbols read as a base-32 number. -/
theorem PolyMod_append_checksum (front chk : List UInt8) (small : ∀ x ∈ chk, x.toNat < 32)
    (six : chk.length = 6) :
    PolyMod (front ++ chk) =
      PolyMod (front ++ List.replicate 6 0) ^^^ bigEndianValue 32 (chk.map UInt8.toNat) := by
  have read : bigEndianValue 32 (chk.map UInt8.toNat) < 2 ^ 30 :=
    calc bigEndianValue 32 (chk.map UInt8.toNat) < 32 ^ (chk.map UInt8.toNat).length :=
          bigEndianValue_lt (by decide) (by simpa using small)
      _ = 2 ^ 30 := by rw [List.length_map, six]; rfl
  have value := foldl_of_lt chk 0 small (by rw [Nat.zero_mul, Nat.zero_add]; exact read)
  unfold PolyMod
  rw [List.foldl_append, List.foldl_append, foldl_split chk, six, value, Nat.zero_mul, Nat.zero_add]

/-! ## The checksum -/

theorem CreateChecksum_length (encoding : Encoding) (hrp values : List UInt8) :
    (CreateChecksum encoding hrp values).length = 6 := by
  simp [CreateChecksum]

theorem CreateChecksum_small {encoding : Encoding} {hrp values : List UInt8} :
    ∀ x ∈ CreateChecksum encoding hrp values, x.toNat < 32 := by
  intro x member
  obtain ⟨i, -, rfl⟩ := List.mem_map.mp member
  have low : ∀ n : Nat, n &&& 31 ≤ 31 := fun n => Nat.and_le_right
  simp only [Nat.toUInt8, UInt8.toNat_ofNat']
  exact lt_of_le_of_lt (Nat.mod_le _ _) (Nat.lt_succ_of_le (low _))

/-- Six base-32 digits of a number below `2 ^ 30`, most significant first,
read back as that number. -/
theorem checksum_digits (m : Nat) (small : m < 2 ^ 30) :
    bigEndianValue 32
      (((List.range 6).map fun i => ((m >>> (5 * (5 - i))) &&& 31).toUInt8).map UInt8.toNat) = m := by
  have digit : ∀ k, ((m >>> k) &&& 31).toUInt8.toNat = m / 2 ^ k % 32 := by
    intro k
    rw [show (31 : Nat) = 2 ^ 5 - 1 from rfl, Nat.and_two_pow_sub_one_eq_mod,
      Nat.shiftRight_eq_div_pow]
    simp only [Nat.toUInt8, UInt8.toNat_ofNat']
    omega
  rw [show List.range 6 = [0, 1, 2, 3, 4, 5] from rfl]
  simp only [List.map_cons, List.map_nil, digit, bigEndianValue, List.foldl_cons, List.foldl_nil]
  omega

theorem CreateChecksum_value (encoding : Encoding) (hrp values : List UInt8) :
    bigEndianValue 32 ((CreateChecksum encoding hrp values).map UInt8.toNat) =
      PolyMod (ExpandHRP hrp ++ values ++ List.replicate 6 0) ^^^ EncodingConstant encoding := by
  apply checksum_digits
  apply Nat.xor_lt_two_pow (PolyMod_lt _)
  cases encoding <;> decide

theorem VerifyChecksum_eq_some {hrp values : List UInt8} {encoding : Encoding} :
    VerifyChecksum hrp values = some encoding ↔
      PolyMod (ExpandHRP hrp ++ values) = EncodingConstant encoding := by
  simp only [VerifyChecksum]
  cases encoding <;> split_ifs with bech32 bech32m <;> simp_all [EncodingConstant]

/-- The checksum `CreateChecksum` appends verifies, under its encoding. -/
theorem VerifyChecksum_CreateChecksum (encoding : Encoding) (hrp values : List UInt8) :
    VerifyChecksum hrp (values ++ CreateChecksum encoding hrp values) = some encoding := by
  apply VerifyChecksum_eq_some.mpr
  rw [← List.append_assoc, PolyMod_append_checksum _ _ CreateChecksum_small (CreateChecksum_length _ _ _),
    CreateChecksum_value, ← Nat.xor_assoc, Nat.xor_self, Nat.zero_xor]

/-- No six symbols but `CreateChecksum`'s verify. -/
theorem eq_CreateChecksum {encoding : Encoding} {hrp values chk : List UInt8}
    (small : ∀ x ∈ chk, x.toNat < 32) (six : chk.length = 6)
    (verified : VerifyChecksum hrp (values ++ chk) = some encoding) :
    chk = CreateChecksum encoding hrp values := by
  have check := VerifyChecksum_eq_some.mp verified
  rw [← List.append_assoc, PolyMod_append_checksum _ _ small six] at check
  have sameValue : bigEndianValue 32 (chk.map UInt8.toNat) =
      bigEndianValue 32 ((CreateChecksum encoding hrp values).map UInt8.toNat) := by
    rw [CreateChecksum_value, ← check, ← Nat.xor_assoc, Nat.xor_self, Nat.zero_xor]
  have sameDigits := bigEndianValue_inj (by decide)
    (by simp [six, CreateChecksum_length]) (by simpa using small)
    (by simpa using CreateChecksum_small) sameValue
  exact List.map_injective_iff.mpr (fun _ _ same => UInt8.toNat_inj.mp same) sameDigits

/-! ## Encoding and decoding -/

/-- `Encode` of an hrp with no upper-case letter: the hrp, the separator,
and the characters of the values and of their checksum. -/
theorem Encode_eq (encoding : Encoding) {hrp : List UInt8} (values : List UInt8)
    (noUpper : ∀ c ∈ hrp, ¬(65 ≤ c ∧ c ≤ 90)) :
    Encode encoding hrp values = some (hrp ++ 49 ::
      (values ++ CreateChecksum encoding hrp values).map fun c => CHARSET.getD c.toNat 0) := by
  have none : hrp.any (fun c => decide (65 ≤ c ∧ c ≤ 90)) = false := by
    simpa using noUpper
  simp only [Encode, none, Bool.false_eq_true, if_false]

/-- What `Encode` writes of a non-empty hrp of printable characters with no
upper-case letter, and of symbols, into at most 90 characters, `Decode`
reads back, with the encoding. -/
theorem Decode_Encode (encoding : Encoding) {hrp values : List UInt8} (named : hrp ≠ [])
    (lower : ∀ c ∈ hrp, LowerPrintable c = true) (small : ∀ v ∈ values, v.toNat < 32)
    (short : hrp.length + values.length + 7 ≤ 90) :
    ∃ str, Encode encoding hrp values = some str ∧ Decode str = some ⟨encoding, hrp, values⟩ := by
  have symbols : ∀ v ∈ values ++ CreateChecksum encoding hrp values, v.toNat < 32 := by
    intro v member
    rcases List.mem_append.mp member with inValues | inChecksum
    · exact small v inValues
    · exact CreateChecksum_small v inChecksum
  set data := (values ++ CreateChecksum encoding hrp values).map fun c => CHARSET.getD c.toNat 0
    with dataEq
  have dataLower : ∀ c ∈ data, LowerPrintable c = true ∧ c ≠ 49 := by
    intro c member
    obtain ⟨v, inSymbols, rfl⟩ := List.mem_map.mp member
    exact CHARSET_lower v.toNat (symbols v inSymbols)
  have noUpper : ∀ c ∈ hrp, ¬(65 ≤ c ∧ c ≤ 90) := by
    intro c member
    have printable := lower c member
    simp only [LowerPrintable, Bool.and_eq_true, decide_eq_true_eq, Bool.not_eq_true',
      decide_eq_false_iff_not] at printable
    exact printable.2
  refine ⟨hrp ++ 49 :: data, Encode_eq encoding values noUpper, ?_⟩
  have checked : CheckCharacters (hrp ++ 49 :: data) = true := by
    unfold CheckCharacters
    rw [CheckCharactersLoop_lower]
    · rfl
    intro c member
    rcases List.mem_append.mp member with inHrp | rest
    · exact lower c inHrp
    rcases List.mem_cons.mp rest with rfl | inData
    · decide
    · exact (dataLower c inData).1
  have found : rfind 49 (hrp ++ 49 :: data) = some hrp.length :=
    rfind_append hrp fun inData => (dataLower 49 inData).2 rfl
  have sized : ¬((hrp ++ 49 :: data).length > 90 ∨ hrp.length = 0 ∨
      hrp.length + 7 > (hrp ++ 49 :: data).length) := by
    have nonEmpty := List.length_pos_of_ne_nil named
    simp only [dataEq, List.length_append, List.length_cons, List.length_map, CreateChecksum_length]
    omega
  have lowered : hrp.map LowerCase = hrp := by
    conv => rhs; rw [← List.map_id hrp]
    exact List.map_congr_left fun c member => LowerCase_of_LowerPrintable (lower c member)
  unfold Decode
  simp only [checked, Bool.not_true, Bool.false_eq_true, if_false, found, sized, List.take_left']
  simp only [List.append_cons hrp 49 data, List.drop_left' (show (hrp ++ [49]).length = hrp.length + 1 by simp)]
  rw [dataEq, mapM_charValue_CHARSET _ symbols]
  simp only [List.take_left', lowered, VerifyChecksum_CreateChecksum, List.length_append,
    CreateChecksum_length, Nat.add_sub_cancel, List.take_left']

/-- What a string that `Decode` accepts is made of: an hrp before its last
separator, and after it data characters whose symbols, the data and then a
checksum, verify under the result's encoding. -/
theorem Decode_eq_some {str : List UInt8} {result : DecodeResult} (decoded : Decode str = some result) :
    ∃ pos values, str = str.take pos ++ 49 :: str.drop (pos + 1) ∧ pos + 7 ≤ str.length ∧
      (∀ v ∈ values, v.toNat < 32) ∧
      values.map (fun v => CHARSET.getD v.toNat 0) = (str.drop (pos + 1)).map LowerCase ∧
      VerifyChecksum ((str.take pos).map LowerCase) values = some result.encoding ∧
      result.hrp = (str.take pos).map LowerCase ∧ result.data = values.take (values.length - 6) := by
  unfold Decode at decoded
  split at decoded
  · cases decoded
  split at decoded
  · cases decoded
  rename_i pos found
  split at decoded
  · cases decoded
  rename_i sized
  split at decoded
  · cases decoded
  rename_i values read
  dsimp only at decoded
  split at decoded
  · cases decoded
  rename_i encoding verified
  cases decoded
  obtain ⟨symbols, characters⟩ := mapM_charValue_eq_some read
  exact ⟨pos, values, rfind_spec found, by omega, symbols, characters, verified, rfl, rfl⟩

theorem Decode_data_small {str : List UInt8} {result : DecodeResult} (decoded : Decode str = some result) :
    ∀ v ∈ result.data, v.toNat < 32 := by
  obtain ⟨pos, values, -, -, symbols, -, -, -, data⟩ := Decode_eq_some decoded
  intro v member
  rw [data] at member
  exact symbols v (List.mem_of_mem_take member)

/-- A string that `Decode` accepts is, in lower case, what `Encode` writes
for its result. -/
theorem Encode_Decode {str : List UInt8} {result : DecodeResult} (decoded : Decode str = some result) :
    Encode result.encoding result.hrp result.data = some (str.map LowerCase) := by
  obtain ⟨pos, values, parts, long, symbols, characters, verified, hrp, data⟩ := Decode_eq_some decoded
  have count : values.length = str.length - (pos + 1) := by
    have lengths := congrArg List.length characters
    simpa using lengths
  -- the values are the data and six checksum symbols, which are `CreateChecksum`'s
  have split : values = values.take (values.length - 6) ++ values.drop (values.length - 6) :=
    (List.take_append_drop _ _).symm
  have chk := eq_CreateChecksum (fun x member => symbols x (List.mem_of_mem_drop member))
    (by rw [List.length_drop]; omega) (split ▸ verified)
  have noUpper : ∀ c ∈ result.hrp, ¬(65 ≤ c ∧ c ≤ 90) := by
    intro c member
    rw [hrp] at member
    obtain ⟨d, -, rfl⟩ := List.mem_map.mp member
    exact LowerCase_not_upper d
  rw [Encode_eq _ _ noUpper, data, hrp, ← chk, ← split, characters]
  conv => rhs; rw [parts]
  simp [LowerCase]

end Peercoin.Bech32
