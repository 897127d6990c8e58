import Mathlib
import PeercoinFormal.Radix.Digits

/-!
# util/strencodings.h and util/string.h: characters and bit groups

A `std::string` is its bytes, `List UInt8`.  The character tests the codecs
use, and `ConvertBits`, which regroups a string of `frombits`-bit values
into `tobits`-bit values, most significant bits first, with the last group
padded with zero bits, or, without padding, refusing input whose leftover
bits are a whole input value or not all zero.

In value terms (`Radix.bigEndianValue`), the groups spell the input's bits
followed by fewer than `tobits` zero bits (`ConvertBits_pad`), or spell
exactly the input's bits, less fewer than `frombits` zero bits at the end
(`ConvertBits_nopad`).  From these the two round trips between bytes and
five-bit symbols follow.
-/

set_option autoImplicit false

namespace Peercoin.Util

open Radix

/-- `IsSpace`: space, form feed, line feed, carriage return, tab and vertical
tab. -/
def IsSpace (c : UInt8) : Bool :=
  c == 32 || c == 12 || c == 10 || c == 13 || c == 9 || c == 11

/-- `ToLower` of one character. -/
def ToLower (c : UInt8) : UInt8 :=
  if 65 ≤ c ∧ c ≤ 90 then c - 65 + 97 else c

def ContainsNoNUL (str : List UInt8) : Bool :=
  str.all (· != 0)

/-- The inner loop `while (bits >= tobits)` of `ConvertBits`: the groups of
`tobits` bits it takes from the top of the `bits` pending bits of `acc`, and
the bits left pending.  It runs at most `bits` times, the fuel it is given. -/
def ConvertBitsGroups (tobits acc : Nat) : (fuel bits : Nat) → List Nat × Nat
  | 0, bits => ([], bits)
  | fuel + 1, bits =>
    if tobits ≤ bits then
      match ConvertBitsGroups tobits acc fuel (bits - tobits) with
      | (groups, rest) => (((acc >>> (bits - tobits)) &&& (2 ^ tobits - 1)) :: groups, rest)
    else ([], bits)

/-- The outer loop of `ConvertBits` over the input: the groups passed to
`outfn`, and `acc` and `bits` at the end.  `acc` and `bits` are `size_t`,
which the mask keeps far from overflowing.  `infn` is the identity, and an
`unsigned char` is never negative, so the loop's `v < 0` exit is never taken. -/
def ConvertBitsLoop (frombits tobits : Nat) : (acc bits : Nat) → List UInt8 → List Nat × Nat × Nat
  | acc, bits, [] => ([], acc, bits)
  | acc, bits, v :: input =>
    let acc := ((acc <<< frombits) ||| v.toNat) &&& (2 ^ (frombits + tobits - 1) - 1)
    let bits := bits + frombits
    match ConvertBitsGroups tobits acc bits bits with
    | (groups, bits) =>
      match ConvertBitsLoop frombits tobits acc bits input with
      | (rest, acc, bits) => (groups ++ rest, acc, bits)

/-- `ConvertBits<frombits, tobits, pad>`: the values passed to `outfn`, or
none where it returns false. -/
def ConvertBits (frombits tobits : Nat) (pad : Bool) (input : List UInt8) : Option (List UInt8) :=
  match ConvertBitsLoop frombits tobits 0 0 input with
  | (groups, acc, bits) =>
    let maxv := 2 ^ tobits - 1
    if pad then
      some ((groups ++ if bits ≠ 0 then [(acc <<< (tobits - bits)) &&& maxv] else []).map Nat.toUInt8)
    else if frombits ≤ bits ∨ (acc <<< (tobits - bits)) &&& maxv ≠ 0 then none
    else some (groups.map Nat.toUInt8)

/-! ## Bit arithmetic -/

theorem group_eq (acc shift tobits : Nat) :
    (acc >>> shift) &&& (2 ^ tobits - 1) = acc / 2 ^ shift % 2 ^ tobits := by
  rw [Nat.shiftRight_eq_div_pow, Nat.and_two_pow_sub_one_eq_mod]

/-- The padding group: the `bits` pending bits moved to the top of a group. -/
theorem padding_eq {bits tobits : Nat} (acc : Nat) (within : bits ≤ tobits) :
    (acc <<< (tobits - bits)) &&& (2 ^ tobits - 1) = acc % 2 ^ bits * 2 ^ (tobits - bits) := by
  have split : 2 ^ tobits = 2 ^ bits * 2 ^ (tobits - bits) := by
    rw [← pow_add, Nat.add_sub_cancel' within]
  rw [Nat.shiftLeft_eq, Nat.and_two_pow_sub_one_eq_mod, split, Nat.mul_mod_mul_right]

/-- Shifting a value in under the pending bits, and masking: the pending bits
are the old ones and then the value's. -/
theorem shiftIn_mod {frombits tobits bits : Nat} (acc v : Nat) (small : v < 2 ^ frombits)
    (pending : bits < tobits) :
    (((acc <<< frombits) ||| v) &&& (2 ^ (frombits + tobits - 1) - 1)) % 2 ^ (bits + frombits) =
      acc % 2 ^ bits * 2 ^ frombits + v := by
  have orAdd : (acc <<< frombits) ||| v = acc * 2 ^ frombits + v := by
    rw [← Nat.shiftLeft_add_eq_or_of_lt small, Nat.shiftLeft_eq]
  have divides : 2 ^ (bits + frombits) ∣ 2 ^ (frombits + tobits - 1) :=
    pow_dvd_pow 2 (by omega)
  have low : acc % 2 ^ bits * 2 ^ frombits + v < 2 ^ (bits + frombits) := by
    have below : acc % 2 ^ bits + 1 ≤ 2 ^ bits := Nat.mod_lt _ (Nat.two_pow_pos bits)
    calc acc % 2 ^ bits * 2 ^ frombits + v
        < acc % 2 ^ bits * 2 ^ frombits + 2 ^ frombits := by omega
      _ = (acc % 2 ^ bits + 1) * 2 ^ frombits := by ring
      _ ≤ 2 ^ bits * 2 ^ frombits := Nat.mul_le_mul_right _ below
      _ = 2 ^ (bits + frombits) := (pow_add 2 bits frombits).symm
  have split : acc * 2 ^ frombits + v =
      acc % 2 ^ bits * 2 ^ frombits + v + 2 ^ (bits + frombits) * (acc / 2 ^ bits) := by
    calc acc * 2 ^ frombits + v
        = (acc % 2 ^ bits + 2 ^ bits * (acc / 2 ^ bits)) * 2 ^ frombits + v := by
          rw [Nat.mod_add_div]
      _ = acc % 2 ^ bits * 2 ^ frombits + v + 2 ^ (bits + frombits) * (acc / 2 ^ bits) := by
          rw [pow_add]; ring
  rw [orAdd, Nat.and_two_pow_sub_one_eq_mod, Nat.mod_mod_of_dvd _ divides, split,
    Nat.add_mul_mod_self_left, Nat.mod_eq_of_lt low]

/-! ## What the loops compute -/

/-- The inner loop takes `bits / tobits` groups off the top of the pending
bits and leaves the rest of them. -/
theorem ConvertBitsGroups_run {tobits : Nat} (positive : 0 < tobits) (acc : Nat) :
    ∀ fuel bits, bits ≤ fuel → ∀ {groups : List Nat} {rest : Nat},
      ConvertBitsGroups tobits acc fuel bits = (groups, rest) →
      rest = bits % tobits ∧ groups.length = bits / tobits ∧ (∀ g ∈ groups, g < 2 ^ tobits) ∧
        bigEndianValue (2 ^ tobits) groups * 2 ^ rest + acc % 2 ^ rest = acc % 2 ^ bits := by
  intro fuel
  induction fuel with
  | zero =>
    intro bits none groups rest run
    obtain rfl : bits = 0 := by omega
    simp only [ConvertBitsGroups, Prod.mk.injEq] at run
    obtain ⟨rfl, rfl⟩ := run
    simp [bigEndianValue]
  | succ fuel ih =>
    intro bits enoughFuel groups rest run
    unfold ConvertBitsGroups at run
    by_cases enough : tobits ≤ bits
    · -- one group off the top, and the rest from the bits below it
      rw [if_pos enough] at run
      rcases below : ConvertBitsGroups tobits acc fuel (bits - tobits) with ⟨groups', rest'⟩
      rw [below] at run
      simp only [Prod.mk.injEq] at run
      obtain ⟨rfl, rfl⟩ := run
      obtain ⟨restMod, count, small, value⟩ := ih (bits - tobits) (by omega) below
      have spelled : tobits * groups'.length + rest' = bits - tobits := by
        rw [count, restMod]
        exact Nat.div_add_mod _ _
      refine ⟨by rw [restMod, ← Nat.mod_eq_sub_mod enough], ?_, ?_, ?_⟩
      · rw [List.length_cons, count, Nat.div_eq_sub_div positive enough]
      · intro g member
        rcases List.mem_cons.mp member with rfl | later
        · rw [group_eq]
          exact Nat.mod_lt _ (Nat.two_pow_pos _)
        · exact small g later
      · rw [bigEndianValue_cons, group_eq]
        calc (acc / 2 ^ (bits - tobits) % 2 ^ tobits * (2 ^ tobits) ^ groups'.length +
              bigEndianValue (2 ^ tobits) groups') * 2 ^ rest' + acc % 2 ^ rest'
            = acc / 2 ^ (bits - tobits) % 2 ^ tobits * ((2 ^ tobits) ^ groups'.length * 2 ^ rest') +
                (bigEndianValue (2 ^ tobits) groups' * 2 ^ rest' + acc % 2 ^ rest') := by ring
          _ = acc / 2 ^ (bits - tobits) % 2 ^ tobits * 2 ^ (bits - tobits) +
                acc % 2 ^ (bits - tobits) := by
              rw [value, ← pow_mul, ← pow_add, spelled]
          _ = acc % 2 ^ bits := by
              rw [show bits = bits - tobits + tobits by omega, pow_add, Nat.mod_mul,
                Nat.add_sub_cancel]
              ring
    · -- fewer than a group pending: nothing is taken
      rw [if_neg enough] at run
      simp only [Prod.mk.injEq] at run
      obtain ⟨rfl, rfl⟩ := run
      refine ⟨(Nat.mod_eq_of_lt (by omega)).symm, (Nat.div_eq_of_lt (by omega)).symm,
        fun _ member => absurd member List.not_mem_nil, ?_⟩
      simp [bigEndianValue]

/-- The outer loop spells the pending bits and the input's bits as groups
and fewer than `tobits` bits left pending. -/
theorem ConvertBitsLoop_run {frombits tobits : Nat} (positive : 0 < tobits) :
    ∀ (input : List UInt8) (acc bits : Nat), bits < tobits →
      (∀ v ∈ input, v.toNat < 2 ^ frombits) →
      ∀ {groups : List Nat} {acc' bits' : Nat},
      ConvertBitsLoop frombits tobits acc bits input = (groups, acc', bits') →
      bits' < tobits ∧ tobits * groups.length + bits' = bits + frombits * input.length ∧
        (∀ g ∈ groups, g < 2 ^ tobits) ∧
        bigEndianValue (2 ^ tobits) groups * 2 ^ bits' + acc' % 2 ^ bits' =
          acc % 2 ^ bits * 2 ^ (frombits * input.length) +
            bigEndianValue (2 ^ frombits) (input.map UInt8.toNat) := by
  intro input
  -- induction on the input, one value shifted in at a time
  induction input with
  | nil =>
    intro acc bits pending _ groups acc' bits' run
    simp only [ConvertBitsLoop, Prod.mk.injEq] at run
    obtain ⟨rfl, rfl, rfl⟩ := run
    simp [bigEndianValue, pending]
  | cons v input ih =>
    intro acc bits pending small groups acc' bits' run
    simp only [ConvertBitsLoop] at run
    set shifted := ((acc <<< frombits) ||| v.toNat) &&& (2 ^ (frombits + tobits - 1) - 1)
    rcases took : ConvertBitsGroups tobits shifted (bits + frombits) (bits + frombits) with ⟨taken, rest⟩
    rcases tail : ConvertBitsLoop frombits tobits shifted rest input with ⟨later, acc'', bits''⟩
    rw [took] at run
    simp only [tail, Prod.mk.injEq] at run
    obtain ⟨rfl, rfl, rfl⟩ := run
    obtain ⟨restMod, count, takenSmall, takenValue⟩ :=
      ConvertBitsGroups_run positive shifted _ _ le_rfl took
    have restPending : rest < tobits := by
      rw [restMod]
      exact Nat.mod_lt _ positive
    obtain ⟨pending', spelled, laterSmall, laterValue⟩ :=
      ih shifted rest restPending (fun w member => small w (List.mem_cons_of_mem _ member)) tail
    have shiftedValue : shifted % 2 ^ (bits + frombits) = acc % 2 ^ bits * 2 ^ frombits + v.toNat :=
      shiftIn_mod acc v.toNat (small v List.mem_cons_self) pending
    have takenSpelled : tobits * taken.length + rest = bits + frombits := by
      rw [count, restMod]
      exact Nat.div_add_mod _ _
    refine ⟨pending', ?_, ?_, ?_⟩
    · rw [List.length_append, List.length_cons]
      linarith
    · intro g member
      rcases List.mem_append.mp member with early | late
      · exact takenSmall g early
      · exact laterSmall g late
    · rw [bigEndianValue_append, List.map_cons, bigEndianValue_cons, List.length_map]
      calc (bigEndianValue (2 ^ tobits) taken * (2 ^ tobits) ^ later.length +
            bigEndianValue (2 ^ tobits) later) * 2 ^ bits'' + acc'' % 2 ^ bits''
          = bigEndianValue (2 ^ tobits) taken * ((2 ^ tobits) ^ later.length * 2 ^ bits'') +
              (bigEndianValue (2 ^ tobits) later * 2 ^ bits'' + acc'' % 2 ^ bits'') := by ring
        _ = bigEndianValue (2 ^ tobits) taken * 2 ^ (rest + frombits * input.length) +
              (shifted % 2 ^ rest * 2 ^ (frombits * input.length) +
                bigEndianValue (2 ^ frombits) (input.map UInt8.toNat)) := by
            rw [laterValue, ← pow_mul, ← pow_add, spelled]
        _ = (bigEndianValue (2 ^ tobits) taken * 2 ^ rest + shifted % 2 ^ rest) *
              2 ^ (frombits * input.length) +
              bigEndianValue (2 ^ frombits) (input.map UInt8.toNat) := by
            rw [pow_add]; ring
        _ = (acc % 2 ^ bits * 2 ^ frombits + v.toNat) * 2 ^ (frombits * input.length) +
              bigEndianValue (2 ^ frombits) (input.map UInt8.toNat) := by
            rw [takenValue, shiftedValue]
        _ = acc % 2 ^ bits * 2 ^ (frombits * (input.length + 1)) +
              (v.toNat * (2 ^ frombits) ^ input.length +
                bigEndianValue (2 ^ frombits) (input.map UInt8.toNat)) := by
            rw [← pow_mul, Nat.mul_succ, pow_add]; ring

/-! ## Padding and the round trips -/

theorem map_toNat_toUInt8 {groups : List Nat} (small : ∀ g ∈ groups, g < 256) :
    (groups.map Nat.toUInt8).map UInt8.toNat = groups := by
  rw [List.map_map]
  conv_rhs => rw [← List.map_id groups]
  apply List.map_congr_left
  intro g member
  simp [Nat.mod_eq_of_lt (small g member)]

theorem map_toUInt8_toNat (bytes : List UInt8) : (bytes.map UInt8.toNat).map Nat.toUInt8 = bytes := by
  rw [List.map_map]
  conv_rhs => rw [← List.map_id bytes]
  apply List.map_congr_left
  intro b _
  simp

/-- With padding, the groups spell the input's bits and then `padding`
zero bits, fewer than a group. -/
theorem ConvertBits_pad {frombits tobits : Nat} (positive : 0 < tobits) (narrow : tobits ≤ 8)
    {input : List UInt8} (small : ∀ v ∈ input, v.toNat < 2 ^ frombits) :
    ∃ out padding, ConvertBits frombits tobits true input = some out ∧ padding < tobits ∧
      tobits * out.length = frombits * input.length + padding ∧
      (∀ g ∈ out, g.toNat < 2 ^ tobits) ∧
      bigEndianValue (2 ^ tobits) (out.map UInt8.toNat) =
        bigEndianValue (2 ^ frombits) (input.map UInt8.toNat) * 2 ^ padding := by
  rcases loop : ConvertBitsLoop frombits tobits 0 0 input with ⟨groups, acc, bits⟩
  obtain ⟨pending, spelled, groupsSmall, value⟩ :=
    ConvertBitsLoop_run positive input 0 0 positive small loop
  simp only [Nat.zero_mod, Nat.zero_mul, Nat.zero_add] at spelled value
  have bytesized : ∀ g ∈ groups, g < 256 := fun g member =>
    lt_of_lt_of_le (groupsSmall g member) (Nat.pow_le_pow_right (by omega) narrow)
  unfold ConvertBits
  rw [loop]
  by_cases whole : bits = 0
  · -- the groups end on the input's last bit: no padding group
    subst whole
    refine ⟨groups.map Nat.toUInt8, 0, by simp, positive, by simpa using spelled, ?_, ?_⟩
    · intro g member
      obtain ⟨group, inGroups, rfl⟩ := List.mem_map.mp member
      simpa [Nat.mod_eq_of_lt (bytesized group inGroups)] using groupsSmall group inGroups
    · simpa [map_toNat_toUInt8 bytesized, Nat.mod_one] using value
  · -- the pending bits go to the top of one more group
    have padSmall : acc % 2 ^ bits * 2 ^ (tobits - bits) < 2 ^ tobits := by
      calc acc % 2 ^ bits * 2 ^ (tobits - bits) < 2 ^ bits * 2 ^ (tobits - bits) :=
            Nat.mul_lt_mul_of_pos_right (Nat.mod_lt _ (Nat.two_pow_pos _)) (Nat.two_pow_pos _)
        _ = 2 ^ tobits := by rw [← pow_add, Nat.add_sub_cancel' pending.le]
    have allSmall : ∀ g ∈ groups ++ [acc % 2 ^ bits * 2 ^ (tobits - bits)], g < 2 ^ tobits := by
      intro g member
      rcases List.mem_append.mp member with early | last
      · exact groupsSmall g early
      · rw [List.mem_singleton.mp last]
        exact padSmall
    have allBytesized : ∀ g ∈ groups ++ [acc % 2 ^ bits * 2 ^ (tobits - bits)], g < 256 :=
      fun g member => lt_of_lt_of_le (allSmall g member) (Nat.pow_le_pow_right (by omega) narrow)
    refine ⟨(groups ++ [acc % 2 ^ bits * 2 ^ (tobits - bits)]).map Nat.toUInt8, tobits - bits,
      by simp [whole, padding_eq acc pending.le], by omega, ?_, ?_, ?_⟩
    · rw [List.length_map, List.length_append, List.length_singleton, Nat.mul_succ]
      omega
    · intro g member
      obtain ⟨group, inGroups, rfl⟩ := List.mem_map.mp member
      simpa [Nat.mod_eq_of_lt (allBytesized group inGroups)] using allSmall group inGroups
    · rw [map_toNat_toUInt8 allBytesized, bigEndianValue_append, ← value]
      have single : bigEndianValue (2 ^ tobits) [acc % 2 ^ bits * 2 ^ (tobits - bits)] =
          acc % 2 ^ bits * 2 ^ (tobits - bits) := by
        simp [bigEndianValue]
      rw [single, List.length_singleton, pow_one]
      calc bigEndianValue (2 ^ tobits) groups * 2 ^ tobits + acc % 2 ^ bits * 2 ^ (tobits - bits)
          = bigEndianValue (2 ^ tobits) groups * (2 ^ bits * 2 ^ (tobits - bits)) +
              acc % 2 ^ bits * 2 ^ (tobits - bits) := by
            rw [← pow_add, Nat.add_sub_cancel' pending.le]
        _ = (bigEndianValue (2 ^ tobits) groups * 2 ^ bits + acc % 2 ^ bits) * 2 ^ (tobits - bits) := by
            ring

/-- Without padding, what `ConvertBits` accepts it spells exactly, less
`padding` zero bits at the end, fewer than an input value. -/
theorem ConvertBits_nopad {frombits tobits : Nat} (positive : 0 < tobits) (narrow : tobits ≤ 8)
    {input out : List UInt8} (small : ∀ v ∈ input, v.toNat < 2 ^ frombits)
    (accepted : ConvertBits frombits tobits false input = some out) :
    ∃ padding, padding < frombits ∧ padding < tobits ∧
      tobits * out.length + padding = frombits * input.length ∧
      (∀ g ∈ out, g.toNat < 2 ^ tobits) ∧
      bigEndianValue (2 ^ tobits) (out.map UInt8.toNat) * 2 ^ padding =
        bigEndianValue (2 ^ frombits) (input.map UInt8.toNat) := by
  rcases loop : ConvertBitsLoop frombits tobits 0 0 input with ⟨groups, acc, bits⟩
  obtain ⟨pending, spelled, groupsSmall, value⟩ :=
    ConvertBitsLoop_run positive input 0 0 positive small loop
  simp only [Nat.zero_mod, Nat.zero_mul, Nat.zero_add] at spelled value
  have bytesized : ∀ g ∈ groups, g < 256 := fun g member =>
    lt_of_lt_of_le (groupsSmall g member) (Nat.pow_le_pow_right (by omega) narrow)
  unfold ConvertBits at accepted
  rw [loop] at accepted
  simp only [Bool.false_eq_true, if_false] at accepted
  split at accepted
  · cases accepted
  · next checks =>
    cases accepted
    rw [not_or, not_not, padding_eq acc pending.le] at checks
    obtain ⟨short, clean⟩ := checks
    have noRest : acc % 2 ^ bits = 0 :=
      (Nat.mul_eq_zero.mp clean).resolve_right (Nat.two_pow_pos _).ne'
    refine ⟨bits, by omega, pending, by simpa using spelled, ?_, ?_⟩
    · intro g member
      obtain ⟨group, inGroups, rfl⟩ := List.mem_map.mp member
      simpa [Nat.mod_eq_of_lt (bytesized group inGroups)] using groupsSmall group inGroups
    · rw [map_toNat_toUInt8 bytesized, ← value, noRest, Nat.add_zero]

/-- Bytes regrouped into five-bit symbols with padding come back from the
symbols without padding. -/
theorem ConvertBits_bytes_round_trip (bytes : List UInt8) :
    ∃ symbols, ConvertBits 8 5 true bytes = some symbols ∧
      ConvertBits 5 8 false symbols = some bytes := by
  obtain ⟨symbols, padding, encoded, padShort, spelled, symbolsSmall, value⟩ :=
    @ConvertBits_pad 8 5 (by decide) (by decide) bytes (fun v _ => UInt8.toNat_lt v)
  refine ⟨symbols, encoded, ?_⟩
  rcases loop : ConvertBitsLoop 5 8 0 0 symbols with ⟨groups, acc, bits⟩
  obtain ⟨pending, spelled', groupsSmall, value'⟩ :=
    ConvertBitsLoop_run (by decide) symbols 0 0 (by decide) symbolsSmall loop
  simp only [Nat.zero_mod, Nat.zero_mul, Nat.zero_add] at spelled' value'
  -- the five-bit symbols hold the bytes and the padding: the same bits come back
  obtain ⟨rfl, sameLength⟩ : bits = padding ∧ groups.length = bytes.length := by omega
  rw [value] at value'
  have noRest : acc % 2 ^ bits = 0 := by
    have reduced := congrArg (· % 2 ^ bits) value'
    simpa [Nat.add_mod, Nat.mod_mod, Nat.mod_eq_of_lt (Nat.mod_lt acc (Nat.two_pow_pos bits))]
      using reduced
  have sameValue : bigEndianValue (2 ^ 8) groups = bigEndianValue (2 ^ 8) (bytes.map UInt8.toNat) := by
    rw [noRest, Nat.add_zero] at value'
    exact Nat.eq_of_mul_eq_mul_right (Nat.two_pow_pos bits) value'
  have sameGroups : groups = bytes.map UInt8.toNat :=
    @bigEndianValue_inj (2 ^ 8) (by decide) _ _ (by simpa using sameLength) groupsSmall
      (by simpa using fun b _ => UInt8.toNat_lt b) sameValue
  unfold ConvertBits
  rw [loop]
  have checks : ¬(5 ≤ bits ∨ (acc <<< (8 - bits)) &&& (2 ^ 8 - 1) ≠ 0) := by
    rw [padding_eq acc (by omega), noRest]
    omega
  simp only [Bool.false_eq_true, if_false, if_neg checks, sameGroups, map_toUInt8_toNat]

/-- Five-bit symbols accepted without padding come back from their bytes
with padding. -/
theorem ConvertBits_symbols_round_trip {symbols bytes : List UInt8}
    (small : ∀ s ∈ symbols, s.toNat < 2 ^ 5) (decoded : ConvertBits 5 8 false symbols = some bytes) :
    ConvertBits 8 5 true bytes = some symbols := by
  obtain ⟨padding, _, _, spelled, _, value⟩ := ConvertBits_nopad (by decide) (by decide) small decoded
  obtain ⟨out, padding', encoded, padShort', spelled', outSmall, value'⟩ :=
    @ConvertBits_pad 8 5 (by decide) (by decide) bytes (fun v _ => UInt8.toNat_lt v)
  -- both paddings complete the same bits to whole symbols, so they agree
  obtain ⟨rfl, sameLength⟩ : padding' = padding ∧ out.length = symbols.length := by omega
  rw [encoded]
  congr 1
  apply List.map_injective_iff.mpr (fun _ _ same => UInt8.toNat_inj.mp same)
  exact @bigEndianValue_inj (2 ^ 5) (by decide) _ _ (by simpa using sameLength)
    (by simpa using outSmall) (by simpa using small) (by rw [value', value])

/-! ## Decimal numbers -/

def IsDigit (c : UInt8) : Bool := c ≥ 48 && c ≤ 57

/-- `c - '0'`, the value of a digit. -/
def digitValue (c : UInt8) : Nat := c.toNat - 48

/-- The default pattern of `TrimString`: space, form feed, line feed,
carriage return, tab and vertical tab. -/
def TRIM_PATTERN : List UInt8 := [32, 12, 10, 13, 9, 11]

/-- `TrimStringView`: the string from its first character not in `pattern`
to its last, empty if there is none. -/
def TrimStringView (str pattern : List UInt8) : List UInt8 :=
  (str.dropWhile pattern.contains).rdropWhile pattern.contains

def TrimString (str pattern : List UInt8) : List UInt8 := TrimStringView str pattern

/-- The error conditions `std::from_chars` reports. -/
inductive errc
  | invalid_argument
  | result_out_of_range
  deriving DecidableEq

/-- `std::from_chars` into an `int64_t` in base 10: an optional minus sign and
the longest run of digits after it. -/
def from_chars (s : List UInt8) : Except errc Int64 :=
  let negative := s.head? == some 45
  let digits := (if negative then s.tail else s).takeWhile IsDigit
  if digits.isEmpty then .error .invalid_argument
  else
    let magnitude : Int := bigEndianValue 10 (digits.map digitValue)
    let value := if negative then -magnitude else magnitude
    if Int64.minValue.toInt ≤ value ∧ value ≤ Int64.maxValue.toInt then .ok (Int64.ofInt value)
    else .error .result_out_of_range

/-- `LocaleIndependentAtoi<int64_t>`: `atoi` under the C locale, a leading
`+` allowed and a value out of range saturated. -/
def LocaleIndependentAtoi (str : List UInt8) : Int64 :=
  let s := TrimStringView str TRIM_PATTERN
  if s.head? == some 43 && s.tail.head? == some 45 then 0
  else
    let s := if s.head? == some 43 then s.tail else s
    match from_chars s with
    | .ok result => result
    | .error .result_out_of_range => if s.head? == some 45 then Int64.minValue else Int64.maxValue
    | .error .invalid_argument => 0

theorem IsDigit_iff (c : UInt8) : IsDigit c = true ↔ 48 ≤ c.toNat ∧ c.toNat ≤ 57 := by
  simp only [IsDigit, ge_iff_le, Bool.and_eq_true, decide_eq_true_eq, UInt8.le_iff_toNat_le]
  rfl

theorem IsDigit_not_trimmed {c : UInt8} (digit : IsDigit c = true) :
    TRIM_PATTERN.contains c = false := by
  rw [Bool.eq_false_iff]
  intro trimmed
  simp only [TRIM_PATTERN, List.contains_cons, List.contains_nil, Bool.or_false, Bool.or_eq_true,
    beq_iff_eq] at trimmed
  rw [IsDigit_iff] at digit
  rcases trimmed with rfl | rfl | rfl | rfl | rfl | rfl <;> simp at digit

theorem IsDigit_not_space {c : UInt8} (digit : IsDigit c = true) : IsSpace c = false := by
  rw [IsDigit_iff] at digit
  rw [Bool.eq_false_iff]
  intro space
  simp only [IsSpace, Bool.or_eq_true, beq_iff_eq, or_assoc] at space
  rcases space with rfl | rfl | rfl | rfl | rfl | rfl <;> simp at digit

theorem TrimStringView_eq_self {str pattern : List UInt8}
    (front : ∀ c ∈ str.head?, pattern.contains c = false)
    (back : ∀ c ∈ str.getLast?, pattern.contains c = false) : TrimStringView str pattern = str := by
  have dropped : str.dropWhile pattern.contains = str := by
    refine List.dropWhile_eq_self_iff.mpr fun nonempty => ?_
    rw [front _ (by simp [List.head?_eq_getElem?, List.getElem?_eq_getElem nonempty])]
    simp
  rw [TrimStringView, dropped]
  refine List.rdropWhile_eq_self_iff.mpr fun nonempty => ?_
  rw [back _ (by simp [List.getLast?_eq_some_getLast nonempty])]
  simp

theorem digitValue_lt {c : UInt8} (digit : IsDigit c = true) : digitValue c < 10 := by
  rw [IsDigit_iff] at digit
  simp only [digitValue]
  omega

/-- A digit is no sign: neither `+` nor `-`, which come before `0`. -/
theorem IsDigit_not_sign {c sign : UInt8} (digit : IsDigit c = true) (below : sign.toNat < 48) :
    (some c == some sign) = false := by
  rw [IsDigit_iff] at digit
  rw [beq_eq_false_iff_ne, ne_eq, Option.some.injEq]
  rintro rfl
  omega

/-- The value of a run of digits is below ten to its length. -/
theorem digits_value_lt {digits : List UInt8} (all : ∀ c ∈ digits, IsDigit c = true) :
    bigEndianValue 10 (digits.map digitValue) < 10 ^ digits.length := by
  rw [← List.length_map (f := digitValue)]
  refine bigEndianValue_lt (by norm_num) ?_
  simp only [List.mem_map]
  rintro _ ⟨c, member, rfl⟩
  exact digitValue_lt (all c member)

theorem from_chars_digits {digits : List UInt8} (nonempty : digits ≠ [])
    (all : ∀ c ∈ digits, IsDigit c = true) (short : digits.length ≤ 18) :
    from_chars digits = .ok (Int64.ofInt (bigEndianValue 10 (digits.map digitValue))) := by
  obtain ⟨d, rest, rfl⟩ := List.exists_cons_of_ne_nil nonempty
  have small : bigEndianValue 10 ((d :: rest).map digitValue) < 10 ^ 18 :=
    lt_of_lt_of_le (digits_value_lt all) (Nat.pow_le_pow_right (by norm_num) short)
  have whole : (d :: rest).takeWhile IsDigit = d :: rest := List.takeWhile_eq_self_iff.mpr all
  simp only [from_chars, List.head?_cons, IsDigit_not_sign (all d List.mem_cons_self)
    (show (45 : UInt8).toNat < 48 by decide), Bool.false_eq_true, if_false, whole, List.isEmpty_cons]
  rw [if_pos ⟨by rw [Int64.toInt_minValue]; omega, by rw [Int64.toInt_maxValue]; omega⟩]

/-- A string of at most eighteen digits reads as its value. -/
theorem LocaleIndependentAtoi_digits {digits : List UInt8} (all : ∀ c ∈ digits, IsDigit c = true)
    (short : digits.length ≤ 18) :
    (LocaleIndependentAtoi digits).toInt = bigEndianValue 10 (digits.map digitValue) := by
  cases digits with
  | nil => rfl
  | cons d rest =>
    have first := all d List.mem_cons_self
    have kept : TrimStringView (d :: rest) TRIM_PATTERN = d :: rest :=
      TrimStringView_eq_self (by simpa using IsDigit_not_trimmed first)
        (fun c last => IsDigit_not_trimmed (all c (List.mem_of_getLast? last)))
    have small : bigEndianValue 10 ((d :: rest).map digitValue) < 10 ^ 18 :=
      lt_of_lt_of_le (digits_value_lt all) (Nat.pow_le_pow_right (by norm_num) short)
    simp only [LocaleIndependentAtoi, kept, List.head?_cons,
      IsDigit_not_sign first (show (43 : UInt8).toNat < 48 by decide), Bool.false_and,
      Bool.false_eq_true, if_false, from_chars_digits (List.cons_ne_nil d rest) all short]
    rw [Int64.toInt_ofInt]
    exact Int.bmod_eq_of_le (by unfold Int64.size; push_cast; omega)
      (by unfold Int64.size; push_cast; omega)

end Peercoin.Util
