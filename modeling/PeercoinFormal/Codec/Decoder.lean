import Mathlib

/-!
# Byte-stream decoders and their round-trip rules

A decoder reads a value from the front of a byte list and leaves the unread
tail, or stops with the text of the exception the stream raises.  The
round-trip predicate `Decodes d bytes a` says that `d`, run on `bytes`
followed by anything, returns `a` and leaves exactly the following bytes.
Every serializer/deserializer pair of the model is shown to invert through
the composition rules below; nothing here refers to a particular format.
-/

set_option autoImplicit false

namespace Codec

/-- Reads from the front of a byte list; an `.error` carries the exception
text. -/
abbrev Decoder (α : Type) := StateT (List UInt8) (Except String) α

/-- Stops the stream with an exception. -/
def raise {α : Type} (message : String) : Decoder α :=
  fun _ => .error message

/-- Takes `count` bytes, or raises `message` when fewer remain. -/
def takeBytes (message : String) (count : Nat) : Decoder (List UInt8) :=
  fun stream =>
    if count ≤ stream.length then .ok (stream.take count, stream.drop count)
    else .error message

/-- Runs `item` `count` times and collects the results in order. -/
def repeatDecoder {α : Type} (item : Decoder α) : Nat → Decoder (List α)
  | 0 => pure []
  | count + 1 => do
      let head ← item
      let tail ← repeatDecoder item count
      pure (head :: tail)

/-- `d` reads `a` off the front of `bytes`, whatever follows. -/
def Decodes {α : Type} (d : Decoder α) (bytes : List UInt8) (a : α) : Prop :=
  ∀ rest : List UInt8, d.run (bytes ++ rest) = .ok (a, rest)

theorem decodes_pure {α : Type} (a : α) : Decodes (pure a) [] a := by
  intro rest
  rfl

theorem Decodes.bind {α β : Type} {d : Decoder α} {f : α → Decoder β}
    {bytes bytes' : List UInt8} {a : α} {b : β}
    (first : Decodes d bytes a) (second : Decodes (f a) bytes' b) :
    Decodes (d >>= f) (bytes ++ bytes') b := by
  intro rest
  have firstRun := first (bytes' ++ rest)
  simp only [List.append_assoc, StateT.run_bind, firstRun]
  exact second rest

/-- What follows a decoded prefix is read by the continuation. -/
theorem Decodes.run_bind {α β : Type} {d : Decoder α} {bytes : List UInt8} {a : α}
    (run : Decodes d bytes a) (f : α → Decoder β) (rest : List UInt8) :
    (d >>= f).run (bytes ++ rest) = (f a).run rest := by
  simp only [StateT.run_bind, run rest]
  rfl

/-- A run of `d >>= f` that returns went through a run of `d` that returned. -/
theorem run_bind_eq_ok {α β : Type} {d : Decoder α} {f : α → Decoder β}
    {stream rest : List UInt8} {b : β} (run : (d >>= f).run stream = .ok (b, rest)) :
    ∃ a middle, d.run stream = .ok (a, middle) ∧ (f a).run middle = .ok (b, rest) := by
  simp only [StateT.run_bind] at run
  cases first : d.run stream with
  | error message =>
    rw [first] at run
    cases run
  | ok result =>
    obtain ⟨a, middle⟩ := result
    rw [first] at run
    exact ⟨a, middle, rfl, run⟩

/-- An exception stops the stream: the continuation never runs. -/
theorem run_bind_of_error {α β : Type} {d : Decoder α} {stream : List UInt8} {message : String}
    (failed : d.run stream = .error message) (f : α → Decoder β) :
    (d >>= f).run stream = .error message := by
  simp only [StateT.run_bind, failed]
  rfl

theorem Decodes.map {α β : Type} {d : Decoder α} {bytes : List UInt8} {a : α}
    (f : α → β) (run : Decodes d bytes a) : Decodes (f <$> d) bytes (f a) := by
  intro rest
  simp only [StateT.run_map, run rest]
  rfl

theorem Decodes.congr_bytes {α : Type} {d : Decoder α} {bytes bytes' : List UInt8}
    {a : α} (run : Decodes d bytes a) (same : bytes = bytes') : Decodes d bytes' a :=
  same ▸ run

theorem Decodes.congr_value {α : Type} {d : Decoder α} {bytes : List UInt8} {a a' : α}
    (run : Decodes d bytes a) (same : a = a') : Decodes d bytes a' :=
  same ▸ run

theorem Decodes.ite_pos {α : Type} {condition : Prop} [Decidable condition]
    {thenBranch elseBranch : Decoder α} {bytes : List UInt8} {a : α}
    (holds : condition) (run : Decodes thenBranch bytes a) :
    Decodes (if condition then thenBranch else elseBranch) bytes a := by
  rw [if_pos holds]
  exact run

theorem Decodes.ite_neg {α : Type} {condition : Prop} [Decidable condition]
    {thenBranch elseBranch : Decoder α} {bytes : List UInt8} {a : α}
    (fails : ¬ condition) (run : Decodes elseBranch bytes a) :
    Decodes (if condition then thenBranch else elseBranch) bytes a := by
  rw [if_neg fails]
  exact run

theorem decodes_takeBytes (message : String) (bytes : List UInt8) :
    Decodes (takeBytes message bytes.length) bytes bytes := by
  intro rest
  simp [takeBytes, StateT.run]

/-- Reading a list item by item inverts writing the items one after another. -/
theorem decodes_repeatDecoder {α : Type} (item : Decoder α) (encode : α → List UInt8)
    (items : List α) (each : ∀ a ∈ items, Decodes item (encode a) a) :
    Decodes (repeatDecoder item items.length) (items.flatMap encode) items := by
  induction items with
  | nil => exact decodes_pure []
  | cons head tail tailDecodes =>
      have headRun := each head (by simp)
      have tailRun := tailDecodes (fun a member => each a (by simp [member]))
      have tailThenCons : Decodes (repeatDecoder item tail.length >>= fun t => pure (head :: t))
          (tail.flatMap encode ++ []) (head :: tail) :=
        tailRun.bind (decodes_pure _)
      have whole := headRun.bind (f := fun h =>
          repeatDecoder item tail.length >>= fun t => pure (h :: t)) tailThenCons
      simpa [repeatDecoder] using whole

/-! ## Little-endian fixed-width integers -/

/-- The `width` low bytes of `value`, least significant first. -/
def leBytes : Nat → Nat → List UInt8
  | 0, _ => []
  | width + 1, value => UInt8.ofNat (value % 256) :: leBytes width (value / 256)

/-- The number whose little-endian bytes are `bytes`. -/
def leValue : List UInt8 → Nat
  | [] => 0
  | byte :: rest => byte.toNat + 256 * leValue rest

theorem leBytes_zero (value : Nat) : leBytes 0 value = [] := rfl

theorem leBytes_succ (width value : Nat) :
    leBytes (width + 1) value = UInt8.ofNat (value % 256) :: leBytes width (value / 256) := rfl

theorem leValue_nil : leValue [] = 0 := rfl

theorem leValue_cons (byte : UInt8) (rest : List UInt8) :
    leValue (byte :: rest) = byte.toNat + 256 * leValue rest := rfl

@[simp] theorem leBytes_length (width value : Nat) : (leBytes width value).length = width := by
  induction width generalizing value with
  | zero => rfl
  | succ width ih => simp [leBytes_succ, ih]

theorem leValue_leBytes (width value : Nat) :
    leValue (leBytes width value) = value % 256 ^ width := by
  induction width generalizing value with
  | zero => simp [leBytes_zero, leValue_nil, Nat.mod_one]
  | succ width ih =>
      have byteValue : (UInt8.ofNat (value % 256)).toNat = value % 256 := by
        simp [Nat.mod_mod_of_dvd]
      simp only [leBytes_succ, leValue_cons, byteValue, ih]
      rw [Nat.pow_succ, Nat.mul_comm (256 ^ width) 256, Nat.mod_mul]

theorem leValue_lt (bytes : List UInt8) : leValue bytes < 256 ^ bytes.length := by
  induction bytes with
  | nil => simp [leValue_nil]
  | cons byte rest ih =>
      have byteLt := byte.toNat_lt
      simp only [leValue_cons, List.length_cons, Nat.pow_succ]
      omega

theorem leBytes_leValue (bytes : List UInt8) : leBytes bytes.length (leValue bytes) = bytes := by
  induction bytes with
  | nil => rfl
  | cons byte rest ih =>
      have byteLt := byte.toNat_lt
      have lowByte : (byte.toNat + 256 * leValue rest) % 256 = byte.toNat := by omega
      have highPart : (byte.toNat + 256 * leValue rest) / 256 = leValue rest := by omega
      simp only [List.length_cons, leBytes_succ, leValue_cons, lowByte, highPart, ih]
      simp

theorem leBytes_inj {width value value' : Nat} (small : value < 256 ^ width)
    (small' : value' < 256 ^ width) (same : leBytes width value = leBytes width value') :
    value = value' := by
  have := congrArg leValue same
  rwa [leValue_leBytes, leValue_leBytes, Nat.mod_eq_of_lt small,
    Nat.mod_eq_of_lt small'] at this

theorem leValue_append (first second : List UInt8) :
    leValue (first ++ second) = leValue first + 256 ^ first.length * leValue second := by
  induction first with
  | nil => simp [leValue_nil]
  | cons byte rest ih =>
      simp only [List.cons_append, leValue_cons, ih, List.length_cons, Nat.pow_succ]
      rw [Nat.mul_add, ← Nat.mul_assoc, Nat.mul_comm 256 (256 ^ rest.length), Nat.add_assoc]

/-- The first `k` bytes read as the value modulo `256 ^ k`. -/
theorem leValue_take (bytes : List UInt8) (k : Nat) :
    leValue (bytes.take k) = leValue bytes % 256 ^ k := by
  induction bytes generalizing k with
  | nil => simp [leValue_nil]
  | cons byte rest ih =>
    cases k with
    | zero => simp [leValue_nil, Nat.mod_one]
    | succ k =>
      have byteLt := byte.toNat_lt
      have lowByte : (byte.toNat + 256 * leValue rest) % 256 = byte.toNat := by omega
      have highPart : (byte.toNat + 256 * leValue rest) / 256 = leValue rest := by omega
      rw [List.take_succ_cons, leValue_cons, leValue_cons, ih, Nat.pow_succ, Nat.mul_comm (256 ^ k) 256,
        Nat.mod_mul, lowByte, highPart]

/-- Reads a `width`-byte little-endian number. -/
def readLE (message : String) (width : Nat) : Decoder Nat :=
  leValue <$> takeBytes message width

theorem decodes_readLE (message : String) (width value : Nat) (small : value < 256 ^ width) :
    Decodes (readLE message width) (leBytes width value) value := by
  have run := (decodes_takeBytes message (leBytes width value)).map leValue
  rw [leBytes_length, leValue_leBytes, Nat.mod_eq_of_lt small] at run
  exact run

/-- What `readLE` accepts is the little-endian form of its value. -/
theorem readLE_canonical {message : String} {width value : Nat} {stream rest : List UInt8}
    (read : (readLE message width).run stream = .ok (value, rest)) :
    value < 256 ^ width ∧ stream = leBytes width value ++ rest := by
  have taken : (takeBytes message width).run stream =
      if width ≤ stream.length then .ok (stream.take width, stream.drop width)
      else .error message := rfl
  unfold readLE at read
  rw [StateT.run_map, taken] at read
  split at read
  · rename_i enough
    simp only [Functor.map, Except.map, Except.ok.injEq, Prod.mk.injEq] at read
    obtain ⟨rfl, rfl⟩ := read
    have length : (stream.take width).length = width := by
      rw [List.length_take]
      omega
    have bytes := leBytes_leValue (stream.take width)
    rw [length] at bytes
    have small := leValue_lt (stream.take width)
    rw [length] at small
    refine ⟨small, ?_⟩
    rw [bytes, List.take_append_drop]
  · cases read

end Codec
