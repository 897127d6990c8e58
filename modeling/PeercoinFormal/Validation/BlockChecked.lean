import PeercoinFormal.Validation.ConnectBlock

/-!
# validation.cpp: the `fChecked` flag of CheckBlock

`CBlock::fChecked` is a mutable field of the block object.  `CheckBlock`
returns at once when it is set, and sets it after every check but the block
signature's, when the call checks both the proof of work and the merkle root.
The calls on one block object share it: `submitblock` checks without the
signature and hands the same object to `ProcessNewBlock`, whose call, and
those of `AcceptBlock` and `ConnectBlock` after it, return at the top.

What the flag does remember is sound: a call that returns success passes
every check of a fresh call but the signature's (`CheckBlockCalls_sound`).
-/

set_option autoImplicit false

namespace Peercoin.Validation

open Peercoin.Primitives Ledger

/-- The block-signature test that ends `CheckBlock`. -/
def CheckBlockSignatureStep (ctx : Context) (block : CBlock)
    (fCheckMerkleRoot fCheckSignature : Bool) : Except String Unit :=
  rejectIf (fCheckMerkleRoot && fCheckSignature &&
      (block.IsProofOfStake || !ctx.IsBTC16BIPsEnabled block.nTime) &&
      !ctx.CheckBlockSignature block) "bad-blk-sign"

/-- A block object: the block and its `mutable bool fChecked`. -/
structure BlockObject where
  block : CBlock
  fChecked : Bool

/-- The object a decoder builds: the constructor's `SetNull` clears `fChecked`. -/
def BlockObject.fresh (block : CBlock) : BlockObject := ⟨block, false⟩

/-- The flags of one call, with the defaults of the declaration in validation.h. -/
structure CheckFlags where
  fCheckPOW : Bool := true
  fCheckMerkleRoot : Bool := true
  fCheckSignature : Bool := true

/-- `CheckBlock` on a block object: its verdict and the object after it. -/
def BlockObject.CheckBlock (ctx : Context) (sha256 : List UInt8 → uint256) (obj : BlockObject)
    (flags : CheckFlags) : Except String Unit × BlockObject :=
  if obj.fChecked then (.ok (), obj)
  else
    match Validation.CheckBlock ctx sha256 obj.block flags.fCheckPOW flags.fCheckMerkleRoot false with
    | .error reason => (.error reason, obj)
    | .ok () =>
      -- the flag is set before the signature is checked, whatever that check gives
      (CheckBlockSignatureStep ctx obj.block flags.fCheckMerkleRoot flags.fCheckSignature,
        { obj with fChecked := flags.fCheckPOW && flags.fCheckMerkleRoot })

/-- A sequence of `CheckBlock` calls on one block object: their verdicts in
order and the object at the end. -/
def BlockObject.CheckBlockCalls (ctx : Context) (sha256 : List UInt8 → uint256) :
    BlockObject → List CheckFlags → List (Except String Unit) × BlockObject
  | obj, [] => ([], obj)
  | obj, flags :: calls =>
    let (result, obj) := obj.CheckBlock ctx sha256 flags
    let (results, obj) := obj.CheckBlockCalls ctx sha256 calls
    (result :: results, obj)

/-- The calls on the object `submitblock` decodes: its own check without the
signature, then those of `ProcessNewBlock`, `AcceptBlock` and `ConnectBlock`
(with `fJustCheck` false), each with the default flags. -/
def submitblockCalls : List CheckFlags := [{ fCheckSignature := false }, {}, {}, {}]

/-! ## The checks before the signature -/

theorem CheckBlock_eq_bind_signature (ctx : Context) (sha256 : List UInt8 → uint256)
    (block : CBlock) (fCheckPOW fCheckMerkleRoot fCheckSignature : Bool) :
    CheckBlock ctx sha256 block fCheckPOW fCheckMerkleRoot fCheckSignature =
      (CheckBlock ctx sha256 block fCheckPOW fCheckMerkleRoot false >>= fun () =>
        CheckBlockSignatureStep ctx block fCheckMerkleRoot fCheckSignature) := by
  simp only [CheckBlock, CheckBlockSignatureStep, Bool.and_false, Bool.false_and, rejectIf_false,
    bind_assoc, ok_bind]

/-- The checks before the signature's only grow with the two flags. -/
theorem CheckBlock_of_all_flags {ctx : Context} {sha256 : List UInt8 → uint256} {block : CBlock}
    (checked : CheckBlock ctx sha256 block true true false = .ok ())
    (fCheckPOW fCheckMerkleRoot : Bool) :
    CheckBlock ctx sha256 block fCheckPOW fCheckMerkleRoot false = .ok () := by
  unfold CheckBlock at checked ⊢
  obtain ⟨⟨⟩, pow, checked⟩ := bind_eq_ok.mp checked
  obtain ⟨⟨⟩, merkle, rest⟩ := bind_eq_ok.mp checked
  have pow : (fCheckPOW && !block.IsProofOfStake &&
      !ctx.CheckProofOfWork (block.GetHash sha256) block.nBits) = false := by
    cases fCheckPOW
    · rfl
    · exact rejectIf_eq_ok.mp pow
  have merkle : (fCheckMerkleRoot && !ctx.CheckMerkleRoot block) = false := by
    cases fCheckMerkleRoot
    · rfl
    · exact rejectIf_eq_ok.mp merkle
  rw [pow, merkle, rejectIf_false, ok_bind, rejectIf_false, ok_bind]
  simpa only [Bool.and_false, Bool.false_and] using rest

/-! ## Runs of calls -/

/-- What a set flag stands for: the block passed every check but the
signature's, proof of work and merkle root included. -/
def BlockObject.MemoSound (ctx : Context) (sha256 : List UInt8 → uint256) (obj : BlockObject) :
    Prop :=
  obj.fChecked = true → Validation.CheckBlock ctx sha256 obj.block true true false = .ok ()

section Calls

variable {ctx : Context} {sha256 : List UInt8 → uint256}

theorem BlockObject.fresh_memoSound (block : CBlock) :
    (BlockObject.fresh block).MemoSound ctx sha256 := by
  intro set
  cases set

/-- Everything one call can do: answer at once on a set flag, fail and leave
the object as it was, or pass the checks before the signature's, set the flag
when proof of work and merkle root were both checked, and give the verdict of
the signature step. -/
theorem BlockObject.CheckBlock_cases (obj : BlockObject) (flags : CheckFlags) :
    (obj.fChecked = true ∧ obj.CheckBlock ctx sha256 flags = (.ok (), obj)) ∨
    (∃ reason, obj.fChecked = false ∧
      Validation.CheckBlock ctx sha256 obj.block flags.fCheckPOW flags.fCheckMerkleRoot false = .error reason ∧
      obj.CheckBlock ctx sha256 flags = (.error reason, obj)) ∨
    (obj.fChecked = false ∧
      Validation.CheckBlock ctx sha256 obj.block flags.fCheckPOW flags.fCheckMerkleRoot false = .ok () ∧
      obj.CheckBlock ctx sha256 flags =
        (CheckBlockSignatureStep ctx obj.block flags.fCheckMerkleRoot flags.fCheckSignature,
          { obj with fChecked := flags.fCheckPOW && flags.fCheckMerkleRoot })) := by
  unfold BlockObject.CheckBlock
  cases set : obj.fChecked with
  | true => exact .inl ⟨rfl, rfl⟩
  | false =>
      cases checked : Validation.CheckBlock ctx sha256 obj.block flags.fCheckPOW flags.fCheckMerkleRoot false with
      | error reason => exact .inr (.inl ⟨reason, rfl, rfl, rfl⟩)
      | ok passed =>
          cases passed
          exact .inr (.inr ⟨rfl, rfl, rfl⟩)

@[simp] theorem BlockObject.CheckBlock_block (obj : BlockObject) (flags : CheckFlags) :
    (obj.CheckBlock ctx sha256 flags).2.block = obj.block := by
  rcases @BlockObject.CheckBlock_cases ctx sha256 obj flags with
    ⟨_, called⟩ | ⟨_, _, _, called⟩ | ⟨_, _, called⟩ <;> rw [called]

theorem BlockObject.CheckBlock_memoSound {obj : BlockObject} (sound : obj.MemoSound ctx sha256)
    (flags : CheckFlags) : (obj.CheckBlock ctx sha256 flags).2.MemoSound ctx sha256 := by
  rcases @BlockObject.CheckBlock_cases ctx sha256 obj flags with
    ⟨_, called⟩ | ⟨_, _, _, called⟩ | ⟨_, passed, called⟩
  · rw [called]
    exact sound
  · rw [called]
    exact sound
  · rw [called]
    intro set
    -- the flag is set only when both checks ran
    have both : flags.fCheckPOW = true ∧ flags.fCheckMerkleRoot = true := by
      simpa using set
    rw [both.1, both.2] at passed
    exact passed

/-- One call: a success passes every check of a fresh call but the signature's. -/
theorem BlockObject.CheckBlock_sound {obj : BlockObject} (sound : obj.MemoSound ctx sha256)
    {flags : CheckFlags} (accepted : (obj.CheckBlock ctx sha256 flags).1 = .ok ()) :
    Validation.CheckBlock ctx sha256 obj.block flags.fCheckPOW flags.fCheckMerkleRoot false = .ok () := by
  rcases @BlockObject.CheckBlock_cases ctx sha256 obj flags with
    ⟨set, _⟩ | ⟨_, _, _, called⟩ | ⟨_, passed, _⟩
  · exact CheckBlock_of_all_flags (sound set) _ _
  · rw [called] at accepted
    cases accepted
  · exact passed

/-- A call on a set flag succeeds, whatever its flags and the signature. -/
theorem BlockObject.CheckBlock_of_fChecked {obj : BlockObject} (set : obj.fChecked = true)
    (flags : CheckFlags) : obj.CheckBlock ctx sha256 flags = (.ok (), obj) := by
  rcases @BlockObject.CheckBlock_cases ctx sha256 obj flags with ⟨_, called⟩ | ⟨_, unset, _⟩ | ⟨unset, _⟩
  · exact called
  · rw [set] at unset
    cases unset
  · rw [set] at unset
    cases unset

/-- The first call that checks proof of work and merkle root on a block that
passes them and the rest sets the flag, whether the signature verifies or not. -/
theorem BlockObject.CheckBlock_sets_fChecked {block : CBlock}
    (passed : Validation.CheckBlock ctx sha256 block true true false = .ok ()) (fCheckSignature : Bool) :
    ((BlockObject.fresh block).CheckBlock ctx sha256
      { fCheckSignature := fCheckSignature }).2.fChecked = true := by
  rcases @BlockObject.CheckBlock_cases ctx sha256 (BlockObject.fresh block) { fCheckSignature := fCheckSignature }
    with ⟨set, _⟩ | ⟨_, _, failed, _⟩ | ⟨_, _, called⟩
  · cases set
  · cases passed.symm.trans failed
  · rw [called]
    rfl

@[simp] theorem BlockObject.CheckBlockCalls_length (obj : BlockObject) (calls : List CheckFlags) :
    (obj.CheckBlockCalls ctx sha256 calls).1.length = calls.length := by
  induction calls generalizing obj with
  | nil => rfl
  | cons flags calls ih => simp [BlockObject.CheckBlockCalls, ih]

/-- Every call of a run on a sound object: each success passes every check of
a fresh call with the same flags but the signature's. -/
theorem BlockObject.CheckBlockCalls_sound {obj : BlockObject} (sound : obj.MemoSound ctx sha256)
    (calls : List CheckFlags) :
    ∀ call ∈ calls.zip (obj.CheckBlockCalls ctx sha256 calls).1, call.2 = .ok () →
      Validation.CheckBlock ctx sha256 obj.block call.1.fCheckPOW call.1.fCheckMerkleRoot false = .ok () := by
  induction calls generalizing obj with
  | nil => simp [BlockObject.CheckBlockCalls]
  | cons flags calls ih =>
    intro call member accepted
    simp only [BlockObject.CheckBlockCalls, List.zip_cons_cons, List.mem_cons] at member
    rcases member with first | later
    · subst first
      exact BlockObject.CheckBlock_sound sound accepted
    · have next := ih (BlockObject.CheckBlock_memoSound sound flags) call later accepted
      rwa [BlockObject.CheckBlock_block] at next

/-- Once the flag is set every later call succeeds. -/
theorem BlockObject.CheckBlockCalls_of_fChecked {obj : BlockObject} (set : obj.fChecked = true)
    (calls : List CheckFlags) :
    obj.CheckBlockCalls ctx sha256 calls = (calls.map fun _ => .ok (), obj) := by
  induction calls with
  | nil => rfl
  | cons flags calls ih =>
    simp only [BlockObject.CheckBlockCalls, BlockObject.CheckBlock_of_fChecked set, ih,
      List.map_cons]

/-- A first call that checks proof of work and merkle root decides for all
later calls: on a block that passes everything but its signature, each of
them succeeds, the signature never checked again. -/
theorem BlockObject.CheckBlockCalls_after_first {block : CBlock}
    (passed : Validation.CheckBlock ctx sha256 block true true false = .ok ()) (fCheckSignature : Bool)
    (calls : List CheckFlags) :
    ((BlockObject.fresh block).CheckBlockCalls ctx sha256
      ({ fCheckSignature := fCheckSignature } :: calls)).1.tail = calls.map fun _ => .ok () := by
  simp only [BlockObject.CheckBlockCalls, List.tail_cons]
  rw [BlockObject.CheckBlockCalls_of_fChecked
    (BlockObject.CheckBlock_sets_fChecked passed fCheckSignature)]

end Calls

/-! ## A block whose signature does not verify -/

/-- `acceptingContext` before the BIP16 switch, so that proof-of-work blocks
are signed too, and with no block signature that verifies. -/
def unsignedContext : Context :=
  { acceptingContext with
    IsBTC16BIPsEnabled := fun _ => false
    CheckBlockSignature := fun _ => false }

set_option maxRecDepth 20000 in
theorem unsignedBlock_passes_submitblock_calls :
    CheckBlock unsignedContext sumHash untimedBlock true true true = .error "bad-blk-sign" ∧
      ((BlockObject.fresh untimedBlock).CheckBlockCalls unsignedContext sumHash
        submitblockCalls).1 = [.ok (), .ok (), .ok (), .ok ()] := by
  have passed : CheckBlock unsignedContext sumHash untimedBlock true true false = .ok () := rfl
  refine ⟨rfl, ?_⟩
  have later := BlockObject.CheckBlockCalls_after_first passed false [{}, {}, {}]
  have first : ((BlockObject.fresh untimedBlock).CheckBlock unsignedContext sumHash
      { fCheckSignature := false }).1 = .ok () := by
    simp [BlockObject.CheckBlock, BlockObject.fresh, passed, CheckBlockSignatureStep]
  simp only [submitblockCalls, BlockObject.CheckBlockCalls] at later ⊢
  rw [List.tail_cons] at later
  rw [first, later]
  rfl

end Peercoin.Validation
