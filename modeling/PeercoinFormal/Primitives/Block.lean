import PeercoinFormal.Primitives.TransactionFormat

/-!
# primitives/block.h: blocks and their wire form

A block is its header and its transactions.  Peercoin adds `nFlags` to the
header, which goes on the wire only in streams of type `SER_POSMARKER` and
never into the header hash, and the block signature `vchBlockSig` after the
transactions.  The cached-check flags of `CBlock` (`fChecked` and the two
witness and merkle flags) only memoise `CheckBlock` and are left out.
-/

set_option autoImplicit false

namespace Peercoin.Primitives

open Peercoin.Serialize

structure CBlockHeader where
  nVersion : Int32
  hashPrevBlock : uint256
  hashMerkleRoot : uint256
  nTime : UInt32
  nBits : UInt32
  nNonce : UInt32
  nFlags : UInt32
  deriving DecidableEq

structure CBlock extends CBlockHeader where
  vtx : List CTransaction
  vchBlockSig : List UInt8
  deriving DecidableEq

/-- `CBlockHeader::SERIALIZE_METHODS`; `posmarker` is a stream of type
`SER_POSMARKER` that is not `SER_GETHASH`. -/
def SerializeBlockHeader (posmarker : Bool) (header : CBlockHeader) : List UInt8 :=
  serializeInt32 header.nVersion ++ serializeUint256 header.hashPrevBlock ++
    serializeUint256 header.hashMerkleRoot ++ serializeUInt32 header.nTime ++
    serializeUInt32 header.nBits ++ serializeUInt32 header.nNonce ++
    (if posmarker then serializeUInt32 header.nFlags else [])

/-- `CBlock::SERIALIZE_METHODS`; `fAllowWitness` is a stream without
`SERIALIZE_TRANSACTION_NO_WITNESS`. -/
def SerializeBlock (posmarker fAllowWitness : Bool) (block : CBlock) : List UInt8 :=
  SerializeBlockHeader posmarker block.toCBlockHeader ++
    serializeVector (SerializeTransaction fAllowWitness) block.vtx ++
    serializeBytes block.vchBlockSig

/-- `CBlockHeader::GetHash`: the double hash of the header without `nFlags`. -/
def CBlockHeader.GetHash (sha256 : List UInt8 → uint256) (header : CBlockHeader) : uint256 :=
  Peercoin.Primitives.GetHash sha256 (SerializeBlockHeader false header)

def CBlock.IsProofOfStake (block : CBlock) : Bool :=
  match block.vtx with
  | _ :: coinstake :: _ => coinstake.IsCoinStake
  | _ => false

def CBlock.IsProofOfWork (block : CBlock) : Bool := !block.IsProofOfStake

/-- The second transaction `vtx[1]`, where a proof-of-stake block has its
coinstake. -/
def CBlock.coinstake? (block : CBlock) : Option CTransaction :=
  match block.vtx with
  | _ :: coinstake :: _ => some coinstake
  | _ => none

/-- `CBlock::GetProofOfStake`: the coinstake's first prevout and its time,
or a null outpoint and zero for a proof-of-work block. -/
def CBlock.GetProofOfStake (block : CBlock) : COutPoint × UInt32 :=
  match block.vtx with
  | _ :: coinstake :: _ =>
    if coinstake.IsCoinStake then
      ((coinstake.vin.head?.map CTxIn.prevout).getD ⟨uint256.ZERO, COutPoint.NULL_INDEX⟩,
        coinstake.nTime)
    else (⟨uint256.ZERO, COutPoint.NULL_INDEX⟩, 0)
  | _ => (⟨uint256.ZERO, COutPoint.NULL_INDEX⟩, 0)

end Peercoin.Primitives
