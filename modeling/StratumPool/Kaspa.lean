import StratumPool.Text
import Mathlib.Data.Vector.Basic

namespace StratumPool.Kaspa

open StratumPool.Text

abbrev Hash := Vector UInt8 32

abbrev Uint192 := Fin (2 ^ 192)

abbrev Uint256 := Fin (2 ^ 256)

instance uint192NeZero : NeZero (2 ^ 192) := ⟨by decide⟩

instance uint256NeZero : NeZero (2 ^ 256) := ⟨by decide⟩

/-- The consensus header, `hash` being the value cached by `new_finalized`. -/
structure Header where
  hash : Hash
  version : UInt16
  parentsByLevel : List (List Hash)
  hashMerkleRoot : Hash
  acceptedIdMerkleRoot : Hash
  utxoCommitment : Hash
  timestamp : UInt64
  bits : UInt32
  nonce : UInt64
  daaScore : UInt64
  blueWork : Uint192
  blueScore : UInt64
  pruningPoint : Hash

structure RpcBlockHeader where
  version : UInt32
  parents : List (List Str)
  hashMerkleRoot : Str
  acceptedIdMerkleRoot : Str
  utxoCommitment : Str
  timestamp : Int64
  bits : UInt32
  nonce : UInt64
  daaScore : UInt64
  blueWork : Str
  blueScore : UInt64
  pruningPoint : Str
  hash : Str

/-- A block template from the node. Its transactions and verbose data go
through the pool unread; they are the `Body`. -/
structure RpcBlock (Body : Type) where
  header : Option RpcBlockHeader
  body : Body

/-- The functions of the node's own crates that the pool calls. -/
structure Crates where
  hashFromStr : Str → Option Hash
  uint192FromHex : Str → Option Uint192
  compressParents : List (List Hash) → Option (List (List Hash))
  headerHash : Header → Hash
  hashOverrideNonceTime : Header → UInt64 → UInt64 → Hash
  checkPow : Header → UInt64 → Bool × Uint256

end StratumPool.Kaspa
