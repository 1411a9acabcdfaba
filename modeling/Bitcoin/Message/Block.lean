import Bitcoin.Message.BlockHeader
import Bitcoin.Message.Transaction

/-!
# Blocks

A block is a header and transactions.  A node that filters its traffic is sent merkle blocks
instead: the header and the part of the hash tree that proves its transactions.  What is filtered is
said by a bloom filter.

A block is read as its transactions are, in the formats that the version of the protocol knows; the
header is the same for all versions.  Neither the proof of work nor the hash tree is looked at.
This is a library for reading and writing, and what a block claims is for others to find out.
-/

set_option autoImplicit false

namespace Bitcoin

/-- A block. -/
structure Block where
  header : BlockHeader
  transactions : List Transaction
deriving DecidableEq, Inhabited

namespace Block

/-- The header, and the transactions behind their number. -/
def write (block : Block) : Bytes :=
  block.header.write ++ CompactSize.encodeList Transaction.write block.transactions

/-- Every transaction is read in the formats that the protocol version knows. -/
def read (protocol : ProtocolVersion) : Reader Block := do
  let header ← BlockHeader.read
  let transactions ← Reader.list "block: txn_count" maxTransactionItems (Transaction.read protocol)
  return ⟨header, transactions⟩

end Block

/-- The header of a block and a part of its hash tree. -/
structure MerkleBlock where
  header : BlockHeader
  totalTransactions : UInt32
  hashes : List Hash256
  flags : Bytes
deriving DecidableEq, Inhabited

namespace MerkleBlock

/-- The header, the number of all transactions of the block, and the part of the hash tree. -/
def write (merkle : MerkleBlock) : Bytes :=
  merkle.header.write ++ Bytes.littleEndian 4 merkle.totalTransactions.toNat ++
    CompactSize.encodeList FixedBytes.toBytes merkle.hashes ++ CompactSize.encodeBytes merkle.flags

/-- Whether the hashes are a part of a hash tree is not looked at. -/
def read : Reader MerkleBlock := do
  let header ← BlockHeader.read
  let totalTransactions ← Reader.u32 "merkleblock: total_transactions"
  let hashes ← Reader.list "merkleblock: hash count" maxTransactionItems
    (Reader.fixed 32 "merkleblock: hash")
  let flags ← Reader.varBytes "merkleblock: flags"
  return ⟨header, totalTransactions, hashes, flags⟩

end MerkleBlock

/-- A filter that says which transactions a node is interested in. -/
structure BloomFilter where
  data : Bytes
  hashFunctions : UInt32
  tweak : UInt32
  flags : UInt8
deriving DecidableEq, Inhabited

namespace BloomFilter

/-- The longest filter. -/
def maxLength : Nat := 36000

/-- The most hash functions. -/
def maxHashFunctions : UInt32 := 50

/-- The bits of the filter behind their length, and the three numbers that go with them. -/
def write (filter : BloomFilter) : Bytes :=
  CompactSize.encodeBytes filter.data ++ Bytes.littleEndian 4 filter.hashFunctions.toNat ++
    Bytes.littleEndian 4 filter.tweak.toNat ++ [filter.flags]

/-- Each limit is looked at as soon as its field is read. -/
def read : Reader BloomFilter := do
  let data ← Reader.varBytes "filterload: data"
  if maxLength < data.length then Reader.refuse .filterTooLong
  else
    let hashFunctions ← Reader.u32 "filterload: hash_funcs"
    if maxHashFunctions < hashFunctions then Reader.refuse .tooManyHashFunctions
    else
      let tweak ← Reader.u32 "filterload: tweak"
      let flags ← Reader.u8 "filterload: flags"
      return ⟨data, hashFunctions, tweak, flags⟩

/-- A filter that the reader would refuse is not written. -/
def check (filter : BloomFilter) : Except PayloadError Unit :=
  if maxLength < filter.data.length then .error (.invalid .filterTooLong)
  else if maxHashFunctions < filter.hashFunctions then .error (.invalid .tooManyHashFunctions)
  else .ok ()

end BloomFilter

end Bitcoin
