import Bitcoin.Digest
import Bitcoin.Payload.Reader

/-!
# Block headers and locators

A header is eighty bytes, and its double hash names the block.  A locator is a list of hashes by
which a node says how far its chain agrees with that of its peer.

Where headers are sent in a list, each is followed by the number of transactions of its block, as if
the block began here.  The number is always zero, and a reader refuses any other.
-/

set_option autoImplicit false

namespace Bitcoin

/-! ## Headers -/

/-- The header of a block. -/
structure BlockHeader where
  version : Int32
  previous : Hash256
  merkleRoot : Hash256
  time : UInt32
  bits : UInt32
  nonce : UInt32
deriving DecidableEq, Inhabited

namespace BlockHeader

/-- The most headers in one message. -/
def maxEntries : Nat := 2000

/-- The eighty bytes of a header. -/
def write (header : BlockHeader) : Bytes :=
  Bytes.littleEndian 4 header.version.toUInt32.toNat ++ header.previous.toBytes ++
    header.merkleRoot.toBytes ++ Bytes.littleEndian 4 header.time.toNat ++
    Bytes.littleEndian 4 header.bits.toNat ++ Bytes.littleEndian 4 header.nonce.toNat

/-- Reads a header.  Any eighty bytes are one. -/
def read : Reader BlockHeader := do
  let version ← Reader.i32 "header: version"
  let previous ← Reader.fixed 32 "header: prev_blockhash"
  let merkleRoot ← Reader.fixed 32 "header: merkle_root"
  let time ← Reader.u32 "header: time"
  let bits ← Reader.u32 "header: bits"
  let nonce ← Reader.u32 "header: nonce"
  return ⟨version, previous, merkleRoot, time, bits, nonce⟩

theorem length_write (header : BlockHeader) : header.write.length = 80 := by simp [write]

/-- The name of the block. -/
def hash (header : BlockHeader) : Hash256 := doubleSha256 header.write

/-- In a list of headers each one is followed by the number of transactions behind it: none. -/
def writeEntry (header : BlockHeader) : Bytes := header.write ++ CompactSize.encode 0

/-- Reads a header and the number of transactions behind it. -/
def readEntry : Reader BlockHeader := do
  let header ← read
  let transactions ← Reader.compactSize "headers: txn_count"
  if transactions = 0 then return header else Reader.refuse .headerWithTransactions

/-- The headers of a header message. -/
def writeList (headers : List BlockHeader) : Bytes := CompactSize.encodeList writeEntry headers

/-- Reads the headers of a header message. -/
def readList : Reader (List BlockHeader) := Reader.list "headers: count" maxEntries readEntry

end BlockHeader

/-! ## Locators -/

/-- How far a chain agrees with that of a peer: some of its hashes, newest first, and the hash to
stop at, with zero for none. -/
structure BlockLocator where
  version : UInt32
  hashes : List Hash256
  stop : Hash256
deriving DecidableEq, Inhabited

namespace BlockLocator

/-- The most hashes in one locator. -/
def maxEntries : Nat := 101

/-- The version of the protocol, the hashes behind their number, and the hash to stop at. -/
def write (locator : BlockLocator) : Bytes :=
  Bytes.littleEndian 4 locator.version.toNat ++
    CompactSize.encodeList FixedBytes.toBytes locator.hashes ++ locator.stop.toBytes

/-- Reads a locator; its version is not compared with that of the connection. -/
def read : Reader BlockLocator := do
  let version ← Reader.u32 "locator: version"
  let hashes ← Reader.list "locator: count" maxEntries (Reader.fixed 32 "locator: hash")
  let stop ← Reader.fixed 32 "locator: stop hash"
  return ⟨version, hashes, stop⟩

end BlockLocator

end Bitcoin
