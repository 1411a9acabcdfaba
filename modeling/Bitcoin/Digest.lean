import Bitcoin.Digest.Sha256
import Bitcoin.Digest.Ripemd160

/-!
# Digests of the protocol

* `doubleSha256` names blocks and transactions; its first four bytes are the `checksum` of a payload
  and of a base58 text.
* `hash160` names public keys.
-/

set_option autoImplicit false

namespace Bitcoin

/-- A 32-byte hash, in the order in which it travels. -/
abbrev Hash256 := FixedBytes 32

/-- SHA-256 of a run of bytes. -/
def sha256 (data : Bytes) : Hash256 := Sha256.digest data

/-- SHA-256 applied twice. -/
def doubleSha256 (data : Bytes) : Hash256 := sha256 (sha256 data).toBytes

/-- RIPEMD-160 of SHA-256. -/
def hash160 (data : Bytes) : FixedBytes 20 := Ripemd160.digest (sha256 data).toBytes

/-- The first four bytes of a hash. -/
def checksumOfHash (hash : Hash256) : FixedBytes 4 := hash.slice 0 4 (by decide)

/-- The first four bytes of the double hash. -/
def checksum (data : Bytes) : FixedBytes 4 := checksumOfHash (doubleSha256 data)

end Bitcoin
