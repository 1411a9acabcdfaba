import Bitcoin.Digest.Sha512

/-!
# Keyed hashing

HMAC with SHA-512: the message is hashed behind one mask of the key, and the result behind another.
-/

set_option autoImplicit false

namespace Bitcoin

/-- The key as a whole block of 128 bytes; a longer key is hashed first. -/
def hmacKeyBlock (key : Bytes) : Bytes :=
  let short := if key.length ≤ 128 then key else (Sha512.digest key).toBytes
  short ++ Bytes.zeros (128 - short.length)

/-- The keyed hash of a message. -/
def hmacSha512 (key message : Bytes) : FixedBytes 64 :=
  let block := hmacKeyBlock key
  let inner := Sha512.digest (block.map (· ^^^ 0x36) ++ message)
  Sha512.digest (block.map (· ^^^ 0x5c) ++ inner.toBytes)

end Bitcoin
