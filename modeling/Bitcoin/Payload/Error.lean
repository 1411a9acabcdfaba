/-!
# Why a payload is refused

A payload is refused while it is read (`PayloadError`), and a message is refused before it is
written if its payload would be refused by the reader.  Rules that tie fields together are
`Violation`s; both directions share them.
-/

set_option autoImplicit false

namespace Bitcoin

/-- A rule of a message format that a well-formed run of fields breaks. -/
inductive Violation where
  /-- The bytes of a text are not UTF-8. -/
  | notUtf8 (field : String)
  /-- The relay flag of a version message is neither zero nor one. -/
  | relayFlag
  /-- A peer address is longer than 512 bytes. -/
  | addressTooLong
  /-- A peer address does not have the length of its network. -/
  | addressLength (network : String) (size : Nat)
  /-- A peer address that claims to be of an unknown network has the number of a known one. -/
  | addressNetworkReserved
  /-- An inventory kind that claims to be unnamed has the number of a named one. -/
  | inventoryKindReserved
  /-- A block header in a list of headers is followed by transactions. -/
  | headerWithTransactions
  /-- The witness section of a transaction is there, and empty. -/
  | superfluousWitness
  /-- A transaction announces sections that no version knows. -/
  | unknownTransactionSections
  /-- A transaction has witnesses, and the peer does not know them. -/
  | witnessNotUnderstood
  /-- A transaction without inputs would be read as one with a witness section. -/
  | transactionWithoutInputs
  /-- A bloom filter is longer than 36000 bytes. -/
  | filterTooLong
  /-- A bloom filter uses more than 50 hash functions. -/
  | tooManyHashFunctions
  /-- A ping has no nonce, and the peer expects one. -/
  | pingWithoutNonce
deriving DecidableEq

namespace Violation

/-- The rule that is broken, in words. -/
def message : Violation → String
  | notUtf8 field => field
  | relayFlag => "version: relay flag must be 0 or 1"
  | addressTooLong => "addrv2: addr field exceeds 512-byte limit"
  | addressLength network size => "addrv2: " ++ network ++ " must be " ++ toString size ++ " bytes"
  | addressNetworkReserved => "addrv2: unknown address uses a BIP155 network id"
  | inventoryKindReserved => "inv: Other type uses a named type value"
  | headerWithTransactions => "headers: txn_count must be zero"
  | superfluousWitness => "tx: superfluous witness record"
  | unknownTransactionSections => "tx: unknown optional data"
  | witnessNotUnderstood => "tx: witness data needs protocol version 70012 or later"
  | transactionWithoutInputs => "tx: a transaction without inputs is ambiguous"
  | filterTooLong => "filterload: filter exceeds 36000 bytes"
  | tooManyHashFunctions => "filterload: too many hash functions"
  | pingWithoutNonce => "ping: nonce required from protocol version 60000"

end Violation

/-- Why a payload is refused.  A field is named by its message and its place in it. -/
inductive PayloadError where
  /-- The payload ends inside a field. -/
  | unexpectedEnd (field : String)
  /-- A compact size is not in its shortest form. -/
  | nonCanonicalSize
  /-- A list is longer than its message allows. -/
  | tooManyEntries (field : String) (count max : Nat)
  /-- The payload goes on behind its last field. -/
  | trailingBytes (format : String) (remaining : Nat)
  | invalid (violation : Violation)
deriving DecidableEq

namespace PayloadError

/-- The error in words. -/
def message : PayloadError → String
  | unexpectedEnd field => "unexpected end of payload while reading " ++ field
  | nonCanonicalSize => "non-canonical CompactSize encoding"
  | tooManyEntries field count max =>
    field ++ ": " ++ toString count ++ " entries exceeds the limit of " ++ toString max
  | trailingBytes format remaining =>
    format ++ ": " ++ toString remaining ++ " unexpected trailing bytes"
  | invalid violation => "invalid payload: " ++ violation.message

end PayloadError

end Bitcoin
