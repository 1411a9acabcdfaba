import Bitcoin.Base58
import Bitcoin.KeyPath

/-!
# Why a key is refused

What can go wrong between a seed, a path or a text and a key.

A serialized key is looked at in the order of its fields, and what is told is the first thing that
is wrong with it (`SerializedKeyFault`).  The same two faults of a half can occur in bytes that were
not serialized at all, and have a type of their own (`KeyBytesFault`).
-/

set_option autoImplicit false

namespace Bitcoin

/-- What is wrong with the bytes of half a key. -/
inductive KeyBytesFault where
  /-- A private half is zero or not below the order of the curve. -/
  | privateRange
  /-- A public half is no point of the curve. -/
  | publicPoint
deriving DecidableEq

/-- What is wrong with a serialized key. -/
inductive SerializedKeyFault where
  | length
  | version
  /-- A master key claims to have a parent. -/
  | masterWithParent
  /-- A master key claims to be a later child. -/
  | masterWithIndex
  | publicPoint
  /-- A private half is not marked as one. -/
  | privateMark
  | privateRange
deriving DecidableEq

/-- Why there is no key. -/
inductive KeyError where
  /-- An index takes the bit that marks hardened children. -/
  | invalidChildIndex (index : Nat)
  | seedTooShort (length : Nat)
  /-- An index has no key; this is as likely as guessing a key. -/
  | invalidDerivation
  /-- A hardened child of a key without its private half. -/
  | hardenedFromPublic
  /-- One index after another had no key. -/
  | attemptsExhausted
  | keyNotFound (path : KeyPath)
  | noPrivateHalf
  /-- A key is as deep as a serialized key can say. -/
  | maxDepthReached
  /-- The master key is not there, and it is nobody's child. -/
  | noParent
  | invalidPath (text : String)
  | base58 (error : Base58Error)
  | invalidKeyBytes (fault : KeyBytesFault)
  | invalidSerializedKey (fault : SerializedKeyFault)
deriving DecidableEq

/-- The fault in words. -/
def KeyBytesFault.message : KeyBytesFault → String
  | .privateRange => "private key out of range"
  | .publicPoint => "not a compressed public key on the curve"

/-- The fault in words. -/
def SerializedKeyFault.message : SerializedKeyFault → String
  | .length => "wrong length"
  | .version => "unknown version bytes"
  | .masterWithParent => "zero depth with non-zero parent fingerprint"
  | .masterWithIndex => "zero depth with non-zero index"
  | .publicPoint => "invalid public key"
  | .privateMark => "private key must start with 0x00"
  | .privateRange => "private key out of range"

namespace KeyError

/-- The error in words. -/
def message : KeyError → String
  | invalidChildIndex index => "child index " ++ toString index ++ " does not fit in 31 bits"
  | seedTooShort length => "seed of " ++ toString length ++ " bytes is too short, need more than 8"
  | invalidDerivation => "derivation produced an invalid key"
  | hardenedFromPublic => "can't use private derivation with public keys only"
  | attemptsExhausted =>
    "maximum child derivation attempts reached, this is probably an indication of a bug"
  | keyNotFound path => "could not find key with path " ++ path.toString
  | noPrivateHalf => "key has no private half"
  | maxDepthReached => "key is already at the maximum depth of 255"
  | noParent => "can't derive the master key: path is empty"
  | invalidPath text => "invalid derivation path " ++ Text.quoted text
  | base58 error => "invalid base58 key: " ++ error.message
  | invalidKeyBytes fault => "invalid key bytes: " ++ fault.message
  | invalidSerializedKey fault => "invalid serialized extended key: " ++ fault.message

end KeyError

end Bitcoin
