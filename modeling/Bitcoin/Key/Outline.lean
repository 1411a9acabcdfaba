import Bitcoin.Key
import Bitcoin.Message.Outline

/-!
# Keys and their errors as outlines

How keys and errors are shown to a person.  The private half of a key is never shown.
-/

set_option autoImplicit false

namespace Bitcoin

open Text (Outline textOutline)
open Text.Outline (atom field group list number tuple)

/-- A path as the list of its steps. -/
def KeyPath.outline (path : KeyPath) : Outline :=
  tuple "DerivationPath" [
    list (path.steps.map fun step => tuple "ChildNumber" [number step.raw.toNat])]

/-- A key, without its private half. -/
def ExtendedKey.outline (key : ExtendedKey) : Outline := group "ExtendedKey" .braces [
  field "path" (atom key.path.toString), field "depth" (number key.depth.toNat),
  field "public" (textOutline (Bytes.toHex key.pointBytes.toBytes)),
  field "watching" (atom (if key.isWatching then "true" else "false")), atom ".."]

/-- An error of a key as it is shown. -/
def KeyError.outline : KeyError → Outline
  | .invalidChildIndex index => tuple "InvalidChildIndex" [number index]
  | .seedTooShort length => tuple "SeedTooShort" [number length]
  | .invalidDerivation => atom "InvalidDerivation"
  | .hardenedFromPublic => atom "PrivateDerivationFromPublic"
  | .attemptsExhausted => atom "MaxAttemptsExceeded"
  | .keyNotFound path => tuple "KeyNotFound" [path.outline]
  | .noPrivateHalf => atom "MissingPrivateKey"
  | .maxDepthReached => atom "MaxDepthExceeded"
  | .noParent => atom "NoParent"
  | .invalidPath text => tuple "InvalidPath" [textOutline text]
  | .base58 error => tuple "Base58" [textOutline error.message]
  | .invalidKeyBytes fault => tuple "InvalidKeyBytes" [textOutline fault.message]
  | .invalidSerializedKey fault => tuple "InvalidSerializedKey" [textOutline fault.message]

end Bitcoin
