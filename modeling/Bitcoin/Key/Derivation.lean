import Bitcoin.Digest.Hmac
import Bitcoin.Key
import Bitcoin.KeyPath.Parse
import Bitcoin.Text.Utf8

/-!
# Deriving keys

A keyed hash turns a seed into the master key, and a key with the number of a child into the child.
The left half of the hash is a scalar that is added to the parent, the right half is the chain code
of the child.

* `Secret.add?` and `Point.addScalar?` add the scalar to a private and to a public half.  **They
  agree**: the public half of the sum is the sum of the public half, which is why a watching key has
  the same children.
* `ExtendedKey.derive` gives one child, `derivePath` follows a path, and `deriveNext` passes over
  the indices that have no key.
-/

set_option autoImplicit false

namespace Bitcoin

open Curve

/-- The sum of a private half and a scalar, if it is in range. -/
def Secret.add? (secret : Secret) (scalar : Nat) : Option Secret :=
  Secret.ofNat? ((secret.value + scalar) % order)

/-- The sum of a point and the point of a scalar, if it is not at infinity. -/
def Curve.Point.addScalar? (point : Point) (scalar : Nat) : Option Point :=
  match Point.ofScalar scalar + point with
  | .infinity => none
  | sum => some sum

namespace ExtendedKey

/-- The key under which seeds are hashed. -/
def seedHashKey : Bytes := Text.toUtf8 "Bitcoin seed"

/-- The fewest bytes of a seed. -/
def minSeedLength : Nat := 9

/-- The left half of a keyed hash, as a scalar. -/
def leftScalar (hash : FixedBytes 64) : Nat := Bytes.toNatBE (hash.slice 0 32 (by decide)).toBytes

/-- The right half of a keyed hash. -/
def rightHalf (hash : FixedBytes 64) : FixedBytes 32 := hash.slice 32 32 (by decide)

/-- The master key of a seed. -/
def ofSeed (seed : Bytes) : Except KeyError ExtendedKey :=
  if seed.length < minSeedLength then .error (.seedTooShort seed.length)
  else
    let hash := hmacSha512 seedHashKey seed
    match Secret.ofNat? (leftScalar hash) with
    | some secret => .ok (ofSecret .master 0 (rightHalf hash) secret (.zero 4))
    | none => .error .invalidDerivation

/-- What is hashed for a child: the private half of the parent for a hardened child, if it is known,
and the public half otherwise, and the number of the child. -/
def derivationData (parent : ExtendedKey) (child : ChildNumber) : Bytes :=
  let number := Bytes.bigEndian 4 child.raw.toNat
  match parent.secret with
  | some secret =>
    if child.isHardened then 0 :: secret.toBytes.toBytes ++ number
    else parent.pointBytes.toBytes ++ number
  | none => parent.pointBytes.toBytes ++ number

/-- The child of a parent for a hash of its data. -/
def childOfHash (parent : ExtendedKey) (child : ChildNumber) (hash : FixedBytes 64) :
    Except KeyError ExtendedKey :=
  let scalar := leftScalar hash
  let path := parent.path.child child
  let depth := parent.depth + 1
  if order ≤ scalar then .error .invalidDerivation
  else
    match parent.secret with
    | some secret =>
      match secret.add? scalar with
      | some sum => .ok (ofSecret path depth (rightHalf hash) sum parent.fingerprint)
      | none => .error .invalidDerivation
    | none =>
      match parent.point.addScalar? scalar with
      | some sum => .ok (ofPoint path depth (rightHalf hash) sum parent.fingerprint)
      | none => .error .invalidDerivation

/-- The child of a key. -/
def derive (parent : ExtendedKey) (child : ChildNumber) : Except KeyError ExtendedKey :=
  if child.isHardened && parent.isWatching then .error .hardenedFromPublic
  else if parent.depth = 255 then .error .maxDepthReached
  else childOfHash parent child (hmacSha512 parent.chainCode.toBytes (derivationData parent child))

/-- The key at the end of a path that starts at this key. -/
def derivePath (key : ExtendedKey) (path : KeyPath) : Except KeyError ExtendedKey :=
  path.steps.foldlM derive key

/-- How many indices in a row are tried. -/
def maxAttempts : Nat := 100

/-- The first of `attempts` children in a row that has a key, from `places` behind a child on. -/
def deriveFrom (parent : ExtendedKey) (child : ChildNumber) (places : Nat) :
    Nat → Except KeyError ExtendedKey
  | 0 => .error .attemptsExhausted
  | attempts + 1 => do
    let candidate ← child.offset places
    match derive parent candidate with
    | .error .invalidDerivation => deriveFrom parent child (places + 1) attempts
    | result => result

/-- The child of a key, or the first one behind it that has a key. -/
def deriveNext (parent : ExtendedKey) (child : ChildNumber) : Except KeyError ExtendedKey :=
  deriveFrom parent child 0 maxAttempts

end ExtendedKey

end Bitcoin
