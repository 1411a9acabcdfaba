import Bitcoin.Curve.Encoding
import Bitcoin.Key.Error
import Bitcoin.Network

/-!
# Extended keys

A key of the tree is a point of the curve, its public half, and if it is known the scalar that the
point is a multiple by, its private half.  With the chain code it gives rise to children; a key
without private half can only have children that are not hardened, and is good for watching.

* `Secret` is a scalar in the range of private halves, by its type.
* `ExtendedKey.ofSecret` and `ExtendedKey.ofPoint` are the two ways to make a key; the first
  computes the public half.
* `ExtendedKey.neuter` forgets the private half.
-/

set_option autoImplicit false

namespace Bitcoin

open Curve

/-- A private half: a scalar other than zero, below the order of the curve. -/
structure Secret where
  value : Nat
  value_pos : 0 < value
  value_lt : value < order
deriving DecidableEq

namespace Secret

/-- A scalar as a private half, if it is in range. -/
def ofNat? (n : Nat) : Option Secret := if h : 0 < n ∧ n < order then some ⟨n, h.1, h.2⟩ else none

/-- The private half that 32 bytes spell. -/
def ofBytes? (bytes : FixedBytes 32) : Option Secret := ofNat? (Bytes.toNatBE bytes.toBytes)

/-- The 32 bytes of a private half. -/
def toBytes (secret : Secret) : FixedBytes 32 :=
  ⟨Bytes.bigEndian 32 secret.value, Bytes.length_bigEndian 32 _⟩

theorem ofBytes?_toBytes (secret : Secret) : ofBytes? secret.toBytes = some secret := by
  have hlt : secret.value < Bytes.capacity 32 := Nat.lt_trans secret.value_lt (by decide)
  rw [ofBytes?, toBytes, Bytes.toNatBE_bigEndian, Nat.mod_eq_of_lt hlt, ofNat?,
    dif_pos ⟨secret.value_pos, secret.value_lt⟩]

/-- The point that belongs to a private half. -/
def toPoint (secret : Secret) : Point := Point.ofScalar secret.value

end Secret

/-- A key of the tree.  A key that was read from a text knows its depth, but of its path only the
last step. -/
structure ExtendedKey where
  path : KeyPath
  depth : UInt8
  chainCode : FixedBytes 32
  secret : Option Secret
  point : Point
  parentFingerprint : FixedBytes 4
deriving DecidableEq

namespace ExtendedKey

/-- The key with a private half. -/
def ofSecret (path : KeyPath) (depth : UInt8) (chainCode : FixedBytes 32) (secret : Secret)
    (parentFingerprint : FixedBytes 4) : ExtendedKey :=
  ⟨path, depth, chainCode, some secret, secret.toPoint, parentFingerprint⟩

/-- The key of which only the public half is known. -/
def ofPoint (path : KeyPath) (depth : UInt8) (chainCode : FixedBytes 32) (point : Point)
    (parentFingerprint : FixedBytes 4) : ExtendedKey :=
  ⟨path, depth, chainCode, none, point, parentFingerprint⟩

/-- The master key with a private half that was computed elsewhere. -/
def masterOfSecretBytes (bytes chainCode : FixedBytes 32) : Except KeyError ExtendedKey :=
  match Secret.ofBytes? bytes with
  | some secret => .ok (ofSecret .master 0 chainCode secret (.zero 4))
  | none => .error (.invalidKeyBytes .privateRange)

/-- The master key with a public half that was computed elsewhere. -/
def masterOfPointBytes (bytes : FixedBytes 33) (chainCode : FixedBytes 32) :
    Except KeyError ExtendedKey :=
  match Point.decompress? bytes with
  | some point => .ok (ofPoint .master 0 chainCode point (.zero 4))
  | none => .error (.invalidKeyBytes .publicPoint)

/-- The last step of the path; the master key counts as a first child. -/
def childNumber (key : ExtendedKey) : ChildNumber := key.path.last?.getD .first

/-- Whether only the public half is known. -/
def isWatching (key : ExtendedKey) : Bool := key.secret.isNone

/-- The key without its private half. -/
def neuter (key : ExtendedKey) : ExtendedKey := { key with secret := none }

/-- The public half as bytes. -/
def pointBytes (key : ExtendedKey) : FixedBytes 33 := key.point.compress

/-- The hash of the public half. -/
def identifier (key : ExtendedKey) : FixedBytes 20 := hash160 key.pointBytes.toBytes

/-- The first four bytes of that hash, by which children name their parent. -/
def fingerprint (key : ExtendedKey) : FixedBytes 4 := key.identifier.slice 0 4 (by decide)

end ExtendedKey

end Bitcoin
