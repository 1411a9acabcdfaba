import Bitcoin.Key

/-!
# Keys as text

A key is handed on as 78 bytes in base58: four bytes that tell the network and the half, the depth,
the fingerprint of the parent, the number of the child, the chain code and one half of the key.  The
path is not written, so a key that is read back knows the last step of its path at most.

* `toPublicText` writes the public half, `toPrivateText` the private one.
* `ofText` reads both.

The reader is stricter than the fields demand.  A key at depth zero has no parent, so the four bytes
for it and the index must be zero; a public half must be the spelling of a point on the curve, and a
private half must be in range with a zero in front.  None of this is ever written of a key that can
be obtained, so nothing is lost by refusing it.
-/

set_option autoImplicit false

namespace Bitcoin

open Curve

/-- Which half of a key is written. -/
inductive KeyHalf where
  | publicHalf
  | privateHalf
deriving DecidableEq

/-- The networks as far as serialized keys tell them apart: the test networks share their numbers.
-/
def Network.forKeys : Network → Network
  | .mainnet => .mainnet
  | _ => .testnet

namespace KeyHalf

/-- The number in front of a serialized key. -/
def version (half : KeyHalf) (network : Network) : Nat :=
  match network.forKeys, half with
  | .mainnet, publicHalf => 0x0488B21E
  | .mainnet, privateHalf => 0x0488ADE4
  | _, publicHalf => 0x043587CF
  | _, privateHalf => 0x04358394

/-- The network and the half that a number stands for. -/
def ofVersion? (n : Nat) : Option (Network × KeyHalf) :=
  [(Network.mainnet, publicHalf), (.mainnet, privateHalf), (.testnet, publicHalf),
    (.testnet, privateHalf)].find? fun (network, half) => version half network == n

theorem ofVersion?_version (half : KeyHalf) (network : Network) :
    ofVersion? (half.version network) = some (network.forKeys, half) := by
  cases half <;> cases network <;> rfl

end KeyHalf

namespace ExtendedKey

/-- The length of a serialized key. -/
def serializedLength : Nat := 78

/-- The 78 bytes of a key, with one half of it as 33 bytes. -/
def serialize (key : ExtendedKey) (version : Nat) (half : FixedBytes 33) : Bytes :=
  Bytes.bigEndian 4 version ++ [key.depth] ++ key.parentFingerprint.toBytes ++
    Bytes.bigEndian 4 key.childNumber.raw.toNat ++ key.chainCode.toBytes ++ half.toBytes

theorem length_serialize (key : ExtendedKey) (version : Nat) (half : FixedBytes 33) :
    (key.serialize version half).length = serializedLength := by
  simp [serialize, serializedLength]

/-- The public half as text. -/
def toPublicText (key : ExtendedKey) (network : Network) : String :=
  Base58.encodeChecked (key.serialize (KeyHalf.publicHalf.version network) key.pointBytes)

/-- A private half as 33 bytes, with a zero in front. -/
def secretField (secret : Secret) : FixedBytes 33 := ⟨0 :: secret.toBytes.toBytes, by simp⟩

/-- The private half as text, if it is known. -/
def toPrivateText (key : ExtendedKey) (network : Network) : Except KeyError String :=
  match key.secret with
  | some secret =>
    .ok (Base58.encodeChecked
      (key.serialize (KeyHalf.privateHalf.version network) (secretField secret)))
  | none => .error .noPrivateHalf

/-- The path that a key of some depth knows: nothing for the master key, which can be nobody's
child, and one step for others. -/
def pathOfStep (depth : UInt8) (parentFingerprint : FixedBytes 4) (child : ChildNumber) :
    Except SerializedKeyFault KeyPath :=
  if depth = 0 then
    if parentFingerprint ≠ .zero 4 then .error .masterWithParent
    else if child ≠ .first then .error .masterWithIndex
    else .ok .master
  else .ok ⟨[child]⟩

/-- The private half in the last 33 bytes of a serialized key. -/
def secretOfField (field : FixedBytes 33) : Except SerializedKeyFault Secret :=
  if field.toBytes.head? ≠ some 0 then .error .privateMark
  else
    match Secret.ofBytes? (field.slice 1 32 (by decide)) with
    | some secret => .ok secret
    | none => .error .privateRange

/-- The key that 78 bytes spell, and its network. -/
def deserialize (bytes : FixedBytes serializedLength) :
    Except SerializedKeyFault (ExtendedKey × Network) :=
  match KeyHalf.ofVersion? (Bytes.toNatBE (bytes.slice 0 4 (by decide)).toBytes) with
  | none => .error .version
  | some (network, half) => do
    let depth := UInt8.ofNat (Bytes.toNatBE (bytes.slice 4 1 (by decide)).toBytes)
    let parentFingerprint := bytes.slice 5 4 (by decide)
    let child : ChildNumber := ⟨UInt32.ofNat (Bytes.toNatBE (bytes.slice 9 4 (by decide)).toBytes)⟩
    let chainCode := bytes.slice 13 32 (by decide)
    let field := bytes.slice 45 33 (by decide)
    let path ← pathOfStep depth parentFingerprint child
    match half with
    | .publicHalf =>
      match Point.decompress? field with
      | some point => .ok (ofPoint path depth chainCode point parentFingerprint, network)
      | none => .error .publicPoint
    | .privateHalf => do
      let secret ← secretOfField field
      return (ofSecret path depth chainCode secret parentFingerprint, network)

/-- The key that a text spells, and its network. -/
def ofText (text : String) : Except KeyError (ExtendedKey × Network) :=
  match Base58.decodeChecked text with
  | .error e => .error (.base58 e)
  | .ok bytes =>
    match FixedBytes.ofBytes? serializedLength bytes with
    | none => .error (.invalidSerializedKey .length)
    | some fixed => (deserialize fixed).mapError .invalidSerializedKey

end ExtendedKey

end Bitcoin
