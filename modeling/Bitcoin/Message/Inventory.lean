import Bitcoin.Digest
import Bitcoin.Payload.Reader

/-!
# Inventory

What a node has, wants or lacks is listed as the kind and the hash of each object.  A kind is a
number; those without a name are kept as they came.

That unnamed kinds are kept has a consequence for writing.  A kind that is given as unnamed, with
the number of a named one, would be read back under the name; `InventoryKind.check` refuses it.
-/

set_option autoImplicit false

namespace Bitcoin

/-- The kind of an object. -/
inductive InventoryKind where
  | error
  | transaction
  | block
  | filteredBlock
  | compactBlock
  | transactionByWitnessHash
  | witnessTransaction
  | witnessBlock
  | filteredWitnessBlock
  | other (number : UInt32)
deriving DecidableEq, Inhabited

namespace InventoryKind

/-- The kinds with a name. -/
def named : List InventoryKind :=
  [error, transaction, block, filteredBlock, compactBlock, transactionByWitnessHash,
    witnessTransaction, witnessBlock, filteredWitnessBlock]

/-- The number of a kind; those that ask for witnesses have bit 30 set. -/
def toUInt32 : InventoryKind → UInt32
  | error => 0
  | transaction => 1
  | block => 2
  | filteredBlock => 3
  | compactBlock => 4
  | transactionByWitnessHash => 5
  | witnessTransaction => 0x40000001
  | witnessBlock => 0x40000002
  | filteredWitnessBlock => 0x40000003
  | other number => number

/-- The kind with that number. -/
def ofUInt32 (n : UInt32) : InventoryKind :=
  (named.find? fun kind => kind.toUInt32 == n).getD (other n)

theorem toUInt32_ofUInt32 (n : UInt32) : (ofUInt32 n).toUInt32 = n := by
  unfold ofUInt32
  cases h : named.find? fun kind => kind.toUInt32 == n with
  | none => rfl
  | some kind =>
    have := List.find?_some h
    simpa using this

/-- A kind must not claim to be unnamed under the number of a named one. -/
def check (kind : InventoryKind) : Except PayloadError Unit :=
  if ofUInt32 kind.toUInt32 = kind then .ok () else .error (.invalid .inventoryKindReserved)

end InventoryKind

/-- An object, by its kind and hash. -/
structure InventoryItem where
  kind : InventoryKind
  hash : Hash256
deriving DecidableEq, Inhabited

namespace InventoryItem

/-- The most objects in one message. -/
def maxEntries : Nat := 50000

/-- The number of the kind, and the hash. -/
def write (item : InventoryItem) : Bytes :=
  Bytes.littleEndian 4 item.kind.toUInt32.toNat ++ item.hash.toBytes

/-- Reads an object.  Every number is a kind, so that only the end of the payload can be wrong. -/
def read : Reader InventoryItem := do
  let kind ← Reader.u32 "inv: type"
  let hash ← Reader.fixed 32 "inv: hash"
  return ⟨.ofUInt32 kind, hash⟩

/-- The objects of an inventory message. -/
def writeList (items : List InventoryItem) : Bytes := CompactSize.encodeList write items

/-- Reads the objects of an inventory message. -/
def readList : Reader (List InventoryItem) := Reader.list "inv: count" maxEntries read

end InventoryItem

end Bitcoin
