import Bitcoin.Bytes.Hex

/-!
# Services

What a node offers to its peers, as bits of a number.  Bits without a name are kept.
-/

set_option autoImplicit false

namespace Bitcoin

/-- The services of a node, one a bit. -/
structure Services where
  bits : UInt64
deriving DecidableEq, Inhabited

namespace Services

/-- No services. -/
def none : Services := ⟨0⟩

/-- Whole blocks. -/
def fullBlocks : Services := ⟨1⟩

/-- Look-up of unspent outputs. -/
def unspentOutputs : Services := ⟨2⟩

/-- Connections filtered by a bloom filter. -/
def bloomFilters : Services := ⟨4⟩

/-- Blocks and transactions with witnesses. -/
def witnesses : Services := ⟨8⟩

/-- The last blocks only. -/
def recentBlocks : Services := ⟨0x400⟩

/-- The services with a name. -/
def named : List (Services × String) := [
  (fullBlocks, "NODE_NETWORK"), (unspentOutputs, "NODE_GETUTXO"), (bloomFilters, "NODE_BLOOM"),
  (witnesses, "NODE_WITNESS"), (recentBlocks, "NODE_NETWORK_LIMITED")]

/-- Whether there are none. -/
def isEmpty (services : Services) : Bool := services.bits == 0

/-- Whether all of `other` are among the services. -/
def contains (services other : Services) : Bool := services.bits &&& other.bits == other.bits

/-- The names of the services. -/
def names (services : Services) : List String :=
  if services.isEmpty then ["NONE"]
  else (named.filter fun (flag, _) => services.contains flag).map (·.2)

/-- The names and the number, for a person to read. -/
def describe (services : Services) : String :=
  "Services(" ++ " | ".intercalate services.names ++ ") [0x" ++
    Bytes.toHex (Bytes.bigEndian 8 services.bits.toNat) ++ "]"

end Services

end Bitcoin
