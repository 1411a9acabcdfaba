import Bitcoin.Digest

/-!
# Constants of the protocol

The version that this library speaks, and the versions from which peers understand witnesses and
expect a nonce in a ping.
-/

set_option autoImplicit false

namespace Bitcoin

/-- A version of the protocol, as peers announce it. -/
abbrev ProtocolVersion := Int32

namespace ProtocolVersion

/-- The version that this library speaks. -/
def current : ProtocolVersion := 70016

/-- The first version whose transactions may carry witnesses. -/
def firstWithWitness : ProtocolVersion := 70012

/-- The first version whose pings carry a nonce. -/
def firstWithPingNonce : ProtocolVersion := 60000

/-- Whether transactions may carry witnesses. -/
def allowsWitness (version : ProtocolVersion) : Bool := decide (firstWithWitness ≤ version)

/-- Whether a ping has to carry a nonce. -/
def needsPingNonce (version : ProtocolVersion) : Bool := decide (firstWithPingNonce ≤ version)

end ProtocolVersion

/-- The hash of the first block of the main network. -/
def genesisHash : Hash256 :=
  ⟨[0x6f, 0xe2, 0x8c, 0x0a, 0xb6, 0xf1, 0xb3, 0x72, 0xc1, 0xa6, 0xa2, 0x46, 0xae, 0x63, 0xf7, 0x4f,
    0x93, 0x1e, 0x83, 0x65, 0xe1, 0x5a, 0x08, 0x9c, 0x68, 0xd6, 0x19, 0x00, 0x00, 0x00, 0x00, 0x00],
    rfl⟩

end Bitcoin
