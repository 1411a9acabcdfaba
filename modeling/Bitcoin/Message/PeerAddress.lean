import Bitcoin.Message.Services
import Bitcoin.Payload.Reader

/-!
# Peer addresses

The newer address messages tell the overlay network of an address by a number, and the length of the
address follows from the network.  An address of a network that has no number here is kept as it
came.

* `AddressNetwork` lists the networks with their numbers and lengths.
* `PeerAddress.known` holds exactly as many bytes as its network has, by its type.
* `PeerEntry` is an address with the services and the port of its node.
-/

set_option autoImplicit false

namespace Bitcoin

/-- The overlay networks with a number. -/
inductive AddressNetwork where
  | ipv4
  | ipv6
  | torV2
  | torV3
  | i2p
  | cjdns
  | yggdrasil
deriving DecidableEq, Repr

namespace AddressNetwork

/-- All networks with a number. -/
def all : List AddressNetwork := [ipv4, ipv6, torV2, torV3, i2p, cjdns, yggdrasil]

/-- The number of the network. -/
def id : AddressNetwork → UInt8
  | ipv4 => 1
  | ipv6 => 2
  | torV2 => 3
  | torV3 => 4
  | i2p => 5
  | cjdns => 6
  | yggdrasil => 7

/-- The network with that number. -/
def ofId? (n : UInt8) : Option AddressNetwork := all.find? fun network => network.id == n

/-- The length of an address. -/
def size : AddressNetwork → Nat
  | ipv4 => 4
  | torV2 => 10
  | ipv6 | cjdns | yggdrasil => 16
  | torV3 | i2p => 32

/-- The name of the network in the words of an error. -/
def name : AddressNetwork → String
  | ipv4 => "IPv4"
  | ipv6 => "IPv6"
  | torV2 => "TorV2"
  | torV3 => "TorV3"
  | i2p => "I2P"
  | cjdns => "CJDNS"
  | yggdrasil => "Yggdrasil"

theorem ofId?_id (network : AddressNetwork) : ofId? network.id = some network := by
  cases network <;> rfl

theorem id_of_ofId? {n : UInt8} {network : AddressNetwork} (h : ofId? n = some network) :
    network.id = n := by
  have := List.find?_some h
  simpa using this

end AddressNetwork

/-- An address on an overlay network. -/
inductive PeerAddress where
  | known (network : AddressNetwork) (address : FixedBytes network.size)
  | unknown (networkId : UInt8) (address : Bytes)
deriving DecidableEq

namespace PeerAddress

/-- The longest address of any network. -/
def maxLength : Nat := 512

/-- The number of the network. -/
def networkId : PeerAddress → UInt8
  | known network _ => network.id
  | unknown id _ => id

/-- The bytes of the address. -/
def toBytes : PeerAddress → Bytes
  | known _ address => address.toBytes
  | unknown _ address => address

/-- The address with these bytes on the network with that number. -/
def ofBytes (networkId : UInt8) (bytes : Bytes) : Except Violation PeerAddress :=
  match AddressNetwork.ofId? networkId with
  | none => .ok (unknown networkId bytes)
  | some network =>
    match FixedBytes.ofBytes? network.size bytes with
    | some address => .ok (known network address)
    | none => .error (.addressLength network.name network.size)

/-- An address of an unknown network must not use the number of a known one, nor be too long;
otherwise it would be read as another one, or not at all. -/
def check : PeerAddress → Except PayloadError Unit
  | known _ _ => .ok ()
  | unknown id address =>
    if (AddressNetwork.ofId? id).isSome then .error (.invalid .addressNetworkReserved)
    else if maxLength < address.length then .error (.invalid .addressTooLong)
    else .ok ()

end PeerAddress

/-- An address, its node's services and port, and when the node was last seen. -/
structure PeerEntry where
  timestamp : UInt32
  services : Services
  address : PeerAddress
  port : UInt16
deriving DecidableEq

namespace PeerEntry

/-- The most addresses in one message. -/
def maxEntries : Nat := 1000

/-- The services travel as a compact size here, unlike elsewhere. -/
def write (entry : PeerEntry) : Bytes :=
  Bytes.littleEndian 4 entry.timestamp.toNat ++ CompactSize.encode entry.services.bits.toNat ++
    [entry.address.networkId] ++ CompactSize.encodeBytes entry.address.toBytes ++
    Bytes.bigEndian 2 entry.port.toNat

/-- The address is made sense of after the port is read. -/
def read : Reader PeerEntry := do
  let timestamp ← Reader.u32 "addrv2: timestamp"
  let services ← Reader.compactSize "addrv2: services"
  let networkId ← Reader.u8 "addrv2: network_id"
  let length ← Reader.compactSize "addrv2: addr length"
  if PeerAddress.maxLength < length then Reader.refuse .addressTooLong
  else
    let bytes ← Reader.take length "addrv2: addr bytes"
    let port ← Reader.u16BE "addrv2: port"
    match PeerAddress.ofBytes networkId bytes with
    | .ok address => return ⟨timestamp, ⟨UInt64.ofNat services⟩, address, port⟩
    | .error violation => Reader.refuse violation

/-- The entries of an address message. -/
def writeList (entries : List PeerEntry) : Bytes := CompactSize.encodeList write entries

/-- Reads the entries of an address message. -/
def readList : Reader (List PeerEntry) := Reader.list "addrv2: count" maxEntries read

end PeerEntry

end Bitcoin
