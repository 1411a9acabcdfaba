import Bitcoin.Message.Services
import Bitcoin.Payload.Reader

/-!
# Network addresses

Where a node is reached, as version messages and the older address messages carry it: its services,
sixteen bytes of address and a port.  An address of the older, shorter kind is embedded in the
sixteen bytes, behind either of two fillers; the bytes are kept as they came, and `NetAddr.view`
interprets them.

* `NetAddr.write` and `NetAddr.read` are the 26 bytes of an address.
* `ipv4Text` and `ipv6Text` show addresses as people write them.
-/

set_option autoImplicit false

namespace Bitcoin

/-! ## Addresses as people write them -/

/-- Four numbers with dots between them. -/
def ipv4Text (address : FixedBytes 4) : String :=
  ".".intercalate (address.toBytes.map fun b => toString b.toNat)

/-- The eight groups of an address of sixteen bytes. -/
def ipv6Groups : Bytes → List Nat
  | high :: low :: rest => (256 * high.toNat + low.toNat) :: ipv6Groups rest
  | _ => []

/-- A run of zero groups: where it starts and how many there are. -/
structure ZeroRun where
  start : Nat
  length : Nat

/-- The first of the longest runs of zeros in the groups from `place` on.  `current` is the run that
ends in front of them, `best` the longest before. -/
def longestZeroRun (place : Nat) (current best : ZeroRun) : List Nat → ZeroRun
  | [] => best
  | group :: groups =>
    if group = 0 then
      let grown := ⟨if current.length = 0 then place else current.start, current.length + 1⟩
      longestZeroRun (place + 1) grown (if best.length < grown.length then grown else best) groups
    else longestZeroRun (place + 1) ⟨0, 0⟩ best groups

/-- Groups in hexadecimal, with colons between them. -/
def ipv6GroupsText (groups : List Nat) : String :=
  ":".intercalate (groups.map fun group => String.ofList (Nat.toDigits 16 group))

/-- An address of sixteen bytes: the first longest run of two or more zero groups is left out, and
an embedded short address keeps its dots. -/
def ipv6Text (address : FixedBytes 16) : String :=
  let bytes := address.toBytes
  if bytes.take 12 = Bytes.zeros 10 ++ [0xff, 0xff] then
    "::ffff:" ++ ".".intercalate ((bytes.drop 12).map fun b => toString b.toNat)
  else
    let groups := ipv6Groups bytes
    let zeros := longestZeroRun 0 ⟨0, 0⟩ ⟨0, 0⟩ groups
    if 1 < zeros.length then
      ipv6GroupsText (groups.take zeros.start) ++ "::" ++
        ipv6GroupsText (groups.drop (zeros.start + zeros.length))
    else ipv6GroupsText groups

/-! ## Network addresses -/

/-- Where a node is reached, and what it offers. -/
structure NetAddr where
  services : Services
  ip : FixedBytes 16
  port : UInt16
deriving DecidableEq, Inhabited

/-- An address as the kind it belongs to. -/
inductive IpAddress where
  | v4 (address : FixedBytes 4)
  | v6 (address : FixedBytes 16)
deriving DecidableEq

namespace NetAddr

/-- A short address, embedded behind ten zeros and two bytes `ff`. -/
def ipv4 (services : Services) (address : FixedBytes 4) (port : UInt16) : NetAddr :=
  ⟨services, ⟨Bytes.zeros 10 ++ [0xff, 0xff] ++ address.toBytes, by simp⟩, port⟩

/-- The address of a node that is not known or cannot be reached. -/
def unspecified : NetAddr := ⟨Services.none, .zero 16, 0⟩

/-- The last four of sixteen bytes. -/
def lastFour (address : FixedBytes 16) : FixedBytes 4 := address.slice 12 4 (by decide)

/-- The address behind either filler is a short one, except that all zeros are no address at all. -/
def view (addr : NetAddr) : IpAddress :=
  let filler := addr.ip.toBytes.take 12
  if filler = Bytes.zeros 12 ∧ addr.ip ≠ .zero 16 then .v4 (lastFour addr.ip)
  else if filler = Bytes.zeros 10 ++ [0xff, 0xff] then .v4 (lastFour addr.ip)
  else .v6 addr.ip

/-- The 26 bytes of an address. -/
def write (addr : NetAddr) : Bytes :=
  Bytes.littleEndian 8 addr.services.bits.toNat ++ addr.ip.toBytes ++
    Bytes.bigEndian 2 addr.port.toNat

/-- Reads an address. -/
def read : Reader NetAddr := do
  let services ← Reader.u64 "net_addr: services"
  let ip ← Reader.fixed 16 "net_addr: ip"
  let port ← Reader.u16BE "net_addr: port"
  return ⟨⟨services⟩, ip, port⟩

end NetAddr

/-- An address and when its node was last seen. -/
structure AddressEntry where
  timestamp : UInt32
  addr : NetAddr
deriving DecidableEq, Inhabited

namespace AddressEntry

/-- The most addresses in one message. -/
def maxEntries : Nat := 1000

/-- The time, and the address behind it. -/
def write (entry : AddressEntry) : Bytes :=
  Bytes.littleEndian 4 entry.timestamp.toNat ++ entry.addr.write

/-- Reads an entry of an address message. -/
def read : Reader AddressEntry := do
  let timestamp ← Reader.u32 "addr: timestamp"
  let addr ← NetAddr.read
  return ⟨timestamp, addr⟩

/-- The entries of an address message. -/
def writeList (entries : List AddressEntry) : Bytes := CompactSize.encodeList write entries

/-- Reads the entries of an address message. -/
def readList : Reader (List AddressEntry) := Reader.list "addr: count" maxEntries read

end AddressEntry

end Bitcoin
