import Bitcoin.Bytes

/-!
# Networks

A node talks on one of four networks.  Each has a magic number in front of every message, by which a
reader finds the next message and by which traffic of the other networks is told apart
(`Network.ofMagic?_magic`).
-/

set_option autoImplicit false

namespace Bitcoin

/-- The main network and the three for tests. -/
inductive Network where
  | mainnet
  | testnet
  | regtest
  | signet
deriving DecidableEq, Repr, Inhabited

namespace Network

/-- All networks. -/
def all : List Network := [mainnet, testnet, regtest, signet]

/-- The name of the network. -/
def name : Network → String
  | mainnet => "mainnet"
  | testnet => "testnet"
  | regtest => "regtest"
  | signet => "signet"

/-- The names by which the network can be asked for; its own name is one of them. -/
def aliases : Network → List String
  | mainnet => ["main", "mainnet", "bitcoin"]
  | testnet => ["test", "testnet", "testnet3"]
  | regtest => ["regtest"]
  | signet => ["signet"]

/-- The network with that name or alias. -/
def ofAlias? (text : String) : Option Network := all.find? fun network => text ∈ network.aliases

/-- What is said of a name that no network has. -/
def unknownMessage (text : String) : String := "unknown network: " ++ text

/-- The network with exactly that name. -/
def ofName? (text : String) : Option Network := all.find? fun network => text = network.name

/-- The magic number, most significant byte first on the wire. -/
def magicNumber : Network → Nat
  | mainnet => 0xF9BEB4D9
  | testnet => 0x0B110907
  | regtest => 0xFABFB5DA
  | signet => 0x0A03CF40

/-- The four bytes in front of every message. -/
def magic (network : Network) : FixedBytes 4 :=
  ⟨Bytes.bigEndian 4 network.magicNumber, Bytes.length_bigEndian 4 _⟩

/-- The network with that magic number. -/
def ofMagic? (bytes : FixedBytes 4) : Option Network :=
  all.find? fun network => bytes = network.magic

theorem ofMagic?_magic (network : Network) : ofMagic? network.magic = some network := by
  cases network <;> decide

/-- No byte of a magic number occurs in it twice. -/
theorem nodup_magic (network : Network) : network.magic.toBytes.Nodup := by
  cases network <;> decide

end Network

end Bitcoin
