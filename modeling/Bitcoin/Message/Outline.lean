import Bitcoin.Message
import Bitcoin.Text.Outline

/-!
# Messages as outlines

How messages are shown to a person.  Runs of bytes are lists of numbers, texts are quoted, and
addresses are written as people write them.

An outline has the fields of a value in their order, under the names that a programmer knows them
by, and nothing that is computed from them: neither the hash of a block nor the name of a
transaction is shown.

* A record is a name and labelled fields, a case with one value is a name and the value, and a case
  without any is a name alone (`Text.Outline.record`, `Text.Outline.tuple`).
* Numbers are decimal.  The services of a node are shown by their names, and addresses in the form
  that people know (`ipv4Text`, `ipv6Text`).
* A message begins with the title of its command, which is not the name that travels on the wire
  (`Command.title`); a message whose command is not known shows this command as a text, and its
  payload as bytes.
-/

set_option autoImplicit false

namespace Bitcoin

open Text (Outline)
open Text.Outline (atom number record tuple list option)

/-- Bytes as a list of numbers. -/
def Bytes.outline (bytes : Bytes) : Outline := list (bytes.map fun b => number b.toNat)

/-- A text between quotes. -/
def Text.textOutline (s : String) : Outline := atom (Text.quoted s)

/-- A number that may be negative. -/
def Text.integerOutline (n : Int) : Outline := atom (toString n)

open Text (textOutline integerOutline)

/-- A hash as a list of numbers. -/
def FixedBytes.outline {n : Nat} (bytes : FixedBytes n) : Outline := Bytes.outline bytes.toBytes

/-- An address as it is shown, its sixteen bytes as people write them. -/
def NetAddr.outline (addr : NetAddr) : Outline := record "NetAddr" [
  ("services", atom addr.services.describe), ("ip", atom (ipv6Text addr.ip)),
  ("port", number addr.port.toNat)]

/-- An introduction as it is shown. -/
def VersionMessage.outline (v : VersionMessage) : Outline := record "VersionMessage" [
  ("version", integerOutline v.version.toInt), ("services", atom v.services.describe),
  ("timestamp", integerOutline v.timestamp.toInt), ("addr_recv", v.receiver.outline),
  ("addr_from", v.sender.outline), ("nonce", number v.nonce.toNat),
  ("user_agent", textOutline v.userAgent),
  ("start_height", integerOutline v.startHeight.toInt),
  ("relay", option (v.relay.map fun relay => atom (if relay then "true" else "false")))]

/-- An entry of an older address message as it is shown. -/
def AddressEntry.outline (entry : AddressEntry) : Outline := record "AddrEntry" [
  ("timestamp", number entry.timestamp.toNat), ("addr", entry.addr.outline)]

namespace PeerAddress

/-- An address as it is shown, under the name of its network.  Addresses that
people write with dots or colons are shown so, all others as bytes. -/
def outline : PeerAddress → Outline
  | known .ipv4 address => tuple "IPv4" [atom (ipv4Text address)]
  | known .ipv6 address => tuple "IPv6" [atom (ipv6Text address)]
  | known .torV2 address => tuple "TorV2" [address.outline]
  | known .torV3 address => tuple "TorV3" [address.outline]
  | known .i2p address => tuple "I2P" [address.outline]
  | known .cjdns address => tuple "Cjdns" [atom (ipv6Text address)]
  | known .yggdrasil address => tuple "Yggdrasil" [atom (ipv6Text address)]
  | unknown id address =>
    record "Unknown" [("network_id", number id.toNat), ("bytes", address.outline)]

end PeerAddress

/-- An entry of a newer address message as it is shown. -/
def PeerEntry.outline (entry : PeerEntry) : Outline := record "AddrV2Entry" [
  ("timestamp", number entry.timestamp.toNat), ("services", atom entry.services.describe),
  ("addr", entry.address.outline), ("port", number entry.port.toNat)]

namespace InventoryKind

/-- The name of a kind. -/
def name : InventoryKind → String
  | error => "Error"
  | transaction => "Tx"
  | block => "Block"
  | filteredBlock => "FilteredBlock"
  | compactBlock => "CompactBlock"
  | transactionByWitnessHash => "WitnessTxId"
  | witnessTransaction => "WitnessTx"
  | witnessBlock => "WitnessBlock"
  | filteredWitnessBlock => "WitnessFilteredBlock"
  | other _ => "Other"

/-- A kind as it is shown, by its number if it has no name. -/
def outline : InventoryKind → Outline
  | other n => tuple "Other" [number n.toNat]
  | kind => atom kind.name

end InventoryKind

/-- An object as it is shown. -/
def InventoryItem.outline (item : InventoryItem) : Outline :=
  record "InventoryItem" [("kind", item.kind.outline), ("hash", item.hash.outline)]

/-- A locator as it is shown. -/
def BlockLocator.outline (locator : BlockLocator) : Outline := record "BlockLocator" [
  ("version", number locator.version.toNat),
  ("locator_hashes", list (locator.hashes.map FixedBytes.outline)),
  ("stop_hash", locator.stop.outline)]

/-- A header as it is shown.  The hash of the block is not among its fields. -/
def BlockHeader.outline (header : BlockHeader) : Outline := record "BlockHeader" [
  ("version", integerOutline header.version.toInt), ("prev_blockhash", header.previous.outline),
  ("merkle_root", header.merkleRoot.outline), ("time", number header.time.toNat),
  ("bits", number header.bits.toNat), ("nonce", number header.nonce.toNat)]

/-- An input as it is shown, with its witness. -/
def TxInput.outline (input : TxInput) : Outline := record "TxIn" [
  ("previous_output", record "OutPoint" [
    ("txid", input.previous.txid.outline), ("vout", number input.previous.index.toNat)]),
  ("script_sig", input.script.outline), ("sequence", number input.sequence.toNat),
  ("witness", list (input.witness.map Bytes.outline))]

/-- An output as it is shown. -/
def TxOutput.outline (output : TxOutput) : Outline := record "TxOut" [
  ("value", integerOutline output.value.toInt), ("script_pubkey", output.script.outline)]

/-- A transaction as it is shown.  Its name is not among its fields. -/
def Transaction.outline (tx : Transaction) : Outline := record "Transaction" [
  ("version", integerOutline tx.version.toInt), ("inputs", list (tx.inputs.map TxInput.outline)),
  ("outputs", list (tx.outputs.map TxOutput.outline)), ("lock_time", number tx.lockTime.toNat)]

/-- A block as it is shown, with all of its transactions. -/
def Block.outline (block : Block) : Outline := record "Block" [
  ("header", block.header.outline),
  ("transactions", list (block.transactions.map Transaction.outline))]

/-- A filter as it is shown. -/
def BloomFilter.outline (filter : BloomFilter) : Outline := record "BloomFilter" [
  ("data", filter.data.outline), ("hash_funcs", number filter.hashFunctions.toNat),
  ("tweak", number filter.tweak.toNat), ("flags", number filter.flags.toNat)]

/-- A merkle block as it is shown. -/
def MerkleBlock.outline (merkle : MerkleBlock) : Outline := record "MerkleBlock" [
  ("header", merkle.header.outline), ("total_transactions", number merkle.totalTransactions.toNat),
  ("hashes", list (merkle.hashes.map FixedBytes.outline)), ("flags", merkle.flags.outline)]

/-- A rejection as it is shown, its code as a number. -/
def RejectMessage.outline (reject : RejectMessage) : Outline := record "RejectMessage" [
  ("message", textOutline reject.message), ("code", number reject.code.toNat),
  ("reason", textOutline reject.reason), ("data", reject.data.outline)]

namespace Command

/-- The name of a command where messages are shown. -/
def title : Command → String
  | version => "Version"
  | verack => "Verack"
  | addr => "Addr"
  | addrV2 => "AddrV2"
  | sendAddrV2 => "SendAddrV2"
  | getAddr => "GetAddr"
  | ping => "Ping"
  | pong => "Pong"
  | sendHeaders => "SendHeaders"
  | feeFilter => "FeeFilter"
  | reject => "Reject"
  | inv => "Inv"
  | getData => "GetData"
  | notFound => "NotFound"
  | getBlocks => "GetBlocks"
  | getHeaders => "GetHeaders"
  | headers => "Headers"
  | block => "Block"
  | tx => "Tx"
  | mempool => "Mempool"
  | merkleBlock => "MerkleBlock"
  | filterLoad => "FilterLoad"

end Command

namespace Message

/-- What the payload of a message says, if it says anything. -/
def bodyOutline? : Message → Option Outline
  | version v => some v.outline
  | addr entries => some (list (entries.map AddressEntry.outline))
  | addrV2 entries => some (list (entries.map PeerEntry.outline))
  | inv items | getData items | notFound items => some (list (items.map InventoryItem.outline))
  | getBlocks locator | getHeaders locator => some locator.outline
  | headers hs => some (list (hs.map BlockHeader.outline))
  | block b => some b.outline
  | tx t => some t.outline
  | ping nonce => some (option (nonce.map fun n => number n.toNat))
  | pong nonce => some (number nonce.toNat)
  | filterLoad filter => some filter.outline
  | merkleBlock merkle => some merkle.outline
  | reject r => some r.outline
  | feeFilter feeRate => some (integerOutline feeRate.toInt)
  | verack | getAddr | sendAddrV2 | mempool | sendHeaders | unknown _ _ => none

/-- A message as it is shown. -/
def outline : Message → Outline
  | unknown command payload =>
    record "Unknown" [("command", textOutline command), ("payload", payload.outline)]
  | message =>
    let title := (message.command?.map Command.title).getD ""
    match message.bodyOutline? with
    | some body => tuple title [body]
    | none => atom title

end Message

end Bitcoin
