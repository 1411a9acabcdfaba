import Bitcoin.Message.Block
import Bitcoin.Message.Command
import Bitcoin.Message.Inventory
import Bitcoin.Message.PeerAddress
import Bitcoin.Message.Version
import Bitcoin.Text.Quoted

/-!
# Messages

A message is a command and what its payload says.  A command that is not known is no error: the
payload is kept as it came.

* `Message.read` is the reader of each command, `Message.decode` reads a whole payload with it.
* `Message.payload?` writes the payload of a message, if its command is known.
* `Message.check` refuses a message whose payload would not be read back as the same message by a
  peer of some protocol version, and one that would (`Transaction.check`).  `Message.toPayload`
  writes only what passes it.

The cases of `Message` and the commands are nearly the same list, and it is written down twice on
purpose.  A command is what a header announces, before there is a payload; a message may have a
command that is not on the list, and is then kept as it came, so that it can be shown or passed on.

Reading and writing are not told here to be inverse; that is a theorem about each of the formats and
is proved in `Bitcoin.Proofs.Message.RoundTrip`.  What is told here is the order of things: a
message is checked before anything of it is written, and the payload that is written does not depend
on the version of the protocol.  Only the check does, and the reader.
-/

set_option autoImplicit false

namespace Bitcoin

/-- A message between nodes. -/
inductive Message where
  | version (v : VersionMessage)
  | verack
  | addr (entries : List AddressEntry)
  | addrV2 (entries : List PeerEntry)
  | inv (items : List InventoryItem)
  | getData (items : List InventoryItem)
  | notFound (items : List InventoryItem)
  | getBlocks (locator : BlockLocator)
  | getHeaders (locator : BlockLocator)
  | headers (entries : List BlockHeader)
  | block (b : Block)
  | tx (t : Transaction)
  /-- Only old nodes leave the nonce out. -/
  | ping (nonce : Option UInt64)
  | pong (nonce : UInt64)
  | getAddr
  | sendAddrV2
  | filterLoad (filter : BloomFilter)
  | merkleBlock (merkle : MerkleBlock)
  | mempool
  | reject (r : RejectMessage)
  | sendHeaders
  | feeFilter (feeRate : Int64)
  | unknown (command : String) (payload : Bytes)
deriving DecidableEq

/-- Why a message is not written. -/
inductive EncodeError where
  /-- The message does not pass its check. -/
  | refused (error : PayloadError)
  /-- The command is not known. -/
  | noEncoder (command : String)
deriving DecidableEq

namespace Message

/-- The command of a message, if it is known. -/
def command? : Message → Option Command
  | version _ => some .version
  | verack => some .verack
  | addr _ => some .addr
  | addrV2 _ => some .addrV2
  | inv _ => some .inv
  | getData _ => some .getData
  | notFound _ => some .notFound
  | getBlocks _ => some .getBlocks
  | getHeaders _ => some .getHeaders
  | headers _ => some .headers
  | block _ => some .block
  | tx _ => some .tx
  | ping _ => some .ping
  | pong _ => some .pong
  | getAddr => some .getAddr
  | sendAddrV2 => some .sendAddrV2
  | filterLoad _ => some .filterLoad
  | merkleBlock _ => some .merkleBlock
  | mempool => some .mempool
  | reject _ => some .reject
  | sendHeaders => some .sendHeaders
  | feeFilter _ => some .feeFilter
  | unknown _ _ => none

/-- The name of the command, known or not. -/
def commandName : Message → String
  | unknown command _ => command
  | message => (message.command?.map Command.name).getD ""

/-! ## Reading -/

/-- A ping of an old node may be empty. -/
def readPing (protocol : ProtocolVersion) : Reader (Option UInt64) := do
  if (← Reader.isEmpty) && !protocol.needsPingNonce then return none
  else
    let nonce ← Reader.u64 "ping: nonce"
    return some nonce

/-- How the payload of a command is read. -/
def read (protocol : ProtocolVersion) : Command → Reader Message
  | .version => version <$> VersionMessage.read
  | .verack => return verack
  | .addr => addr <$> AddressEntry.readList
  | .addrV2 => addrV2 <$> PeerEntry.readList
  | .sendAddrV2 => return sendAddrV2
  | .getAddr => return getAddr
  | .ping => ping <$> readPing protocol
  | .pong => pong <$> Reader.u64 "pong: nonce"
  | .sendHeaders => return sendHeaders
  | .feeFilter => feeFilter <$> Reader.i64 "feefilter: feerate"
  | .reject => reject <$> RejectMessage.read
  | .inv => inv <$> InventoryItem.readList
  | .getData => getData <$> InventoryItem.readList
  | .notFound => notFound <$> InventoryItem.readList
  | .getBlocks => getBlocks <$> BlockLocator.read
  | .getHeaders => getHeaders <$> BlockLocator.read
  | .headers => headers <$> BlockHeader.readList
  | .block => block <$> Block.read protocol
  | .tx => tx <$> Transaction.read protocol
  | .mempool => return mempool
  | .merkleBlock => merkleBlock <$> MerkleBlock.read
  | .filterLoad => filterLoad <$> BloomFilter.read

/-- Reads a whole payload as its command says. -/
def decode (protocol : ProtocolVersion) (command : String) (payload : Bytes) :
    Except PayloadError Message :=
  match Command.ofName? command with
  | none => .ok (unknown command payload)
  | some known => Reader.exactly known.name (read protocol known) payload

/-! ## Writing -/

/-- The payload of a message whose command is known. -/
def payload? : Message → Option Bytes
  | version v => some v.write
  | addr entries => some (AddressEntry.writeList entries)
  | addrV2 entries => some (PeerEntry.writeList entries)
  | inv items | getData items | notFound items => some (InventoryItem.writeList items)
  | getBlocks locator | getHeaders locator => some locator.write
  | headers hs => some (BlockHeader.writeList hs)
  | block b => some b.write
  | tx t => some t.write
  | ping none => some []
  | ping (some nonce) | pong nonce => some (Bytes.littleEndian 8 nonce.toNat)
  | filterLoad filter => some filter.write
  | merkleBlock merkle => some merkle.write
  | reject r => some r.write
  | feeFilter feeRate => some (Bytes.littleEndian 8 feeRate.toUInt64.toNat)
  | verack | getAddr | sendAddrV2 | mempool | sendHeaders => some []
  | unknown _ _ => none

/-- A list must not be longer than the reader accepts. -/
def checkCount {α : Type} (field : String) (max : Nat) (entries : List α) :
    Except PayloadError Unit :=
  if max < entries.length then .error (.tooManyEntries field entries.length max) else .ok ()

/-- The objects of an inventory message. -/
def checkInventory (items : List InventoryItem) : Except PayloadError Unit := do
  checkCount "inv: count" InventoryItem.maxEntries items
  items.forM fun item => item.kind.check

/-- The hashes of a locator. -/
def checkLocator (locator : BlockLocator) : Except PayloadError Unit :=
  checkCount "locator: count" BlockLocator.maxEntries locator.hashes

/-- Refuses a message whose payload would not be read back as the same message, and with it the
transaction that has neither inputs nor outputs, which would. -/
def check (protocol : ProtocolVersion) : Message → Except PayloadError Unit
  | addr entries => checkCount "addr: count" AddressEntry.maxEntries entries
  | addrV2 entries => do
    checkCount "addrv2: count" PeerEntry.maxEntries entries
    entries.forM fun entry => entry.address.check
  | inv items | getData items | notFound items => checkInventory items
  | getBlocks locator | getHeaders locator => checkLocator locator
  | headers hs => checkCount "headers: count" BlockHeader.maxEntries hs
  | block b => b.transactions.forM (Transaction.check protocol)
  | tx t => t.check protocol
  | ping none => if protocol.needsPingNonce then .error (.invalid .pingWithoutNonce) else .ok ()
  | filterLoad filter => filter.check
  | _ => .ok ()

/-- The payload of a message for a peer of some protocol version. -/
def toPayload (protocol : ProtocolVersion) (message : Message) : Except EncodeError Bytes :=
  match message.check protocol with
  | .error e => .error (.refused e)
  | .ok () =>
    match message.payload? with
    | some payload => .ok payload
    | none => .error (.noEncoder message.commandName)

/-! ## Messages that a node sends on its own -/

/-- Asks for the headers behind the first hash of the locator that the peer knows. -/
def requestHeaders (protocol : ProtocolVersion) (locator : List Hash256) : Message :=
  getHeaders ⟨protocol.toUInt32, locator, .zero 32⟩

/-- Asks for whole blocks, with witnesses if wanted. -/
def requestBlocks (witness : Bool) (hashes : List Hash256) : Message :=
  getData (hashes.map fun hash => ⟨if witness then .witnessBlock else .block, hash⟩)

/-- The answer to a message, if it is a ping that wants one. -/
def pongFor? : Message → Option Message
  | ping (some nonce) => some (pong nonce)
  | _ => none

/-- Introduces a node that does not want transactions relayed.  The sender's address is left out,
and the time and the nonce are those of the moment. -/
def introduce (protocol : ProtocolVersion) (services : Services) (timestamp : Int64)
    (receiver : NetAddr) (nonce : UInt64) (userAgent : String) (startHeight : Int32) : Message :=
  version ⟨protocol, services, timestamp, receiver, .unspecified, nonce, userAgent, startHeight,
    some false⟩

end Message

/-- The error in words. -/
def EncodeError.message : EncodeError → String
  | .refused error => error.message
  | .noEncoder command =>
    "cannot serialize unknown message " ++ Text.quoted command ++ ": no encoder for this command"

end Bitcoin
