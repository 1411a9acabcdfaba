import Bitcoin.Message.NetAddr
import Bitcoin.Protocol

/-!
# Introductions and rejections

The first message on a connection introduces a node, and a reject message answers one that was
refused.

Both are messages whose end has to be known from outside.  The relay flag came late to the
introduction and is missing in those of old nodes, and the data of a rejection has no length in
front of it.  So both can be read only as whole payloads and never as a part of something longer.
-/

set_option autoImplicit false

namespace Bitcoin

/-- How a node introduces itself.  Older nodes leave out whether they want transactions relayed. -/
structure VersionMessage where
  version : Int32
  services : Services
  timestamp : Int64
  receiver : NetAddr
  sender : NetAddr
  nonce : UInt64
  userAgent : String
  startHeight : Int32
  relay : Option Bool
deriving DecidableEq, Inhabited

namespace VersionMessage

/-- The relay flag, if there is one. -/
def writeRelay : Option Bool → Bytes
  | none => []
  | some false => [0]
  | some true => [1]

/-- The fields in their order; the relay flag, if it is there, comes last. -/
def write (v : VersionMessage) : Bytes :=
  Bytes.littleEndian 4 v.version.toUInt32.toNat ++ Bytes.littleEndian 8 v.services.bits.toNat ++
    Bytes.littleEndian 8 v.timestamp.toUInt64.toNat ++ v.receiver.write ++ v.sender.write ++
    Bytes.littleEndian 8 v.nonce.toNat ++ CompactSize.encodeBytes (Text.toUtf8 v.userAgent) ++
    Bytes.littleEndian 4 v.startHeight.toUInt32.toNat ++ writeRelay v.relay

/-- The relay flag is missing if the payload ends in front of it. -/
def readRelay : Reader (Option Bool) := do
  if ← Reader.isEmpty then return none
  else
    let flag ← Reader.u8 "version: relay"
    if flag = 0 then return some false
    else if flag = 1 then return some true
    else Reader.refuse .relayFlag

/-- Reads an introduction.  Any version is accepted here, also one that nobody speaks. -/
def read : Reader VersionMessage := do
  let version ← Reader.i32 "version: version"
  let services ← Reader.u64 "version: services"
  let timestamp ← Reader.i64 "version: timestamp"
  let receiver ← NetAddr.read
  let sender ← NetAddr.read
  let nonce ← Reader.u64 "version: nonce"
  let userAgent ← Reader.text "version: user_agent"
  let startHeight ← Reader.i32 "version: start_height"
  let relay ← readRelay
  return ⟨version, ⟨services⟩, timestamp, receiver, sender, nonce, userAgent, startHeight, relay⟩

end VersionMessage

/-- The command of a message that was refused, a code and a reason, and data that says which object
it was about. -/
structure RejectMessage where
  message : String
  code : UInt8
  reason : String
  data : Bytes
deriving DecidableEq, Inhabited

namespace RejectMessage

/-- The command, the code, the reason, and the data, whose length is not written. -/
def write (reject : RejectMessage) : Bytes :=
  CompactSize.encodeBytes (Text.toUtf8 reject.message) ++ [reject.code] ++
    CompactSize.encodeBytes (Text.toUtf8 reject.reason) ++ reject.data

/-- The data is what is left of the payload. -/
def read : Reader RejectMessage := do
  let message ← Reader.text "reject: message"
  let code ← Reader.u8 "reject: code"
  let reason ← Reader.text "reject: reason"
  let data ← Reader.takeRest
  return ⟨message, code, reason, data⟩

end RejectMessage

end Bitcoin
