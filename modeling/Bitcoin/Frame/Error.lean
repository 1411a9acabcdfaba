import Bitcoin.Bytes.Hex
import Bitcoin.Message

/-!
# Why a frame is refused

What can go wrong between a stream of bytes and a message: the stream stalls or breaks, a frame does
not hold together, or the payload of a known command is not what the command says.

The texts name the command where it is known, and the field if the payload is at fault.  Two of the
errors are about the connection and not about a frame: that there are too few bytes, and that
reading or writing failed.
-/

set_option autoImplicit false

namespace Bitcoin

/-- Why a frame cannot be read or written. -/
inductive FrameError where
  /-- The stream ends inside a frame; with more bytes it may be read. -/
  | insufficientData
  /-- A payload is longer than any payload may be. -/
  | messageTooLarge (size : Nat)
  /-- The checksum of the payload is not the one in the header. -/
  | checksumMismatch (computed claimed : FixedBytes 4)
  /-- A command is longer than its field. -/
  | commandTooLong (command : String)
  /-- A command has characters that its field cannot hold. -/
  | commandNotAscii
  /-- The payload of a known command is refused. -/
  | undecodable (command : String) (payload : Bytes) (source : PayloadError)
  /-- A message is refused before it is written. -/
  | unencodable (command : String) (source : PayloadError)
  /-- A message has a command that is not known. -/
  | noEncoder (command : String)
  /-- The transport fails. -/
  | transport (reason : String)
deriving DecidableEq

namespace FrameError

/-- The error in words. -/
def message : FrameError → String
  | insufficientData => "insufficient data: stream ended mid-message"
  | messageTooLarge size => "message size too large: " ++ toString size ++ " bytes"
  | checksumMismatch computed claimed =>
    "checksum failed to verify, actual " ++ Bytes.toHex claimed.toBytes ++ " vs " ++
      Bytes.toHex computed.toBytes
  | commandTooLong command =>
    "command " ++ Text.quoted command ++ " does not fit in the 12-byte command field"
  | commandNotAscii => "command field is not ASCII"
  | undecodable command payload source =>
    "error deserializing '" ++ command ++ "' message " ++ Bytes.toHex payload ++ ": " ++
      source.message
  | unencodable command source => "cannot serialize '" ++ command ++ "' message: " ++ source.message
  | noEncoder command => (EncodeError.noEncoder command).message
  | transport reason => "i/o error: " ++ reason

end FrameError

end Bitcoin
