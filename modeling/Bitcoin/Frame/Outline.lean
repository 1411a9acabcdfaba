import Bitcoin.Frame.Error
import Bitcoin.Message.Outline

/-!
# Errors of payloads and frames as outlines

How a command line shows an error: by its name and what it carries.
-/

set_option autoImplicit false

namespace Bitcoin

open Text (Outline textOutline)
open Text.Outline (atom number record tuple)

/-- An error of a payload as it is shown. -/
def PayloadError.outline : PayloadError → Outline
  | .unexpectedEnd field => tuple "UnexpectedEof" [textOutline field]
  | .nonCanonicalSize => atom "NonCanonicalCompactSize"
  | .tooManyEntries field count max =>
    record "TooManyEntries" [
      ("context", textOutline field), ("count", number count), ("max", number max)]
  | .trailingBytes format remaining =>
    record "TrailingBytes" [("context", textOutline format), ("remaining", number remaining)]
  | .invalid violation => tuple "Invalid" [textOutline violation.message]

/-- An error of a frame as it is shown. -/
def FrameError.outline : FrameError → Outline
  | .insufficientData => atom "InsufficientData"
  | .messageTooLarge size => record "MessageTooLarge" [("size", number size)]
  | .checksumMismatch computed claimed => record "ChecksumMismatch" [
    ("expected", textOutline (Bytes.toHex computed.toBytes)),
    ("actual", textOutline (Bytes.toHex claimed.toBytes))]
  | .commandTooLong command => tuple "CommandTooLong" [textOutline command]
  | .commandNotAscii => atom "InvalidCommand"
  | .undecodable command payload source => record "Deserialization" [
    ("command", textOutline command), ("payload_hex", textOutline (Bytes.toHex payload)),
    ("source", source.outline)]
  | .unencodable command source =>
    record "Serialization" [("command", textOutline command), ("source", source.outline)]
  | .noEncoder command => tuple "NoEncoder" [textOutline command]
  | .transport reason => tuple "Io" [textOutline reason]

end Bitcoin
