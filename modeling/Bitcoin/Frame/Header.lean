import Bitcoin.Frame.Sink
import Bitcoin.Stateful

/-!
# Frame headers

Behind the magic number a frame has a header of twenty bytes: the command in a field of twelve, the
length of the payload and its checksum.

* `commandField` fills a command up with zeros, `commandOfField` reads it up to the first of them.
* `FrameHeader.ofBytes` reads the twenty bytes, `FrameHeader.write` writes them.
-/

set_option autoImplicit false

namespace Bitcoin

/-- The longest payload, 32 MiB.  A header that announces more is refused before the payload is
read. -/
def maxPayloadLength : Nat := 0x02000000

/-! ## The command field -/

/-- A command filled up with zeros to twelve bytes. -/
def commandField (command : String) : Except FrameError (FixedBytes Command.fieldLength) :=
  let bytes := Text.toUtf8 command
  if bytes.all (· < 128) then
    if h : bytes.length ≤ Command.fieldLength then
      .ok ⟨bytes ++ Bytes.zeros (Command.fieldLength - bytes.length), by
        rw [List.length_append, Bytes.length_zeros]; omega⟩
    else .error (.commandTooLong command)
  else .error .commandNotAscii

/-- The character of a byte of the command field.  Bytes that are not ASCII all become one character
that no command has. -/
def commandChar (b : UInt8) : Char := if b < 128 then Char.ofNat b.toNat else '\uFFFD'

/-- The command in a field: what stands in front of the first zero. -/
def commandOfField (field : FixedBytes Command.fieldLength) : String :=
  String.ofList ((field.toBytes.takeWhile (· != 0)).map commandChar)

/-! ## Headers -/

/-- The header of a frame. -/
structure FrameHeader where
  command : String
  length : UInt32
  checksum : FixedBytes 4
deriving DecidableEq

namespace FrameHeader

/-- The number of bytes of a header, without the magic number. -/
def size : Nat := 20

/-- The header with these bytes.  The checksum is not looked at. -/
def ofBytes (bytes : FixedBytes size) : Except FrameError FrameHeader :=
  let length := Bytes.toNatLE (bytes.slice 12 4 (by decide)).toBytes
  if maxPayloadLength < length then .error (.messageTooLarge length)
  else
    .ok ⟨commandOfField (bytes.slice 0 12 (by decide)), UInt32.ofNat length,
      bytes.slice 16 4 (by decide)⟩

/-- Reads a header. -/
def read : StreamReader FrameHeader := do
  let bytes ← Stream.readExact size
  Stateful.ofExcept (ofBytes bytes)

/-- Writes a header, field by field. -/
def write (header : FrameHeader) : SinkWriter Unit := do
  let field ← Stateful.ofExcept (commandField header.command)
  Sink.writeAll field.toBytes
  Sink.writeAll (Bytes.littleEndian 4 header.length.toNat)
  Sink.writeAll header.checksum.toBytes

end FrameHeader

end Bitcoin
