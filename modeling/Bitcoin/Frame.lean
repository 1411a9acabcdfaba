import Bitcoin.Frame.Header
import Bitcoin.Network

/-!
# Frames

A frame is a magic number, a header and a payload.  A `Link` is what both ends of a connection agree
on, and its functions read and write frames.

* `Link.readRaw` finds the next frame and checks its sum, `Link.readMessage` reads its payload too.
* `Link.writeRaw` writes a payload as a frame, all at once; `Link.writeMessage` writes a message.
* `Link.messages` reads a stream to its end.

A reader gives up at the first error and says what it was, and it does not put back what it has
taken.  What is still to come is then the stream behind the frame, if the frame was there as a
whole, and a caller may go on with it.

Writing is in the other order.  The frame is put together before the sink is asked for anything, so
nothing of a frame that is refused is ever written; that is shown in `Bitcoin.Proofs.Frame.Ending`.
-/

set_option autoImplicit false

namespace Bitcoin

/-- The double hash of a payload, if it begins with the checksum. -/
def verifyChecksum (payload : Bytes) (claimed : FixedBytes 4) : Except FrameError Hash256 :=
  let hash := doubleSha256 payload
  let computed := checksumOfHash hash
  if computed = claimed then .ok hash else .error (.checksumMismatch computed claimed)

/-- A frame whose sum is right and whose payload has not been read. -/
structure RawFrame where
  header : FrameHeader
  payload : Bytes
deriving DecidableEq

/-- What both ends of a connection agree on. -/
structure Link where
  network : Network
  protocol : ProtocolVersion

namespace Link

/-! ## Reading -/

/-- Reads the payload that a header announces and checks its sum. -/
def readPayload (header : FrameHeader) : StreamReader Bytes := do
  let payload ← Stream.readExact header.length.toNat
  let _ ← Stateful.ofExcept (verifyChecksum payload.toBytes header.checksum)
  return payload.toBytes

/-- The message in the payload that a header announces. -/
def decode (link : Link) (header : FrameHeader) (payload : Bytes) : Except FrameError Message :=
  match Message.decode link.protocol header.command payload with
  | .ok message => .ok message
  | .error e => .error (.undecodable header.command payload e)

/-- Reads the message behind a header. -/
def readBody (link : Link) (header : FrameHeader) : StreamReader Message := do
  let payload ← readPayload header
  Stateful.ofExcept (link.decode header payload)

/-- Finds the next frame and checks its sum. -/
def readRaw (link : Link) : StreamReader RawFrame := do
  Stream.seek link.network.magic
  let header ← FrameHeader.read
  let payload ← readPayload header
  return ⟨header, payload⟩

/-- Finds the next frame and reads its message. -/
def readMessage (link : Link) : StreamReader Message := do
  Stream.seek link.network.magic
  let header ← FrameHeader.read
  link.readBody header

/-! ## Writing -/

/-- The longest size that is told of a payload that is refused. -/
def maxToldSize : Nat := 0xFFFFFFFF

/-- The bytes of a frame. -/
def frame (link : Link) (command : String) (payload : Bytes) : Except FrameError Bytes := do
  let field ← commandField command
  if maxPayloadLength < payload.length then
    .error (.messageTooLarge (min payload.length maxToldSize))
  else
    return link.network.magic.toBytes ++ field.toBytes ++ Bytes.littleEndian 4 payload.length ++
      (checksum payload).toBytes ++ payload

/-- Writes a payload as a frame, all at once. -/
def writeRaw (link : Link) (command : String) (payload : Bytes) : SinkWriter Unit := do
  let bytes ← Stateful.ofExcept (link.frame command payload)
  Sink.writeAll bytes

/-- Writes a message as a frame. -/
def writeMessage (link : Link) (message : Message) : SinkWriter Unit :=
  match message.toPayload link.protocol with
  | .ok payload => link.writeRaw message.commandName payload
  | .error (.refused e) => throw (.unencodable message.commandName e)
  | .error (.noEncoder command) => throw (.noEncoder command)

/-! ## Whole streams -/

/-- A header takes its twenty bytes off the stream. -/
theorem length_pending_of_readHeader {header : FrameHeader} {stream rest : Stream}
    (h : FrameHeader.read stream = .ok header rest) :
    rest.pending.length + FrameHeader.size = stream.pending.length := by
  obtain ⟨bytes, between, hread, hparse⟩ := Stateful.bind_eq_ok_iff.1 h
  obtain ⟨_, rfl⟩ := Stateful.ofExcept_eq_ok_iff.1 hparse
  rw [Stream.pending_of_readExact hread, List.length_append, bytes.length_eq, Nat.add_comm]

/-- A payload takes what its header announces off the stream. -/
theorem pending_of_readPayload {header : FrameHeader} {payload : Bytes} {stream rest : Stream}
    (h : readPayload header stream = .ok payload rest) :
    stream.pending = payload ++ rest.pending := by
  obtain ⟨bytes, _, hread, h⟩ := Stateful.bind_eq_ok_iff.1 h
  obtain ⟨_, _, hsum, h⟩ := Stateful.bind_eq_ok_iff.1 h
  obtain ⟨_, rfl⟩ := Stateful.ofExcept_eq_ok_iff.1 hsum
  cases h
  exact Stream.pending_of_readExact hread

/-- A message takes a header and more off the stream. -/
theorem length_pending_of_readMessage {link : Link} {message : Message} {stream rest : Stream}
    (h : link.readMessage stream = .ok message rest) :
    rest.pending.length < stream.pending.length := by
  obtain ⟨_, _, hseek, h⟩ := Stateful.bind_eq_ok_iff.1 h
  obtain ⟨header, _, hheader, h⟩ := Stateful.bind_eq_ok_iff.1 h
  obtain ⟨payload, _, hpayload, h⟩ := Stateful.bind_eq_ok_iff.1 h
  obtain ⟨_, rfl⟩ := Stateful.ofExcept_eq_ok_iff.1 h
  have hskipped := Stream.length_pending_of_seek hseek
  have hread := length_pending_of_readHeader hheader
  have htaken := congrArg List.length (pending_of_readPayload hpayload)
  rw [List.length_append] at htaken
  simp only [FrameHeader.size] at hread
  omega

/-- The messages of a stream, and the error that ends them: at the latest, the end of the stream. -/
def messages (link : Link) (stream : Stream) : List Message × FrameError :=
  match h : link.readMessage stream with
  | .ok message rest =>
    have : rest.pending.length < stream.pending.length := length_pending_of_readMessage h
    let others := messages link rest
    (message :: others.1, others.2)
  | .error e _ => ([], e)
termination_by stream.pending.length

end Link

end Bitcoin
