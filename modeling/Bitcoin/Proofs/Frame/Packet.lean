import Bitcoin.Frame
import Bitcoin.Proofs.Frame.Quiet

/-!
# What a peer sends as a frame

A packet is what stands in a frame of some network: any bytes in the field of the command, any
checksum, and any payload that is not too long.  Whether these make sense together is for the reader
to find out, and `Packet.outcome` says what it finds.

* `FrameHeader.join` puts any three fields together, and `FrameHeader.ofBytes_join` is what is read
  of them.
* `Link.readMessage_of_packet` is one call of the reader: from any bytes without the magic number
  and a packet behind them it takes just these, whatever it thinks of the packet.
* `Link.readRaw_of_packet` is the same call without a look at the payload.
* `Link.readMessage_of_absent` is the call that finds no packet.

A packet is described by its fields and not by the message that it came from, so that it may be
wrong in every way in which a frame can be wrong: a command that no one knows, bytes that are not
ASCII, a checksum of something else, a payload that cannot be read.  Only the length is always that
of the payload.  A frame that announces another length is not a packet, and where it ends is not
known to anybody.

`Packet.outcome` has no stream among its arguments.  That is the point of it: what the reader makes
of a frame cannot depend on what stands in front of the frame, on what is behind it, or on how the
bytes arrive.  And because a call takes the same bytes off the stream whether its outcome is a
message or an error, a caller that goes on after an error is at the start of what comes next.

The streams are quiet here.  On a stream that breaks in the middle of a packet, what was taken is
lost.
-/

set_option autoImplicit false

namespace Bitcoin

open Stateful

theorem Network.magic_absent_nil (network : Network) : ¬network.magic.toBytes <:+: [] :=
  fun h => Stream.magic_ne_nil _ (List.infix_nil.1 h)

namespace FrameHeader

/-- The twenty bytes of the three fields of a header. -/
def join (field : FixedBytes Command.fieldLength) (length sum : FixedBytes 4) : FixedBytes size :=
  (field.append length).append sum

variable (field : FixedBytes Command.fieldLength) (length sum : FixedBytes 4)

theorem toBytes_join :
    (join field length sum).toBytes = field.toBytes ++ length.toBytes ++ sum.toBytes := rfl

/-- The fields are read from the places where they stand. -/
theorem ofBytes_join :
    ofBytes (join field length sum) =
      if maxPayloadLength < length.toBytes.toNatLE then
        .error (.messageTooLarge length.toBytes.toNatLE)
      else .ok ⟨commandOfField field, UInt32.ofNat length.toBytes.toNatLE, sum⟩ := by
  have hfield : (join field length sum).slice 0 12 (by decide) = field :=
    FixedBytes.slice_eq_of_append _ [] _
      (by rw [toBytes_join, List.append_assoc, List.nil_append]) rfl
  have hlength : (join field length sum).slice 12 4 (by decide) = length :=
    FixedBytes.slice_eq_of_append _ _ _ (by rw [toBytes_join, List.append_assoc]) field.length_eq
  have hsum : (join field length sum).slice 16 4 (by decide) = sum :=
    FixedBytes.slice_eq_of_append _ (field.toBytes ++ length.toBytes) []
      (by rw [toBytes_join, List.append_nil]) (field.append length).length_eq
  simp only [ofBytes, hfield, hlength, hsum]

end FrameHeader

/-- The fields of a frame. -/
structure Packet where
  field : FixedBytes Command.fieldLength
  sum : FixedBytes 4
  payload : Bytes
  length_payload_le : payload.length ≤ maxPayloadLength

namespace Packet

/-- The command as the reader understands it. -/
def command (packet : Packet) : String := commandOfField packet.field

/-- The header of the frame as the reader understands it. -/
def header (packet : Packet) : FrameHeader :=
  ⟨packet.command, UInt32.ofNat packet.payload.length, packet.sum⟩

/-- The length of the payload as it is written. -/
def lengthBytes (packet : Packet) : FixedBytes 4 :=
  ⟨Bytes.littleEndian 4 packet.payload.length, Bytes.length_littleEndian 4 _⟩

/-- The twenty bytes of the header. -/
def headerBytes (packet : Packet) : FixedBytes FrameHeader.size :=
  (packet.field.append packet.lengthBytes).append packet.sum

/-- The frame on the wire. -/
def bytes (network : Network) (packet : Packet) : Bytes :=
  network.magic.toBytes ++ (packet.headerBytes.toBytes ++ packet.payload)

/-- The payload, if it has the checksum of the packet. -/
def checked (packet : Packet) : Except FrameError Bytes :=
  if checksum packet.payload = packet.sum then .ok packet.payload
  else .error (.checksumMismatch (checksum packet.payload) packet.sum)

/-- What the reader makes of a packet.  It looks at nothing else. -/
def outcome (protocol : ProtocolVersion) (packet : Packet) : Except FrameError Message :=
  if checksum packet.payload = packet.sum then
    match Message.decode protocol packet.command packet.payload with
    | .ok message => .ok message
    | .error e => .error (.undecodable packet.command packet.payload e)
  else .error (.checksumMismatch (checksum packet.payload) packet.sum)

/-- A packet with the right checksum is what its payload says. -/
theorem outcome_of_decode {protocol : ProtocolVersion} {packet : Packet} {message : Message}
    (hsum : packet.sum = checksum packet.payload)
    (hdecode : Message.decode protocol packet.command packet.payload = .ok message) :
    packet.outcome protocol = .ok message := by
  rw [outcome, if_pos hsum.symm, hdecode]

theorem toNat_length_header (packet : Packet) :
    packet.header.length.toNat = packet.payload.length := by
  have hlength := packet.length_payload_le
  have hmax : maxPayloadLength < UInt32.size := by decide
  exact UInt32.toNat_ofNat_of_lt' (by omega)

theorem toBytes_headerBytes (packet : Packet) :
    packet.headerBytes.toBytes =
      packet.field.toBytes ++ packet.lengthBytes.toBytes ++ packet.sum.toBytes := rfl

theorem ofBytes_headerBytes (packet : Packet) :
    FrameHeader.ofBytes packet.headerBytes = .ok packet.header := by
  have hnumber : packet.lengthBytes.toBytes.toNatLE = packet.payload.length := by
    have hmax : maxPayloadLength < Bytes.capacity 4 := by decide
    have hpayload := packet.length_payload_le
    rw [lengthBytes, Bytes.toNatLE_littleEndian, Nat.mod_eq_of_lt (by omega)]
  have hjoin : packet.headerBytes =
      FrameHeader.join packet.field packet.lengthBytes packet.sum := rfl
  rw [hjoin, FrameHeader.ofBytes_join, hnumber, if_neg (Nat.not_lt.2 packet.length_payload_le)]
  rfl

end Packet

namespace Link

variable {link : Link} {packet : Packet} {stream : Stream} {tail : Bytes}

theorem readHeader_of_packet (hquiet : stream.Quiet)
    (hpending : stream.pending = packet.headerBytes.toBytes ++ tail) :
    ∃ rest, FrameHeader.read stream = .ok packet.header rest ∧ rest.Quiet ∧
      rest.pending = tail := by
  obtain ⟨rest, hread, hrest⟩ :=
    Stream.readExact_of_quiet packet.headerBytes.length_eq hquiet hpending
  refine ⟨rest, ?_, hrest⟩
  rw [FrameHeader.read, bind_of_eq_ok hread]
  exact ofExcept_eq_ok_iff.2 ⟨packet.ofBytes_headerBytes, rfl⟩

/-- The payload is taken off the stream before its checksum is looked at. -/
theorem readPayload_of_packet (hquiet : stream.Quiet)
    (hpending : stream.pending = packet.payload ++ tail) :
    ∃ rest, readPayload packet.header stream = ofExcept packet.checked rest ∧ rest.Quiet ∧
      rest.pending = tail := by
  obtain ⟨rest, hread, hrest⟩ :=
    Stream.readExact_of_quiet packet.toNat_length_header.symm hquiet hpending
  refine ⟨rest, ?_, hrest⟩
  rw [readPayload, bind_of_eq_ok hread, Packet.checked]
  split
  · next hsum =>
    have hverify : verifyChecksum packet.payload packet.header.checksum =
        .ok (doubleSha256 packet.payload) := if_pos hsum
    rw [bind_of_eq_ok (ofExcept_eq_ok_iff.2 ⟨hverify, rfl⟩)]
    rfl
  · next hsum =>
    have hverify : verifyChecksum packet.payload packet.header.checksum =
        .error (.checksumMismatch (checksum packet.payload) packet.sum) := if_neg hsum
    exact bind_of_eq_error (ofExcept_eq_error_iff.2 ⟨hverify, rfl⟩)

theorem readBody_of_packet (link : Link) (hquiet : stream.Quiet)
    (hpending : stream.pending = packet.payload ++ tail) :
    ∃ rest, link.readBody packet.header stream = ofExcept (packet.outcome link.protocol) rest ∧
      rest.Quiet ∧ rest.pending = tail := by
  obtain ⟨rest, hpayload, hrest⟩ := readPayload_of_packet hquiet hpending
  refine ⟨rest, ?_, hrest⟩
  rw [Packet.checked] at hpayload
  rw [Packet.outcome]
  split
  · next hsum =>
    rw [if_pos hsum] at hpayload
    rw [readBody, bind_of_eq_ok hpayload]
    rfl
  · next hsum =>
    rw [if_neg hsum] at hpayload
    rw [readBody, bind_of_eq_error hpayload]
    rfl

/-- Behind bytes without the magic number, all readers come to the header of the packet. -/
theorem exists_payload_of_packet {gap : Bytes} (hgap : ¬link.network.magic.toBytes <:+: gap)
    (hquiet : stream.Quiet)
    (hpending : stream.pending = gap ++ (packet.bytes link.network ++ tail)) :
    ∃ found between, Stream.seek link.network.magic stream = .ok () found ∧
      FrameHeader.read found = .ok packet.header between ∧ between.Quiet ∧
        between.pending = packet.payload ++ tail := by
  rw [Packet.bytes, List.append_assoc, List.append_assoc] at hpending
  obtain ⟨found, hseek, hfound, hpending⟩ :=
    Stream.seek_of_gap (Network.nodup_magic _) hgap hquiet hpending
  obtain ⟨between, hheader, hbetween⟩ := readHeader_of_packet hfound hpending
  exact ⟨found, between, hseek, hheader, hbetween⟩

/-- **One call, one packet.**  Behind bytes without the magic number, the reader takes the packet
and nothing else off the stream, and gives what it makes of the packet. -/
theorem readMessage_of_packet {gap : Bytes} (hgap : ¬link.network.magic.toBytes <:+: gap)
    (hquiet : stream.Quiet)
    (hpending : stream.pending = gap ++ (packet.bytes link.network ++ tail)) :
    ∃ rest, link.readMessage stream = ofExcept (packet.outcome link.protocol) rest ∧ rest.Quiet ∧
      rest.pending = tail := by
  obtain ⟨found, between, hseek, hheader, hbetween, hpending⟩ :=
    exists_payload_of_packet hgap hquiet hpending
  obtain ⟨rest, hbody, hrest⟩ := readBody_of_packet link hbetween hpending
  refine ⟨rest, ?_, hrest⟩
  rw [readMessage, bind_of_eq_ok hseek, bind_of_eq_ok hheader, hbody]

/-- The raw reader takes the same bytes, and looks at the checksum only. -/
theorem readRaw_of_packet {gap : Bytes} (hgap : ¬link.network.magic.toBytes <:+: gap)
    (hquiet : stream.Quiet)
    (hpending : stream.pending = gap ++ (packet.bytes link.network ++ tail)) :
    ∃ rest, link.readRaw stream = ofExcept (packet.checked.map (RawFrame.mk packet.header)) rest ∧
      rest.Quiet ∧ rest.pending = tail := by
  obtain ⟨found, between, hseek, hheader, hbetween, hpending⟩ :=
    exists_payload_of_packet hgap hquiet hpending
  obtain ⟨rest, hpayload, hrest⟩ := readPayload_of_packet hbetween hpending
  refine ⟨rest, ?_, hrest⟩
  rw [readRaw, bind_of_eq_ok hseek, bind_of_eq_ok hheader]
  cases hchecked : packet.checked with
  | ok payload =>
    rw [hchecked] at hpayload
    rw [bind_of_eq_ok hpayload]
    rfl
  | error e =>
    rw [hchecked] at hpayload
    rw [bind_of_eq_error hpayload]
    rfl

/-- Bytes without the magic number are taken to the end. -/
theorem readMessage_of_absent (link : Link) (hquiet : stream.Quiet)
    (hnone : ¬link.network.magic.toBytes <:+: stream.pending) :
    link.readMessage stream = .error .insufficientData [] :=
  bind_of_eq_error (Stream.seek_of_absent hquiet hnone)

end Link

end Bitcoin
