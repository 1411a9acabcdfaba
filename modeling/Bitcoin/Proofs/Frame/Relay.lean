import Bitcoin.Proofs.Frame.Header

/-!
# Frames that are passed on

A node that reads a frame without looking at its payload may write it again.  What is written is the
frame that was read: the payload, its length and its checksum come out as they were, since the
checksum was right.  **Only the command field may differ, behind its first zero**, where the reader
does not look and the writer fills up with zeros.

A command with bytes that are not ASCII is another matter.  The reader has put a character in their
place that no command has, and the writer refuses it.

* `Link.exists_packet_of_readRaw` is what a frame that was read stands in, on any stream.
* `Packet.tidied` is the packet with nothing behind the first zero of its command.
* `Link.relay_of_readRaw` is what is written of it, and what is read then.

Nothing is assumed about where the frame comes from.  A reader that gives a raw frame has found a
magic number, a header of the right size and a payload with the announced length and the right
checksum, and these are a packet (`Link.exists_packet_of_readRaw`).  Writing starts from the packet
and not from the bytes on the stream: the link may have skipped some in front of it, and they are
not written again.

That the checksum comes out right has to be said, because it is not copied.  The writer computes it
from the payload, and the reader has made sure that it was this one.

Tidying does not change what is read (`Packet.header_tidied`), so a frame may be passed on any
number of times: it is the same frame at every node, and from the second node on also the same
bytes.
-/

set_option autoImplicit false

namespace Bitcoin

open Stateful

/-! ## Headers that were read -/

namespace FrameHeader

/-- A header that was read is that of a packet with a payload of the announced length. -/
theorem exists_packet_of_ofBytes {bytes : FixedBytes size} {header : FrameHeader} {payload : Bytes}
    (h : ofBytes bytes = .ok header) (hpayload : payload.length = header.length.toNat) :
    ∃ packet : Packet, packet.payload = payload ∧ packet.header = header ∧
      packet.headerBytes = bytes := by
  simp only [ofBytes] at h
  split at h
  · cases h
  · next hmax =>
    cases h
    have hmax := Nat.le_of_not_lt hmax
    have hbound : maxPayloadLength < UInt32.size := by decide
    rw [UInt32.toNat_ofNat_of_lt' (by omega)] at hpayload
    have hlength := Bytes.littleEndian_toNatLE (bytes.slice 12 4 (by decide)).toBytes
    rw [FixedBytes.length_eq, ← hpayload] at hlength
    refine ⟨⟨bytes.slice 0 12 (by decide), bytes.slice 16 4 (by decide), payload, by omega⟩, rfl,
      ?_, ?_⟩
    · exact congrArg (fun length => FrameHeader.mk _ (UInt32.ofNat length) _) hpayload
    · apply FixedBytes.ext
      show _ ++ Bytes.littleEndian 4 payload.length ++ _ = bytes.toBytes
      rw [hlength, toBytes_eq_slices bytes]

end FrameHeader

/-! ## Packets that are passed on -/

namespace Packet

variable {packet : Packet} {payload : Bytes}

/-- The packet with nothing behind the first zero of its command. -/
def tidied (packet : Packet) : Packet := { packet with field := packet.field.clearBehindZero }

theorem header_tidied (packet : Packet) : packet.tidied.header = packet.header := by
  rw [header, header, command, command, tidied, commandOfField_clearBehindZero]

theorem checked_eq_ok_iff :
    packet.checked = .ok payload ↔
      checksum packet.payload = packet.sum ∧ packet.payload = payload := by
  rw [checked]
  split <;> simp [*]

/-- What is written of a packet with the right checksum and an ASCII command. -/
theorem frameBytes_eq (link : Link) (hsum : checksum packet.payload = packet.sum)
    (hascii : IsAscii packet.command) :
    link.frameBytes packet.command packet.payload = packet.tidied.bytes link.network := by
  have hchecksum : (doubleSha256 packet.payload).toBytes.take 4 = packet.sum.toBytes := by
    rw [← hsum]
    rfl
  rw [Link.frameBytes, command, toUtf8_commandOfField hascii, hchecksum]
  simp [bytes, toBytes_headerBytes, lengthBytes, tidied, FixedBytes.clearBehindZero,
    Command.fieldLength]

end Packet

namespace Link

variable {link : Link} {packet : Packet} {raw : RawFrame} {stream rest : Stream} {payload : Bytes}
  {header : FrameHeader}

theorem checked_of_readPayload (h : readPayload packet.header stream = .ok packet.payload rest) :
    packet.checked = .ok packet.payload := by
  obtain ⟨bytes, between, -, h⟩ := bind_eq_ok_iff.1 h
  obtain ⟨hash, _, hverify, h⟩ := bind_eq_ok_iff.1 h
  obtain ⟨hverify, rfl⟩ := ofExcept_eq_ok_iff.1 hverify
  obtain ⟨hbytes, -⟩ : bytes.toBytes = packet.payload ∧ between = rest := by
    simpa [pure_apply] using h
  rw [hbytes] at hverify
  simp only [verifyChecksum] at hverify
  split at hverify
  · next hsum => exact Packet.checked_eq_ok_iff.2 ⟨hsum, rfl⟩
  · cases hverify

theorem length_of_readPayload (h : readPayload header stream = .ok payload rest) :
    payload.length = header.length.toNat := by
  obtain ⟨bytes, _, -, h⟩ := bind_eq_ok_iff.1 h
  obtain ⟨_, _, -, h⟩ := bind_eq_ok_iff.1 h
  cases h
  exact bytes.length_eq

/-- **What was read stood in a packet**, the first one on the stream, and the reader has taken it
off with the bytes in front of it. -/
theorem exists_packet_of_readRaw (h : link.readRaw stream = .ok raw rest) :
    ∃ (gap : Bytes) (packet : Packet),
      stream.pending = gap ++ (packet.bytes link.network ++ rest.pending) ∧
      ¬link.network.magic.toBytes <:+: gap ∧ raw = ⟨packet.header, packet.payload⟩ ∧
      packet.checked = .ok packet.payload := by
  obtain ⟨⟨⟩, found, hseek, h⟩ := bind_eq_ok_iff.1 h
  obtain ⟨header, between, hheader, h⟩ := bind_eq_ok_iff.1 h
  obtain ⟨payload, _, hpayload, h⟩ := bind_eq_ok_iff.1 h
  cases h
  obtain ⟨bytes, _, hbytes, hstep⟩ := bind_eq_ok_iff.1 hheader
  obtain ⟨hparse, rfl⟩ := ofExcept_eq_ok_iff.1 hstep
  obtain ⟨packet, rfl, rfl, rfl⟩ :=
    FrameHeader.exists_packet_of_ofBytes hparse (length_of_readPayload hpayload)
  obtain ⟨gap, hfirst⟩ := Stream.exists_first_of_seek (Network.nodup_magic _) hseek
  have habsent := hfirst.not_infix_gap (Stream.magic_ne_nil _)
  have hgap := hfirst.eq_append
  rw [Stream.pending_of_readExact hbytes, pending_of_readPayload hpayload] at hgap
  refine ⟨gap, packet, ?_, habsent, rfl, checked_of_readPayload hpayload⟩
  rw [hgap, Packet.bytes, List.append_assoc, List.append_assoc]

/-- A packet with the right checksum is written tidied, if its command is ASCII. -/
theorem writeRaw_of_checked (hchecked : packet.checked = .ok packet.payload)
    (hascii : IsAscii packet.command) (sink : Sink) :
    link.writeRaw packet.command packet.payload sink =
      Sink.writeAll (packet.tidied.bytes link.network) sink := by
  have hbytes := toUtf8_commandOfField hascii
  have hframeable : Frameable packet.command packet.payload := by
    refine ⟨?_, ?_, packet.length_payload_le⟩
    · rw [Packet.command, hbytes]
      exact isAscii_commandOfField_iff.1 hascii
    · rw [Packet.command, hbytes]
      exact packet.field.length_frontOfZero_le
  rw [writeRaw_of_frameable hframeable,
    Packet.frameBytes_eq link (Packet.checked_eq_ok_iff.1 hchecked).1 hascii]

theorem writeRaw_of_not_isAscii {command : String} (h : ¬IsAscii command) (sink : Sink) :
    link.writeRaw command payload sink = .error .commandNotAscii sink := by
  have hframe : link.frame command payload = .error .commandNotAscii := by
    rw [frame, commandField_of_not_isAscii h]
    rfl
  exact bind_of_eq_error (ofExcept_eq_error_iff.2 ⟨hframe, rfl⟩)

/-- **Passing frames on loses nothing.**  Whatever frame is read from whatever stream, it stood in
the first packet there.  If its command is ASCII, what is written of it is this packet, tidied, on
every sink that has room for it, and the same frame is read again from that; otherwise it is refused
and no sink is touched. -/
theorem relay_of_readRaw (h : link.readRaw stream = .ok raw rest) :
    ∃ (gap : Bytes) (packet : Packet),
      stream.pending = gap ++ (packet.bytes link.network ++ rest.pending) ∧
      ¬link.network.magic.toBytes <:+: gap ∧
      (IsAscii raw.header.command →
        (∀ sink : Sink,
          (∀ room e, Sink.firstFault? sink.replies = some (room, e) →
            (packet.tidied.bytes link.network).length ≤ room) →
          ∃ after, link.writeRaw raw.header.command raw.payload sink = .ok () after ∧
            after.written = sink.written ++ packet.tidied.bytes link.network) ∧
        ∀ (again : Stream) (tail : Bytes), again.Quiet →
          again.pending = packet.tidied.bytes link.network ++ tail →
          ∃ left, link.readRaw again = .ok raw left ∧ left.pending = tail) ∧
      (¬IsAscii raw.header.command → ∀ sink,
        link.writeRaw raw.header.command raw.payload sink = .error .commandNotAscii sink) := by
  obtain ⟨gap, packet, hpending, habsent, rfl, hchecked⟩ := exists_packet_of_readRaw h
  refine ⟨gap, packet, hpending, habsent, fun hascii => ⟨fun sink hroom => ?_, ?_⟩,
    fun hascii sink => writeRaw_of_not_isAscii hascii sink⟩
  · obtain ⟨left, hwrite⟩ := Sink.writeAll_of_room hroom
    exact ⟨_, (writeRaw_of_checked hchecked hascii sink).trans hwrite, rfl⟩
  · intro again tail hquiet hagain
    have htidied : packet.tidied.checked = .ok packet.payload := hchecked
    obtain ⟨left, hread, hleft⟩ := readRaw_of_checked link htidied hquiet hagain
    rw [Packet.header_tidied] at hread
    exact ⟨left, hread, hleft⟩

/-- A frame with `hi` and more behind a zero in the field of its command is written and read. -/
theorem relay_of_readRaw_hi :
    ∃ raw rest after left,
      readRaw ⟨.mainnet, .current⟩ (Stream.ofBytes ([7] ++ (Network.mainnet.magic.toBytes ++
          ([104, 105, 0, 1, 2, 3, 0, 0, 0, 0, 0, 0] ++ [2, 0, 0, 0] ++
            (checksum [9, 9]).toBytes ++ [9, 9])))) = .ok raw rest ∧
        raw.header.command = "hi" ∧
          writeRaw ⟨.mainnet, .current⟩ "hi" [9, 9] Sink.empty = .ok () after ∧
            readRaw ⟨.mainnet, .current⟩ (Stream.ofBytes after.written) = .ok raw left := by
  let packet : Packet :=
    ⟨⟨[104, 105, 0, 1, 2, 3, 0, 0, 0, 0, 0, 0], rfl⟩, checksum [9, 9], [9, 9], by decide⟩
  have hgap : ¬(Link.mk .mainnet .current).network.magic.toBytes <:+: [7] := by decide
  have hpending : (Stream.ofBytes ([7] ++ packet.bytes .mainnet)).pending =
      [7] ++ (packet.bytes .mainnet ++ []) := by
    rw [Stream.pending_ofBytes, List.append_nil]
  obtain ⟨rest, hread, -⟩ := readRaw_of_packet hgap (Stream.quiet_ofBytes _) hpending
  have hchecked : packet.checked = .ok packet.payload := if_pos rfl
  have hcommand : packet.command = "hi" := by decide
  have hfront : packet.field.frontOfZero = [104, 105] := by decide
  have hascii : IsAscii packet.command := by
    refine isAscii_commandOfField_iff.2 ?_
    rw [hfront]
    simp
  have hlength : packet.lengthBytes.toBytes = [2, 0, 0, 0] := by decide
  rw [hchecked, Packet.bytes, Packet.toBytes_headerBytes, hlength] at hread
  obtain ⟨-, found, -, -, hwrite, -⟩ := relay_of_readRaw hread
  obtain ⟨hwrite, hagain⟩ := hwrite hascii
  obtain ⟨after, hafter, hwritten⟩ := hwrite Sink.empty (by rintro _ _ ⟨⟩)
  have hpending : (Stream.ofBytes after.written).pending =
      found.tidied.bytes Network.mainnet ++ [] := by
    rw [Stream.pending_ofBytes, hwritten, List.append_nil]
    rfl
  obtain ⟨left, hleft, -⟩ := hagain _ [] (Stream.quiet_ofBytes _) hpending
  have hafter : writeRaw ⟨.mainnet, .current⟩ packet.command [9, 9] Sink.empty = .ok () after :=
    hafter
  rw [hcommand] at hafter
  exact ⟨⟨packet.header, packet.payload⟩, rest, after, left, hread, hcommand, hafter, hleft⟩

end Link

end Bitcoin
