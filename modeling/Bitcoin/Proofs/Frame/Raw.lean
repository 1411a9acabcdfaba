import Bitcoin.Proofs.Frame.Written
import Mathlib.Data.List.TakeWhile

/-!
# Raw frames

A payload that is written as it is comes back as it was, and so does its command **up to the first
zero**.  The writer takes every command of at most twelve ASCII characters, and the zero is one of
them; but the reader takes the first zero in the field for the end of the command.

* `upToZero` is what the reader sees of a command, and `commandOfField_of_commandField` says so.
* `Link.readRaw_of_writeRaw` is what is read of what is written, and
  `Link.not_forall_command_of_writeRaw` is a command that does not come back.

A raw frame has a command that is any text, where a message has one of the known names.  That is why
the zero matters here and not for messages: no known name holds one (`commandOfField_field`),
so for messages the command always comes back.

The way from a text to its field and back leads through three representations: characters, the UTF-8
bytes of the text, and the twelve bytes of the field.  For ASCII, characters and bytes match one to
one, so cutting the field at its first zero byte is cutting the text at its first zero character
(`takeWhile_map_commandChar`); the zeros that fill the field up only help to find the end, and
a command of twelve characters ends with the field.

The theorem gives the exact condition and leaves nothing out: the payload and its length come back
whatever the command is, and the command comes back if and only if it holds no zero.  The
counterexample behind it is the smallest of those that fail.
-/

set_option autoImplicit false

namespace Bitcoin

open Stateful

/-! ## The bytes of an ASCII command -/

theorem utf8EncodeChar_commandChar {b : UInt8} (h : b < 128) :
    String.utf8EncodeChar (commandChar b) = [b] := by
  have hall : ∀ n < 128, String.utf8EncodeChar (Char.ofNat n) = [UInt8.ofNat n] := by decide
  rw [commandChar, if_pos h, hall b.toNat (UInt8.lt_iff_toNat_lt.1 h), UInt8.ofNat_toNat]

/-- The text of ASCII bytes, character by character. -/
theorem Text.toUtf8_ofList_commandChar {bytes : Bytes} (h : ∀ b ∈ bytes, b < 128) :
    Text.toUtf8 (String.ofList (bytes.map commandChar)) = bytes := by
  rw [Text.toUtf8, String.toByteArray_ofList]
  induction bytes with
  | nil => rfl
  | cons b bytes ih =>
    obtain ⟨hb, hbytes⟩ := List.forall_mem_cons.1 h
    rw [List.map_cons, List.utf8Encode_cons, ByteArray.toList_data_append, ih hbytes]
    simp [List.utf8Encode, utf8EncodeChar_commandChar hb]

theorem commandChar_eq_zero_iff {b : UInt8} (h : b < 128) : commandChar b = '\x00' ↔ b = 0 := by
  have hall : ∀ n < 128, Char.ofNat n = '\x00' ↔ n = 0 := by decide
  rw [commandChar, if_pos h, hall b.toNat (UInt8.lt_iff_toNat_lt.1 h), ← UInt8.toNat_inj]
  rfl

theorem toList_of_ascii {command : String} (h : ∀ b ∈ Text.toUtf8 command, b < 128) :
    command.toList = (Text.toUtf8 command).map commandChar := by
  rw [← Text.toUtf8_inj.1 (Text.toUtf8_ofList_commandChar h), String.toList_ofList,
    Text.toUtf8_ofList_commandChar h]

/-- The first zero byte stands for the first zero character. -/
theorem takeWhile_map_commandChar {bytes : Bytes} (h : ∀ b ∈ bytes, b < 128) :
    (bytes.map commandChar).takeWhile (· != '\x00') =
      (bytes.takeWhile (· != 0)).map commandChar := by
  induction bytes with
  | nil => rfl
  | cons b bytes ih =>
    obtain ⟨hb, hbytes⟩ := List.forall_mem_cons.1 h
    by_cases hzero : b = 0
    · have hchar : commandChar b = '\x00' := (commandChar_eq_zero_iff hb).2 hzero
      rw [List.map_cons, List.takeWhile_cons, List.takeWhile_cons, hchar, hzero]
      rfl
    · have hchar : commandChar b ≠ '\x00' := mt (commandChar_eq_zero_iff hb).1 hzero
      simp [hzero, hchar, ih hbytes]

/-! ## The command field -/

/-- What the reader sees of a command: the characters in front of the first zero. -/
def upToZero (command : String) : String :=
  String.ofList (command.toList.takeWhile (· != '\x00'))

theorem upToZero_eq_self_iff {command : String} :
    upToZero command = command ↔ '\x00' ∉ command.toList := by
  have hchars : upToZero command = command ↔
      command.toList.takeWhile (· != '\x00') = command.toList := by
    rw [upToZero, ← String.toList_inj, String.toList_ofList]
  rw [hchars, List.takeWhile_eq_self_iff]
  constructor
  · intro hall hzero
    simpa using hall _ hzero
  · intro hnone c hc
    rw [bne_iff_ne]
    rintro rfl
    exact hnone hc

/-- A command that fits in its field has only ASCII characters, and zeros fill the field up. -/
theorem toBytes_of_commandField {command : String} {field : FixedBytes Command.fieldLength}
    (h : commandField command = .ok field) :
    (∀ b ∈ Text.toUtf8 command, b < 128) ∧
      ∃ n, field.toBytes = Text.toUtf8 command ++ Bytes.zeros n := by
  rw [commandField] at h
  split at h
  · next hascii =>
    split at h
    · cases h
      exact ⟨by simpa using hascii, _, rfl⟩
    · cases h
  · cases h

theorem takeWhile_append_zeros (bytes : Bytes) (n : Nat) :
    (bytes ++ Bytes.zeros n).takeWhile (· != 0) = bytes.takeWhile (· != 0) := by
  induction bytes with
  | nil => simp [Bytes.zeros]
  | cons b bytes ih => rw [List.cons_append, List.takeWhile_cons, List.takeWhile_cons, ih]

/-- **The reader sees a command up to its first zero.** -/
theorem commandOfField_of_commandField {command : String} {field : FixedBytes Command.fieldLength}
    (h : commandField command = .ok field) : commandOfField field = upToZero command := by
  obtain ⟨hascii, n, hbytes⟩ := toBytes_of_commandField h
  rw [commandOfField, hbytes, takeWhile_append_zeros, ← takeWhile_map_commandChar hascii,
    ← toList_of_ascii hascii, upToZero]

namespace Link

variable {link : Link} {command : String} {payload : Bytes} {sink after : Sink}

/-- What is written is a packet with the right checksum. -/
theorem exists_packet_of_writeRaw (h : link.writeRaw command payload sink = .ok () after) :
    ∃ packet : Packet, packet.checked = .ok payload ∧ packet.payload = payload ∧
      packet.command = upToZero command ∧
        after.written = sink.written ++ packet.bytes link.network := by
  obtain ⟨bytes, _, hstep, hwrite⟩ := bind_eq_ok_iff.1 h
  obtain ⟨hframe, rfl⟩ := ofExcept_eq_ok_iff.1 hstep
  obtain ⟨packet, hfield, hsum, rfl, rfl⟩ := exists_packet_of_frame hframe
  exact ⟨packet, if_pos hsum.symm, rfl, commandOfField_of_commandField hfield,
    Sink.written_of_push hwrite⟩

/-- The reader takes a packet with the right checksum and nothing else. -/
theorem readRaw_of_checked (link : Link) {packet : Packet} {stream : Stream} {tail : Bytes}
    (hchecked : packet.checked = .ok payload) (hquiet : stream.Quiet)
    (hpending : stream.pending = packet.bytes link.network ++ tail) :
    ∃ rest, link.readRaw stream = .ok ⟨packet.header, payload⟩ rest ∧ rest.pending = tail := by
  obtain ⟨rest, hread, -, hrest⟩ :=
    readRaw_of_packet link.network.magic_absent_nil hquiet hpending
  rw [hchecked] at hread
  exact ⟨rest, hread, hrest⟩

/-- **A payload comes back as it was, and its command up to the first zero.**  However the frame is
cut into pieces on the way and whatever stands behind it, the reader takes the frame and nothing
else.  So it is just the commands without a zero that come back. -/
theorem readRaw_of_writeRaw (h : link.writeRaw command payload sink = .ok () after) :
    ∃ bytes, after.written = sink.written ++ bytes ∧
      ∀ (stream : Stream) (tail : Bytes), stream.Quiet → stream.pending = bytes ++ tail →
        ∃ frame rest, link.readRaw stream = .ok frame rest ∧ rest.pending = tail ∧
          frame.payload = payload ∧ frame.header.length.toNat = payload.length ∧
            frame.header.command = upToZero command ∧
              (frame.header.command = command ↔ '\x00' ∉ command.toList) := by
  obtain ⟨packet, hchecked, rfl, hcommand, hwritten⟩ := exists_packet_of_writeRaw h
  refine ⟨packet.bytes link.network, hwritten, ?_⟩
  intro stream tail hquiet hpending
  obtain ⟨rest, hread, hrest⟩ := readRaw_of_checked link hchecked hquiet hpending
  have hheader : packet.header.command = upToZero command := hcommand
  refine ⟨_, rest, hread, hrest, rfl, packet.toNat_length_header, hheader, ?_⟩
  rw [← upToZero_eq_self_iff, ← hheader]

/-- A command that fills its field comes back, with no room for a zero behind it. -/
theorem readRaw_of_writeRaw_twelve :
    ∃ after frame rest,
      writeRaw ⟨.mainnet, .current⟩ "123456789012" [9, 9] Sink.empty = .ok () after ∧
        readRaw ⟨.mainnet, .current⟩ (Stream.ofBytes after.written) = .ok frame rest ∧
          rest.pending = [] ∧ frame.payload = [9, 9] ∧ frame.header.command = "123456789012" := by
  have hwrite : ∃ after,
      writeRaw ⟨.mainnet, .current⟩ "123456789012" [9, 9] Sink.empty = .ok () after := ⟨_, rfl⟩
  obtain ⟨after, hwrite⟩ := hwrite
  obtain ⟨bytes, hwritten, hreads⟩ := readRaw_of_writeRaw hwrite
  have hpending : (Stream.ofBytes after.written).pending = bytes ++ [] := by
    rw [Stream.pending_ofBytes, hwritten, List.append_nil]
    rfl
  obtain ⟨frame, rest, hread, hrest, hpayload, -, -, hcommand⟩ :=
    hreads _ [] (Stream.quiet_ofBytes _) hpending
  exact ⟨after, frame, rest, hwrite, hread, hrest, hpayload, hcommand.2 (by decide)⟩

/-- A zero in the middle of a command is written, and read as the end of the command: with a payload
of two bytes, `a`, a zero and `b` come back as `a`. -/
theorem not_forall_command_of_writeRaw :
    ¬∀ (link : Link) (command : String) (payload : Bytes) (after : Sink),
      link.writeRaw command payload Sink.empty = .ok () after →
        ∃ frame rest, link.readRaw (Stream.ofBytes after.written) = .ok frame rest ∧
          rest.pending = [] ∧ frame.header.command = command ∧
            frame.header.length.toNat = payload.length ∧ frame.payload = payload := by
  intro hall
  have hwrite : ∃ after,
      writeRaw ⟨.mainnet, .current⟩ "a\x00b" [1, 2] Sink.empty = .ok () after := ⟨_, rfl⟩
  obtain ⟨after, hwrite⟩ := hwrite
  obtain ⟨frame, _, hsame, -, hcommand, -⟩ :=
    hall ⟨.mainnet, .current⟩ "a\x00b" [1, 2] after hwrite
  obtain ⟨packet, hchecked, -, hread, hwritten⟩ := exists_packet_of_writeRaw hwrite
  have hpending : (Stream.ofBytes after.written).pending = packet.bytes .mainnet ++ [] := by
    rw [Stream.pending_ofBytes, hwritten, List.append_nil]
    rfl
  obtain ⟨_, hpacket, -⟩ :=
    readRaw_of_checked ⟨.mainnet, .current⟩ hchecked (Stream.quiet_ofBytes _) hpending
  rw [hsame] at hpacket
  cases hpacket
  have hzero : upToZero "a\x00b" ≠ "a\x00b" := by decide
  exact hzero (hread.symm.trans hcommand)

end Link

end Bitcoin
