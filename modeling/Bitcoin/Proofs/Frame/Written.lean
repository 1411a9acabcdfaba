import Bitcoin.Proofs.Frame.Packet
import Bitcoin.Proofs.Message.Readable

/-!
# What is written as a frame

A message that is written without an error is written as a packet, and the reader makes the same
message of that packet (`Link.exists_packet_of_writeMessage`).  It does not matter in which pieces
the sink takes it, and what the sink was asked to take before.

The packet is the link between the two halves of the library.  What is known of written bytes ends
with it, and what is known of reading starts from it: `Packet.outcome` of the packet is the message,
so everything that `Bitcoin.Proofs.Frame.Packet` and `Bitcoin.Proofs.Frame.Sequence` say of packets
holds for messages that were written.

Before a message is written it is checked, and `Message.decode_of_check` turns that check into the
fact that its payload is read as the message.  The rest is the header: the name of a command fills
its field up with zeros and is read from there again, the length is that of the payload, and the
checksum is computed from it.
-/

set_option autoImplicit false

namespace Bitcoin

open Stateful

/-! ## The command field -/

theorem commandField_name (command : Command) : commandField command.name = .ok command.field := by
  cases command <;> rfl

/-- The zeros behind a name are not part of it, and no name has any. -/
theorem commandOfField_field (command : Command) : commandOfField command.field = command.name := by
  cases command <;> decide

/-! ## Sinks -/

/-- What is written without an error stands behind what was written before. -/
theorem Sink.written_of_push {bytes written : Bytes} {replies : List Reply} {sink : Sink}
    (h : Sink.push bytes written replies = .ok () sink) : sink.written = written ++ bytes := by
  induction replies generalizing bytes written with
  | nil =>
    cases h
    rfl
  | cons reply replies ih =>
    unfold Sink.push at h
    split at h
    · next hempty =>
      cases h
      rw [List.isEmpty_iff.1 hempty, List.append_nil]
    cases reply with
    | room n =>
      simp only at h
      split at h
      · cases h
        rfl
      · rw [ih h, List.append_assoc, List.take_append_drop]
    | fault fault =>
      simp only at h
      split at h
      · exact ih h
      · cases h

namespace Link

variable {link : Link} {message : Message} {sink after : Sink}

theorem exists_packet_of_frame {command : String} {payload bytes : Bytes}
    (h : link.frame command payload = .ok bytes) :
    ∃ packet : Packet, commandField command = .ok packet.field ∧
      packet.sum = checksum payload ∧ packet.payload = payload ∧
        bytes = packet.bytes link.network := by
  rw [frame] at h
  cases hfield : commandField command with
  | error e =>
    rw [hfield] at h
    cases h
  | ok field =>
    simp only [hfield, bind, Except.bind] at h
    split at h
    · cases h
    · next hlength =>
      refine ⟨⟨field, checksum payload, payload, Nat.le_of_not_lt hlength⟩, rfl, rfl, rfl, ?_⟩
      cases h
      simp [Packet.bytes, Packet.toBytes_headerBytes, Packet.lengthBytes]

/-- **What is written is a packet of the message.** -/
theorem exists_packet_of_writeMessage (h : link.writeMessage message sink = .ok () after) :
    ∃ packet : Packet, packet.outcome link.protocol = .ok message ∧
      after.written = sink.written ++ packet.bytes link.network := by
  rw [writeMessage] at h
  cases hpayload : message.toPayload link.protocol with
  | error e =>
    rw [hpayload] at h
    cases e <;> cases h
  | ok payload =>
    rw [hpayload] at h
    obtain ⟨bytes, _, hstep, hwrite⟩ := bind_eq_ok_iff.1 h
    obtain ⟨hframe, rfl⟩ := ofExcept_eq_ok_iff.1 hstep
    obtain ⟨packet, hfield, hsum, rfl, rfl⟩ := exists_packet_of_frame hframe
    refine ⟨packet, ?_, Sink.written_of_push hwrite⟩
    obtain ⟨hcheck, hpayload⟩ := Message.toPayload_eq_ok_iff.1 hpayload
    obtain ⟨command, hcommand⟩ := Message.exists_command?_of_payload? hpayload
    have hname := Message.commandName_of_command? hcommand
    have hsame : packet.field = command.field := by
      rw [hname, commandField_name] at hfield
      exact (Except.ok.inj hfield).symm
    have hdecode := Message.decode_of_check hcheck hpayload packet.length_payload_le
    rw [hname, ← commandOfField_field, ← hsame] at hdecode
    exact Packet.outcome_of_decode hsum hdecode

end Link

end Bitcoin
