import Bitcoin.Proofs.Message.Readable

/-!
# Writing and reading messages are inverse

Both directions between messages and payloads, for all commands that are known and all versions of
the protocol:

* `Message.decode_of_toPayload`: what is written for a peer is read back by it.
* `Message.payload_of_decode`: what is read is what was written.  **No payload is normalised**, so a
  command has one payload for each of its messages.
* `Message.toPayload_of_decode`: what is read may be sent on, to a peer of the same version, and is
  sent on unchanged.  There is one exception, where the writer refuses one message too many.

The first two are read off `Message.decode_eq_ok_iff`, which says that decoding finds the message
whose payload it is given and nothing else.  They need no case of their own for any command: what
the formats differ in has been dealt with once, in `Bitcoin.Proofs.Message.Readable`.

The exception is this.  A writer is to refuse the messages that would not be read back as
themselves, and where witnesses are known, a transaction without inputs is such a message: the zero
for its inputs is taken for the mark of a witness, and the number of its outputs for the flag behind
the mark.  If there are no outputs either, that flag is zero, which announces nothing, and the
transaction *is* read back as itself.  The check looks at the inputs only and refuses it all the
same.  The theorem gives the exact condition, so nothing else is read and not sent on, and
`Message.not_forall_check_of_decode` is the shortest payload of that kind.
-/

set_option autoImplicit false

namespace Bitcoin.Message

variable {protocol : ProtocolVersion} {command : String} {known : Command} {message : Message}
  {payload : Bytes}

/-- **Reading undoes writing.**  A payload that is written for a peer, and is short enough for a
frame, is read back by it as the same message. -/
theorem decode_of_toPayload (h : message.toPayload protocol = .ok payload)
    (hlength : payload.length ≤ maxPayloadLength) :
    decode protocol message.commandName payload = .ok message := by
  obtain ⟨hcheck, hpayload⟩ := toPayload_eq_ok_iff.1 h
  exact decode_of_check hcheck hpayload hlength

/-- A transaction with a witness. -/
theorem decode_of_toPayload_tx :
    decode .current "tx"
        ([2, 0, 0, 0, 0, 1, 1] ++ OutPoint.null.write ++ [0, 5, 0, 0, 0, 0, 1, 1, 7, 0, 0, 0, 0]) =
      .ok (tx ⟨2, [⟨.null, [], 5, [[7]]⟩], [], 0⟩) :=
  have h : (tx ⟨2, [⟨.null, [], 5, [[7]]⟩], [], 0⟩).toPayload .current =
      .ok ([2, 0, 0, 0, 0, 1, 1] ++ OutPoint.null.write ++
        [0, 5, 0, 0, 0, 0, 1, 1, 7, 0, 0, 0, 0]) := rfl
  decode_of_toPayload h (by decide)

/-- **Writing undoes reading.**  Whatever payload is read as a message of a known command is the
payload of that message, and no other payload of the command is ever read as the same message. -/
theorem payload_of_decode (hknown : Command.ofName? command = some known)
    (h : decode protocol command payload = .ok message) :
    message.commandName = command ∧ message.payload? = some payload ∧
      ∀ otherProtocol otherPayload, decode otherProtocol command otherPayload = .ok message →
        otherPayload = payload := by
  obtain ⟨-, hcommand, hpayload⟩ := (decode_eq_ok_iff hknown).1 h
  refine ⟨?_, hpayload, ?_⟩
  · rw [commandName_of_command? hcommand, Command.name_of_ofName? hknown]
  · intro otherProtocol otherPayload hother
    obtain ⟨-, -, hotherPayload⟩ := (decode_eq_ok_iff hknown).1 hother
    exact Option.some.inj (hotherPayload.symm.trans hpayload)

/-- A ping with the nonce that old nodes leave out. -/
theorem payload_of_decode_ping :
    (ping (some 7)).commandName = "ping" ∧
      (ping (some 7)).payload? = some [7, 0, 0, 0, 0, 0, 0, 0] ∧
      ∀ otherProtocol otherPayload,
        decode otherProtocol "ping" otherPayload = .ok (ping (some 7)) →
          otherPayload = [7, 0, 0, 0, 0, 0, 0, 0] :=
  have h : decode .current "ping" [7, 0, 0, 0, 0, 0, 0, 0] = .ok (ping (some 7)) := rfl
  payload_of_decode (Command.ofName?_name .ping) h

/-- **What is read may be sent on.**  A message that was read is written for a peer of the same
version, as the payload that it came in, unless it carries a transaction without inputs and the peer
knows witnesses.  The reader takes such a transaction only without outputs, so it would be read back
as itself, but the writer refuses it like those that would not. -/
theorem toPayload_of_decode (hknown : Command.ofName? command = some known)
    (h : decode protocol command payload = .ok message) :
    (message.isAmbiguous protocol = false →
        message.check protocol = .ok () ∧ message.toPayload protocol = .ok payload) ∧
      (message.isAmbiguous protocol = true →
        message.check protocol = .error (.invalid .transactionWithoutInputs) ∧
          message.toPayload protocol = .error (.refused (.invalid .transactionWithoutInputs))) ∧
      ∀ tx ∈ message.transactions, protocol.allowsWitness → tx.inputs = [] → tx.outputs = [] := by
  obtain ⟨hreadable, -, hpayload⟩ := (decode_eq_ok_iff hknown).1 h
  have hcheck := check_of_readable hreadable
  refine ⟨fun hclear => ?_, fun hambiguous => ?_, fun tx htx => ?_⟩
  · rw [if_neg (by simp [hclear])] at hcheck
    exact ⟨hcheck, toPayload_eq_ok_iff.2 ⟨hcheck, hpayload⟩⟩
  · rw [if_pos hambiguous] at hcheck
    refine ⟨hcheck, ?_⟩
    rw [toPayload, hcheck]
  · exact (readable_of_mem_transactions hreadable htx).outputs_eq_nil

/-- The shortest block is sent on, and the shortest transaction is not. -/
theorem toPayload_of_decode_shortest :
    (block ⟨default, []⟩).toPayload .current = .ok (Bytes.zeros 81) ∧
      (tx ⟨1, [], [], 0⟩).check .current = .error (.invalid .transactionWithoutInputs) :=
  have hblock : decode .current "block" (Bytes.zeros 81) = .ok (block ⟨default, []⟩) := rfl
  have htx : decode .current "tx" [1, 0, 0, 0, 0, 0, 0, 0, 0, 0] = .ok (tx ⟨1, [], [], 0⟩) := rfl
  ⟨((toPayload_of_decode (Command.ofName?_name .block) hblock).1 rfl).2,
    ((toPayload_of_decode (Command.ofName?_name .tx) htx).2.1 rfl).1⟩

/-- Without the exception it would be wrong: the transaction that has neither inputs nor outputs is
read, from ten bytes that are its payload, and not written. -/
theorem not_forall_check_of_decode :
    ¬∀ (protocol : ProtocolVersion) (command : String) (known : Command) (payload : Bytes)
      (message : Message), Command.ofName? command = some known →
        decode protocol command payload = .ok message → message.check protocol = .ok () := by
  intro hall
  have h := hall .current "tx" .tx [1, 0, 0, 0, 0, 0, 0, 0, 0, 0] (tx ⟨1, [], [], 0⟩)
    (by decide) rfl
  cases h

end Bitcoin.Message
