import Bitcoin.Proofs.Frame.Written

/-!
# Frames in a row

A stream holds frames, and other bytes between them.  Each call of the reader takes the next frame
and what stands in front of it, so **a frame that is refused never disturbs a later one**.

* `Link.readings` are the calls of a reader one after the other, with the bytes that each takes.
* `Link.readings_of_spaced` says what they are, by induction on the frames, whose step is
  `Link.readMessage_of_packet`.
* `Link.messages_of_packets` is the run of a reader that stops at the first error.
* `Link.frames_recovered` puts both together with what is written.

The packets are any packets: the checksums may be wrong, the payloads unreadable, and a payload may
hold the magic number, or a whole other frame.  The bytes between them are any bytes without the
magic number, but they may end in the middle of one; `Bitcoin.Proofs.Frame.Scan` is why this does
not mislead the reader.

The result is said twice.  `Link.readings` goes on after errors, so it shows that each call takes
one packet and gives what the packet alone decides.  `Link.messages` stops at the first error; on
what was written it only meets the one at the end, when no further frame is found, and that ends a
run whose messages are all there.

A frame whose header announces a wrong length is not a packet, and nothing is said of it.  The
reader goes on at another place then, and looks for the next magic number there.
-/

set_option autoImplicit false

namespace Bitcoin

open Stateful

/-- The bytes that are taken off a stream before it is what is left of it. -/
def Stream.takenUntil (stream rest : Stream) : Bytes :=
  stream.pending.take (stream.pending.length - rest.pending.length)

theorem Stream.takenUntil_eq {stream rest : Stream} {front : Bytes}
    (h : stream.pending = front ++ rest.pending) : stream.takenUntil rest = front := by
  rw [Stream.takenUntil, h, List.length_append, Nat.add_sub_cancel, List.take_left]

/-- What a call of the reader gives, and the bytes that it takes off the stream. -/
structure Reading where
  outcome : Except FrameError Message
  taken : Bytes

/-- Frames and the bytes in front of each of them. -/
def spacedBytes (network : Network) (spaced : List (Bytes × Packet)) : Bytes :=
  spaced.flatMap fun s => s.1 ++ s.2.bytes network

namespace Link

/-- The first `n` calls of the reader, each on what the one before has left, whatever it gave. -/
def readings (link : Link) : Nat → Stream → List Reading
  | 0, _ => []
  | n + 1, stream =>
    match link.readMessage stream with
    | .ok message rest => ⟨.ok message, stream.takenUntil rest⟩ :: readings link n rest
    | .error e rest => ⟨.error e, stream.takenUntil rest⟩ :: readings link n rest

variable {link : Link} {stream : Stream} {tail : Bytes}

theorem readings_succ {n : Nat} {rest : Stream} (outcome : Except FrameError Message)
    (h : link.readMessage stream = ofExcept outcome rest) :
    link.readings (n + 1) stream = ⟨outcome, stream.takenUntil rest⟩ :: link.readings n rest := by
  rw [readings, h]
  cases outcome <;> rfl

/-- **Every frame is found and taken by a call of its own**, in order, with the bytes in front of
it.  The last call takes what is left and finds nothing. -/
theorem readings_of_spaced {spaced : List (Bytes × Packet)}
    (hgaps : ∀ s ∈ spaced, ¬link.network.magic.toBytes <:+: s.1)
    (htail : ¬link.network.magic.toBytes <:+: tail) (hquiet : stream.Quiet)
    (hpending : stream.pending = spacedBytes link.network spaced ++ tail) :
    link.readings (spaced.length + 1) stream =
      spaced.map (fun s => ⟨s.2.outcome link.protocol, s.1 ++ s.2.bytes link.network⟩) ++
        [⟨.error .insufficientData, tail⟩] := by
  induction spaced generalizing stream with
  | nil =>
    have hpending : stream.pending = tail := hpending
    have hread := readMessage_of_absent link hquiet (by rwa [hpending])
    rw [List.length_nil, readings_succ (.error .insufficientData) hread,
      Stream.takenUntil_eq (by rw [hpending, Stream.pending_nil, List.append_nil])]
    rfl
  | cons s spaced ih =>
    obtain ⟨hgap, hgaps⟩ := List.forall_mem_cons.1 hgaps
    rw [spacedBytes, List.flatMap_cons, List.append_assoc, List.append_assoc] at hpending
    obtain ⟨rest, hread, hrest, hleft⟩ := readMessage_of_packet hgap hquiet hpending
    have htaken : stream.takenUntil rest = s.1 ++ s.2.bytes link.network :=
      Stream.takenUntil_eq (by rw [hpending, hleft, List.append_assoc])
    rw [List.length_cons, readings_succ _ hread, htaken, ih hgaps hrest hleft]
    rfl

/-! ## Messages in a row -/

theorem messages_of_ok {message : Message} {rest : Stream}
    (h : link.readMessage stream = .ok message rest) :
    link.messages stream = (message :: (link.messages rest).1, (link.messages rest).2) := by
  rw [messages]
  split
  · next hother =>
    rw [h] at hother
    cases hother
    rfl
  · next hother =>
    rw [h] at hother
    cases hother

theorem messages_of_error {e : FrameError} {rest : Stream}
    (h : link.readMessage stream = .error e rest) : link.messages stream = ([], e) := by
  rw [messages]
  split
  · next hother =>
    rw [h] at hother
    cases hother
  · next hother =>
    rw [h] at hother
    cases hother
    rfl

/-- Packets of messages are read to the end of the stream as those messages. -/
theorem messages_of_packets {messages : List Message} {packets : List Packet}
    (houtcomes : packets.map (Packet.outcome link.protocol) = messages.map .ok)
    (htail : ¬link.network.magic.toBytes <:+: tail) (hquiet : stream.Quiet)
    (hpending : stream.pending = packets.flatMap (Packet.bytes link.network) ++ tail) :
    link.messages stream = (messages, .insufficientData) := by
  induction packets generalizing messages stream with
  | nil =>
    obtain rfl := List.map_eq_nil_iff.1 houtcomes.symm
    have hpending : stream.pending = tail := hpending
    exact messages_of_error (readMessage_of_absent link hquiet (by rwa [hpending]))
  | cons packet packets ih =>
    cases messages with
    | nil => cases houtcomes
    | cons message messages =>
      obtain ⟨hpacket, hpackets⟩ := List.cons.inj houtcomes
      rw [List.flatMap_cons, List.append_assoc] at hpending
      obtain ⟨rest, hread, hrest, hleft⟩ :=
        readMessage_of_packet link.network.magic_absent_nil hquiet hpending
      rw [hpacket] at hread
      rw [messages_of_ok hread, ih hpackets hrest hleft]

/-- What is written message by message are packets of the messages in a row. -/
theorem exists_packets_of_writeMessage {messages : List Message} {sink after : Sink}
    (h : messages.forM link.writeMessage sink = .ok () after) :
    ∃ packets : List Packet,
      packets.map (Packet.outcome link.protocol) = messages.map .ok ∧
        after.written = sink.written ++ packets.flatMap (Packet.bytes link.network) := by
  induction messages generalizing sink with
  | nil =>
    cases h
    exact ⟨[], rfl, (List.append_nil _).symm⟩
  | cons message messages ih =>
    obtain ⟨⟨⟩, between, hfirst, hothers⟩ := bind_eq_ok_iff.1 h
    obtain ⟨packet, houtcome, hwritten⟩ := exists_packet_of_writeMessage hfirst
    obtain ⟨packets, houtcomes, hafter⟩ := ih hothers
    refine ⟨packet :: packets, ?_, ?_⟩
    · rw [List.map_cons, List.map_cons, houtcome, houtcomes]
    · rw [hafter, hwritten, List.flatMap_cons, List.append_assoc]

/-- **Frames are recovered one by one**, whatever stands between them.  Here `spaced` are any
packets with bytes in front of them in which the magic number does not occur; the packets themselves
may hold it anywhere.

* The calls of the reader take just one packet each, with the bytes in front of it, and what a call
  gives depends on its packet alone.  The call behind the last packet finds nothing.
* What is written for a message is a packet that is read as the message.
* So messages that are written in a row come back in a row. -/
theorem frames_recovered (link : Link) :
    (∀ (spaced : List (Bytes × Packet)) (tail : Bytes) (stream : Stream),
      (∀ s ∈ spaced, ¬link.network.magic.toBytes <:+: s.1) →
        ¬link.network.magic.toBytes <:+: tail → stream.Quiet →
          stream.pending = spacedBytes link.network spaced ++ tail →
            link.readings (spaced.length + 1) stream =
              spaced.map (fun s => ⟨s.2.outcome link.protocol, s.1 ++ s.2.bytes link.network⟩) ++
                [⟨.error .insufficientData, tail⟩]) ∧
      (∀ (message : Message) (sink after : Sink), link.writeMessage message sink = .ok () after →
        ∃ packet : Packet, packet.outcome link.protocol = .ok message ∧
          after.written = sink.written ++ packet.bytes link.network) ∧
      ∀ (messages : List Message) (sink after : Sink) (tail : Bytes) (stream : Stream),
        messages.forM link.writeMessage sink = .ok () after →
          ¬link.network.magic.toBytes <:+: tail → stream.Quiet →
            sink.written ++ stream.pending = after.written ++ tail →
              link.messages stream = (messages, .insufficientData) := by
  refine ⟨fun spaced tail stream => readings_of_spaced,
    fun message sink after => exists_packet_of_writeMessage, ?_⟩
  intro messages sink after tail stream hwrite htail hquiet hpending
  obtain ⟨packets, houtcomes, hafter⟩ := exists_packets_of_writeMessage hwrite
  rw [hafter, List.append_assoc, List.append_cancel_left_eq] at hpending
  exact messages_of_packets houtcomes htail hquiet hpending

/-- The bytes in front of the frame begin like a magic number, and so do those behind it; the frame
holds the magic number once more where its command is.  What is written of a message comes back. -/
theorem frames_recovered_regtest :
    let link : Link := ⟨.regtest, .current⟩
    let packet : Packet :=
      ⟨⟨[0xFA, 0xBF, 0xB5, 0xDA] ++ Bytes.zeros 8, rfl⟩, .zero 4, [], by decide⟩
    link.readings 2 (Stream.ofBytes ([0xFA, 0xBF] ++ packet.bytes .regtest ++ [0xFA])) =
        [⟨packet.outcome .current, [0xFA, 0xBF] ++ packet.bytes .regtest⟩,
          ⟨.error .insufficientData, [0xFA]⟩] ∧
      ∃ after, link.writeMessage .verack Sink.empty = .ok () after ∧
        link.messages (Stream.ofBytes after.written) = ([.verack], .insufficientData) := by
  intro link packet
  obtain ⟨hreadings, -, hmessages⟩ := frames_recovered link
  refine ⟨?_, ?_⟩
  · refine hreadings [([0xFA, 0xBF], packet)] [0xFA] _ ?_ (by decide) (Stream.quiet_ofBytes _) ?_
    · intro s hs
      obtain rfl := List.mem_singleton.1 hs
      show ¬Network.regtest.magic.toBytes <:+: [0xFA, 0xBF]
      decide
    · rw [Stream.pending_ofBytes]
      rfl
  · refine ⟨_, rfl, ?_⟩
    refine hmessages [.verack] Sink.empty _ [] _ rfl (Network.magic_absent_nil _)
      (Stream.quiet_ofBytes _) ?_
    rw [Stream.pending_ofBytes, List.append_nil]
    rfl

end Link

end Bitcoin
