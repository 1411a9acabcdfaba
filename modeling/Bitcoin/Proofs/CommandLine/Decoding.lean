import Bitcoin.CommandLine
import Bitcoin.Proofs.Frame.Sequence

/-!
# Showing the messages of a stream

The program calls the reader again and again until a call gives no message, and shows what the calls
gave.  It comes to an end because **a call that gives a message takes a magic number and a header at
least**, so that no more calls are made than such beginnings fit into the input, and one.

* `Link.length_of_readMessage` is what a call takes, and `Link.length_messages_le` what follows for
  all of them.
* `Link.outcomes_eq_messages` says that the messages of a stream are what the calls give that a
  reader makes who never stops, up to the first one that fails.
* `CommandLine.decodeReport_of_calls` is what is shown of them, and how the program ends.

A stream that ends within a frame and one that ends behind the last one are treated alike: the call
that finds too few bytes ends the run without an error, and what it has taken is lost.  Every other
error ends it too, and is told.

What a message looks like when it is shown plays no part here, and is the matter of
`Bitcoin.Proofs.CommandLine.Shown`.
-/

set_option autoImplicit false

namespace Bitcoin

open Stateful

namespace Link

variable {link : Link} {message : Message} {stream rest : Stream}

/-- **What a call takes that gives a message:** four bytes of a magic number and twenty of a header,
at least. -/
theorem length_of_readMessage (h : link.readMessage stream = .ok message rest) :
    rest.pending.length + 24 ≤ stream.pending.length := by
  obtain ⟨_, found, hseek, h⟩ := bind_eq_ok_iff.1 h
  obtain ⟨header, between, hheader, h⟩ := bind_eq_ok_iff.1 h
  obtain ⟨payload, _, hpayload, h⟩ := bind_eq_ok_iff.1 h
  obtain ⟨_, rfl⟩ := ofExcept_eq_ok_iff.1 h
  obtain ⟨gap, hfirst⟩ := Stream.exists_first_of_seek (Network.nodup_magic _) hseek
  have hskipped := congrArg List.length hfirst.eq_append
  have hread := length_pending_of_readHeader hheader
  have htaken := congrArg List.length (pending_of_readPayload hpayload)
  simp only [List.length_append, link.network.magic.length_eq] at hskipped
  simp only [FrameHeader.size] at hread
  simp only [List.length_append] at htaken
  omega

/-- By induction on the messages: each one has been taken off the stream in front of the others. -/
theorem length_messages_le (link : Link) (stream : Stream) :
    24 * (link.messages stream).1.length ≤ stream.pending.length := by
  induction stream using messages.induct link with
  | case1 stream message rest hread _ ih =>
    have htaken := length_of_readMessage hread
    rw [messages_of_ok hread, List.length_cons]
    omega
  | case2 stream e rest hread =>
    rw [messages_of_error hread]
    exact Nat.zero_le _

/-- **The messages of a stream are what the calls give, up to the first one that fails.** -/
theorem outcomes_eq_messages (link : Link) (stream : Stream) :
    (link.readings ((link.messages stream).1.length + 1) stream).map Reading.outcome =
      (link.messages stream).1.map .ok ++ [.error (link.messages stream).2] := by
  induction stream using messages.induct link with
  | case1 stream message rest hread _ ih =>
    rw [messages_of_ok hread, List.length_cons, readings_succ (.ok message) hread, List.map_cons,
      ih]
    rfl
  | case2 stream e rest hread =>
    rw [messages_of_error hread, readings_succ (.error e) hread]
    rfl

end Link

namespace CommandLine

theorem decodeReport_of_hex {link : Link} {text : String} {bytes : Bytes} (input : Bytes)
    (h : bytesOfHex (String.ofList (Text.trim text.toList)) = .ok bytes) :
    decodeReport link (some text) input = streamReport link bytes := by
  rw [decodeReport, h]

/-- **Showing the messages of a stream comes to an end and shows all of them.**  Whatever the bytes,
the calls that are made are no more than one for each 24 bytes and one, and all of them but the last
one give a message.  These messages are shown, in the order of the calls.  The program succeeds if
the last call has found that the bytes end, and fails with the error of that call if not.  It makes
no difference whether the bytes stand in the input or, in hexadecimal, among the words. -/
theorem decodeReport_of_calls (link : Link) (bytes : Bytes) :
    ∃ (calls : Nat) (messages : List Message) (e : FrameError),
      calls ≤ bytes.length / 24 + 1 ∧
      (link.readings calls (.ofBytes bytes)).map Reading.outcome =
        messages.map .ok ++ [.error e] ∧
      decodeReport link none bytes =
        ⟨String.join (messages.map fun message => message.outline.tall ++ "\n"),
          if e = .insufficientData then none else some (.frame e)⟩ ∧
      ∀ text input, bytesOfHex (String.ofList (Text.trim text.toList)) = .ok bytes →
        decodeReport link (some text) input = decodeReport link none bytes := by
  have hlength := link.length_messages_le (.ofBytes bytes)
  rw [Stream.pending_ofBytes] at hlength
  refine ⟨_, (link.messages (.ofBytes bytes)).1, (link.messages (.ofBytes bytes)).2, ?_,
    link.outcomes_eq_messages (.ofBytes bytes), rfl, fun _ input => decodeReport_of_hex input⟩
  omega

end CommandLine

end Bitcoin
