import Bitcoin.Proofs.Frame.Written

/-!
# How a write ends

A frame is either refused before the sink is asked for anything, or it is handed to the sink as a
whole, and then the sink alone decides how far it gets.

* `Sink.firstFault?` is the first fault that is not passed over, with the room in front of it.
  `Sink.writeAll_of_fault` and `Sink.writeAll_of_room` say all that a sink makes of a run of bytes:
  **it is written up to that fault**, whatever the pieces in which it is taken.
  `Sink.writeAll_append` says the same of a run that is written piece by piece.
* `Link.Frameable` says what fits in a frame, and `Link.frameBytes` is the frame, written out.
  `Link.writeRaw_of_frameable` and `Link.writeRaw_of_not_frameable` are the two cases.
* `Ending` is how a call may end, and `Ending.unique` says that a call ends in one way only.

A frame is put together before any of it is written, which is why a refusal always comes before the
first byte.  Then the sink is handed all of it in one call, and answers with room for so many bytes
or with a fault, again and again.  The two lemmas about `Sink.firstFault?` forget these answers one
by one, and from there on a sink is nothing but the number of bytes that it takes and the error
behind them.

An ending is not read off the result of a call.  `Ending.Of` says for each ending what the call
leaves of the sink, with the frame that it was to write as a parameter; that no result fits two
endings is then a theorem and not a matter of how endings are told apart.  The parameter is an
option, because a message of an unknown command has no frame at all.

`Ending.cutShort` is more than "some front of the frame".  It is the front up to the first fault
that is not passed over, and the error is that fault's; and in `Ending.complete` the whole frame
fits in front of it.  So the sink and the frame decide between these two, and the link and the sink
have no say in whether a frame is refused.

What a frame carries is not looked at here: the bytes behind the header are whatever the payload of
the message is, and that they are the right ones is said in `Bitcoin.Proofs.Message.RoundTrip`.

Side by side, for a call that is to write some frame to some sink:

* complete: no error, the whole frame is written, and there is room for it in front of the first
  fault;
* refused: an error about the frame, and the sink is untouched;
* cut short: the error of the first fault, and the frame is written up to it, with a byte missing at
  least;
* no frame: the command is not known, and the sink is untouched.
-/

set_option autoImplicit false

namespace Bitcoin

open Stateful

/-! ## Sinks -/

namespace Sink

/-- The first fault that is not passed over, as an error, and how many bytes are taken before it. -/
def firstFault? : List Reply → Option (Nat × FrameError)
  | [] => none
  | .room n :: replies => (firstFault? replies).map fun (taken, e) => (n + taken, e)
  | .fault fault :: replies =>
    match fault.error? with
    | none => firstFault? replies
    | some e => some (0, e)

variable {bytes written : Bytes} {replies : List Reply} {sink : Sink} {n : Nat} {e : FrameError}

/-- A fault behind some room is a fault behind what is left of it. -/
theorem firstFault?_room_eq_some_iff {room : Nat} :
    firstFault? (.room room :: replies) = some (n, e) ↔
      ∃ taken, firstFault? replies = some (taken, e) ∧ room + taken = n := by
  rw [firstFault?, Option.map_eq_some_iff]
  constructor
  · rintro ⟨⟨taken, e⟩, htaken, heq⟩
    cases heq
    exact ⟨taken, htaken, rfl⟩
  · rintro ⟨taken, htaken, rfl⟩
    exact ⟨_, htaken, rfl⟩

theorem push_nil (written : Bytes) (replies : List Reply) :
    push [] written replies = .ok () ⟨written, replies⟩ := by
  cases replies with
  | nil =>
    show EStateM.Result.ok () (Sink.mk (written ++ []) []) = _
    rw [List.append_nil]
  | cons reply replies => rfl

theorem push_room (hbytes : bytes ≠ []) (room : Nat) :
    push bytes written (.room room :: replies) =
      if bytes.length ≤ room then .ok () ⟨written ++ bytes, .room (room - bytes.length) :: replies⟩
      else push (bytes.drop room) (written ++ bytes.take room) replies := by
  rw [push.eq_def]
  simp only [List.isEmpty_iff, hbytes, if_false, List.drop_eq_nil_iff]

theorem push_passedOver (hbytes : bytes ≠ []) {fault : Fault} (hfault : fault.error? = none) :
    push bytes written (.fault fault :: replies) = push bytes written replies := by
  rw [push.eq_def]
  simp only [if_neg (mt List.isEmpty_iff.1 hbytes), hfault]

theorem push_broken (hbytes : bytes ≠ []) {fault : Fault} (hfault : fault.error? = some e) :
    push bytes written (.fault fault :: replies) = .error e ⟨written, replies⟩ := by
  rw [push.eq_def]
  simp only [if_neg (mt List.isEmpty_iff.1 hbytes), hfault]

/-- The bytes up to the fault are written, and the fault is the error. -/
theorem push_of_fault (h : firstFault? replies = some (n, e)) (hn : n < bytes.length) :
    ∃ left, push bytes written replies = .error e ⟨written ++ bytes.take n, left⟩ := by
  induction replies generalizing bytes written n with
  | nil => cases h
  | cons reply replies ih =>
    have hbytes : bytes ≠ [] := List.ne_nil_of_length_pos (Nat.zero_lt_of_lt hn)
    cases reply with
    | room room =>
      obtain ⟨taken, htaken, rfl⟩ := firstFault?_room_eq_some_iff.1 h
      have hrest : taken < (bytes.drop room).length := by rw [List.length_drop]; omega
      have hpush : ∃ left, push (bytes.drop room) (written ++ bytes.take room) replies =
          .error e ⟨written ++ bytes.take room ++ (bytes.drop room).take taken, left⟩ :=
        ih htaken hrest
      obtain ⟨left, hleft⟩ := hpush
      refine ⟨left, ?_⟩
      rw [push_room hbytes, if_neg (by omega), hleft, List.append_assoc, ← List.take_add]
    | fault fault =>
      rw [firstFault?] at h
      cases hfault : fault.error? with
      | none =>
        rw [hfault] at h
        rw [push_passedOver hbytes hfault]
        exact ih h hn
      | some e =>
        rw [hfault] at h
        cases h
        exact ⟨replies, by rw [push_broken hbytes hfault, List.take_zero, List.append_nil]⟩

/-- All is written if there is room for it in front of the first fault. -/
theorem push_of_room (h : ∀ n e, firstFault? replies = some (n, e) → bytes.length ≤ n) :
    ∃ left, push bytes written replies = .ok () ⟨written ++ bytes, left⟩ := by
  induction replies generalizing bytes written with
  | nil => exact ⟨[], rfl⟩
  | cons reply replies ih =>
    by_cases hbytes : bytes = []
    · exact ⟨reply :: replies, by rw [hbytes, push_nil, List.append_nil]⟩
    cases reply with
    | room room =>
      rw [push_room hbytes]
      split
      · exact ⟨_, rfl⟩
      · have hrest : ∀ n e, firstFault? replies = some (n, e) → (bytes.drop room).length ≤ n := by
          intro n e hn
          have hroom := h (room + n) e (firstFault?_room_eq_some_iff.2 ⟨n, hn, rfl⟩)
          rw [List.length_drop]
          omega
        have hpush : ∃ left, push (bytes.drop room) (written ++ bytes.take room) replies =
            .ok () ⟨written ++ bytes.take room ++ bytes.drop room, left⟩ := ih hrest
        obtain ⟨left, hleft⟩ := hpush
        exact ⟨left, by rw [hleft, List.append_assoc, List.take_append_drop]⟩
    | fault fault =>
      rw [firstFault?] at h
      cases hfault : fault.error? with
      | none =>
        rw [hfault] at h
        rw [push_passedOver hbytes hfault]
        exact ih h
      | some e =>
        rw [hfault] at h
        -- There is no room in front of this fault, and there are bytes to write.
        exact absurd (List.length_eq_zero_iff.1 (Nat.le_zero.1 (h 0 e rfl))) hbytes

/-- What is left to be done once some bytes are written. -/
theorem push_append (front back written : Bytes) (replies : List Reply) :
    push (front ++ back) written replies =
      match push front written replies with
      | .ok _ sink => push back sink.written sink.replies
      | .error e sink => .error e sink := by
  induction replies generalizing front written with
  | nil =>
    show EStateM.Result.ok () (Sink.mk (written ++ (front ++ back)) []) =
      .ok () ⟨written ++ front ++ back, []⟩
    rw [List.append_assoc]
  | cons reply replies ih =>
    by_cases hfront : front = []
    · rw [hfront, push_nil, List.nil_append]
    have hboth : front ++ back ≠ [] := List.append_ne_nil_of_left_ne_nil hfront back
    cases reply with
    | room room =>
      rw [push_room hboth, push_room hfront]
      rcases Nat.lt_or_ge room front.length with hlt | hle
      · -- The room ends within the first run.
        have hshort : ¬(front ++ back).length ≤ room := by
          rw [List.length_append]
          omega
        rw [if_neg hshort, if_neg (Nat.not_le.2 hlt), List.drop_append_of_le_length (Nat.le_of_lt hlt),
          List.take_append_of_le_length (Nat.le_of_lt hlt), ih]
      · rw [if_pos hle]
        by_cases hback : back = []
        · rw [hback, List.append_nil, if_pos hle]
          exact (push_nil _ _).symm
        · show _ = push back (written ++ front) (.room (room - front.length) :: replies)
          rw [push_room hback, List.drop_append, List.take_append, List.drop_eq_nil_of_le hle,
            List.take_of_length_le hle, List.length_append, List.nil_append, Nat.sub_add_eq,
            List.append_assoc, List.append_assoc]
          exact ite_congr (propext (by omega)) (fun _ => rfl) fun _ => rfl
    | fault fault =>
      cases hfault : fault.error? with
      | none => rw [push_passedOver hboth hfault, push_passedOver hfront hfault, ih]
      | some e => rw [push_broken hboth hfault, push_broken hfront hfault]

/-- **A run of bytes may be written in parts.** -/
theorem writeAll_append (front back : Bytes) :
    writeAll (front ++ back) = writeAll front >>= fun _ => writeAll back := by
  funext sink
  show push (front ++ back) sink.written sink.replies = _
  rw [push_append]
  cases hpush : push front sink.written sink.replies with
  | ok _ after =>
    have hfront : writeAll front sink = .ok () after := hpush
    rw [bind_of_eq_ok hfront]
    rfl
  | error e after =>
    have hfront : writeAll front sink = .error e after := hpush
    rw [bind_of_eq_error hfront]

theorem writeAll_of_fault (h : firstFault? sink.replies = some (n, e)) (hn : n < bytes.length) :
    ∃ left, writeAll bytes sink = .error e ⟨sink.written ++ bytes.take n, left⟩ :=
  push_of_fault h hn

theorem writeAll_of_room (h : ∀ n e, firstFault? sink.replies = some (n, e) → bytes.length ≤ n) :
    ∃ left, writeAll bytes sink = .ok () ⟨sink.written ++ bytes, left⟩ :=
  push_of_room h

end Sink

/-! ## Errors -/

namespace FrameError

/-- What is wrong with a frame before it is written. -/
def IsRefusal : FrameError → Prop
  | unencodable _ _ | commandNotAscii | commandTooLong _ | messageTooLarge _ => True
  | _ => False

/-- What a sink or a stream has to say. -/
def IsTransport : FrameError → Prop
  | insufficientData | transport _ => True
  | _ => False

end FrameError

theorem Fault.isTransport_of_error? {fault : Fault} {e : FrameError} (h : fault.error? = some e) :
    e.IsTransport := by
  cases fault <;> cases h <;> trivial

/-- What ends a write is a fault of the sink. -/
theorem Sink.isTransport_of_firstFault? {replies : List Reply} {n : Nat} {e : FrameError}
    (h : Sink.firstFault? replies = some (n, e)) : e.IsTransport := by
  induction replies generalizing n with
  | nil => cases h
  | cons reply replies ih =>
    cases reply with
    | room room =>
      obtain ⟨taken, htaken, -⟩ := Sink.firstFault?_room_eq_some_iff.1 h
      exact ih htaken
    | fault fault =>
      rw [Sink.firstFault?] at h
      split at h
      · exact ih h
      · next hfault =>
        cases h
        exact Fault.isTransport_of_error? hfault

/-! ## Frames -/

namespace Link

variable {link : Link} {command : String} {payload : Bytes} {sink : Sink} {message : Message}

/-- What fits in a frame: a command of at most twelve ASCII characters, and a payload that is not
too long. -/
def Frameable (command : String) (payload : Bytes) : Prop :=
  (∀ b ∈ Text.toUtf8 command, b < 128) ∧ (Text.toUtf8 command).length ≤ 12 ∧
    payload.length ≤ maxPayloadLength

/-- A frame: the magic number, the command filled up with zeros, the length of the payload, the
front of its double hash, and the payload. -/
def frameBytes (link : Link) (command : String) (payload : Bytes) : Bytes :=
  link.network.magic.toBytes ++
    (Text.toUtf8 command ++ Bytes.zeros (12 - (Text.toUtf8 command).length)) ++
      Bytes.littleEndian 4 payload.length ++ (doubleSha256 payload).toBytes.take 4 ++ payload

theorem frame_of_frameable (h : Frameable command payload) :
    link.frame command payload = .ok (link.frameBytes command payload) := by
  obtain ⟨hascii, hfield, hpayload⟩ := h
  have hall : (Text.toUtf8 command).all (· < 128) = true := by simpa using hascii
  rw [frame, commandField, if_pos hall, dif_pos (show _ ≤ Command.fieldLength from hfield)]
  simp only [bind, Except.bind, if_neg (Nat.not_lt.2 hpayload)]
  rfl

/-- What does not fit is refused, and it is said why. -/
theorem frame_of_not_frameable (link : Link) (h : ¬Frameable command payload) :
    ∃ e, e.IsRefusal ∧ link.frame command payload = .error e := by
  rw [frame, commandField]
  split
  · next hall =>
    split
    · next hfield =>
      have hascii : ∀ b ∈ Text.toUtf8 command, b < 128 := by simpa using hall
      have hpayload : maxPayloadLength < payload.length :=
        Nat.lt_of_not_le fun hle => h ⟨hascii, hfield, hle⟩
      exact ⟨.messageTooLarge (min payload.length maxToldSize), trivial, if_pos hpayload⟩
    · exact ⟨.commandTooLong command, trivial, rfl⟩
  · exact ⟨.commandNotAscii, trivial, rfl⟩

theorem writeRaw_of_frameable (h : Frameable command payload) :
    link.writeRaw command payload sink =
      Sink.writeAll (link.frameBytes command payload) sink := by
  rw [writeRaw, bind_of_eq_ok (ofExcept_eq_ok_iff.2 ⟨frame_of_frameable h, rfl⟩)]

/-- **What is refused does not touch the sink.** -/
theorem writeRaw_of_not_frameable (link : Link) (sink : Sink)
    (h : ¬Frameable command payload) :
    ∃ e, e.IsRefusal ∧ link.writeRaw command payload sink = .error e sink := by
  obtain ⟨e, he, hframe⟩ := link.frame_of_not_frameable h
  exact ⟨e, he, bind_of_eq_error (ofExcept_eq_error_iff.2 ⟨hframe, rfl⟩)⟩

/-- The names of commands fit in a frame. -/
theorem frameable_name_iff (command : Command) :
    Frameable command.name payload ↔ payload.length ≤ maxPayloadLength := by
  refine ⟨fun h => h.2.2, fun h => ?_⟩
  have hfield := commandField_name command
  rw [commandField] at hfield
  split at hfield
  · next hall =>
    split at hfield
    · next hlength => exact ⟨by simpa using hall, hlength, h⟩
    · cases hfield
  · cases hfield

/-! ### Messages -/

theorem writeMessage_of_check_error {e : PayloadError}
    (h : message.check link.protocol = .error e) :
    link.writeMessage message sink = .error (.unencodable message.commandName e) sink := by
  rw [writeMessage, Message.toPayload, h]
  rfl

theorem writeMessage_of_payload? (hcheck : message.check link.protocol = .ok ())
    (hpayload : message.payload? = some payload) :
    link.writeMessage message sink = link.writeRaw message.commandName payload sink := by
  rw [writeMessage, Message.toPayload_eq_ok_iff.2 ⟨hcheck, hpayload⟩]

theorem writeMessage_unknown :
    link.writeMessage (.unknown command payload) sink = .error (.noEncoder command) sink := rfl

end Link

theorem Message.payload?_eq_none_iff {message : Message} :
    message.payload? = none ↔ ∃ command payload, message = .unknown command payload := by
  cases message with
  | unknown command payload => exact ⟨fun _ => ⟨command, payload, rfl⟩, fun _ => rfl⟩
  | ping nonce => cases nonce <;> simp [payload?]
  | _ => simp [payload?]

/-! ## Endings

An ending is told by what a call leaves behind, the result and the sink, in terms of the frame that
was to be written. -/

/-- How a call that writes a frame may end. -/
inductive Ending where
  /-- All of the frame is written. -/
  | complete
  /-- The frame is refused before anything is written. -/
  | refused
  /-- The sink fails before the end of the frame. -/
  | cutShort
  /-- There is no frame, since the command of the message is not known. -/
  | noFrame

namespace Ending

/-- What a call leaves of the sink in each ending, if it was to write this frame. -/
def Of (frame? : Option Bytes) (sink : Sink) :
    EStateM.Result FrameError Sink Unit → Ending → Prop
  | .ok () after, complete => ∃ frame ∈ frame?, after.written = sink.written ++ frame ∧
      ∀ n e, Sink.firstFault? sink.replies = some (n, e) → frame.length ≤ n
  | .error e after, refused => e.IsRefusal ∧ after = sink
  | .error e after, cutShort => e.IsTransport ∧ ∃ frame ∈ frame?, ∃ n < frame.length,
      Sink.firstFault? sink.replies = some (n, e) ∧ after.written = sink.written ++ frame.take n
  | .error e after, noFrame => (∃ command, e = .noEncoder command) ∧ after = sink
  | _, _ => False

variable {frame? : Option Bytes} {sink : Sink} {result : EStateM.Result FrameError Sink Unit}
  {ending other : Ending}

/-- The ending that a result tells of. -/
def told : EStateM.Result FrameError Sink Unit → Ending
  | .ok _ _ => complete
  | .error (.noEncoder _) _ => noFrame
  | .error .insufficientData _ => cutShort
  | .error (.transport _) _ => cutShort
  | .error _ _ => refused

theorem eq_told (h : Of frame? sink result ending) : ending = told result := by
  rcases result with ⟨_, after⟩ | ⟨e, after⟩
  · cases ending with
    | complete => rfl
    | _ => exact h.elim
  · cases ending with
    | complete => exact h.elim
    | refused =>
      have hrefusal : e.IsRefusal := h.1
      cases e <;> first | rfl | exact hrefusal.elim
    | cutShort =>
      have htransport : e.IsTransport := h.1
      cases e <;> first | rfl | exact htransport.elim
    | noFrame =>
      obtain ⟨⟨command, rfl⟩, -⟩ := h
      rfl

/-- **A call ends in one way only**, which the result tells. -/
theorem unique (h : Of frame? sink result ending) (h' : Of frame? sink result other) :
    ending = other := (eq_told h).trans (eq_told h').symm

theorem of_iff (h : Of frame? sink result ending) :
    Of frame? sink result other ↔ other = ending :=
  ⟨fun h' => unique h' h, fun heq => heq ▸ h⟩

/-- What is handed to the sink is written, or cut short. -/
theorem of_writeAll (frame : Bytes) (sink : Sink) :
    ∃ ending, (ending = complete ∨ ending = cutShort) ∧
      Of (some frame) sink (Sink.writeAll frame sink) ending := by
  by_cases hfault : ∃ n e, Sink.firstFault? sink.replies = some (n, e) ∧ n < frame.length
  · obtain ⟨n, e, hfirst, hn⟩ := hfault
    obtain ⟨left, hwrite⟩ := Sink.writeAll_of_fault hfirst hn
    rw [hwrite]
    exact ⟨cutShort, .inr rfl, Sink.isTransport_of_firstFault? hfirst, frame, rfl, n, hn, hfirst,
      rfl⟩
  · have hroom : ∀ n e, Sink.firstFault? sink.replies = some (n, e) → frame.length ≤ n :=
      fun n e hfirst => Nat.le_of_not_lt fun hn => hfault ⟨n, e, hfirst, hn⟩
    obtain ⟨left, hwrite⟩ := Sink.writeAll_of_room hroom
    rw [hwrite]
    exact ⟨complete, .inl rfl, frame, rfl, rfl, hroom⟩

end Ending

namespace Link

/-- A raw frame is refused if it does not fit, and handed to the sink otherwise. -/
theorem exists_ending_writeRaw (link : Link) (sink : Sink) (command : String) (payload : Bytes) :
    ∃ ending, Ending.Of (some (link.frameBytes command payload)) sink
        (link.writeRaw command payload sink) ending ∧
      ending ≠ .noFrame ∧ (ending = .refused ↔ ¬Frameable command payload) := by
  by_cases hfits : Frameable command payload
  · rw [writeRaw_of_frameable hfits]
    obtain ⟨ending, rfl | rfl, hends⟩ :=
      Ending.of_writeAll (link.frameBytes command payload) sink
    · exact ⟨_, hends, by simp, by simp [hfits]⟩
    · exact ⟨_, hends, by simp, by simp [hfits]⟩
  · obtain ⟨e, he, hwrite⟩ := link.writeRaw_of_not_frameable sink hfits
    rw [hwrite]
    exact ⟨.refused, ⟨he, rfl⟩, by simp, by simp [hfits]⟩

/-- A message is refused if no peer would read it back or if it is too long, and there is no frame
for it if its command is not known. -/
theorem exists_ending_writeMessage (link : Link) (sink : Sink) (message : Message) :
    ∃ ending, Ending.Of (message.payload?.map (link.frameBytes message.commandName)) sink
        (link.writeMessage message sink) ending ∧
      (ending = .noFrame ↔ ∃ command payload, message = .unknown command payload) ∧
      (ending = .refused ↔ (∃ e, message.check link.protocol = .error e) ∨
        ∃ payload ∈ message.payload?, maxPayloadLength < payload.length) := by
  cases hcheck : message.check link.protocol with
  | error e =>
    rw [writeMessage_of_check_error hcheck]
    refine ⟨.refused, ⟨trivial, rfl⟩, ?_, by simp⟩
    simp only [reduceCtorEq, false_iff]
    rintro ⟨command, payload, rfl⟩
    cases hcheck
  | ok _ =>
    cases hpayload : message.payload? with
    | none =>
      obtain ⟨command, payload, rfl⟩ := Message.payload?_eq_none_iff.1 hpayload
      rw [writeMessage_unknown]
      exact ⟨.noFrame, ⟨⟨command, rfl⟩, rfl⟩, by simp, by simp⟩
    | some payload =>
      obtain ⟨command, hcommand⟩ := Message.exists_command?_of_payload? hpayload
      obtain ⟨ending, hends, hframe, hrefused⟩ :=
        exists_ending_writeRaw link sink message.commandName payload
      have hknown : ¬∃ command payload, message = .unknown command payload := by
        rw [← Message.payload?_eq_none_iff, hpayload]
        exact Option.some_ne_none payload
      rw [writeMessage_of_payload? hcheck hpayload]
      refine ⟨ending, hends, iff_of_false hframe hknown, hrefused.trans ?_⟩
      rw [Message.commandName_of_command? hcommand, frameable_name_iff]
      simp

/-- **How a write ends.**  However the sink takes it and wherever it fails, a call that writes a
frame ends in exactly one of four ways.  The whole frame is written; or it is refused and the sink
is as before; or the sink fails, and what is written is the front of the frame up to the fault; or
there is no frame, because the command of the message is not known, and the sink is as before.  A
raw frame is refused just if the command or the payload does not fit, a message just if no peer
would read it back or it is too long; and just the messages of unknown commands have no frame. -/
theorem ending_of_write (link : Link) (sink : Sink) :
    (∀ command payload,
      let Ends := Ending.Of (some (link.frameBytes command payload)) sink
        (link.writeRaw command payload sink)
      (∃! ending, Ends ending) ∧ ¬Ends .noFrame ∧ (Ends .refused ↔ ¬Frameable command payload)) ∧
    ∀ message,
      let Ends := Ending.Of (message.payload?.map (link.frameBytes message.commandName)) sink
        (link.writeMessage message sink)
      (∃! ending, Ends ending) ∧
        (Ends .noFrame ↔ ∃ command payload, message = .unknown command payload) ∧
        (Ends .refused ↔ (∃ e, message.check link.protocol = .error e) ∨
          ∃ payload ∈ message.payload?, maxPayloadLength < payload.length) := by
  refine ⟨fun command payload => ?_, fun message => ?_⟩
  · obtain ⟨ending, hends, hframe, hrefused⟩ := exists_ending_writeRaw link sink command payload
    refine ⟨⟨ending, hends, fun _ h => Ending.unique h hends⟩, ?_, ?_⟩
    · rw [Ending.of_iff hends]
      exact hframe.symm
    · rw [Ending.of_iff hends, eq_comm, hrefused]
  · obtain ⟨ending, hends, hframe, hrefused⟩ := exists_ending_writeMessage link sink message
    refine ⟨⟨ending, hends, fun _ h => Ending.unique h hends⟩, ?_, ?_⟩
    · rw [Ending.of_iff hends, eq_comm, hframe]
    · rw [Ending.of_iff hends, eq_comm, hrefused]

/-- A sink that is interrupted and then breaks in the middle of the magic number. -/
example : ∃ left, writeRaw ⟨.mainnet, .current⟩ "verack" []
      ⟨[7], [.room 1, .fault .interrupted, .room 2, .fault (.failed "gone")]⟩ =
    .error (.transport "gone") ⟨[7, 0xF9, 0xBE, 0xB4], left⟩ := ⟨[], rfl⟩

end Link

end Bitcoin
