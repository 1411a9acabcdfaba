import Bitcoin.Frame.Stream

/-!
# Sinks that take less and break

What a node writes is taken in pieces of any size, and between them a write may be interrupted or
fail.  A `Sink` holds what it has taken and how it will answer the writes to come.

* `Sink.writeAll` writes a whole run of bytes.  An interruption is passed over; at any other fault
  what was taken before stays taken.
-/

set_option autoImplicit false

namespace Bitcoin

/-- How a write is answered. -/
inductive Reply where
  /-- This many bytes are taken before the next reply counts. -/
  | room (n : Nat)
  | fault (fault : Fault)
deriving DecidableEq

/-- What was taken, and how the writes to come will be answered.  When no reply is left, all is
taken. -/
structure Sink where
  written : Bytes
  replies : List Reply

/-- Writes to a sink. -/
abbrev SinkWriter := EStateM FrameError Sink

namespace Sink

/-- A sink that has taken nothing and will take everything. -/
def empty : Sink := ⟨[], []⟩

/-- Writes a run of bytes, with `written` taken before and `replies` to come.  Without bytes to
write, nothing is asked of the sink. -/
def push (bytes written : Bytes) : List Reply → EStateM.Result FrameError Sink Unit
  | [] => .ok () ⟨written ++ bytes, []⟩
  | reply :: replies =>
    if bytes.isEmpty then .ok () ⟨written, reply :: replies⟩
    else
      match reply with
      | .room n =>
        let rest := bytes.drop n
        if rest.isEmpty then .ok () ⟨written ++ bytes, .room (n - bytes.length) :: replies⟩
        else push rest (written ++ bytes.take n) replies
      | .fault fault =>
        match fault.error? with
        | none => push bytes written replies
        | some e => .error e ⟨written, replies⟩

/-- Writes a run of bytes. -/
def writeAll (bytes : Bytes) : SinkWriter Unit := fun sink => push bytes sink.written sink.replies

end Sink

end Bitcoin
