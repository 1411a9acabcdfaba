import Bitcoin.Frame.Error

/-!
# Streams that stall and break

What a node reads comes in segments of any size, and between them a read may be interrupted or fail.
A `Stream` is the list of what the reads to come will meet.

* `Stream.pending` is what is still to come, without the segments and faults: the view in which a
  stream is a plain run of bytes.
* `Stream.readExact` collects exactly so many bytes.  An interruption is passed over; any other
  fault ends the reading, and what was collected before it is lost.
* `Stream.seek` goes past the next occurrence of a magic number.

**Both only ever take bytes off the front:** see `pending_of_readExact` and
`length_pending_of_seek`.

Both readers are recursions on the stream and not on the number of bytes that they want, since a
stream may hold any number of empty segments and interruptions.  What they leave is the rest of the
stream, with the last segment cut where they stopped.

A fault is met only when more bytes are wanted than there are in front of it.  A reader that has
enough does not look further, so the bytes in front of a fault can be used as long as they last.
-/

set_option autoImplicit false

namespace Bitcoin

/-- What may go wrong in a single read or write. -/
inductive Fault where
  /-- Nothing has happened yet, and another try is due. -/
  | interrupted
  /-- The other end has gone. -/
  | endOfStream
  | failed (reason : String)
deriving DecidableEq

/-- A fault that is not passed over, as the error of a frame. -/
def Fault.error? : Fault → Option FrameError
  | interrupted => none
  | endOfStream => some .insufficientData
  | failed reason => some (.transport reason)

/-- What a read meets. -/
inductive Arrival where
  | segment (bytes : Bytes)
  | fault (fault : Fault)
deriving DecidableEq

/-- The bytes that a read is handed, if any. -/
def Arrival.bytes : Arrival → Bytes
  | segment bytes => bytes
  | fault _ => []

/-- What the reads to come will meet.  When nothing is left, the stream has ended. -/
abbrev Stream := List Arrival

/-- Reads from the front of a stream; the state is what is left of it. -/
abbrev StreamReader := EStateM FrameError Stream

namespace Stream

/-- A stream that holds some bytes and no faults. -/
def ofBytes (bytes : Bytes) : Stream := [.segment bytes]

/-- The bytes still to come. -/
def pending (stream : Stream) : Bytes := stream.flatMap Arrival.bytes

@[simp] theorem pending_nil : pending [] = [] := rfl

@[simp] theorem pending_segment (bytes : Bytes) (rest : Stream) :
    pending (.segment bytes :: rest) = bytes ++ pending rest := rfl

@[simp] theorem pending_fault (fault : Fault) (rest : Stream) :
    pending (.fault fault :: rest) = pending rest := rfl

@[simp] theorem pending_ofBytes (bytes : Bytes) : (ofBytes bytes).pending = bytes := by
  simp [ofBytes]

/-! ## So many bytes -/

/-- Collects `n` more bytes; `done` holds those already collected in reverse.  Once there are
enough, nothing more is read, not even a fault that is due. -/
def collect (n : Nat) (done : Bytes) (stream : Stream) : EStateM.Result FrameError Stream Bytes :=
  if n = 0 then .ok done.reverse stream
  else
    match stream with
    | [] => .error .insufficientData []
    | .fault fault :: rest =>
      match fault.error? with
      | none => collect n done rest
      | some e => .error e rest
    | .segment bytes :: rest =>
      let front := bytes.take n
      if front.length < n then collect (n - front.length) (front.reverse ++ done) rest
      else .ok (front.reverse ++ done).reverse (.segment (bytes.drop n) :: rest)

/-- What is collected is the front of what was to come. -/
theorem pending_of_collect {n : Nat} {done bytes : Bytes} {stream rest : Stream}
    (h : collect n done stream = .ok bytes rest) :
    ∃ front, bytes = done.reverse ++ front ∧ front.length = n ∧
      pending stream = front ++ pending rest := by
  induction stream generalizing n done with
  | nil =>
    unfold collect at h
    split at h
    · next hn =>
      cases h
      exact ⟨[], by simp, hn.symm, by simp⟩
    · cases h
  | cons arrival stream ih =>
    unfold collect at h
    split at h
    · next hn =>
      cases h
      exact ⟨[], by simp, hn.symm, by simp⟩
    · cases arrival with
      | fault fault =>
        simp only at h
        split at h
        · exact ih h
        · cases h
      | segment data =>
        simp only at h
        split at h
        · next hshort =>
          obtain ⟨front, hbytes, hlength, hpending⟩ := ih h
          rw [List.length_take] at hshort hlength
          have hwhole : data.take n = data := List.take_of_length_le (by omega)
          refine ⟨data ++ front, ?_, ?_, ?_⟩
          · rw [hbytes, hwhole]; simp
          · rw [List.length_append, hlength]; omega
          · rw [pending_segment, hpending, List.append_assoc]
        · next hlong =>
          cases h
          rw [List.length_take] at hlong
          refine ⟨data.take n, by simp, by rw [List.length_take]; omega, ?_⟩
          rw [pending_segment, pending_segment, ← List.append_assoc, List.take_append_drop]

/-- Reads exactly `n` bytes. -/
def readExact (n : Nat) : StreamReader (FixedBytes n) := fun stream =>
  match h : collect n [] stream with
  | .ok bytes rest =>
    have hlength : bytes.length = n := by
      obtain ⟨front, hbytes, hfront, _⟩ := pending_of_collect h
      simpa [hbytes] using hfront
    .ok ⟨bytes, hlength⟩ rest
  | .error e rest => .error e rest

/-- What is read is the front of what was to come. -/
theorem pending_of_readExact {n : Nat} {bytes : FixedBytes n} {stream rest : Stream}
    (h : readExact n stream = .ok bytes rest) : pending stream = bytes.toBytes ++ pending rest := by
  unfold readExact at h
  split at h
  · next hcollect =>
    cases h
    obtain ⟨front, hbytes, _, hpending⟩ := pending_of_collect hcollect
    simpa [hbytes] using hpending
  · cases h

/-! ## The next magic number -/

/-- How much of the magic number is matched behind one more byte.  A byte that breaks a match may
begin a new one. -/
def matchByte (magic : Bytes) (matched : Nat) (b : UInt8) : Nat :=
  if magic[matched]? = some b then matched + 1 else if magic.head? = some b then 1 else 0

/-- Goes through bytes until the whole magic number is matched: how much of it is matched at the
end, and the bytes behind. -/
def scan (magic : Bytes) (matched : Nat) : Bytes → Nat × Bytes
  | [] => (matched, [])
  | b :: rest =>
    let now := matchByte magic matched b
    if now = magic.length then (now, rest) else scan magic now rest

theorem length_scan_le (magic : Bytes) (matched : Nat) (bytes : Bytes) :
    (scan magic matched bytes).2.length ≤ bytes.length := by
  induction bytes generalizing matched with
  | nil => simp [scan]
  | cons b rest ih =>
    rw [scan]
    split
    · simp
    · exact Nat.le_succ_of_le (ih _)

/-- Goes on until the whole magic number is matched, when `matched` bytes of it are already. -/
def seekFrom (magic : Bytes) (matched : Nat) : Stream → EStateM.Result FrameError Stream Unit
  | [] => .error .insufficientData []
  | .fault fault :: rest =>
    match fault.error? with
    | none => seekFrom magic matched rest
    | some e => .error e rest
  | .segment bytes :: rest =>
    let found := scan magic matched bytes
    if found.1 = magic.length then .ok () (.segment found.2 :: rest)
    else seekFrom magic found.1 rest

/-- Goes past the next occurrence of a magic number. -/
def seek (magic : FixedBytes 4) : StreamReader Unit := seekFrom magic.toBytes 0

theorem length_pending_of_seekFrom {magic : Bytes} {matched : Nat} {stream rest : Stream}
    (h : seekFrom magic matched stream = .ok () rest) :
    (pending rest).length ≤ (pending stream).length := by
  induction stream generalizing matched with
  | nil => cases h
  | cons arrival stream ih =>
    cases arrival with
    | fault fault =>
      rw [seekFrom] at h
      split at h
      · exact ih h
      · cases h
    | segment data =>
      rw [seekFrom] at h
      split at h
      · cases h
        have := length_scan_le magic matched data
        simp only [pending_segment, List.length_append]
        omega
      · have := ih h
        simp only [pending_segment, List.length_append]
        omega

/-- Seeking only ever takes bytes off the front. -/
theorem length_pending_of_seek {magic : FixedBytes 4} {stream rest : Stream}
    (h : seek magic stream = .ok () rest) : (pending rest).length ≤ (pending stream).length :=
  length_pending_of_seekFrom h

end Stream

end Bitcoin
