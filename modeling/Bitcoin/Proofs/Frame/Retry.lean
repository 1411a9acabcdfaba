import Bitcoin.Proofs.Frame.Prompt
import Bitcoin.Proofs.Frame.Sequence

/-!
# Trying again when more has arrived

A caller keeps the bytes that have arrived and reads them from the start.  If the reader asks for
more, it waits for the next piece and tries again with all bytes.  **How the bytes are cut into
pieces makes no difference**: the first answer that is not a request for more bytes is the answer,
and it takes the same bytes, whenever it comes.

* `Link.attempt` is one try and `Link.retry` all of them.
* `Link.attempt_of_settles` and `Link.attempt_of_starves` say what a try is in the two cases of a
  prompt reader, and `Link.retry_of_settles` goes through the pieces.
* `Link.attempt_stable` puts them together.

Trying again from the start is what a caller must do, as the reader does not put back what it has
taken when bytes are missing.  It is not obvious that this is right.  A reader might be content with
few bytes and give another answer for more, or ask for more although it could tell already; then an
answer would depend on where the network happened to cut the data.

What rules this out is promptness (`Bitcoin.Proofs.Frame.Prompt`).  Bytes on which the reader
settles give the same answer with anything behind them, and no strict front of them gives an answer
at all.  So among the tries with growing runs of bytes there is a first one that holds what settles
the reader, every earlier one starves, and this one gives the answer.  `Link.retry_of_settles` is
that argument as an induction on the pieces.

The answer may be an error, for example a wrong checksum.  It is as stable as a message, and the
caller can drop the bytes that it has taken and go on behind them.
-/

set_option autoImplicit false

namespace Bitcoin.Link

open Stateful Bitcoin.Stream

/-- One call of the reader on the bytes that have arrived. -/
def attempt (link : Link) (bytes : Bytes) : Reading :=
  match link.readMessage (.ofBytes bytes) with
  | .ok message rest => ⟨.ok message, takenUntil (.ofBytes bytes) rest⟩
  | .error e rest => ⟨.error e, takenUntil (.ofBytes bytes) rest⟩

/-- Calls the reader on all that has arrived, and again each time that a piece has been added, until
it does not ask for more. -/
def retry (link : Link) (arrived : Bytes) : List Bytes → Reading
  | [] => link.attempt arrived
  | piece :: pieces =>
    match link.attempt arrived with
    | ⟨.error .insufficientData, _⟩ => retry link (arrived ++ piece) pieces
    | reading => reading

variable {link : Link} {bytes front tail : Bytes} {outcome : Except FrameError Message}

/-! ## One try -/

theorem attempt_of_readMessage {rest : Stream} (outcome : Except FrameError Message)
    (h : link.readMessage (.ofBytes bytes) = Stateful.ofExcept outcome rest)
    (hpending : bytes = front ++ rest.pending) : link.attempt bytes = ⟨outcome, front⟩ := by
  have htaken : takenUntil (ofBytes bytes) rest = front :=
    takenUntil_eq (by rw [pending_ofBytes, hpending])
  rw [attempt, h, ← htaken]
  cases outcome <;> rfl

theorem attempt_of_settles (h : Settles link.readMessage front outcome) :
    link.attempt (front ++ tail) = ⟨outcome, front⟩ := by
  obtain ⟨rest, hread, -, hrest⟩ := h.takes (quiet_ofBytes _) (pending_ofBytes (front ++ tail))
  exact attempt_of_readMessage outcome hread (by rw [hrest])

theorem attempt_of_starves (h : Starves link.readMessage bytes) :
    link.attempt bytes = ⟨.error .insufficientData, bytes⟩ := by
  have hread := h (quiet_ofBytes bytes) (pending_ofBytes bytes)
  exact attempt_of_readMessage (.error .insufficientData) hread (List.append_nil bytes).symm

/-- A message that is written is what a try on the written bytes gives. -/
theorem attempt_of_writeMessage {message : Message} {after : Sink}
    (h : link.writeMessage message Sink.empty = .ok () after) :
    link.attempt after.written = ⟨.ok message, after.written⟩ := by
  obtain ⟨packet, houtcome, hwritten⟩ := exists_packet_of_writeMessage h
  have hpending : (ofBytes after.written).pending = [] ++ (packet.bytes link.network ++ []) := by
    rw [pending_ofBytes, hwritten, List.append_nil]
    rfl
  obtain ⟨rest, hread, -, hrest⟩ :=
    readMessage_of_packet link.network.magic_absent_nil (quiet_ofBytes _) hpending
  rw [houtcome] at hread
  exact attempt_of_readMessage (.ok message) hread (by rw [hrest, List.append_nil])

/-- A try that does not ask for more has settled. -/
theorem settles_of_attempt (h : (link.attempt bytes).outcome ≠ .error .insufficientData) :
    ∃ front tail outcome, bytes = front ++ tail ∧ Settles link.readMessage front outcome := by
  rcases link.prompt_readMessage bytes with hsettles | hstarves
  · exact hsettles
  · rw [attempt_of_starves hstarves] at h
    exact absurd rfl h

/-! ## All tries -/

theorem retry_of_starves {piece : Bytes} {pieces : List Bytes}
    (h : Starves link.readMessage bytes) :
    link.retry bytes (piece :: pieces) = link.retry (bytes ++ piece) pieces := by
  rw [retry, attempt_of_starves h]

theorem retry_of_attempt {pieces : List Bytes}
    (h : (link.attempt bytes).outcome ≠ .error .insufficientData) :
    link.retry bytes pieces = link.attempt bytes := by
  cases pieces with
  | nil => rfl
  | cons piece pieces =>
    rw [retry]
    split
    · next hmore =>
      rw [hmore] at h
      exact absurd rfl h
    · rfl

/-- As long as some of the bytes are missing the reader starves, and then it settles: by induction
on the pieces, with what has arrived generalised. -/
theorem retry_of_settles (h : Settles link.readMessage front outcome)
    (houtcome : outcome ≠ .error .insufficientData) (arrived : Bytes) (pieces : List Bytes)
    (hall : front <+: arrived ++ pieces.flatten) :
    link.retry arrived pieces = ⟨outcome, front⟩ := by
  have henough : ∀ {arrived}, front <+: arrived → link.attempt arrived = ⟨outcome, front⟩ := by
    rintro _ ⟨tail, rfl⟩
    exact attempt_of_settles h
  induction pieces generalizing arrived with
  | nil => exact henough (by simpa using hall)
  | cons piece pieces ih =>
    by_cases hfront : front <+: arrived
    · have hattempt := henough hfront
      rw [retry_of_attempt (by rwa [hattempt]), hattempt]
    · have hshort : arrived <+: front :=
        (List.prefix_or_prefix_of_prefix hall (List.prefix_append _ _)).resolve_left hfront
      have hne : arrived ≠ front := by
        rintro rfl
        exact hfront (List.prefix_refl _)
      rw [retry_of_starves (h.starves hshort hne)]
      exact ih (arrived ++ piece) (by rwa [List.append_assoc])

/-- **An answer is the same however the bytes arrive.**  A try that does not ask for more has taken
the first bytes, a magic number and a header at least, and it is the same try if there are more
bytes; with only some of those that it has taken, it asks for more and takes them all.  So trying
again with each piece ends with the same answer, as soon as the bytes that it takes have arrived. -/
theorem attempt_stable (h : (link.attempt bytes).outcome ≠ .error .insufficientData) :
    (link.attempt bytes).taken <+: bytes ∧ 24 ≤ (link.attempt bytes).taken.length ∧
      (∀ more, link.attempt (bytes ++ more) = link.attempt bytes) ∧
      (∀ short, short <+: bytes → short.length < (link.attempt bytes).taken.length →
        link.attempt short = ⟨.error .insufficientData, short⟩) ∧
      ∀ pieces : List Bytes, (link.attempt bytes).taken <+: pieces.flatten →
        link.retry [] pieces = link.attempt bytes := by
  obtain ⟨front, tail, outcome, rfl, hsettles⟩ := settles_of_attempt h
  rw [attempt_of_settles hsettles] at h ⊢
  have hfront : front <+: front ++ tail := List.prefix_append _ _
  refine ⟨hfront, ?_, ?_, ?_, ?_⟩
  · -- Fewer bytes would starve the reader, but it has settled on these.
    refine Nat.le_of_not_lt fun hshort => h ?_
    have hstarved := attempt_of_starves (link.starves_readMessage hshort)
    have hsettled : link.attempt (front ++ []) = ⟨outcome, front⟩ := attempt_of_settles hsettles
    rw [List.append_nil, hstarved] at hsettled
    exact (congrArg Reading.outcome hsettled).symm
  · intro more
    rw [List.append_assoc, attempt_of_settles hsettles]
  · intro short hshort hlength
    have hprefix : short <+: front :=
      List.prefix_of_prefix_length_le hshort hfront (Nat.le_of_lt hlength)
    refine attempt_of_starves (hsettles.starves hprefix ?_)
    rintro rfl
    exact absurd hlength (Nat.lt_irrefl _)
  · intro pieces hpieces
    exact retry_of_settles hsettles h [] pieces hpieces

/-- A message that is written is read again in whatever pieces it comes. -/
theorem attempt_stable_verack :
    ∃ after, writeMessage ⟨.mainnet, .current⟩ .verack Sink.empty = .ok () after ∧
      (attempt ⟨.mainnet, .current⟩ after.written).outcome = .ok .verack ∧
        ∀ pieces : List Bytes, pieces.flatten = after.written →
          (retry ⟨.mainnet, .current⟩ [] pieces).outcome = .ok .verack := by
  have hwrite : ∃ after, writeMessage ⟨.mainnet, .current⟩ .verack Sink.empty = .ok () after :=
    ⟨_, rfl⟩
  obtain ⟨after, hwrite⟩ := hwrite
  have hattempt := attempt_of_writeMessage hwrite
  have hread : (attempt ⟨.mainnet, .current⟩ after.written).outcome = .ok .verack := by
    rw [hattempt]
  obtain ⟨htaken, -, -, -, hretry⟩ := attempt_stable (by rw [hread]; exact nofun)
  refine ⟨after, hwrite, hread, fun pieces hpieces => ?_⟩
  rw [hretry pieces (by rwa [hpieces]), hread]

end Bitcoin.Link
