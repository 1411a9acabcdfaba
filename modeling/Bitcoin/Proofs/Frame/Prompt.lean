import Bitcoin.Frame
import Bitcoin.Proofs.Frame.Quiet

/-!
# Readers that are prompt

A reader is prompt if it stops as soon as it can tell what it has read.  It then takes the bytes
that tell it and no more, whatever stands behind them, and as long as one of them is missing it goes
to the end of the stream and asks for more.  **Prompt readers in a row are prompt**
(`Stream.Prompt.bind`), and all readers of frames are made from two of them.

* `Stream.Settles` and `Stream.Starves` are the two things that may happen, told by the bytes that
  are pending; `Stream.Prompt` says that one of them does.
* `Stream.prompt_readExact` and `Stream.prompt_seek` are the two readers that everything is made of.
* `Link.prompt_readMessage`, `Link.prompt_readRaw` and their parts are the readers of frames.

The definitions speak about all quiet streams with the same bytes to come, so that a prompt reader
is one for which neither the segments nor the interruptions count.  They also speak about all that
may stand behind the bytes that settle it, which is what makes `Stream.Prompt.bind` work: the reader
that comes second begins exactly where the first one stops, on a stream that is quiet again.

Starving is not an error like the others.  A reader that starves has gone through the whole stream
and has lost what it took, and the same reader on more bytes may have any outcome.  Settling with an
error is final: more bytes change nothing.

Seeking is the reader for which this is not obvious, since it does not take a fixed number of bytes.
It settles on the bytes up to the first magic number, and each front of these is without one, so
that on less than all of them it starves (`Stream.exists_front_of_scan`).

Two modules rest on this one.  `Bitcoin.Proofs.Frame.Retry` is about callers that start again with
more bytes, and `Bitcoin.Proofs.Frame.Steps` about callers that go on with what is left.
-/

set_option autoImplicit false

namespace Bitcoin

open Stateful

namespace Stream

variable {α β : Type} {reader : StreamReader α} {next : α → StreamReader β} {a : α}
  {front tail bytes : Bytes} {outcome : Except FrameError α}

/-! ## Settling and starving -/

/-- The reader goes through all of these bytes and asks for more. -/
def Starves (reader : StreamReader α) (bytes : Bytes) : Prop :=
  ∀ ⦃stream : Stream⦄, stream.Quiet → stream.pending = bytes →
    reader stream = .error .insufficientData []

/-- The reader takes these bytes off any stream that begins with them, and has an outcome that does
not depend on what is behind; without the last of them it starves. -/
structure Settles (reader : StreamReader α) (front : Bytes) (outcome : Except FrameError α) :
    Prop where
  takes : ∀ ⦃stream : Stream⦄ ⦃tail : Bytes⦄, stream.Quiet → stream.pending = front ++ tail →
    ∃ rest, reader stream = Stateful.ofExcept outcome rest ∧ rest.Quiet ∧ rest.pending = tail
  starves : ∀ ⦃short : Bytes⦄, short <+: front → short ≠ front → Starves reader short

/-- Whatever bytes there are, the reader settles on the first of them or starves. -/
def Prompt (reader : StreamReader α) : Prop :=
  ∀ bytes, (∃ front tail outcome, bytes = front ++ tail ∧ Settles reader front outcome) ∨
    Starves reader bytes

/-! ## Readers in a row -/

theorem Starves.bind (h : Starves reader bytes) : Starves (reader >>= next) bytes :=
  fun _ hquiet hpending => bind_eq_error_iff.2 (.inl (h hquiet hpending))

theorem Settles.bind_starves (h : Settles reader front (.ok a)) (hnext : Starves (next a) tail) :
    Starves (reader >>= next) (front ++ tail) := by
  intro stream hquiet hpending
  obtain ⟨rest, hread, hrest, hleft⟩ := h.takes hquiet hpending
  rw [bind_of_eq_ok hread]
  exact hnext hrest hleft

theorem Settles.bind {last : Bytes} {outcome : Except FrameError β}
    (h : Settles reader front (.ok a)) (hnext : Settles (next a) last outcome) :
    Settles (reader >>= next) (front ++ last) outcome where
  takes stream tail hquiet hpending := by
    rw [List.append_assoc] at hpending
    obtain ⟨between, hread, hbetween, hleft⟩ := h.takes hquiet hpending
    obtain ⟨rest, hlast, hrest⟩ := hnext.takes hbetween hleft
    exact ⟨rest, by rw [bind_of_eq_ok hread, hlast], hrest⟩
  starves short hshort hne := by
    rcases Bytes.prefix_append_cases hshort with ⟨hfront, hfront'⟩ | ⟨left, rfl, hleft⟩
    · exact (h.starves hfront hfront').bind
    · refine h.bind_starves (hnext.starves hleft ?_)
      rintro rfl
      exact hne rfl

theorem Settles.bind_error {e : FrameError} (h : Settles reader front (.error e)) :
    Settles (reader >>= next) front (.error e) where
  takes stream tail hquiet hpending := by
    obtain ⟨rest, hread, hrest⟩ := h.takes hquiet hpending
    exact ⟨rest, bind_eq_error_iff.2 (.inl hread), hrest⟩
  starves short hshort hne := (h.starves hshort hne).bind

/-- **Prompt readers in a row are prompt.** -/
theorem Prompt.bind (h : Prompt reader) (hnext : ∀ a, Prompt (next a)) :
    Prompt (reader >>= next) := by
  intro bytes
  rcases h bytes with ⟨front, tail, outcome, rfl, hfront⟩ | hstarves
  · cases outcome with
    | error e => exact .inl ⟨front, tail, .error e, rfl, hfront.bind_error⟩
    | ok a =>
      rcases hnext a tail with ⟨last, tail, outcome, rfl, hlast⟩ | hstarves
      · exact .inl ⟨front ++ last, tail, outcome, by rw [List.append_assoc], hfront.bind hlast⟩
      · exact .inr (hfront.bind_starves hstarves)
  · exact .inr hstarves.bind

/-- What needs no bytes settles at once. -/
theorem settles_ofExcept (outcome : Except FrameError α) :
    Settles (Stateful.ofExcept outcome) [] outcome where
  takes stream _ hquiet hpending := ⟨stream, rfl, hquiet, hpending⟩
  starves _ hshort hne := absurd (List.prefix_nil.1 hshort) hne

theorem prompt_ofExcept (outcome : Except FrameError α) : Prompt (Stateful.ofExcept outcome) :=
  fun bytes => .inl ⟨[], bytes, outcome, rfl, settles_ofExcept outcome⟩

theorem prompt_pure (a : α) : Prompt (pure a : StreamReader α) := prompt_ofExcept (.ok a)

/-! ## So many bytes -/

theorem starves_readExact {n : Nat} (h : bytes.length < n) : Starves (readExact n) bytes := by
  rintro stream hquiet rfl
  exact readExact_of_short hquiet h

theorem settles_readExact {n : Nat} (bytes : FixedBytes n) :
    Settles (readExact n) bytes.toBytes (.ok bytes) where
  takes _ _ hquiet hpending := readExact_of_quiet bytes.length_eq hquiet hpending
  starves short hshort hne := by
    have hlt := Bytes.length_lt_of_prefix hshort hne
    rw [bytes.length_eq] at hlt
    exact starves_readExact hlt

theorem prompt_readExact (n : Nat) : Prompt (readExact n) := by
  intro bytes
  cases hfront : FixedBytes.take? n bytes with
  | some taken =>
    have hbytes : bytes = taken.1.toBytes ++ taken.2 := FixedBytes.take?_eq_some_iff.1 hfront
    exact .inl ⟨_, _, _, hbytes, settles_readExact taken.1⟩
  | none => exact .inr (starves_readExact (FixedBytes.take?_eq_none_iff.1 hfront))

/-! ## The next magic number -/

/-- A scan that finds the magic number finds it at the end of some bytes and not before, whatever
stands behind them. -/
theorem exists_front_of_scan {magic : Bytes} {matched : Nat} (hmatched : matched ≠ magic.length)
    (hfound : (scan magic matched bytes).1 = magic.length) :
    ∃ front tail, bytes = front ++ tail ∧
      (∀ tail, scan magic matched (front ++ tail) = (magic.length, tail)) ∧
      ∀ short, short <+: front → short ≠ front → (scan magic matched short).1 ≠ magic.length := by
  induction bytes generalizing matched with
  | nil => exact absurd hfound hmatched
  | cons b rest ih =>
    rw [scan] at hfound
    split at hfound
    · next hnow =>
      refine ⟨[b], rest, rfl, fun tail => ?_, fun short hshort hne => ?_⟩
      · rw [List.singleton_append, scan, if_pos hnow, hnow]
      · obtain rfl | ⟨short, rfl, hnil⟩ := List.prefix_cons_iff.1 hshort
        · exact hmatched
        · rw [List.prefix_nil.1 hnil] at hne
          exact absurd rfl hne
    · next hnow =>
      obtain ⟨front, tail, rfl, htakes, hstarves⟩ := ih hnow hfound
      refine ⟨b :: front, tail, rfl, fun tail => ?_, fun short hshort hne => ?_⟩
      · rw [List.cons_append, scan, if_neg hnow, htakes]
      · obtain rfl | ⟨short, rfl, hrest⟩ := List.prefix_cons_iff.1 hshort
        · exact hmatched
        · rw [scan, if_neg hnow]
          exact hstarves short hrest fun heq => hne (congrArg (b :: ·) heq)

theorem starves_seek {magic : FixedBytes 4}
    (h : (scan magic.toBytes 0 bytes).1 ≠ magic.toBytes.length) : Starves (seek magic) bytes := by
  rintro stream hquiet rfl
  exact seekFrom_of_not_found hquiet (zero_ne_length_magic magic) h

/-- A scan that finds the magic number at the end of some bytes has seen it there. -/
theorem suffix_of_scan {magic : Bytes} (h : scan magic 0 front = (magic.length, [])) :
    magic <:+ front := by
  have hnone : magic.take 0 <:+ ([] : Bytes) := List.nil_suffix
  obtain ⟨seen, hseen, hsuffix⟩ := matched_scan front hnone
  rw [h, List.append_nil] at hseen
  rwa [h, List.take_length, List.nil_append, ← hseen] at hsuffix

/-- Seeking settles on some bytes that end with the magic number, or starves. -/
theorem settles_or_starves_seek (magic : FixedBytes 4) (bytes : Bytes) :
    (∃ front tail, bytes = front ++ tail ∧ magic.toBytes <:+ front ∧
        Settles (seek magic) front (.ok ())) ∨
      Starves (seek magic) bytes := by
  have hzero := zero_ne_length_magic magic
  by_cases hfound : (scan magic.toBytes 0 bytes).1 = magic.toBytes.length
  · obtain ⟨front, tail, rfl, htakes, hshort⟩ := exists_front_of_scan hzero hfound
    have hend : scan magic.toBytes 0 front = (magic.toBytes.length, []) := by
      simpa using htakes []
    refine .inl ⟨front, tail, rfl, suffix_of_scan hend, fun stream rest hquiet hpending => ?_,
      fun short hprefix hne => starves_seek (hshort short hprefix hne)⟩
    exact seekFrom_of_scan hquiet hzero (by rw [hpending, htakes])
  · exact .inr (starves_seek hfound)

theorem prompt_seek (magic : FixedBytes 4) : Prompt (seek magic) := by
  intro bytes
  rcases settles_or_starves_seek magic bytes with ⟨front, tail, hbytes, -, hsettles⟩ | hstarves
  · exact .inl ⟨front, tail, .ok (), hbytes, hsettles⟩
  · exact .inr hstarves

end Stream

/-! ## Frames -/

open Bitcoin.Stream

theorem FrameHeader.prompt_read : Prompt FrameHeader.read :=
  (prompt_readExact _).bind fun _ => prompt_ofExcept _

namespace Link

theorem prompt_readPayload (header : FrameHeader) : Prompt (readPayload header) :=
  (prompt_readExact _).bind fun _ => (prompt_ofExcept _).bind fun _ => prompt_pure _

theorem prompt_readBody (link : Link) (header : FrameHeader) : Prompt (link.readBody header) :=
  (prompt_readPayload header).bind fun _ => prompt_ofExcept _

theorem prompt_readRaw (link : Link) : Prompt link.readRaw :=
  (prompt_seek _).bind fun _ => FrameHeader.prompt_read.bind fun header =>
    (prompt_readPayload header).bind fun _ => prompt_pure _

theorem prompt_readMessage (link : Link) : Prompt link.readMessage :=
  (prompt_seek _).bind fun _ => FrameHeader.prompt_read.bind fun header =>
    link.prompt_readBody header

/-- A magic number and a header are read before a message has an outcome. -/
theorem starves_readMessage {bytes : Bytes} (link : Link)
    (h : bytes.length < 4 + FrameHeader.size) : Starves link.readMessage bytes := by
  rcases settles_or_starves_seek link.network.magic bytes with
    ⟨front, tail, rfl, hmagic, hseek⟩ | hstarves
  · have hfour := hmagic.length_le
    rw [FixedBytes.length_eq] at hfour
    rw [List.length_append] at h
    have hheader : Starves FrameHeader.read tail := (starves_readExact (by omega)).bind
    exact hseek.bind_starves hheader.bind
  · exact hstarves.bind

end Link

end Bitcoin
