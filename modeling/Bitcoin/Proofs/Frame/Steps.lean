import Bitcoin.Proofs.Frame.Prompt

/-!
# Reading step by step

A caller reads a stream in steps of its own choice, and goes on after an error with what is left.
**How the stream is cut and interrupted never shows**: every step gives the same, and leaves the
same bytes, as if all the data had been handed out at once.

A segment is what a single read hands out at most, and an interruption may stand in front of any
segment as often as it likes.  So a reader that hands out at most `c` bytes at a time is a quiet
stream whose segments have at most `c` bytes, whatever `c` is.

* `ReadStep` are the steps, and `ReadStep.prompt_read` says that all of them are prompt.
* `Stream.Alike` are streams that differ in their cuts and interruptions only, and
  `observe_alike` says what a step makes of them.
* `observations_alike` is a run of steps, and `observations_of_quiet` compares it with the run on
  the data as a whole.
-/

set_option autoImplicit false

namespace Bitcoin

/-! ## Steps -/

/-- What a caller may ask for. -/
inductive ReadStep where
  | seek (link : Link)
  | header
  | body (link : Link) (announced : FrameHeader)
  | message (link : Link)
  | raw (link : Link)

/-- What a caller may get. -/
inductive Gain where
  | magic
  | header (header : FrameHeader)
  | message (message : Message)
  | frame (frame : RawFrame)

namespace ReadStep

/-- What a step does with a stream. -/
def read : ReadStep → StreamReader Gain
  | .seek link => do
    Stream.seek link.network.magic
    return .magic
  | .header => do
    let announced ← FrameHeader.read
    return .header announced
  | .body link announced => do
    let message ← link.readBody announced
    return .message message
  | .message link => do
    let message ← link.readMessage
    return .message message
  | .raw link => do
    let frame ← link.readRaw
    return .frame frame

theorem prompt_read (step : ReadStep) : Stream.Prompt step.read := by
  cases step with
  | seek link => exact (Stream.prompt_seek _).bind fun _ => Stream.prompt_pure _
  | header => exact FrameHeader.prompt_read.bind fun _ => Stream.prompt_pure _
  | body link announced => exact (link.prompt_readBody announced).bind fun _ => Stream.prompt_pure _
  | message link => exact link.prompt_readMessage.bind fun _ => Stream.prompt_pure _
  | raw link => exact link.prompt_readRaw.bind fun _ => Stream.prompt_pure _

end ReadStep

/-! ## Streams that are cut in different ways -/

/-- The same bytes are pending, and nothing goes wrong but interruptions. -/
structure Stream.Alike (stream other : Stream) : Prop where
  quiet : stream.Quiet
  quiet_other : other.Quiet
  pending_eq : stream.pending = other.pending

/-- A prompt reader has the same outcome, and what it leaves is alike. -/
theorem Stream.Prompt.alike {α : Type} {reader : StreamReader α} {stream other : Stream}
    (hprompt : Prompt reader) (h : Alike stream other) :
    ∃ outcome rest left, reader stream = Stateful.ofExcept outcome rest ∧
      reader other = Stateful.ofExcept outcome left ∧ Alike rest left := by
  rcases hprompt stream.pending with ⟨front, tail, outcome, hfront, hsettles⟩ | hstarves
  · obtain ⟨rest, hread, hrest, htail⟩ := hsettles.takes h.quiet hfront
    obtain ⟨left, hread', hleft, htail'⟩ :=
      hsettles.takes h.quiet_other (h.pending_eq.symm.trans hfront)
    exact ⟨outcome, rest, left, hread, hread', hrest, hleft, htail.trans htail'.symm⟩
  · exact ⟨.error .insufficientData, [], [], hstarves h.quiet rfl,
      hstarves h.quiet_other h.pending_eq.symm, quiet_nil, quiet_nil, rfl⟩

/-! ## Runs -/

/-- What a caller sees of a step: what it gives, and the bytes behind the place where it stops. -/
structure Observation where
  outcome : Except FrameError Gain
  left : Bytes

/-- A step on a stream, and the stream that it leaves. -/
def observe (step : ReadStep) (stream : Stream) : Observation × Stream :=
  match step.read stream with
  | .ok gain rest => (⟨.ok gain, rest.pending⟩, rest)
  | .error e rest => (⟨.error e, rest.pending⟩, rest)

/-- What a caller has seen after `n` more steps.  Each step is on what the one before has left,
whatever it gave, and is chosen by what was seen until then; a caller with a fixed list of steps
only counts. -/
def observations (caller : List Observation → ReadStep) : Nat → List Observation → Stream →
    List Observation
  | 0, seen, _ => seen
  | n + 1, seen, stream =>
    let now := observe (caller seen) stream
    observations caller n (seen ++ [now.1]) now.2

theorem observe_of_read {step : ReadStep} {stream rest : Stream} {outcome : Except FrameError Gain}
    (h : step.read stream = Stateful.ofExcept outcome rest) :
    observe step stream = (⟨outcome, rest.pending⟩, rest) := by
  rw [observe, h]
  cases outcome <;> rfl

variable {stream other : Stream}

/-- **One step sees the same**, and leaves streams that are alike again. -/
theorem observe_alike (step : ReadStep) (h : stream.Alike other) :
    (observe step stream).1 = (observe step other).1 ∧
      (observe step stream).2.Alike (observe step other).2 := by
  obtain ⟨outcome, rest, left, hread, hother, halike⟩ := step.prompt_read.alike h
  rw [observe_of_read hread, observe_of_read hother, halike.pending_eq]
  exact ⟨rfl, halike⟩

/-- By induction on the steps that are to come, with what was seen and what is left generalised. -/
theorem observations_alike (caller : List Observation → ReadStep) (n : Nat)
    (seen : List Observation) (h : stream.Alike other) :
    observations caller n seen stream = observations caller n seen other := by
  induction n generalizing seen stream other with
  | zero => rfl
  | succ n ih =>
    obtain ⟨hsame, halike⟩ := observe_alike (caller seen) h
    rw [observations, observations, hsame]
    exact ih _ halike

/-- **Cuts and interruptions never show.**  Whatever steps a caller takes and however many, it sees
the same as on a stream that hands out all the data at once and is never interrupted. -/
theorem observations_of_quiet (caller : List Observation → ReadStep) (n : Nat)
    (hquiet : stream.Quiet) :
    observations caller n [] stream = observations caller n [] (.ofBytes stream.pending) :=
  observations_alike caller n [] ⟨hquiet, Stream.quiet_ofBytes _, (Stream.pending_ofBytes _).symm⟩

/-- The magic number comes in three pieces, with interruptions before the second and the last of
them a byte too long.  That byte is all that the next step finds of a header, and it is lost. -/
theorem observations_of_quiet_pieces :
    let stream : Stream :=
      [.segment [0xF9], .fault .interrupted, .fault .interrupted, .segment [0xBE, 0xB4],
        .segment [0xD9, 0x76]]
    let caller (seen : List Observation) : ReadStep :=
      if seen.isEmpty then .seek ⟨.mainnet, .current⟩ else .header
    observations caller 2 [] stream =
        observations caller 2 [] (.ofBytes [0xF9, 0xBE, 0xB4, 0xD9, 0x76]) ∧
      observations caller 2 [] stream =
        [⟨.ok .magic, [0x76]⟩, ⟨.error .insufficientData, []⟩] := by
  intro stream caller
  have hquiet : stream.Quiet := by simp [stream, Stream.Quiet]
  exact ⟨observations_of_quiet caller 2 hquiet, rfl⟩

end Bitcoin
