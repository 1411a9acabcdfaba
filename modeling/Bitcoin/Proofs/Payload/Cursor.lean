import Bitcoin.Payload.Reader
import Bitcoin.Stateful

/-!
# A payload in memory

A `Reader` takes bytes off a list.  In memory nothing is taken off: a payload stays where it is, and
a position says how much of it has been read.  Lengths and positions are words of 64 bits there, and
no type keeps a position within its payload.  A step whose arithmetic leaves the words, or that
looks at bytes that are not there, gives neither a value nor an error: it *panics*.

* `Cursor` is a payload with a position, and `Outcome` is what comes of a step.
* `Cursor.take`, `fixed`, `takeRest`, `remaining` and `reserve` are the steps that look at the
  position, with every place at which they could panic.
* `Cursor.Within` is the invariant, and `Cursor.Reaches` says how a position may move: forward, and
  not past the end.
* `Outcome.Agrees` compares a step with a reader.  It is proved of each of the steps, from any
  position within the payload and for every length that is a word.

The panics are not decoration.  Each of them stands where the arithmetic of words or a slice of a
run has no result: a sum beyond `2 ^ 64`, a difference below zero, a slice whose ends are in the
wrong order or past the end of the run, a copy to a place of another size, a division by zero, and a
list that would be larger than memory can be.  `Outcome.Agrees` has no case for them, so to prove it
for a step is to prove that none is reached.

It is proved from `Cursor.Within` alone.  A length may be any word, also one that an attacker has
chosen so that the sum with the position is no word; such a sum is caught before it is used
(`Cursor.take`).

Two steps do not fit a reader on a list of bytes and have lemmas of their own.  How many bytes are
left is a number, and a word in memory (`Cursor.Within.remaining_eq`); and setting memory aside
reads nothing and leaves the cursor where it was (`Cursor.Within.reserve_eq`).
-/

set_option autoImplicit false

namespace Bitcoin

open Stateful

/-! ## Words -/

namespace Word

variable {a b n : UInt64}

/-- The sum, if it is a word. -/
def add? (a b : UInt64) : Option UInt64 :=
  if a.toNat + b.toNat < UInt64.size then some (a + b) else none

/-- The difference, if it is a word. -/
def sub? (a b : UInt64) : Option UInt64 := if b ≤ a then some (a - b) else none

/-- The quotient, if there is one. -/
def div? (a b : UInt64) : Option UInt64 := if b = 0 then none else some (a / b)

theorem add?_eq_some (h : a.toNat + b.toNat < UInt64.size) :
    ∃ n, add? a b = some n ∧ n.toNat = a.toNat + b.toNat :=
  ⟨a + b, if_pos h, by rw [UInt64.toNat_add, Nat.mod_eq_of_lt h]⟩

theorem add?_eq_none (h : UInt64.size ≤ a.toNat + b.toNat) : add? a b = none :=
  if_neg (Nat.not_lt.2 h)

theorem sub?_eq_some (h : b ≤ a) : ∃ n, sub? a b = some n ∧ n.toNat = a.toNat - b.toNat :=
  ⟨a - b, if_pos h, UInt64.toNat_sub_of_le a b h⟩

theorem div?_max_one (a b : UInt64) : div? a (max b 1) = some (a / max b 1) := by
  refine if_neg fun hzero => ?_
  have hmax : max b 1 = if b ≤ 1 then 1 else b := rfl
  rw [hmax] at hzero
  split at hzero
  · exact absurd hzero (by decide)
  · next hlarge =>
    rw [hzero] at hlarge
    exact hlarge (by decide)

theorem toNat_min_le (a b : UInt64) : (min a b).toNat ≤ a.toNat := by
  have hmin : min a b = if a ≤ b then a else b := rfl
  rw [hmin]
  split
  · exact Nat.le_refl _
  · next hlt => exact UInt64.le_iff_toNat_le.1 (UInt64.le_of_lt (UInt64.not_le.1 hlt))

end Word

/-! ## Payloads and positions -/

/-- A run of bytes in memory: its length is a word. -/
structure Buffer where
  bytes : Bytes
  length_lt : bytes.length < UInt64.size

namespace Buffer

/-- The length of the run. -/
def size (buffer : Buffer) : UInt64 := UInt64.ofNatLT buffer.bytes.length buffer.length_lt

@[simp] theorem toNat_size (buffer : Buffer) : buffer.size.toNat = buffer.bytes.length :=
  UInt64.toNat_ofNatLT

/-- The bytes between two places, if both are in the run and in this order. -/
def slice? (buffer : Buffer) (start stop : UInt64) : Option Bytes :=
  if start ≤ stop ∧ stop ≤ buffer.size then
    some ((buffer.bytes.drop start.toNat).take (stop.toNat - start.toNat))
  else none

end Buffer

/-- A payload and how much of it has been read. -/
structure Cursor where
  buffer : Buffer
  position : UInt64

/-- What comes of a step: the position stays known after an error, and is gone after a panic. -/
inductive Outcome (α : Type) where
  | ok (a : α) (cursor : Cursor)
  | error (e : PayloadError) (cursor : Cursor)
  | panic

namespace Outcome

/-- Goes on with the value. -/
def andThen {α β : Type} (outcome : Outcome α) (next : α → Cursor → Outcome β) : Outcome β :=
  match outcome with
  | ok a cursor => next a cursor
  | error e cursor => error e cursor
  | panic => panic

/-- Where the cursor is left, unless the step panics. -/
def cursor? {α : Type} : Outcome α → Option Cursor
  | ok _ cursor => some cursor
  | error _ cursor => some cursor
  | panic => none

end Outcome

/-- How lists lie in memory: an entry of whatever kind takes up to `entrySize` bytes there. -/
structure Layout where
  entrySize : Nat
  entrySize_lt : entrySize < 0x80000000

/-- The most bytes that a list can have in memory. -/
def Layout.maxBytes : Nat := 0x7FFFFFFFFFFFFFFF

namespace Cursor

/-! ## Steps

Each step computes in words, and panics where the computation has no result.  That this never
happens is shown behind the invariant that it takes. -/

/-- In front of the payload. -/
def start (buffer : Buffer) : Cursor := ⟨buffer, 0⟩

/-- How many bytes are left. -/
def remaining (c : Cursor) : Outcome UInt64 :=
  match Word.sub? c.buffer.size c.position with
  | some n => .ok n c
  | none => .panic

/-- The next `n` bytes.  A sum that is no word is refused like one that is past the end. -/
def take (n : UInt64) (field : String) (c : Cursor) : Outcome Bytes :=
  match (Word.add? c.position n).filter fun stop => stop ≤ c.buffer.size with
  | none => .error (.unexpectedEnd field) c
  | some stop =>
    match c.buffer.slice? c.position stop with
    | some run => .ok run { c with position := stop }
    | none => .panic

/-- The next `n` bytes, copied to a place that has room for just `n`. -/
def fixed (n : Nat) (field : String) (c : Cursor) : Outcome (FixedBytes n) :=
  (c.take (UInt64.ofNat n) field).andThen fun run c =>
    match FixedBytes.ofBytes? n run with
    | some run => .ok run c
    | none => .panic

/-- All that is left. -/
def takeRest (c : Cursor) : Outcome Bytes :=
  match c.buffer.slice? c.position c.buffer.size with
  | some run => .ok run { c with position := c.buffer.size }
  | none => .panic

/-- Sets memory aside for `count` entries that take up at least `minSize` bytes of the payload each,
but never for more entries than the rest of the payload has bytes for. -/
def reserve (layout : Layout) (count minSize : UInt64) (c : Cursor) : Outcome Unit :=
  c.remaining.andThen fun left c =>
    match Word.div? left (max minSize 1) with
    | some entries =>
      if (min count entries).toNat * layout.entrySize ≤ Layout.maxBytes then .ok () c else .panic
    | none => .panic

/-! ## The invariant -/

variable {c d e : Cursor} {n : UInt64}

/-- The position is within the payload. -/
def Within (c : Cursor) : Prop := c.position ≤ c.buffer.size

/-- What has not been read. -/
def rest (c : Cursor) : Bytes := c.buffer.bytes.drop c.position.toNat

/-- The way a cursor moves: in the same payload, forward, and not past the end. -/
structure Reaches (c d : Cursor) : Prop where
  buffer_eq : d.buffer = c.buffer
  position_le : c.position ≤ d.position
  within : d.Within

theorem within_start (buffer : Buffer) : (start buffer).Within := by
  rw [Within, UInt64.le_iff_toNat_le]
  exact Nat.zero_le _

theorem Within.reaches (h : c.Within) : c.Reaches c := ⟨rfl, UInt64.le_refl _, h⟩

theorem Reaches.trans (h : c.Reaches d) (h' : d.Reaches e) : c.Reaches e :=
  ⟨h'.buffer_eq.trans h.buffer_eq, UInt64.le_trans h.position_le h'.position_le, h'.within⟩

theorem Within.position_add (h : c.Within) :
    c.position.toNat + c.rest.length = c.buffer.bytes.length := by
  have hle := UInt64.le_iff_toNat_le.1 h
  rw [Buffer.toNat_size] at hle
  rw [rest, List.length_drop]
  omega

/-- The cursor behind the next `n` bytes, if there are so many. -/
theorem Within.reaches_forward (h : c.Within) {stop : UInt64}
    (hstop : stop.toNat = c.position.toNat + n.toNat) (hn : n.toNat ≤ c.rest.length) :
    c.Reaches { c with position := stop } := by
  have hwhole := h.position_add
  refine ⟨rfl, ?_, ?_⟩
  · show c.position ≤ stop
    rw [UInt64.le_iff_toNat_le]
    omega
  · show stop ≤ c.buffer.size
    rw [UInt64.le_iff_toNat_le, Buffer.toNat_size]
    omega

/-! ## What the steps do -/

theorem Within.slice?_eq (h : c.Within) {stop : UInt64}
    (hstop : stop.toNat = c.position.toNat + n.toNat) (hn : n.toNat ≤ c.rest.length) :
    c.buffer.slice? c.position stop = some (c.rest.take n.toNat) := by
  obtain ⟨-, hle, hwithin⟩ := h.reaches_forward hstop hn
  rw [Buffer.slice?, if_pos ⟨hle, hwithin⟩, hstop, Nat.add_sub_cancel_left]
  rfl

/-- Taking fails and stays where it is if there are too few bytes. -/
theorem Within.take_of_lt (h : c.Within) (hn : c.rest.length < n.toNat) (field : String) :
    c.take n field = .error (.unexpectedEnd field) c := by
  have hwhole := h.position_add
  have hnone : (Word.add? c.position n).filter (fun stop => stop ≤ c.buffer.size) = none := by
    -- The sum is past the end, or it is no word at all.
    by_cases hword : c.position.toNat + n.toNat < UInt64.size
    · obtain ⟨stop, hadd, hstop⟩ := Word.add?_eq_some hword
      rw [hadd, Option.filter_some_eq_none, decide_eq_true_eq, UInt64.le_iff_toNat_le,
        Buffer.toNat_size]
      omega
    · rw [Word.add?_eq_none (Nat.not_lt.1 hword), Option.filter_none]
  rw [take, hnone]

/-- Taking gives the bytes behind the position and moves past them if there are enough. -/
theorem Within.take_of_le (h : c.Within) (hn : n.toNat ≤ c.rest.length) (field : String) :
    ∃ d, c.take n field = .ok (c.rest.take n.toNat) d ∧ c.Reaches d ∧
      d.position.toNat = c.position.toNat + n.toNat ∧ d.rest = c.rest.drop n.toNat := by
  have hwhole := h.position_add
  have hlength := c.buffer.length_lt
  obtain ⟨stop, hadd, hstop⟩ := Word.add?_eq_some (a := c.position) (b := n) (by omega)
  have hmoves := h.reaches_forward hstop hn
  have hsome : (Word.add? c.position n).filter (fun stop => stop ≤ c.buffer.size) = some stop := by
    rw [hadd, Option.filter_some_pos]
    exact decide_eq_true hmoves.within
  refine ⟨{ c with position := stop }, ?_, hmoves, hstop, ?_⟩
  · simp only [take, hsome, h.slice?_eq hstop hn]
  · show c.buffer.bytes.drop stop.toNat = _
    rw [hstop, rest, List.drop_drop]

end Cursor

/-! ## Steps and readers -/

/-- A step from a cursor agrees with what a reader gives: the value or the error is the same, the
cursor has moved as it may, and what is left behind it is what the reader leaves.  There is no case
for a panic. -/
inductive Outcome.Agrees {α : Type} (c : Cursor) :
    Outcome α → EStateM.Result PayloadError Bytes α → Prop
  | ok {a : α} {d : Cursor} (h : c.Reaches d) : Agrees c (.ok a d) (.ok a d.rest)
  | error {e : PayloadError} {d : Cursor} (h : c.Reaches d) :
    Agrees c (.error e d) (.error e d.rest)

namespace Outcome.Agrees

variable {α β : Type} {c d : Cursor} {outcome : Outcome α}
  {result : EStateM.Result PayloadError Bytes α}

theorem of_reaches (h : outcome.Agrees d result) (hreach : c.Reaches d) :
    outcome.Agrees c result := by
  cases h with
  | ok h => exact .ok (hreach.trans h)
  | error h => exact .error (hreach.trans h)

theorem exists_cursor (h : outcome.Agrees c result) :
    ∃ d, outcome.cursor? = some d ∧ c.Reaches d := by
  cases h with
  | ok h => exact ⟨_, rfl, h⟩
  | error h => exact ⟨_, rfl, h⟩

/-- **Steps in a row agree with readers in a row.** -/
theorem andThen {reader : Reader α} {step : α → Cursor → Outcome β} {next : α → Reader β}
    (h : outcome.Agrees c (reader c.rest))
    (hnext : ∀ a d, c.Reaches d → (step a d).Agrees d (next a d.rest)) :
    (outcome.andThen step).Agrees c ((reader >>= next) c.rest) := by
  cases hread : reader c.rest with
  | ok a rest =>
    rw [hread] at h
    cases h with
    | ok hreach =>
      rw [bind_of_eq_ok hread]
      exact (hnext a _ hreach).of_reaches hreach
  | error e rest =>
    rw [hread] at h
    cases h with
    | error hreach =>
      rw [bind_of_eq_error hread]
      exact .error hreach

end Outcome.Agrees

/-- How many bytes are left, as a reader. -/
def Reader.remaining : Reader Nat := fun bytes => .ok bytes.length bytes

namespace Cursor

variable {c : Cursor}

theorem Within.take_agrees (h : c.Within) (n : UInt64) (field : String) :
    (c.take n field).Agrees c (Reader.take n.toNat field c.rest) := by
  rcases Nat.lt_or_ge c.rest.length n.toNat with hn | hn
  · have hshort : (c.rest.take n.toNat).length ≠ n.toNat := by
      rw [List.length_take]
      omega
    have hread : Reader.take n.toNat field c.rest = .error (.unexpectedEnd field) c.rest :=
      if_neg hshort
    rw [h.take_of_lt hn, hread]
    exact .error h.reaches
  · obtain ⟨d, htake, hreach, -, hrest⟩ := h.take_of_le hn field
    have hread : Reader.take n.toNat field c.rest = .ok (c.rest.take n.toNat) d.rest := by
      rw [hrest]
      exact if_pos (List.length_take_of_le hn)
    rw [htake, hread]
    exact .ok hreach

/-- The place has room for just as many bytes as are taken. -/
theorem Within.fixed_agrees (h : c.Within) {n : Nat} (hn : n < UInt64.size) (field : String) :
    (c.fixed n field).Agrees c (Reader.fixed n field c.rest) := by
  have hword : (UInt64.ofNat n).toNat = n := UInt64.toNat_ofNat_of_lt' hn
  rcases Nat.lt_or_ge c.rest.length n with hlt | hle
  · rw [fixed, h.take_of_lt (by rwa [hword]), Reader.fixed, FixedBytes.take?_eq_none_iff.2 hlt]
    exact .error h.reaches
  · obtain ⟨d, htake, hreach, -, hrest⟩ := h.take_of_le (n := UInt64.ofNat n) (by rwa [hword]) field
    rw [hword] at htake hrest
    let run : FixedBytes n := ⟨c.rest.take n, List.length_take_of_le hle⟩
    have hcut : FixedBytes.take? n c.rest = some (run, d.rest) := by
      rw [FixedBytes.take?_eq_some_iff, hrest]
      exact (List.take_append_drop n c.rest).symm
    have hcopy : FixedBytes.ofBytes? n (c.rest.take n) = some run :=
      FixedBytes.ofBytes?_eq_some_iff.2 rfl
    rw [fixed, htake, Reader.fixed, hcut]
    simp only [Outcome.andThen, hcopy]
    exact .ok hreach

theorem Within.takeRest_agrees (h : c.Within) : c.takeRest.Agrees c (Reader.takeRest c.rest) := by
  have hwhole := h.position_add
  have hlength := c.buffer.length_lt
  have hleft : (UInt64.ofNat c.rest.length).toNat = c.rest.length :=
    UInt64.toNat_ofNat_of_lt' (by omega)
  have hsize : c.buffer.size.toNat = c.position.toNat + (UInt64.ofNat c.rest.length).toNat := by
    rw [hleft, hwhole, Buffer.toNat_size]
  have hslice := h.slice?_eq hsize (Nat.le_of_eq hleft)
  rw [hleft, List.take_length] at hslice
  have hrest : ({ c with position := c.buffer.size } : Cursor).rest = [] := by
    show c.buffer.bytes.drop c.buffer.size.toNat = []
    rw [Buffer.toNat_size, List.drop_length]
  rw [takeRest, hslice, Reader.takeRest, ← hrest]
  exact .ok (h.reaches_forward hsize (Nat.le_of_eq hleft))

theorem Within.remaining_eq (h : c.Within) :
    ∃ n, c.remaining = .ok n c ∧ n.toNat = c.rest.length := by
  have hwhole := h.position_add
  obtain ⟨n, hsub, hn⟩ := Word.sub?_eq_some h
  refine ⟨n, by rw [remaining, hsub], ?_⟩
  rw [hn, Buffer.toNat_size]
  omega

/-- Counts are small enough for any layout. -/
theorem Within.reserve_eq (h : c.Within) (layout : Layout) {count : UInt64}
    (hcount : count.toNat < 0x100000000) (minSize : UInt64) :
    c.reserve layout count minSize = .ok () c := by
  obtain ⟨left, hremaining, -⟩ := h.remaining_eq
  have hfew : (min count (left / max minSize 1)).toNat ≤ 0xFFFFFFFF :=
    Nat.le_trans (Word.toNat_min_le _ _) (by omega)
  have hroom : (min count (left / max minSize 1)).toNat * layout.entrySize ≤ Layout.maxBytes :=
    calc (min count (left / max minSize 1)).toNat * layout.entrySize
      _ ≤ 0xFFFFFFFF * 0x7FFFFFFF :=
        Nat.mul_le_mul hfew (Nat.le_sub_one_of_lt layout.entrySize_lt)
      _ ≤ Layout.maxBytes := by decide
  simp only [reserve, hremaining, Outcome.andThen, Word.div?_max_one, if_pos hroom]

end Cursor

end Bitcoin
