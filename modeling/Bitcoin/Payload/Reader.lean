import Bitcoin.Bytes
import Bitcoin.CompactSize
import Bitcoin.Payload.Error
import Bitcoin.Text.Utf8

/-!
# Reading a payload

A `Reader` takes bytes off the front of a payload.  Its state is what is left of the payload, also
after an error: what was read before stays read, and the field that fails because the payload is too
short takes nothing.  A length that the payload claims is never trusted further than the bytes that
are there.

* `take` and `fixed` cut runs of bytes; the numbers `u8`, `u16BE`, `u32`, … are fixed runs.
* `compactSize` reads a size in its shortest form, `count` a size with a limit, `varBytes` and
  `text` a run behind its size.
* `times` reads items in a row, `exactly` a whole payload.
-/

set_option autoImplicit false

namespace Bitcoin

/-- Reads from the front of a payload; the state is what is left of it. -/
abbrev Reader := EStateM PayloadError Bytes

namespace Reader

/-- Refuses the payload because of a broken rule. -/
def refuse {α : Type} (violation : Violation) : Reader α := throw (.invalid violation)

/-! ## Runs of bytes -/

/-- The next `n` bytes. -/
def take (n : Nat) (field : String) : Reader Bytes := fun bytes =>
  let front := bytes.take n
  if front.length = n then .ok front (bytes.drop n) else .error (.unexpectedEnd field) bytes

/-- The next `n` bytes, as a run whose length is known. -/
def fixed (n : Nat) (field : String) : Reader (FixedBytes n) := fun bytes =>
  match FixedBytes.take? n bytes with
  | some (run, rest) => .ok run rest
  | none => .error (.unexpectedEnd field) bytes

/-- All that is left. -/
def takeRest : Reader Bytes := fun bytes => .ok bytes []

/-- Whether nothing is left. -/
def isEmpty : Reader Bool := fun bytes => .ok bytes.isEmpty bytes

/-- Refuses the payload if anything is left. -/
def finish (format : String) : Reader Unit := fun bytes =>
  if bytes.isEmpty then .ok () bytes else .error (.trailingBytes format bytes.length) bytes

/-! ## Numbers -/

/-- A number of `width` bytes, least significant first. -/
def nat (width : Nat) (field : String) : Reader Nat := do
  let run ← fixed width field
  return Bytes.toNatLE run.toBytes

/-- One byte. -/
def u8 (field : String) : Reader UInt8 := fun
  | [] => .error (.unexpectedEnd field) []
  | b :: rest => .ok b rest

/-- A port number, the only kind of number that travels most significant byte first. -/
def u16BE (field : String) : Reader UInt16 := do
  let run ← fixed 2 field
  return UInt16.ofNat (Bytes.toNatBE run.toBytes)

/-- A number of four bytes, least significant first. -/
def u32 (field : String) : Reader UInt32 := UInt32.ofNat <$> nat 4 field

/-- The same bytes as a number that may be negative. -/
def i32 (field : String) : Reader Int32 := UInt32.toInt32 <$> u32 field

/-- A number of eight bytes, least significant first. -/
def u64 (field : String) : Reader UInt64 := UInt64.ofNat <$> nat 8 field

/-- The same bytes as a number that may be negative, such as an amount. -/
def i64 (field : String) : Reader Int64 := UInt64.toInt64 <$> u64 field

/-! ## Sizes -/

/-- A number of `width` bytes that does not fit the next smaller form of a compact size. -/
def sizeAbove (width least : Nat) (field : String) : Reader Nat := do
  let n ← nat width field
  if n < least then throw .nonCanonicalSize else return n

/-- A compact size in its shortest form. -/
def compactSize (field : String) : Reader Nat := do
  let first ← u8 field
  if first = 0xFD then sizeAbove 2 0xFD field
  else if first = 0xFE then sizeAbove 4 0x10000 field
  else if first = 0xFF then sizeAbove 8 0x100000000 field
  else return first.toNat

/-- The number of entries of a list that may have up to `max` of them. -/
def count (field : String) (max : Nat) : Reader Nat := do
  let n ← compactSize field
  if max < n then throw (.tooManyEntries field n max) else return n

/-- A run of bytes behind its size. -/
def varBytes (field : String) : Reader Bytes := do
  let n ← compactSize field
  take n field

/-- A text behind its size. -/
def text (field : String) : Reader String := do
  let bytes ← varBytes field
  match Text.ofUtf8? bytes with
  | some s => return s
  | none => refuse (.notUtf8 field)

/-! ## Lists and whole payloads -/

/-- Reads `n` items in a row; `done` holds those already read in reverse. -/
def timesFrom {α : Type} (item : Reader α) : Nat → List α → Reader (List α)
  | 0, done => return done.reverse
  | n + 1, done => do
    let x ← item
    timesFrom item n (x :: done)

/-- Reads `n` items in a row. -/
def times {α : Type} (n : Nat) (item : Reader α) : Reader (List α) := timesFrom item n []

/-- Reads a list behind the number of its entries. -/
def list {α : Type} (field : String) (max : Nat) (item : Reader α) : Reader (List α) := do
  let n ← count field max
  times n item

/-- What a reader makes of a whole payload, of which it must leave nothing. -/
def exactly {α : Type} (format : String) (reader : Reader α) (payload : Bytes) :
    Except PayloadError α :=
  match (do let value ← reader; finish format; return value : Reader α) payload with
  | .ok value _ => .ok value
  | .error e _ => .error e

end Reader

end Bitcoin
