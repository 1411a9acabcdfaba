import Bitcoin.Bytes

/-!
# RIPEMD-160

Each block runs through two lines of eighty steps that differ in the order of the words, in the
amounts of rotation, in the constants and in the order of the five mixing functions.  The two
results and the state before are added crosswise.

* `Line` is the plan of one line, `leftLine` and `rightLine` are the two plans.
* `compress` runs both lines over a block; `digest` pads a message and absorbs it block by block.

A line is data, put together from its columns, and there is one function that runs a line.  That the
right line uses the mixing functions backwards is then one word in its definition.

Like the words of a block, the length in the last block has its least significant byte first; it is
counted in bits.
-/

set_option autoImplicit false

namespace Bitcoin.Ripemd160

/-- The five words that the hash carries from block to block. -/
structure State where
  a : UInt32
  b : UInt32
  c : UInt32
  d : UInt32
  e : UInt32
deriving DecidableEq

/-- The state before the first block. -/
def initial : State := ⟨0x67452301, 0xefcdab89, 0x98badcfe, 0x10325476, 0xc3d2e1f0⟩

/-- How three words are mixed in a round. -/
abbrev Mix := UInt32 → UInt32 → UInt32 → UInt32

/-- The mixing functions in the order in which the left line uses them. -/
def mixes : List Mix := [
  fun x y z => x ^^^ y ^^^ z,
  fun x y z => (x &&& y) ||| (~~~ x &&& z),
  fun x y z => (x ||| ~~~ y) ^^^ z,
  fun x y z => (x &&& z) ||| (y &&& ~~~ z),
  fun x y z => x ^^^ (y ||| ~~~ z)]

/-- One of the five rounds of a line: its mixing function and constant, and for each of its sixteen
steps the word of the block to add and the amount to rotate by. -/
structure Round where
  mix : Mix
  constant : UInt32
  order : List Nat
  amounts : List UInt32

/-- A line is its rounds. -/
abbrev Line := List Round

/-- Puts a line together from its four columns. -/
def Line.ofColumns (mixes : List Mix) (constants : List UInt32) (orders : List (List Nat))
    (amounts : List (List UInt32)) : Line :=
  (List.zip (List.zip mixes constants) (List.zip orders amounts)).map
    fun ((mix, constant), (order, amounts)) => ⟨mix, constant, order, amounts⟩

/-- The constants of the left line. -/
def leftConstants : List UInt32 := [0x00000000, 0x5a827999, 0x6ed9eba1, 0x8f1bbcdc, 0xa953fd4e]

/-- The constants of the right line. -/
def rightConstants : List UInt32 := [0x50a28be6, 0x5c4dd124, 0x6d703ef3, 0x7a6d76e9, 0x00000000]

/-- The order in which the left line takes the words of a block. -/
def leftOrder : List (List Nat) := [
  [0, 1, 2, 3, 4, 5, 6, 7, 8, 9, 10, 11, 12, 13, 14, 15],
  [7, 4, 13, 1, 10, 6, 15, 3, 12, 0, 9, 5, 2, 14, 11, 8],
  [3, 10, 14, 4, 9, 15, 8, 1, 2, 7, 0, 6, 13, 11, 5, 12],
  [1, 9, 11, 10, 0, 8, 12, 4, 13, 3, 7, 15, 14, 5, 6, 2],
  [4, 0, 5, 9, 7, 12, 2, 10, 14, 1, 3, 8, 11, 6, 15, 13]]

/-- The order in which the right line takes the words of a block. -/
def rightOrder : List (List Nat) := [
  [5, 14, 7, 0, 9, 2, 11, 4, 13, 6, 15, 8, 1, 10, 3, 12],
  [6, 11, 3, 7, 0, 13, 5, 10, 14, 15, 8, 12, 4, 9, 1, 2],
  [15, 5, 1, 3, 7, 14, 6, 9, 11, 8, 12, 2, 10, 0, 4, 13],
  [8, 6, 4, 1, 3, 11, 15, 0, 5, 12, 2, 13, 9, 7, 10, 14],
  [12, 15, 10, 4, 1, 5, 8, 7, 6, 2, 13, 14, 0, 3, 9, 11]]

/-- The rotations of the left line. -/
def leftAmounts : List (List UInt32) := [
  [11, 14, 15, 12, 5, 8, 7, 9, 11, 13, 14, 15, 6, 7, 9, 8],
  [7, 6, 8, 13, 11, 9, 7, 15, 7, 12, 15, 9, 11, 7, 13, 12],
  [11, 13, 6, 7, 14, 9, 13, 15, 14, 8, 13, 6, 5, 12, 7, 5],
  [11, 12, 14, 15, 14, 15, 9, 8, 9, 14, 5, 6, 8, 6, 5, 12],
  [9, 15, 5, 11, 6, 8, 13, 12, 5, 12, 13, 14, 11, 8, 5, 6]]

/-- The rotations of the right line. -/
def rightAmounts : List (List UInt32) := [
  [8, 9, 9, 11, 13, 15, 15, 5, 7, 7, 8, 11, 14, 14, 12, 6],
  [9, 13, 15, 7, 12, 8, 9, 11, 7, 7, 12, 7, 6, 15, 13, 11],
  [9, 7, 15, 11, 8, 6, 6, 14, 12, 13, 5, 14, 13, 13, 7, 5],
  [15, 5, 8, 11, 14, 14, 6, 14, 6, 9, 12, 9, 12, 5, 15, 8],
  [8, 5, 12, 9, 12, 5, 14, 6, 8, 13, 6, 5, 15, 13, 11, 11]]

/-- The left line goes through the mixing functions forwards. -/
def leftLine : Line := Line.ofColumns mixes leftConstants leftOrder leftAmounts

/-- The right line goes through the mixing functions backwards. -/
def rightLine : Line := Line.ofColumns mixes.reverse rightConstants rightOrder rightAmounts

/-- Rotation to the left, for amounts between zero and the width. -/
@[inline] def rotate (x n : UInt32) : UInt32 := (x <<< n) ||| (x >>> (32 - n))

/-- One step: `word` is the sum of the round's constant and the step's word of the block. -/
def step (mix : Mix) (s : State) (word amount : UInt32) : State :=
  ⟨s.e, rotate (s.a + mix s.b s.c s.d + word) amount + s.e, s.b, rotate s.c 10, s.d⟩

/-- The sixteen steps of a round. -/
def Round.run (round : Round) (block : List UInt32) (s : State) : State :=
  (List.zip round.order round.amounts).foldl
    (fun s (place, amount) => step round.mix s (block.getD place 0 + round.constant) amount) s

/-- A whole line. -/
def Line.run (line : Line) (block : List UInt32) (s : State) : State :=
  line.foldl (fun s round => round.run block s) s

/-- The word with these bytes, least significant first. -/
def word (a b c d : UInt8) : UInt32 :=
  a.toUInt32 ||| (b.toUInt32 <<< 8) ||| (c.toUInt32 <<< 16) ||| (d.toUInt32 <<< 24)

/-- Cuts `n` words off the front of a run of bytes. -/
def takeWords : Nat → Bytes → List UInt32 × Bytes
  | n + 1, a :: b :: c :: d :: rest =>
    let (ws, rest) := takeWords n rest
    (word a b c d :: ws, rest)
  | _, rest => ([], rest)

/-- Feeds a block of sixteen words to the state. -/
def compress (s : State) (block : List UInt32) : State :=
  let l := leftLine.run block s
  let r := rightLine.run block s
  ⟨s.b + l.c + r.d, s.c + l.d + r.e, s.d + l.e + r.a, s.e + l.a + r.b, s.a + l.b + r.c⟩

/-- The message, a one bit, the fewest zeros that fill the last block, and the length in bits. -/
def pad (message : Bytes) : Bytes :=
  let n := message.length
  message ++ 0x80 :: Bytes.zeros ((119 - n % 64) % 64) ++ Bytes.littleEndian 8 (8 * n)

/-- Feeds the first `n` blocks of `bytes` to the state. -/
def absorb : Nat → Bytes → State → State
  | 0, _, s => s
  | n + 1, bytes, s =>
    let (block, rest) := takeWords 16 bytes
    absorb n rest (compress s block)

/-- The state as bytes. -/
def State.toBytes (s : State) : FixedBytes 20 where
  toBytes := [s.a, s.b, s.c, s.d, s.e].flatMap fun w => Bytes.littleEndian 4 w.toNat
  length_eq := by simp

/-- The hash of a message. -/
def digest (message : Bytes) : FixedBytes 20 :=
  let padded := pad message
  (absorb (padded.length / 64) padded initial).toBytes

end Bitcoin.Ripemd160
