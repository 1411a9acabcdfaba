import Bitcoin.Bytes

/-!
# SHA-256

The message is padded to a multiple of 64 bytes, and a state of eight words absorbs it block by
block.

* `schedule` stretches the sixteen words of a block to 64; `step` feeds one of them to the state;
  `compress` feeds all and adds the state it started from.
* `pad` appends a one bit, zeros and the length of the message in bits.
* `digest` is the state after the last block.
-/

set_option autoImplicit false

namespace Bitcoin.Sha256

/-- The eight words that the hash carries from block to block. -/
structure State where
  a : UInt32
  b : UInt32
  c : UInt32
  d : UInt32
  e : UInt32
  f : UInt32
  g : UInt32
  h : UInt32
deriving DecidableEq

/-! ## Constants -/

/-- The state before the first block: the fractions of the square roots of the first eight primes.
-/
def initial : State :=
  ⟨0x6a09e667, 0xbb67ae85, 0x3c6ef372, 0xa54ff53a,
   0x510e527f, 0x9b05688c, 0x1f83d9ab, 0x5be0cd19⟩

/-- One constant a round: the fractions of the cube roots of the first 64 primes. -/
def constants : List UInt32 := [
  0x428a2f98, 0x71374491, 0xb5c0fbcf, 0xe9b5dba5, 0x3956c25b, 0x59f111f1,
  0x923f82a4, 0xab1c5ed5, 0xd807aa98, 0x12835b01, 0x243185be, 0x550c7dc3,
  0x72be5d74, 0x80deb1fe, 0x9bdc06a7, 0xc19bf174, 0xe49b69c1, 0xefbe4786,
  0x0fc19dc6, 0x240ca1cc, 0x2de92c6f, 0x4a7484aa, 0x5cb0a9dc, 0x76f988da,
  0x983e5152, 0xa831c66d, 0xb00327c8, 0xbf597fc7, 0xc6e00bf3, 0xd5a79147,
  0x06ca6351, 0x14292967, 0x27b70a85, 0x2e1b2138, 0x4d2c6dfc, 0x53380d13,
  0x650a7354, 0x766a0abb, 0x81c2c92e, 0x92722c85, 0xa2bfe8a1, 0xa81a664b,
  0xc24b8b70, 0xc76c51a3, 0xd192e819, 0xd6990624, 0xf40e3585, 0x106aa070,
  0x19a4c116, 0x1e376c08, 0x2748774c, 0x34b0bcb5, 0x391c0cb3, 0x4ed8aa4a,
  0x5b9cca4f, 0x682e6ff3, 0x748f82ee, 0x78a5636f, 0x84c87814, 0x8cc70208,
  0x90befffa, 0xa4506ceb, 0xbef9a3f7, 0xc67178f2]

/-! ## One block -/

/-- Rotation to the right, for amounts between zero and the width. -/
@[inline] def rotate (x n : UInt32) : UInt32 := (x >>> n) ||| (x <<< (32 - n))

/-- Adds `n` words to a schedule that is kept newest first.  The new word depends on those 2, 7, 15
and 16 places before it. -/
def extend : Nat → List UInt32 → List UInt32
  | n + 1,
    ws@(_ :: w2 :: _ :: _ :: _ :: _ :: w7 :: _ :: _ :: _ :: _ :: _ :: _ :: _ :: w15 :: w16 :: _) =>
    let small0 := rotate w15 7 ^^^ rotate w15 18 ^^^ (w15 >>> 3)
    let small1 := rotate w2 17 ^^^ rotate w2 19 ^^^ (w2 >>> 10)
    extend n ((small1 + w7 + small0 + w16) :: ws)
  | _, ws => ws

/-- The 64 words that a block of sixteen is stretched to. -/
def schedule (block : List UInt32) : List UInt32 := (extend 48 block.reverse).reverse

/-- One round: `kw` is the sum of the round's constant and its word of the schedule. -/
def step (s : State) (kw : UInt32) : State :=
  let big1 := rotate s.e 6 ^^^ rotate s.e 11 ^^^ rotate s.e 25
  let choice := (s.e &&& s.f) ^^^ (~~~ s.e &&& s.g)
  let t1 := s.h + big1 + choice + kw
  let big0 := rotate s.a 2 ^^^ rotate s.a 13 ^^^ rotate s.a 22
  let majority := (s.a &&& s.b) ^^^ (s.a &&& s.c) ^^^ (s.b &&& s.c)
  ⟨t1 + (big0 + majority), s.a, s.b, s.c, s.d + t1, s.e, s.f, s.g⟩

/-- The word with these bytes, most significant first. -/
def word (a b c d : UInt8) : UInt32 :=
  (a.toUInt32 <<< 24) ||| (b.toUInt32 <<< 16) ||| (c.toUInt32 <<< 8) ||| d.toUInt32

/-- Cuts `n` words off the front of a run of bytes. -/
def takeWords : Nat → Bytes → List UInt32 × Bytes
  | n + 1, a :: b :: c :: d :: rest =>
    let (ws, rest) := takeWords n rest
    (word a b c d :: ws, rest)
  | _, rest => ([], rest)

/-- The rounds for a list of constants and the words that go with them. -/
def rounds : List UInt32 → List UInt32 → State → State
  | k :: ks, w :: ws, s => rounds ks ws (step s (k + w))
  | _, _, s => s

/-- Feeds a block of sixteen words to the state. -/
def compress (s : State) (block : List UInt32) : State :=
  let t := rounds constants (schedule block) s
  ⟨s.a + t.a, s.b + t.b, s.c + t.c, s.d + t.d, s.e + t.e, s.f + t.f, s.g + t.g, s.h + t.h⟩

/-! ## A whole message -/

/-- The message, a one bit, the fewest zeros that fill the last block, and the length in bits. -/
def pad (message : Bytes) : Bytes :=
  let n := message.length
  message ++ 0x80 :: Bytes.zeros ((119 - n % 64) % 64) ++ Bytes.bigEndian 8 (8 * n)

/-- Feeds the first `n` blocks of `bytes` to the state. -/
def absorb : Nat → Bytes → State → State
  | 0, _, s => s
  | n + 1, bytes, s =>
    let (block, rest) := takeWords 16 bytes
    absorb n rest (compress s block)

/-- The state as bytes. -/
def State.toBytes (s : State) : FixedBytes 32 where
  toBytes := [s.a, s.b, s.c, s.d, s.e, s.f, s.g, s.h].flatMap fun w => Bytes.bigEndian 4 w.toNat
  length_eq := by simp

/-- The hash of a message. -/
def digest (message : Bytes) : FixedBytes 32 :=
  let padded := pad message
  (absorb (padded.length / 64) padded initial).toBytes

/-- Padding fills whole blocks. -/
theorem length_pad (message : Bytes) : (pad message).length % 64 = 0 := by
  simp only [pad, List.length_append, List.length_cons, Bytes.length_zeros, Bytes.length_bigEndian]
  omega

end Bitcoin.Sha256
