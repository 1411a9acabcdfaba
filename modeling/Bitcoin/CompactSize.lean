import Bitcoin.Bytes

/-!
# Compact sizes

Lengths and counts are written in one, three, five or nine bytes: a number below 253 is its own
byte, and a larger one is announced by the byte 253, 254 or 255 and follows in two, four or eight
bytes, least significant first.  Only the shortest form is accepted on reading, so a number has one
spelling.

* `encode` writes; reading is `Reader.compactSize`.
* `length_encode` gives the length of what is written.
-/

set_option autoImplicit false

namespace Bitcoin.CompactSize

/-- The shortest form of a number below `2 ^ 64`. -/
def encode (n : Nat) : Bytes :=
  if n < 0xFD then [UInt8.ofNat n]
  else if n ≤ 0xFFFF then 0xFD :: Bytes.littleEndian 2 n
  else if n ≤ 0xFFFFFFFF then 0xFE :: Bytes.littleEndian 4 n
  else 0xFF :: Bytes.littleEndian 8 n

/-- The length of the shortest form. -/
def width (n : Nat) : Nat :=
  if n < 0xFD then 1 else if n ≤ 0xFFFF then 3 else if n ≤ 0xFFFFFFFF then 5 else 9

theorem length_encode (n : Nat) : (encode n).length = width n := by
  unfold encode width
  split
  · rfl
  · split
    · simp
    · split <;> simp

/-- A run of bytes behind its length. -/
def encodeBytes (bytes : Bytes) : Bytes := encode bytes.length ++ bytes

/-- The items of a list, each as bytes, behind their number. -/
def encodeList {α : Type} (item : α → Bytes) (items : List α) : Bytes :=
  encode items.length ++ items.flatMap item

end Bitcoin.CompactSize
