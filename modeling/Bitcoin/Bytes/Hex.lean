import Bitcoin.Bytes
import Bitcoin.Text.Quoted
import Bitcoin.Text.Utf8

/-!
# Hexadecimal

Two digits a byte, the high half first; small letters are written, both cases are read.

* `Bytes.toHex` writes and `Bytes.ofHex` reads.
* A text that cannot be read has an odd number of bytes or holds a character that is no digit; the
  length is looked at first.
-/

set_option autoImplicit false

namespace Bitcoin

/-- Why a text is not hexadecimal. -/
inductive HexError where
  | oddLength
  /-- A byte of the text that is no digit, taken for a character on its own, and where it stands. -/
  | invalidCharacter (c : Char) (index : Nat)
deriving DecidableEq, Repr

namespace Bytes

/-- The digit of a half byte. -/
def hexDigit (n : Nat) : Char := Nat.digitChar n

/-- The two digits of a byte. -/
def hexPair (b : UInt8) : List Char := [hexDigit (b.toNat / 16), hexDigit (b.toNat % 16)]

/-- The digits of a run of bytes. -/
def toHex (bs : Bytes) : String := String.ofList (bs.flatMap hexPair)

/-- The value of a digit, given as the byte that spells it. -/
def hexValue? (b : UInt8) : Option Nat :=
  let n := b.toNat
  if 48 ≤ n ∧ n ≤ 57 then some (n - 48)
  else if 65 ≤ n ∧ n ≤ 70 then some (n - 55)
  else if 97 ≤ n ∧ n ≤ 102 then some (n - 87)
  else none

/-- Reads digits two by two; `index` is the place of the first of them in the whole text, and `done`
the bytes before it in reverse. -/
def ofHexDigits (index : Nat) (done : Bytes) : Bytes → Except HexError Bytes
  | [] => .ok done.reverse
  | [_] => .error .oddLength
  | high :: low :: rest =>
    match hexValue? high, hexValue? low with
    | some h, some l => ofHexDigits (index + 2) (UInt8.ofNat (16 * h + l) :: done) rest
    | none, _ => .error (.invalidCharacter (Char.ofNat high.toNat) index)
    | some _, none => .error (.invalidCharacter (Char.ofNat low.toNat) (index + 1))

/-- The bytes that a text spells in hexadecimal. -/
def ofHex (s : String) : Except HexError Bytes :=
  let spelled := Text.toUtf8 s
  if spelled.length % 2 = 1 then .error .oddLength else ofHexDigits 0 [] spelled

end Bytes

/-- The error as it is shown on the command line. -/
def HexError.describe : HexError → String
  | .oddLength => "OddLength"
  | .invalidCharacter c index =>
    "InvalidHexCharacter \x7b c: " ++ Text.quotedChar c ++ ", index: " ++ toString index ++ " \x7d"

end Bitcoin
