import Bitcoin.Digest
import Bitcoin.Text.Quoted

/-!
# Base58 with a checksum

Extended keys are shown to people as text.  The bytes and their four-byte checksum are read as one
number, most significant byte first, and written to base 58 with the letters that are hard to
confuse; zero bytes in front, which the number forgets, become as many letters `1`.

* `digits` and `ofDigits` write and read a number to any base, least significant digit first.
* `Base58.encode` and `Base58.decode` do without the checksum, `encodeChecked` and `decodeChecked`
  with it.
* `Base58Error` says why a text is refused.
-/

set_option autoImplicit false

namespace Bitcoin

/-- Why a text is not base58 with a checksum. -/
inductive Base58Error where
  /-- A character outside the alphabet, and the byte of the text where it stands. -/
  | invalidCharacter (c : Char) (index : Nat)
  | nonAscii (index : Nat)
  /-- Fewer bytes than a checksum has. -/
  | tooShort
  | checksumMismatch (calculated found : FixedBytes 4)
deriving DecidableEq

namespace Base58

/-! ## Numbers to a base -/

/-- The digits of a number, least significant first, without zeros at the end.  `count` bounds how
many are written. -/
def digits (base : Nat) : Nat → Nat → List Nat
  | 0, _ => []
  | count + 1, n => if n = 0 then [] else n % base :: digits base count (n / base)

/-- The number with these digits, least significant first. -/
def ofDigits (base : Nat) : List Nat → Nat
  | [] => 0
  | d :: ds => d + base * ofDigits base ds

/-! ## The alphabet -/

/-- The letters in the order of their values: digits and letters without `0`, `O`, `I` and `l`. -/
def alphabet : List Char :=
  "123456789ABCDEFGHJKLMNPQRSTUVWXYZabcdefghijkmnopqrstuvwxyz".toList

/-- The letter of a digit. -/
def letter (digit : Nat) : Char := alphabet.getD digit '1'

/-- The digit of a letter. -/
def value? (c : Char) : Option Nat := alphabet.idxOf? c

theorem value?_letter : ∀ digit : Fin 58, value? (letter digit) = some digit.val := by
  decide +kernel

/-! ## Text and bytes -/

/-- The base58 text of some bytes.  A byte needs at most two digits. -/
def encode (data : Bytes) : List Char :=
  let zeros := data.takeWhile (· == 0)
  let rest := data.drop zeros.length
  List.replicate zeros.length '1' ++
    ((digits 58 (2 * rest.length) (Bytes.toNatBE rest)).map letter).reverse

/-- The values of the letters of a text; `index` is the byte where the first of them stands.  Bytes
after the first one that is refused are not looked at. -/
def values (index : Nat) : List Char → Except Base58Error (List Nat)
  | [] => .ok []
  | c :: cs =>
    match value? c with
    | some digit => do
      let digits ← values (index + 1) cs
      return digit :: digits
    | none => .error (if c.toNat < 128 then .invalidCharacter c index else .nonAscii index)

/-- The bytes of a base58 text.  A digit needs at most one byte. -/
def decode (text : List Char) : Except Base58Error Bytes := do
  let digitValues ← values 0 text
  let zeros := digitValues.takeWhile (· == 0)
  let rest := digitValues.drop zeros.length
  return Bytes.zeros zeros.length ++
    ((digits 256 rest.length (ofDigits 58 rest.reverse)).map UInt8.ofNat).reverse

/-- The text of some bytes followed by their checksum. -/
def encodeChecked (data : Bytes) : String :=
  String.ofList (encode (data ++ (checksum data).toBytes))

/-- The bytes of a text, less the checksum at their end, which has to be right. -/
def decodeChecked (text : String) : Except Base58Error Bytes := do
  let bytes ← decode text.toList
  let data := bytes.take (bytes.length - 4)
  match FixedBytes.ofBytes? 4 (bytes.drop (bytes.length - 4)) with
  | none => .error .tooShort
  | some found =>
    let calculated := checksum data
    if calculated = found then return data else .error (.checksumMismatch calculated found)

end Base58

/-- The bytes of a checksum as decimal numbers in brackets. -/
def describeChecksum (bytes : FixedBytes 4) : String :=
  "[" ++ ", ".intercalate (bytes.toBytes.map fun b => toString b.toNat) ++ "]"

/-- The error in words. -/
def Base58Error.message : Base58Error → String
  | .invalidCharacter c index =>
    "provided string contained invalid character " ++ Text.quotedChar c ++ " at byte " ++
      toString index
  | .nonAscii index =>
    "provided string contained non-ascii character starting at byte " ++ toString index
  | .tooShort => "provided string is too small to contain a checksum"
  | .checksumMismatch calculated found =>
    "invalid checksum, calculated checksum: '" ++ describeChecksum calculated ++
      "', expected checksum: " ++ describeChecksum found

end Bitcoin
