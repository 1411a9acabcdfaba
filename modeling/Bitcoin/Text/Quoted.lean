import Bitcoin.Text.Shown

/-!
# Quoted text

How a text or a single character is shown inside a message: between quotes, with what could be
mistaken written as an escape.  The tabulator, the ends of line, the zero character and the
backslash have short escapes; any other character that is not shown as itself (see
`Bitcoin.Text.Shown`) is written by its number.  Only the quote that delimits is escaped: `"` in a
text, `'` around a character.
-/

set_option autoImplicit false

namespace Bitcoin.Text

/-- One character as it stands between delimiters `quote`. -/
def escape (quote c : Char) : String :=
  if c = '\x00' then "\\0"
  else if c = '\t' then "\\t"
  else if c = '\n' then "\\n"
  else if c = '\r' then "\\r"
  else if c = '\\' ∨ c = quote then String.ofList ['\\', c]
  else if isShown c then String.singleton c
  else "\\u\x7b" ++ String.ofList (Nat.toDigits 16 c.toNat) ++ "\x7d"

/-- A text between double quotes. -/
def quoted (s : String) : String :=
  "\"" ++ String.join (s.toList.map (escape '"')) ++ "\""

/-- A character between single quotes. -/
def quotedChar (c : Char) : String :=
  "'" ++ escape '\'' c ++ "'"

end Bitcoin.Text
