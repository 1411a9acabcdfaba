/-!
# Outlines

A value is shown to a person as an outline: a tree of names, labelled fields and items.  The same
tree is written on one line (`Outline.flat`) or over many, one item a line, indented by four blanks
a level and with a comma behind every item (`Outline.tall`).

Both ways of writing append to a text that is handed along.  The nesting of calls is that of the
outline, and each level adds its opening, its items and its end; with a long list this costs no more
than the list.

A list without items is written with both its brackets on one line.  Any other group has a line for
its end, also without items.
-/

set_option autoImplicit false

namespace Bitcoin.Text

/-- What stands around the items of a group. -/
inductive Bracket where
  | braces
  | round
  | square
deriving DecidableEq

/-- A value as it is shown. -/
inductive Outline where
  /-- A text that is shown as it is. -/
  | atom (text : String)
  /-- A labelled item of a group. -/
  | field (label : String) (value : Outline)
  /-- A name and the items that belong to it. -/
  | group (name : String) (bracket : Bracket) (items : List Outline)

namespace Outline

/-- A number. -/
def number (n : Nat) : Outline := atom (toString n)

/-- A named value with labelled fields. -/
def record (name : String) (fields : List (String × Outline)) : Outline :=
  group name .braces (fields.map fun (label, value) => field label value)

/-- A named value with items that have no labels. -/
def tuple (name : String) (items : List Outline) : Outline := group name .round items

/-- A list of items. -/
def list (items : List Outline) : Outline := group "" .square items

/-- A value that may be missing. -/
def option : Option Outline → Outline
  | none => atom "None"
  | some value => tuple "Some" [value]

/-- The name that an outline begins with. -/
def head : Outline → String
  | atom text => text
  | field label _ => label
  | group name _ _ => name

/-! ## On one line -/

/-- The opening of a group on one line. -/
def inlineOpen : Bracket → String
  | .braces => " \x7b "
  | .round => "("
  | .square => "["

/-- The end of a group on one line. -/
def inlineClose : Bracket → String
  | .braces => " \x7d"
  | .round => ")"
  | .square => "]"

mutual

/-- Appends an outline on one line. -/
def appendInline (acc : String) : Outline → String
  | atom text => acc ++ text
  | field label value => appendInline (acc ++ label ++ ": ") value
  | group name bracket items =>
    appendItems "" (acc ++ name ++ inlineOpen bracket) items ++ inlineClose bracket

/-- Appends items on one line, the first behind `separator` and the others behind commas. -/
def appendItems (separator acc : String) : List Outline → String
  | [] => acc
  | item :: items => appendItems ", " (appendInline (acc ++ separator) item) items

end

/-- The outline on one line. -/
def flat (outline : Outline) : String := appendInline "" outline

/-! ## Over many lines -/

/-- The opening of a group over many lines. -/
def tallOpen : Bracket → String
  | .braces => " \x7b\n"
  | .round => "(\n"
  | .square => "[\n"

/-- The end of a group over many lines. -/
def tallClose : Bracket → String
  | .braces => "\x7d"
  | .round => ")"
  | .square => "]"

/-- The blanks in front of a line at some depth. -/
def indentation (depth : Nat) : String := String.ofList (List.replicate (4 * depth) ' ')

mutual

/-- Appends an outline over many lines; the line it starts on is at `depth`.  A list without items
stays on its line. -/
def appendTall (depth : Nat) (acc : String) : Outline → String
  | atom text => acc ++ text
  | field label value => appendTall depth (acc ++ label ++ ": ") value
  | group name .square [] => acc ++ name ++ "[]"
  | group name bracket items =>
    appendLines (depth + 1) (acc ++ name ++ tallOpen bracket) items ++ indentation depth ++
      tallClose bracket

/-- Appends items, each on lines of its own. -/
def appendLines (depth : Nat) (acc : String) : List Outline → String
  | [] => acc
  | item :: items =>
    appendLines depth (appendTall depth (acc ++ indentation depth) item ++ ",\n") items

end

/-- The outline over many lines. -/
def tall (outline : Outline) : String := appendTall 0 "" outline

end Outline

end Bitcoin.Text
