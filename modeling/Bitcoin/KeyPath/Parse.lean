import Bitcoin.Key.Error
import Bitcoin.Text.Blank

/-!
# Reading key paths

A path is read from a text such as `M/44H/0H/1`.  Blanks around it do not count, a text of blanks is
the path of the master key, and one `M` or `m` may lead.  The steps stand between slashes: an index
in decimal, with one of three marks behind it if the child is hardened.

* `ChildNumber.ofText` reads a step, `KeyPath.ofText` a path.
* A path with a wrong step is refused as a whole, by the text that was given.
-/

set_option autoImplicit false

namespace Bitcoin

namespace ChildNumber

/-- The marks of a hardened child. -/
def marks : List Char := ['H', 'h', '\'']

/-- A step, less its mark, and whether there was one. -/
def splitMark (text : List Char) : List Char × Bool :=
  match text.getLast? with
  | some c => if c ∈ marks then (text.dropLast, true) else (text, false)
  | none => (text, false)

/-- The child with an index that has to leave the top bit free. -/
def ofIndex (index : Nat) (hardened : Bool) : Except KeyError ChildNumber :=
  if index < hardenedBit then .ok (ofParts index hardened) else .error (.invalidChildIndex index)

/-- The index and the mark that a text spells, as far as 32 bits hold the index. -/
def spelled? (text : List Char) : Option (Nat × Bool) :=
  let (numeral, hardened) := splitMark text
  match Text.decimal? numeral with
  | some index => if index < UInt32.size then some (index, hardened) else none
  | none => none

/-- The step that a text spells. -/
def ofText (text : List Char) : Except KeyError ChildNumber :=
  match spelled? text with
  | some (index, hardened) => ofIndex index hardened
  | none => .error (.invalidPath (String.ofList text))

/-- The child so many places further along, hardened or not as this one is. -/
def offset (child : ChildNumber) (places : Nat) : Except KeyError ChildNumber :=
  ofIndex (child.index + places) child.isHardened

end ChildNumber

namespace KeyPath

/-- The steps of a text without blanks around it: what stands between slashes, less one leading `M`.
-/
def stepTexts (text : List Char) : List (List Char) :=
  match text.splitOn '/' with
  | ['M'] :: rest => rest
  | ['m'] :: rest => rest
  | parts => parts

/-- The steps that some texts spell, if they all do. -/
def stepsOfTexts? (texts : List (List Char)) : Option (List ChildNumber) :=
  texts.mapM fun text => (ChildNumber.ofText text).toOption

/-- The path that a text spells. -/
def ofText (text : String) : Except KeyError KeyPath :=
  let trimmed := Text.trim text.toList
  if trimmed.isEmpty then .ok master
  else
    match stepsOfTexts? (stepTexts trimmed) with
    | some steps => .ok ⟨steps⟩
    | none => .error (.invalidPath text)

end KeyPath

end Bitcoin
