/-!
# Blanks around a text

What surrounds a key path or a hexadecimal dump is dropped before it is read.  A blank is any
character of the Unicode property `White_Space`, which is wider than the ASCII blanks.

* `trim` drops the blanks at both ends; `trim_eq_self` says when there are none to drop.
-/

set_option autoImplicit false

namespace Bitcoin.Text

/-- Whether a character counts as white space. -/
def isBlank (c : Char) : Bool :=
  let code := c.toNat
  (9 ≤ code && code ≤ 13) || code == 0x20 || code == 0x85 || code == 0xA0 || code == 0x1680 ||
    (0x2000 ≤ code && code ≤ 0x200A) || code == 0x2028 || code == 0x2029 || code == 0x202F ||
    code == 0x205F || code == 0x3000

/-- The characters without the blanks at either end. -/
def trim (cs : List Char) : List Char :=
  ((cs.dropWhile isBlank).reverse.dropWhile isBlank).reverse

/-- Nothing is dropped from a text that neither starts nor ends with a blank. -/
theorem trim_eq_self {cs : List Char} (hfirst : ∀ c ∈ cs.head?, isBlank c = false)
    (hlast : ∀ c ∈ cs.getLast?, isBlank c = false) : trim cs = cs := by
  have hdrop (ds : List Char) (h : ∀ c ∈ ds.head?, isBlank c = false) :
      ds.dropWhile isBlank = ds := by
    cases ds with
    | nil => rfl
    | cons d ds => simp [h d (by simp)]
  rw [trim, hdrop cs hfirst, hdrop cs.reverse (by simpa using hlast), List.reverse_reverse]

end Bitcoin.Text
