import Bitcoin.Proofs.KeyPath.Grammar

/-!
# Printing key paths

A path has many spellings: the letter in front may be missing, the marks differ, numerals may start
with zeros, and blanks stand around.  Printing picks one of them.  **What is printed of a path is
read as this path**, so a text that is read and printed comes out in the one form that printing it
again keeps.

* `ChildNumber.spells_toChars` and `KeyPath.spells_toChars` say that what is printed is one of the
  spellings; the grammar then does the reading.
* `KeyPath.toChars_eq_intercalate` brings a path, which is printed step by step, into the form in
  which the grammar takes it apart.
* `KeyPath.ofText_toString` reads a printed path back, and `KeyPath.toString_injective` says that
  two paths are never printed alike.
* `KeyPath.print_after_read` says what printing does to every text that is read.

With the grammar in hand, no reader is unfolded here: it is enough to name the rule by which a
printed step, and a printed path, is one of the spellings.  The letter `M` in front is always
printed, so the rule is the one with a leading letter, and there are no blanks, so the body is the
whole text.
-/

set_option autoImplicit false

namespace Bitcoin

open Text

/-! ## Steps -/

namespace ChildNumber

variable {child : ChildNumber}

/-- What is printed of a step spells the step. -/
theorem spells_toChars (child : ChildNumber) : Spells child.toChars child := by
  have hnumeral : Numeral (digits child.index) child.index :=
    decimal?_eq_some_iff.1 (decimal?_digits _)
  have hparts := child.ofParts_parts
  rw [toChars]
  cases hhardened : child.isHardened with
  | false =>
    rw [hhardened] at hparts
    rw [if_neg Bool.false_ne_true, List.append_nil, ← hparts, index_ofParts child.index_lt]
    exact .normal hnumeral child.index_lt
  | true =>
    rw [hhardened] at hparts
    rw [if_pos rfl, ← hparts, index_ofParts child.index_lt]
    exact .hardened hnumeral child.index_lt (by decide)

theorem isBlank_of_mem_toChars {c : Char} (h : c ∈ child.toChars) : isBlank c = false := by
  have hdigit : ∀ d < 10, isBlank d.digitChar = false := by decide
  rcases List.mem_append.1 h with hc | hc
  · obtain ⟨d, hd, rfl, -⟩ := exists_digitChar_of_isDigit (isDigit_of_mem_digits hc)
    exact hdigit d hd
  · split at hc
    · obtain rfl := List.mem_singleton.1 hc
      decide
    · cases hc

end ChildNumber

/-! ## Paths -/

namespace KeyPath

variable {path : KeyPath}

theorem toChars_eq_intercalate (path : KeyPath) :
    path.toChars = ['/'].intercalate (['M'] :: path.steps.map ChildNumber.toChars) := by
  obtain ⟨steps⟩ := path
  have hrest : ∀ front : List Char,
      front ++ (steps.flatMap fun step => '/' :: step.toChars) =
        ['/'].intercalate (front :: steps.map ChildNumber.toChars) := by
    induction steps with
    | nil => simp
    | cons step steps ih =>
      intro front
      rw [List.map_cons, List.intercalate_cons_cons, ← ih, List.flatMap_cons]
      simp
  exact hrest ['M']

theorem spells_toChars (path : KeyPath) : Spells path.toChars path := by
  rw [toChars_eq_intercalate]
  refine .led (.inl rfl) ?_
  rw [List.forall₂_map_left_iff, List.forall₂_same]
  exact fun step _ => step.spells_toChars

/-- Nothing that is printed is a blank. -/
theorem isBlank_of_mem_toChars {c : Char} (h : c ∈ path.toChars) : isBlank c = false := by
  rw [toChars, List.mem_cons, List.mem_flatMap] at h
  rcases h with rfl | ⟨step, -, hc⟩
  · decide
  · rcases List.mem_cons.1 hc with rfl | hc
    · decide
    · exact step.isBlank_of_mem_toChars hc

/-- **What is printed is read back.** -/
theorem ofText_toString (path : KeyPath) : ofText path.toString = .ok path := by
  rw [ofText_eq_ok_iff, toString, String.toList_ofList]
  refine ⟨path.toChars, ?_, path.spells_toChars⟩
  rw [stripped_iff_trim_eq]
  exact trim_eq_self (fun c hc => isBlank_of_mem_toChars (List.mem_of_head? hc))
    fun c hc => isBlank_of_mem_toChars (List.mem_of_getLast? hc)

/-- Two paths are never printed alike, since each is read back from its own text. -/
theorem toString_injective : Function.Injective toString := by
  intro path other heq
  have hread := path.ofText_toString
  rw [heq, other.ofText_toString] at hread
  exact (Except.ok.inj hread).symm

/-- **Printing and reading undo each other** as far as the spelling allows.  Every path is read back
from its text, so different paths have different texts.  Whatever the text that was read as a path,
what is printed of the path is read as the same path, and printing it once more changes nothing. -/
theorem print_after_read :
    (∀ path : KeyPath, ofText path.toString = .ok path) ∧
      Function.Injective toString ∧
      ∀ (text : String) (path : KeyPath), ofText text = .ok path →
        ofText path.toString = ofText text ∧
          (ofText path.toString).map toString = .ok path.toString := by
  refine ⟨ofText_toString, toString_injective, fun text path htext => ?_⟩
  rw [htext, ofText_toString]
  exact ⟨rfl, rfl⟩

/-- A text with a blank and a small letter in front, a numeral that starts with a zero and marks of
two kinds is read as the path of the usual text, whose last step is the last one there is. -/
theorem print_after_read_unusual :
    ofText " m/044'/7h/0/2147483647h" = .ok ⟨[⟨0x8000002C⟩, ⟨0x80000007⟩, ⟨0⟩, ⟨0xFFFFFFFF⟩]⟩ ∧
      ofText "M/44H/7H/0/2147483647H" =
        .ok ⟨[⟨0x8000002C⟩, ⟨0x80000007⟩, ⟨0⟩, ⟨0xFFFFFFFF⟩]⟩ := by
  have hread : ofText " m/044'/7h/0/2147483647h" =
      .ok ⟨[⟨0x8000002C⟩, ⟨0x80000007⟩, ⟨0⟩, ⟨0xFFFFFFFF⟩]⟩ := by decide +kernel
  have hprinted : (⟨[⟨0x8000002C⟩, ⟨0x80000007⟩, ⟨0⟩, ⟨0xFFFFFFFF⟩]⟩ : KeyPath).toString =
      "M/44H/7H/0/2147483647H" := by decide +kernel
  have hagain := (print_after_read.2.2 _ _ hread).1
  rw [hprinted] at hagain
  exact ⟨hread, hagain.trans hread⟩

end KeyPath

end Bitcoin
