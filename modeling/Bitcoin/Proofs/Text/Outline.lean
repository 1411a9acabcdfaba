import Bitcoin.Text.Outline

/-!
# What an outline begins with

An outline is written behind a text that is there already, so that no piece of it is copied twice.
This module takes the two apart again: **what is written of an outline does not depend on what it is
written behind** (`Text.Outline.appendTall_eq`), and so an outline can be looked at piece by piece.

* `Text.Outline.tall_group` is a name with items over many lines, in terms of what is written of the
  items alone.
* `Text.Outline.exists_tall_eq_head` is what all outlines have in common: **each begins with its
  name**, and behind the name stands nothing, a colon, or what opens its items.

An outline and the list of its items are defined together, and so are the two functions that write
them.  The theorems about the text in front come in the same pair, by recursion on the outline and
on the list.

Nothing here says that an outline can be found again in what was written of it.  Names are made by
the program and have no brackets in them, but texts may hold anything, so that this is a matter of
quoting, and quoting is done before an outline is made.
-/

set_option autoImplicit false

namespace Bitcoin.Text.Outline

/-! ## The text in front -/

/-- A group that is not an empty list has lines of its own for its items. -/
theorem appendTall_group {bracket : Bracket} {items : List Outline} (depth : Nat)
    (acc name : String) (h : ¬(bracket = .square ∧ items = [])) :
    appendTall depth acc (group name bracket items) =
      appendLines (depth + 1) (acc ++ name ++ tallOpen bracket) items ++ indentation depth ++
        tallClose bracket := by
  rw [appendTall]
  exact fun hbracket hitems => h ⟨hbracket, hitems⟩

mutual

/-- The text in front stays in front. -/
theorem appendTall_eq (depth : Nat) (acc : String) :
    ∀ outline, appendTall depth acc outline = acc ++ appendTall depth "" outline
  | atom text => by simp [appendTall]
  | field label value => by
    rw [appendTall, appendTall, appendTall_eq depth (acc ++ label ++ ": ") value,
      appendTall_eq depth ("" ++ label ++ ": ") value]
    simp only [String.append_assoc, String.empty_append]
  | group name bracket items => by
    by_cases h : bracket = .square ∧ items = []
    · obtain ⟨rfl, rfl⟩ := h
      simp [appendTall, String.append_assoc]
    · rw [appendTall_group depth acc name h, appendTall_group depth "" name h,
        appendLines_eq _ (acc ++ name ++ _) items, appendLines_eq _ ("" ++ name ++ _) items]
      simp only [String.append_assoc, String.empty_append]

/-- The same for the items of an outline, each of which is written behind those before it. -/
theorem appendLines_eq (depth : Nat) (acc : String) :
    ∀ items, appendLines depth acc items = acc ++ appendLines depth "" items
  | [] => by simp [appendLines]
  | item :: items => by
    rw [appendLines, appendLines, appendLines_eq depth (_ ++ ",\n") items,
      appendTall_eq depth (acc ++ _) item, appendLines_eq depth (appendTall _ ("" ++ _) _ ++ _) items,
      appendTall_eq depth ("" ++ _) item]
    simp only [String.append_assoc, String.empty_append]

end

/-! ## Over many lines -/

theorem tall_group {bracket : Bracket} {items : List Outline} (name : String)
    (h : ¬(bracket = .square ∧ items = [])) :
    (group name bracket items).tall =
      name ++ tallOpen bracket ++ appendLines 1 "" items ++ tallClose bracket := by
  rw [tall, appendTall_group 0 "" name h, appendLines_eq]
  simp [indentation]

/-- **An outline begins with its name**, and what stands behind the name, if anything, is told from
it by its first character. -/
theorem exists_tall_eq_head (outline : Outline) :
    ∃ rest, outline.tall = outline.head ++ rest ∧
      ∀ c ∈ rest.toList.head?, c = ':' ∨ c = '(' ∨ c = '[' ∨ c = ' ' := by
  cases outline with
  | atom text => exact ⟨"", by simp [tall, appendTall, head], by simp⟩
  | field label value =>
    refine ⟨": " ++ appendTall 0 "" value, ?_, by simp⟩
    rw [tall, appendTall, appendTall_eq, head]
    simp only [String.append_assoc, String.empty_append]
  | group name bracket items =>
    by_cases h : bracket = .square ∧ items = []
    · obtain ⟨rfl, rfl⟩ := h
      exact ⟨"[]", by simp [tall, appendTall, head], by simp⟩
    · refine ⟨tallOpen bracket ++ (appendLines 1 "" items ++ tallClose bracket), ?_, ?_⟩
      · rw [tall_group name h, head]
        simp only [String.append_assoc]
      · cases bracket <;> simp [tallOpen]

end Bitcoin.Text.Outline
