import Bitcoin.Bytes

/-!
# Text as bytes

Texts travel as UTF-8.  `toUtf8` gives the bytes of a text, `ofUtf8?` the text of well-formed bytes,
and `ofUtf8?_eq_some_iff` says that the second is exactly the inverse of the first: a text has one
spelling.
-/

set_option autoImplicit false

namespace Bitcoin.Text

/-- The UTF-8 bytes of a text. -/
def toUtf8 (s : String) : Bytes := s.toByteArray.data.toList

/-- The text with these bytes, if they are well-formed UTF-8. -/
def ofUtf8? (bs : Bytes) : Option String := String.fromUTF8? ⟨bs.toArray⟩

theorem ofUtf8?_eq_some_iff {bs : Bytes} {s : String} : ofUtf8? bs = some s ↔ bs = toUtf8 s := by
  constructor
  · intro h
    simp only [ofUtf8?, String.fromUTF8?, Option.dite_none_right_eq_some, Option.some.injEq] at h
    obtain ⟨_, rfl⟩ := h
    rfl
  · rintro rfl
    have hvalid : (⟨s.toByteArray.data.toList.toArray⟩ : ByteArray).IsValidUTF8 := s.isValidUTF8
    rw [ofUtf8?, toUtf8, String.fromUTF8?, dif_pos hvalid]
    rfl

theorem ofUtf8?_toUtf8 (s : String) : ofUtf8? (toUtf8 s) = some s := ofUtf8?_eq_some_iff.2 rfl

theorem toUtf8_inj {s t : String} : toUtf8 s = toUtf8 t ↔ s = t := by
  constructor
  · intro h
    have := ofUtf8?_toUtf8 s
    rw [h, ofUtf8?_toUtf8] at this
    exact (Option.some.inj this).symm
  · rintro rfl
    rfl

end Bitcoin.Text
