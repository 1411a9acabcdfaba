import Bitcoin.KeyPath.Parse
import Mathlib.Algebra.Group.Nat.Defs
import Mathlib.Data.List.Forall2
import Mathlib.Data.List.Induction
import Mathlib.Data.List.TakeWhile

/-!
# The grammar of key paths

Which texts spell a path, and which path, is told here without reading them: a relation for each part
of the grammar, with one rule for each form that the part may take.  **The readers accept just these
texts**, and give the path that is spelled.

* `Text.Numeral` are the decimal numerals with their values, `Text.Stripped` says what is left of a
  text without the blanks around it.
* `ChildNumber.Spells` is the grammar of a step, `KeyPath.Spells` that of a path.
* `Text.decimal?_eq_some_iff`, `Text.stripped_iff_trim_eq`, `ChildNumber.ofText_eq_ok_iff` and
  `KeyPath.ofText_eq_ok_iff` go from the readers to the grammar, one part after the other.
* `KeyPath.ofText_grammar` says it of all texts, with the error of those that spell no path.

The grammar is written from the outside.  It puts texts together and has no order of reading in it;
it does not say which character is looked at first, nor where a text is cut.  So that the readers
accept the same texts is something to prove, and not the same definition twice.

Where the reader makes a choice, there is a lemma that the choice is the only one.

* It takes a mark off the end of a step before it looks for digits.  No digit is a mark
  (`ChildNumber.splitMark_of_numeral`), so a numeral is never cut short.
* It takes a leading letter off a path.  No step is such a letter (`KeyPath.stepTexts_of_spells`),
  so no first step is mistaken for one.
* It cuts a path at its slashes.  No step holds one (`KeyPath.not_mem_of_spells`), so splitting is
  the inverse of joining.
* It takes all blanks off both ends.  What is left is the only body that the text has
  (`Text.stripped_iff_trim_eq`).

Two things are easily overlooked in the rules.  A leading letter may stand alone, but a slash behind
it with nothing more is no path, because an empty step has no digit; and a text of blanks spells the
path of the master key, as the empty text does.

In short, with blanks allowed around a whole path and nowhere inside it:

```
path     =  "" | steps | lead | lead "/" steps
steps    =  step | step "/" steps
step     =  numeral | numeral mark
lead     =  "M" | "m"
mark     =  "H" | "h" | "'"
numeral  =  digit | numeral digit
```

A numeral stands for a number below `2 ^ 31`, and may have zeros in front.
-/

set_option autoImplicit false

namespace Bitcoin

/-! ## Numerals -/

namespace Text

/-- The texts of one or more decimal digits, and the numbers that they stand for.  The last digit
counts once, and what stands in front of it ten times. -/
inductive Numeral : List Char → Nat → Prop
  | digit {d : Nat} (hd : d < 10) : Numeral [d.digitChar] d
  | snoc {text : List Char} {n d : Nat} (h : Numeral text n) (hd : d < 10) :
    Numeral (text ++ [d.digitChar]) (10 * n + d)

variable {text body front back : List Char} {n : Nat} {c : Char}

theorem exists_digitChar_of_isDigit (h : c.isDigit = true) :
    ∃ d < 10, c = d.digitChar ∧ c.toNat - '0'.toNat = d := by
  obtain ⟨hlow, hhigh⟩ := Char.isDigit_iff_toNat.1 h
  have hzero : '0'.toNat = 48 := rfl
  have hnine : '9'.toNat = 57 := rfl
  have hlt : c.toNat - '0'.toNat < 10 := by omega
  refine ⟨_, hlt, Char.toNat_inj.1 ?_, rfl⟩
  rw [Nat.toNat_digitChar_of_lt_ten hlt]
  omega

theorem Numeral.isDigit (h : Numeral text n) : ∀ c ∈ text, c.isDigit = true := by
  induction h with
  | digit hd => simpa [Nat.isDigit_digitChar] using hd
  | snoc h hd ih =>
    rw [List.forall_mem_append]
    exact ⟨ih, by simpa [Nat.isDigit_digitChar] using hd⟩

theorem Numeral.ne_nil (h : Numeral text n) : text ≠ [] := by
  cases h with
  | digit hd => exact List.cons_ne_nil _ _
  | snoc h hd => exact List.append_ne_nil_of_right_ne_nil _ (List.cons_ne_nil _ _)

theorem Numeral.ofDigitChars_eq (h : Numeral text n) : Nat.ofDigitChars 10 text 0 = n := by
  have hvalue : ∀ {d : Nat}, d < 10 → d.digitChar.toNat - 48 = d := by
    intro d hd
    rw [Nat.toNat_digitChar_of_lt_ten hd, Nat.add_sub_cancel_left]
  induction h with
  | digit hd => simp [Nat.ofDigitChars, hvalue hd]
  | snoc h hd ih =>
    rw [Nat.ofDigitChars_append, ih]
    simp [Nat.ofDigitChars, hvalue hd]

/-- One or more digits are a numeral, by induction on the digits from the last one on. -/
theorem numeral_of_isDigit (hsome : text ≠ []) (hdigits : ∀ c ∈ text, c.isDigit = true) :
    Numeral text (Nat.ofDigitChars 10 text 0) := by
  induction text using List.reverseRecOn with
  | nil => exact absurd rfl hsome
  | append_singleton text c ih =>
    obtain ⟨htext, hc⟩ := List.forall_mem_append.1 hdigits
    obtain ⟨d, hd, hchar, hvalue⟩ := exists_digitChar_of_isDigit (hc c List.mem_cons_self)
    rw [Nat.ofDigitChars_append]
    show Numeral (text ++ [c]) (10 * _ + (c.toNat - '0'.toNat))
    rw [hvalue, hchar]
    by_cases hnil : text = []
    · subst hnil
      rw [show 10 * Nat.ofDigitChars 10 [] 0 + d = d from Nat.zero_add d]
      exact .digit hd
    · exact .snoc (ih hnil htext) hd

/-- **Reading a number accepts the numerals**, and gives their values. -/
theorem decimal?_eq_some_iff : decimal? text = some n ↔ Numeral text n := by
  rw [decimal?]
  constructor
  · intro h
    split at h
    · next hdigits =>
      cases h
      exact numeral_of_isDigit hdigits.1 (List.all_eq_true.1 hdigits.2)
    · cases h
  · intro h
    rw [if_pos ⟨h.ne_nil, List.all_eq_true.2 h.isDigit⟩, h.ofDigitChars_eq]

/-! ## Blanks -/

/-- A text is some blanks, a body that neither starts nor ends with a blank, and some blanks. -/
structure Stripped (text body : List Char) : Prop where
  exists_blanks : ∃ front back, text = front ++ (body ++ back) ∧
    (∀ c ∈ front, isBlank c = true) ∧ ∀ c ∈ back, isBlank c = true
  head : ∀ c ∈ body.head?, isBlank c = false
  last : ∀ c ∈ body.getLast?, isBlank c = false

theorem isBlank_head?_dropWhile (text : List Char) :
    ∀ c ∈ (text.dropWhile isBlank).head?, isBlank c = false := by
  intro c hc
  have hhead := List.head?_dropWhile_not isBlank text
  rw [Option.mem_def.1 hc] at hhead
  exact hhead

theorem stripped_trim (text : List Char) : Stripped text (trim text) := by
  generalize hrest : text.dropWhile isBlank = rest
  have htrim : trim text = (rest.reverse.dropWhile isBlank).reverse := by rw [trim, hrest]
  have htail : rest = trim text ++ (rest.reverse.takeWhile isBlank).reverse := by
    rw [htrim, ← List.reverse_append, List.takeWhile_append_dropWhile, List.reverse_reverse]
  refine ⟨⟨text.takeWhile isBlank, (rest.reverse.takeWhile isBlank).reverse, ?_,
    fun c => List.mem_takeWhile_imp, fun c hc => ?_⟩, fun c hc => ?_, fun c hc => ?_⟩
  · rw [← htail, ← hrest, List.takeWhile_append_dropWhile]
  · exact List.mem_takeWhile_imp (List.mem_reverse.1 hc)
  · refine isBlank_head?_dropWhile text c ?_
    rw [hrest, htail, List.head?_append, Option.mem_def.1 hc]
    rfl
  · rw [htrim, List.getLast?_reverse] at hc
    exact isBlank_head?_dropWhile _ c hc

theorem trim_append_of_isBlank_front (h : ∀ c ∈ front, isBlank c = true) :
    trim (front ++ text) = trim text := by
  rw [trim, List.dropWhile_append_of_pos h, trim]

theorem trim_append_of_isBlank_back (h : ∀ c ∈ back, isBlank c = true) :
    trim (text ++ back) = trim text := by
  have hback : back.dropWhile isBlank = [] := List.dropWhile_eq_nil_iff.2 h
  have hreverse : ∀ c ∈ back.reverse, isBlank c = true := fun c hc => h c (List.mem_reverse.1 hc)
  rw [trim, trim, List.dropWhile_append]
  split
  · next hnil => rw [hback, List.isEmpty_iff.1 hnil]
  · rw [List.reverse_append, List.dropWhile_append_of_pos hreverse]

/-- **What is left of a text is its body**, and so there is only one. -/
theorem stripped_iff_trim_eq : Stripped text body ↔ trim text = body := by
  constructor
  · rintro ⟨⟨front, back, rfl, hfront, hback⟩, hhead, hlast⟩
    rw [trim_append_of_isBlank_front hfront, trim_append_of_isBlank_back hback,
      trim_eq_self hhead hlast]
  · rintro rfl
    exact stripped_trim text

end Text

/-! ## Steps -/

namespace ChildNumber

open Text

variable {text : List Char} {child : ChildNumber}

/-- The texts that spell a step: an index below `2 ^ 31` in decimal, with a mark behind it just if the
child is hardened. -/
inductive Spells : List Char → ChildNumber → Prop
  | normal {numeral : List Char} {index : Nat} (h : Numeral numeral index)
    (hindex : index < 2 ^ 31) : Spells numeral (.ofParts index false)
  | hardened {numeral : List Char} {index : Nat} {mark : Char} (h : Numeral numeral index)
    (hindex : index < 2 ^ 31) (hmark : mark ∈ ['H', 'h', '\'']) :
    Spells (numeral ++ [mark]) (.ofParts index true)

theorem splitMark_concat {mark : Char} (numeral : List Char) (hmark : mark ∈ marks) :
    splitMark (numeral ++ [mark]) = (numeral, true) := by
  rw [splitMark, List.getLast?_concat]
  simp [hmark]

/-- No digit is a mark. -/
theorem splitMark_of_numeral {index : Nat} (h : Numeral text index) :
    splitMark text = (text, false) := by
  have hdigit : ∀ mark ∈ marks, mark.isDigit = false := by simp [marks]
  rw [splitMark]
  cases hlast : text.getLast? with
  | none => rfl
  | some c =>
    have hmark : c ∉ marks := fun hmark => by
      cases (h.isDigit c (List.mem_of_getLast? hlast)).symm.trans (hdigit c hmark)
    simp [hmark]

/-- What is split off a text stood at its end. -/
theorem splitMark_cases (text : List Char) :
    splitMark text = (text, false) ∨
      ∃ numeral, ∃ mark ∈ marks, text = numeral ++ [mark] ∧ splitMark text = (numeral, true) := by
  rcases List.eq_nil_or_concat text with rfl | ⟨numeral, mark, rfl⟩
  · exact .inl rfl
  · rw [List.concat_eq_append]
    by_cases hmark : mark ∈ marks
    · exact .inr ⟨numeral, mark, hmark, rfl, splitMark_concat numeral hmark⟩
    · refine .inl ?_
      rw [splitMark, List.getLast?_concat]
      simp [hmark]

theorem ofText_eq_ok_iff_of_splitMark {numeral : List Char} {hardened : Bool}
    (h : splitMark text = (numeral, hardened)) :
    ofText text = .ok child ↔
      ∃ index, Numeral numeral index ∧ index < 2 ^ 31 ∧ child = .ofParts index hardened := by
  have hbit : hardenedBit = 2 ^ 31 := rfl
  have hsize : UInt32.size = 2 ^ 32 := rfl
  rw [ofText, spelled?, h]
  constructor
  · intro hread
    split at hread
    · next index _ hspelled =>
      dsimp only at hspelled
      split at hspelled
      · next hdecimal =>
        split at hspelled
        · cases hspelled
          rw [ofIndex] at hread
          split at hread
          · next hindex =>
            cases hread
            exact ⟨index, decimal?_eq_some_iff.1 hdecimal, hindex, rfl⟩
          · cases hread
        · cases hspelled
      · cases hspelled
    · cases hread
  · rintro ⟨index, hnumeral, hindex, rfl⟩
    have hfits : index < UInt32.size := by omega
    simp only [decimal?_eq_some_iff.2 hnumeral, if_pos hfits]
    exact if_pos hindex

/-- **Reading a step accepts the texts that spell one.** -/
theorem ofText_eq_ok_iff : ofText text = .ok child ↔ Spells text child := by
  constructor
  · intro hread
    rcases splitMark_cases text with hsplit | ⟨numeral, mark, hmark, rfl, hsplit⟩
    · obtain ⟨index, hnumeral, hindex, rfl⟩ := (ofText_eq_ok_iff_of_splitMark hsplit).1 hread
      exact .normal hnumeral hindex
    · obtain ⟨index, hnumeral, hindex, rfl⟩ := (ofText_eq_ok_iff_of_splitMark hsplit).1 hread
      exact .hardened hnumeral hindex hmark
  · rintro (⟨hnumeral, hindex⟩ | ⟨hnumeral, hindex, hmark⟩)
    · exact (ofText_eq_ok_iff_of_splitMark (splitMark_of_numeral hnumeral)).2
        ⟨_, hnumeral, hindex, rfl⟩
    · exact (ofText_eq_ok_iff_of_splitMark (splitMark_concat _ hmark)).2
        ⟨_, hnumeral, hindex, rfl⟩

theorem Spells.ne_nil (h : Spells text child) : text ≠ [] := by
  cases h with
  | normal h _ => exact h.ne_nil
  | hardened h _ _ => exact List.append_ne_nil_of_left_ne_nil h.ne_nil _

/-- A step is spelled with digits and marks. -/
theorem Spells.not_mem {c : Char} (h : Spells text child) (hdigit : c.isDigit = false)
    (hmark : c ∉ marks) : c ∉ text := by
  have hnumeral : ∀ {numeral index}, Numeral numeral index → c ∉ numeral := fun h hc => by
    cases (h.isDigit c hc).symm.trans hdigit
  cases h with
  | normal h _ => exact hnumeral h
  | hardened h _ hlast =>
    rw [List.mem_append, List.mem_singleton]
    rintro (hc | rfl)
    · exact hnumeral h hc
    · exact hmark hlast

end ChildNumber

/-! ## Paths -/

namespace KeyPath

open Text

variable {text : List Char} {texts : List (List Char)} {steps : List ChildNumber} {path : KeyPath}

/-- The texts without blanks around them that spell a path: none at all for the master key, or its
steps with slashes between them, with or without an `M` or `m` in front, which stands alone for the
master key. -/
inductive Spells : List Char → KeyPath → Prop
  | blank : Spells [] .master
  | bare {texts : List (List Char)} {steps : List ChildNumber} (hsome : texts ≠ [])
    (hsteps : List.Forall₂ ChildNumber.Spells texts steps) :
    Spells (['/'].intercalate texts) ⟨steps⟩
  | led {lead : Char} {texts : List (List Char)} {steps : List ChildNumber}
    (hlead : lead = 'M' ∨ lead = 'm') (hsteps : List.Forall₂ ChildNumber.Spells texts steps) :
    Spells (['/'].intercalate ([lead] :: texts)) ⟨steps⟩

theorem stepsOfTexts?_eq_some_iff :
    stepsOfTexts? texts = some steps ↔ List.Forall₂ ChildNumber.Spells texts steps := by
  have hstep : ∀ {text child},
      (ChildNumber.ofText text).toOption = some child ↔ ChildNumber.Spells text child := by
    intro text child
    rw [← ChildNumber.ofText_eq_ok_iff]
    cases ChildNumber.ofText text <;> simp [Except.toOption]
  rw [stepsOfTexts?]
  induction texts generalizing steps with
  | nil => simp [eq_comm]
  | cons text texts ih =>
    rw [List.mapM_cons, List.forall₂_cons_left_iff]
    constructor
    · intro h
      obtain ⟨child, hchild, h⟩ := Option.bind_eq_some_iff.1 h
      obtain ⟨others, hothers, h⟩ := Option.bind_eq_some_iff.1 h
      cases h
      exact ⟨child, others, hstep.1 hchild, ih.1 hothers, rfl⟩
    · rintro ⟨child, others, hchild, hothers, rfl⟩
      exact Option.bind_eq_some_iff.2 ⟨child, hstep.2 hchild,
        Option.bind_eq_some_iff.2 ⟨others, ih.2 hothers, rfl⟩⟩

theorem not_mem_of_spells {c : Char} (h : List.Forall₂ ChildNumber.Spells texts steps)
    (hdigit : c.isDigit = false) (hmark : c ∉ ChildNumber.marks) : ∀ text ∈ texts, c ∉ text := by
  induction h with
  | nil => exact nofun
  | cons hstep _ ih =>
    exact List.forall_mem_cons.2 ⟨hstep.not_mem hdigit hmark, ih⟩

/-! ### The leading letter

A text is cut at its slashes before the letter is looked for, so that the letter is a part of its
own or not there at all. -/

theorem stepTexts_of_led {lead : Char} (hlead : lead = 'M' ∨ lead = 'm')
    (hsplit : text.splitOn '/' = [lead] :: texts) : stepTexts text = texts := by
  rw [stepTexts, hsplit]
  rcases hlead with rfl | rfl <;> rfl

theorem stepTexts_cases (text : List Char) :
    (∃ lead, (lead = 'M' ∨ lead = 'm') ∧ text.splitOn '/' = [lead] :: stepTexts text) ∨
      stepTexts text = text.splitOn '/' := by
  rw [stepTexts]
  split
  · next hsplit => exact .inl ⟨'M', .inl rfl, hsplit⟩
  · next hsplit => exact .inl ⟨'m', .inr rfl, hsplit⟩
  · exact .inr rfl

/-- No step is mistaken for the leading letter. -/
theorem stepTexts_of_spells (h : List.Forall₂ ChildNumber.Spells texts steps)
    (hsplit : text.splitOn '/' = texts) : stepTexts text = texts := by
  rcases stepTexts_cases text with ⟨lead, hlead, hled⟩ | hbare
  · have hmem : [lead] ∈ texts := by
      rw [← hsplit, hled]
      exact List.mem_cons_self
    -- As a step, the letter would consist of digits and marks.
    have hnone : lead ∉ [lead] := by
      rcases hlead with rfl | rfl <;> exact not_mem_of_spells h (by decide) (by decide) _ hmem
    exact absurd (List.mem_singleton_self lead) hnone
  · rw [hbare, hsplit]

/-! ### All texts without blanks around them -/

theorem Spells.steps_eq (h : Spells text path) (hsome : text ≠ []) :
    stepsOfTexts? (stepTexts text) = some path.steps := by
  rw [stepsOfTexts?_eq_some_iff]
  cases h with
  | blank => exact absurd rfl hsome
  | @bare texts steps htexts hsteps =>
    have hsplit : (['/'].intercalate texts).splitOn '/' = texts :=
      List.splitOn_intercalate _ (not_mem_of_spells hsteps (by decide) (by decide)) htexts
    rw [stepTexts_of_spells hsteps hsplit]
    exact hsteps
  | @led lead texts steps hlead hsteps =>
    have hslash : '/' ∉ [lead] := by rcases hlead with rfl | rfl <;> decide
    have hsplit : (['/'].intercalate ([lead] :: texts)).splitOn '/' = [lead] :: texts :=
      List.splitOn_intercalate _ (List.forall_mem_cons.2
        ⟨hslash, not_mem_of_spells hsteps (by decide) (by decide)⟩) (List.cons_ne_nil _ _)
    rw [stepTexts_of_led hlead hsplit]
    exact hsteps

theorem eq_nil_of_intercalate {front : List Char} {rest : List (List Char)}
    (h : [] = ['/'].intercalate (front :: rest)) : front = [] := by
  cases rest with
  | nil => exact (h.trans List.intercalate_singleton).symm
  | cons next rest =>
    rw [List.intercalate_cons_cons, List.append_assoc] at h
    exact (List.nil_eq_append_iff.1 h).1

/-- The empty text spells the path of the master key only: a step has a digit at least. -/
theorem Spells.eq_master (h : Spells [] path) : path = .master := by
  -- The joined texts of a rule are no constructor that the empty text could be matched with.
  generalize htext : ([] : List Char) = text at h
  cases h with
  | blank => rfl
  | bare _ hsteps =>
    cases hsteps with
    | nil => rfl
    | cons hstep _ => exact absurd (eq_nil_of_intercalate htext) hstep.ne_nil
  | led _ _ => cases eq_nil_of_intercalate htext

/-- **A text without blanks around it spells a path** if it is empty, or if all its steps spell one.
-/
theorem spells_iff :
    Spells text path ↔
      text = [] ∧ path = .master ∨
        text ≠ [] ∧ stepsOfTexts? (stepTexts text) = some path.steps := by
  constructor
  · intro h
    by_cases hsome : text = []
    · subst hsome
      exact .inl ⟨rfl, h.eq_master⟩
    · exact .inr ⟨hsome, h.steps_eq hsome⟩
  · rintro (⟨rfl, rfl⟩ | ⟨-, hsteps⟩)
    · exact .blank
    · rw [stepsOfTexts?_eq_some_iff] at hsteps
      have hjoin : ['/'].intercalate (text.splitOn '/') = text := List.intercalate_splitOn '/'
      rw [← hjoin]
      rcases stepTexts_cases text with ⟨lead, hlead, hled⟩ | hbare
      · rw [hled]
        exact .led hlead hsteps
      · rw [hbare] at hsteps
        exact .bare (List.splitOn_ne_nil _ _) hsteps

/-- **Reading a path accepts the texts that spell one**, with blanks around them or not. -/
theorem ofText_eq_ok_iff {text : String} :
    ofText text = .ok path ↔ ∃ body, Stripped text.toList body ∧ Spells body path := by
  have hbody : (∃ body, Stripped text.toList body ∧ Spells body path) ↔
      Spells (trim text.toList) path := by
    simp only [stripped_iff_trim_eq, exists_eq_left']
  rw [hbody, spells_iff, ofText]
  split
  · next hnil => simp [List.isEmpty_iff.1 hnil, eq_comm]
  · next hsome =>
    rw [List.isEmpty_iff] at hsome
    cases hsteps : stepsOfTexts? (stepTexts (trim text.toList)) with
    | none => simp [hsome]
    | some steps =>
      obtain ⟨others⟩ := path
      simp [hsome]

theorem eq_invalidPath_of_ofText {text : String} {e : KeyError} (h : ofText text = .error e) :
    e = .invalidPath text := by
  rw [ofText] at h
  split at h
  · cases h
  · split at h
    · cases h
    · cases h
      rfl

/-! ## All texts -/

/-- **Reading accepts exactly the grammar.**  Whatever the text, it is read as a path just if what is
left without the blanks around it spells this path; a text that spells no path is refused, and the
refusal tells the text as it was given. -/
theorem ofText_grammar (text : String) :
    (∀ path, ofText text = .ok path ↔ ∃ body, Stripped text.toList body ∧ Spells body path) ∧
      ((¬∃ path body, Stripped text.toList body ∧ Spells body path) →
        ofText text = .error (.invalidPath text)) := by
  refine ⟨fun path => ofText_eq_ok_iff, fun hnone => ?_⟩
  cases hread : ofText text with
  | ok path => exact absurd ⟨path, ofText_eq_ok_iff.1 hread⟩ hnone
  | error e => rw [eq_invalidPath_of_ofText hread]

end KeyPath

end Bitcoin
