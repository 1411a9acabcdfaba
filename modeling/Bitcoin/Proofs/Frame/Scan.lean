import Bitcoin.Frame.Stream
import Bitcoin.Network

/-!
# Finding a magic number

The scanner keeps how much of the magic number is matched, and looks back no further.  That is
enough because no byte occurs twice in a magic number:

* **Nothing is found too early.**  What is matched has just been seen (`matched_scan`), so where
  the magic number is found it stands (`scan_of_absent`).
* **Nothing is missed.**  A first byte of the magic number begins a new match, however much was
  matched before, so a whole magic number is found wherever it stands (`scan_magic`).

Together: behind bytes without a magic number, the next one ends the scan (`scan_gap`), and a scan
that is ended by a magic number is ended by the first one (`exists_first_of_scan`).

This is not how one searches for a word in general.  A scanner that only knows how far it has come
must know, when a match breaks, how much of the word still stands at the end of what it has seen; in
a word whose beginning comes again inside it that may be a good part of it.  Where all bytes differ
it is one byte or none, and `Stream.matchByte` needs no more than a look at the first byte.  A
scanner that did not even look at that one would miss a magic number behind its own first byte.

`Network.nodup_magic` is therefore not a detail.  The lemmas have the assumption in their
statements, and a network whose magic number has a byte twice would show at once where it is used.

`Stream.First` is what it means to be the first occurrence: wherever else the magic number stands,
it does not begin earlier.  So there is none in the gap (`Stream.First.not_infix_gap`), and none
that begins in the gap and ends behind it.
-/

set_option autoImplicit false

namespace Bitcoin.Stream

variable {magic : Bytes} {matched : Nat}

/-! ## A scan in parts -/

theorem scan_append_of_found {front rest : Bytes}
    (h : (scan magic matched front).1 = magic.length) (hmatched : matched ≠ magic.length) :
    scan magic matched (front ++ rest) = (magic.length, (scan magic matched front).2 ++ rest) := by
  induction front generalizing matched with
  | nil => exact absurd h hmatched
  | cons b front ih =>
    rw [List.cons_append, scan]
    rw [scan] at h
    split at h
    · next hnow =>
      rw [if_pos hnow, scan, if_pos hnow]
      exact Prod.ext hnow rfl
    · next hnow =>
      rw [if_neg hnow, ih h hnow, scan, if_neg hnow]

/-- A scan that has not ended goes on from what is matched. -/
theorem scan_append_of_not_found {front : Bytes} (rest : Bytes)
    (h : (scan magic matched front).1 ≠ magic.length) :
    scan magic matched (front ++ rest) = scan magic (scan magic matched front).1 rest := by
  induction front generalizing matched with
  | nil => rfl
  | cons b front ih =>
    rw [List.cons_append, scan]
    rw [scan] at h
    split at h
    · next hnow => exact absurd hnow h
    · next hnow => rw [if_neg hnow, ih h, scan, if_neg hnow]

/-! ## Nothing is found too early -/

/-- One step keeps the invariant that what is matched are the bytes seen last. -/
theorem take_matchByte_suffix {seen : Bytes} (b : UInt8) (h : magic.take matched <:+ seen) :
    magic.take (matchByte magic matched b) <:+ seen ++ [b] := by
  rw [matchByte]
  split
  · next hnext =>
    obtain ⟨before, rfl⟩ := h
    rw [List.take_add_one, hnext, List.append_assoc]
    exact List.suffix_append _ _
  split
  · next hfirst =>
    cases magic with
    | nil => cases hfirst
    | cons c magic =>
      cases hfirst
      exact List.suffix_append _ _
  · exact List.nil_suffix

/-- **What is matched was seen last**, wherever the scan ends. -/
theorem matched_scan {seen : Bytes} (bytes : Bytes) (h : magic.take matched <:+ seen) :
    ∃ front, bytes = front ++ (scan magic matched bytes).2 ∧
      magic.take (scan magic matched bytes).1 <:+ seen ++ front := by
  induction bytes generalizing matched seen with
  | nil => exact ⟨[], rfl, by simpa [scan] using h⟩
  | cons b bytes ih =>
    have hstep := take_matchByte_suffix b h
    rw [scan]
    split
    · exact ⟨[b], rfl, hstep⟩
    · obtain ⟨front, hfront, hsuffix⟩ := ih hstep
      refine ⟨b :: front, by rw [List.cons_append, ← hfront], ?_⟩
      simpa using hsuffix

/-- Bytes without the magic number are passed over. -/
theorem scan_of_absent {bytes : Bytes} (h : ¬magic <:+: bytes) :
    (scan magic 0 bytes).1 ≠ magic.length := by
  intro hfound
  have hseen : magic.take 0 <:+ [] := List.nil_suffix
  obtain ⟨front, hfront, hsuffix⟩ := matched_scan bytes hseen
  rw [hfound, List.take_length, List.nil_append] at hsuffix
  refine h (hsuffix.isInfix.trans ?_)
  rw [hfront]
  exact (List.prefix_append _ _).isInfix

/-! ## Nothing is missed -/

/-- The rest of a magic number completes the match. -/
theorem scan_rest (front : Bytes) (b : UInt8) (last rest : Bytes) :
    scan (front ++ b :: last) front.length (b :: last ++ rest) =
      ((front ++ b :: last).length, rest) := by
  induction last generalizing front b with
  | nil => simp [scan, matchByte]
  | cons c last ih =>
    have hnow : matchByte (front ++ b :: c :: last) front.length b = front.length + 1 := by
      simp [matchByte]
    rw [List.cons_append, scan, hnow, if_neg (by simp)]
    have hrest := ih (front ++ [b]) c
    simpa using hrest

/-- The first byte of a magic number always makes a match of one byte. -/
theorem matchByte_first {c : UInt8} {magic : Bytes} (hnodup : (c :: magic).Nodup) :
    matchByte (c :: magic) matched c = 1 := by
  rw [matchByte]
  split
  · next hnext =>
    cases matched with
    | zero => rfl
    | succ matched =>
      rw [List.getElem?_cons_succ] at hnext
      exact absurd (List.mem_of_getElem? hnext) (List.nodup_cons.1 hnodup).1
  · rw [List.head?_cons, if_pos rfl]

/-- **A magic number is found from any match**: its first byte is in no other place, so the match is
broken and begins anew, or had not begun. -/
theorem scan_magic {rest : Bytes} (hnodup : magic.Nodup) (hnonempty : magic ≠ []) :
    scan magic matched (magic ++ rest) = (magic.length, rest) := by
  cases magic with
  | nil => exact absurd rfl hnonempty
  | cons c magic =>
    rw [List.cons_append, scan, matchByte_first hnodup]
    cases magic with
    | nil => rfl
    | cons d magic =>
      rw [if_neg (by simp)]
      exact scan_rest [c] d magic rest

/-- Behind bytes without the magic number, the next one ends the scan. -/
theorem scan_gap {gap rest : Bytes} (hnodup : magic.Nodup) (hgap : ¬magic <:+: gap) :
    scan magic 0 (gap ++ (magic ++ rest)) = (magic.length, rest) := by
  have hnonempty : magic ≠ [] := by
    rintro rfl
    exact hgap List.nil_infix
  rw [scan_append_of_not_found _ (scan_of_absent hgap), scan_magic hnodup hnonempty]

/-- A magic number that stands somewhere is found. -/
theorem scan_of_present {bytes : Bytes} (hnodup : magic.Nodup) (hnonempty : magic ≠ [])
    (h : magic <:+: bytes) : (scan magic 0 bytes).1 = magic.length := by
  obtain ⟨front, back, rfl⟩ := h
  rw [List.append_assoc]
  by_cases hfront : (scan magic 0 front).1 = magic.length
  · have hmatched : 0 ≠ magic.length := Nat.ne_of_lt (List.length_pos_iff.2 hnonempty)
    rw [scan_append_of_found hfront hmatched]
  · rw [scan_append_of_not_found _ hfront, scan_magic hnodup hnonempty]

/-- With a byte that occurs twice something can be missed: here the second byte seen is the last one
that could begin a match, and the third one is taken for it. -/
example : scan [1, 1, 2] 0 [1, 1, 1, 2] = (0, []) := rfl

/-! ## The first one ends the scan -/

/-- The first occurrence of a magic number in some bytes: what stands in front of it and behind it,
and that no other occurrence has less in front of it. -/
structure First (magic bytes gap tail : Bytes) : Prop where
  eq_append : bytes = gap ++ (magic ++ tail)
  least : ∀ front back, bytes = front ++ (magic ++ back) → gap.length ≤ front.length

theorem First.not_infix_gap {bytes gap tail : Bytes} (h : First magic bytes gap tail)
    (hnonempty : magic ≠ []) : ¬magic <:+: gap := by
  rintro ⟨front, back, rfl⟩
  have hleast := h.least front (back ++ (magic ++ tail)) (by rw [h.eq_append]; simp)
  have hlength := List.length_pos_iff.2 hnonempty
  simp only [List.length_append] at hleast
  omega

/-- Wherever a magic number stands, the scan has ended behind it or further to the front. -/
theorem length_le_of_scan {front back rest : Bytes} (hnodup : magic.Nodup) (hnonempty : magic ≠ [])
    (h : scan magic 0 (front ++ (magic ++ back)) = (magic.length, rest)) :
    back.length ≤ rest.length := by
  have hmatched : 0 ≠ magic.length := Nat.ne_of_lt (List.length_pos_iff.2 hnonempty)
  have hfound : (scan magic 0 (front ++ magic)).1 = magic.length :=
    scan_of_present hnodup hnonempty (List.suffix_append _ _).isInfix
  rw [← List.append_assoc, scan_append_of_found hfound hmatched] at h
  obtain rfl := congrArg Prod.snd h
  simp

/-- **A scan that finds the magic number ends behind the first one.** -/
theorem exists_first_of_scan {bytes rest : Bytes} (hnodup : magic.Nodup) (hnonempty : magic ≠ [])
    (h : scan magic 0 bytes = (magic.length, rest)) : ∃ gap, First magic bytes gap rest := by
  have hnone : magic.take 0 <:+ ([] : Bytes) := List.nil_suffix
  obtain ⟨seen, hseen, hsuffix⟩ := matched_scan bytes hnone
  rw [h, List.take_length, List.nil_append] at hsuffix
  rw [h] at hseen
  obtain ⟨gap, rfl⟩ := hsuffix
  rw [List.append_assoc] at hseen
  refine ⟨gap, hseen, fun front back hother => ?_⟩
  have hbehind : back.length ≤ rest.length := by
    rw [hother] at h
    exact length_le_of_scan hnodup hnonempty h
  have hlength := congrArg List.length (hseen.symm.trans hother)
  simp only [List.length_append] at hlength
  omega

/-! ## Seeking -/

/-- Seeking that succeeds is a scan of what is pending: all that it met was segments, and faults
that are passed over. -/
theorem scan_of_seekFrom {stream rest : Stream} (hmatched : matched ≠ magic.length)
    (h : seekFrom magic matched stream = .ok () rest) :
    scan magic matched stream.pending = (magic.length, rest.pending) := by
  induction stream generalizing matched with
  | nil => cases h
  | cons arrival stream ih =>
    cases arrival with
    | fault fault =>
      rw [seekFrom] at h
      split at h
      · exact ih hmatched h
      · cases h
    | segment data =>
      rw [seekFrom] at h
      split at h
      · next hfound =>
        cases h
        exact scan_append_of_found hfound hmatched
      · next hfound =>
        rw [pending_segment, scan_append_of_not_found _ hfound]
        exact ih hfound h

theorem zero_ne_length_magic (magic : FixedBytes 4) : 0 ≠ magic.toBytes.length := by
  rw [magic.length_eq]
  decide

theorem magic_ne_nil (magic : FixedBytes 4) : magic.toBytes ≠ [] :=
  List.ne_nil_of_length_pos (Nat.pos_of_ne_zero (zero_ne_length_magic magic).symm)

/-- **Seeking takes the first magic number and what stands in front of it.** -/
theorem exists_first_of_seek {magic : FixedBytes 4} {stream rest : Stream}
    (hnodup : magic.toBytes.Nodup) (h : seek magic stream = .ok () rest) :
    ∃ gap, First magic.toBytes stream.pending gap rest.pending :=
  exists_first_of_scan hnodup (magic_ne_nil magic)
    (scan_of_seekFrom (zero_ne_length_magic magic) h)

end Bitcoin.Stream
