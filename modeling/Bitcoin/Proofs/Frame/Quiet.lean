import Bitcoin.Proofs.Frame.Scan

/-!
# Streams that do not break

A stream is quiet if nothing goes wrong that is not passed over.  **Only the bytes of a quiet stream
count**, not how they are cut into segments and where a read is interrupted: what reading and
seeking do is told here by what is pending before and after.

* `Stream.readExact_of_quiet` and `Stream.readExact_of_short` are about so many bytes.
* `Stream.seek_of_gap` and `Stream.seek_of_absent` are about the next magic number.
* `Stream.seek_finds_first` says what seeking does, whatever is to come.

A read that is interrupted is tried again, so an interruption may stand anywhere, any number of
times in a row; the end of the stream and a failure are told to the caller.  A quiet stream just
ends, and a reader that needs more is then told what it would be told if the other end had gone.

Each reader has two lemmas, one for enough bytes and one for too few.  In the first the stream that
is left is only known by the bytes that are pending and by being quiet: which segments it has
depends on the cuts, and nothing that follows may ask for them.  In the second it is empty, for what
was collected before the end is not put back.

Seeking is the scan of the pending bytes, whatever the segments: the scanner stops at the end of a
segment and takes up the next one with what was matched (`Stream.seekFrom_of_scan`, by induction on
the stream, using `Stream.scan_append_of_found` and `Stream.scan_append_of_not_found`).  So all that
there is to know about finding magic numbers is said of plain runs of bytes in
`Bitcoin.Proofs.Frame.Scan`.
-/

set_option autoImplicit false

namespace Bitcoin.Stream

/-- Nothing goes wrong but interruptions. -/
def Quiet (stream : Stream) : Prop := ∀ fault, .fault fault ∈ stream → fault = Fault.interrupted

theorem quiet_ofBytes (bytes : Bytes) : (ofBytes bytes).Quiet := by
  intro fault hfault
  simp [ofBytes] at hfault

theorem quiet_nil : Quiet [] := by
  intro fault hfault
  cases hfault

theorem quiet_segment_iff {bytes : Bytes} {rest : Stream} :
    Quiet (.segment bytes :: rest) ↔ Quiet rest := by
  simp [Quiet]

theorem quiet_fault_iff {fault : Fault} {rest : Stream} :
    Quiet (.fault fault :: rest) ↔ fault = .interrupted ∧ Quiet rest := by
  simp [Quiet]

variable {stream : Stream} {magic : FixedBytes 4}

/-! ## So many bytes -/

/-- Collecting bytes that are there: by induction on what the stream will meet, with the bytes that
are still to be collected generalised. -/
theorem collect_of_quiet {front tail : Bytes} (done : Bytes) (hquiet : stream.Quiet)
    (hpending : stream.pending = front ++ tail) :
    ∃ rest, collect front.length done stream = .ok (done.reverse ++ front) rest ∧ rest.Quiet ∧
      rest.pending = tail := by
  induction stream generalizing front done with
  | nil =>
    obtain ⟨rfl, rfl⟩ := List.nil_eq_append_iff.1 hpending
    exact ⟨[], by simp [collect], quiet_nil, rfl⟩
  | cons arrival stream ih =>
    unfold collect
    split
    · next hnone =>
      obtain rfl := List.length_eq_zero_iff.1 hnone
      exact ⟨arrival :: stream, by simp, hquiet, hpending⟩
    next hsome =>
    cases arrival with
    | fault fault =>
      obtain ⟨rfl, hothers⟩ := quiet_fault_iff.1 hquiet
      exact ih done hothers hpending
    | segment data =>
      have hothers := quiet_segment_iff.1 hquiet
      rw [pending_segment] at hpending
      by_cases hlength : data.length < front.length
      · -- the segment is used up, and more is wanted
        obtain ⟨more, rfl⟩ : data <+: front := by
          refine List.prefix_of_prefix_length_le ⟨_, hpending⟩ ⟨_, rfl⟩ (by omega)
        rw [List.append_assoc, List.append_cancel_left_eq] at hpending
        obtain ⟨rest, hcollect, hquiet, hrest⟩ := ih (data.reverse ++ done) hothers hpending
        refine ⟨rest, ?_, hquiet, hrest⟩
        have htake : data.take (data ++ more).length = data := List.take_of_length_le (by omega)
        have hmore : (data ++ more).length - data.length = more.length := by simp
        simp only [htake, hmore, if_pos hlength, hcollect]
        simp
      · obtain ⟨left, rfl⟩ : front <+: data := by
          refine List.prefix_of_prefix_length_le ⟨_, rfl⟩ ⟨_, hpending⟩ (by omega)
        rw [List.append_assoc, List.append_cancel_left_eq] at hpending
        refine ⟨.segment left :: stream, ?_, quiet_segment_iff.2 hothers, hpending⟩
        simp

theorem collect_of_short {n : Nat} (done : Bytes) (hquiet : stream.Quiet)
    (hshort : stream.pending.length < n) :
    collect n done stream = .error .insufficientData [] := by
  induction stream generalizing n done with
  | nil =>
    rw [collect, if_neg (by omega)]
  | cons arrival stream ih =>
    unfold collect
    rw [if_neg (by omega)]
    cases arrival with
    | fault fault =>
      obtain ⟨rfl, hothers⟩ := quiet_fault_iff.1 hquiet
      exact ih done hothers hshort
    | segment data =>
      rw [pending_segment, List.length_append] at hshort
      have htake : data.take n = data := List.take_of_length_le (by omega)
      simp only [htake]
      rw [if_pos (by omega)]
      exact ih _ (quiet_segment_iff.1 hquiet) (by omega)

/-- **Bytes that are there are read**, and only they are taken off the stream. -/
theorem readExact_of_quiet {bytes : Bytes} {n : Nat} {tail : Bytes} (hlength : bytes.length = n)
    (hquiet : stream.Quiet) (hpending : stream.pending = bytes ++ tail) :
    ∃ rest, readExact n stream = .ok ⟨bytes, hlength⟩ rest ∧ rest.Quiet ∧ rest.pending = tail := by
  subst hlength
  obtain ⟨rest, hcollect, hrest⟩ := collect_of_quiet [] hquiet hpending
  refine ⟨rest, ?_, hrest⟩
  rw [readExact]
  split
  · next hother =>
    rw [hcollect] at hother
    cases hother
    rfl
  · next hother =>
    rw [hcollect] at hother
    cases hother

/-- If there are too few bytes, they are all lost. -/
theorem readExact_of_short {n : Nat} (hquiet : stream.Quiet) (hshort : stream.pending.length < n) :
    readExact n stream = .error .insufficientData [] := by
  have hcollect := collect_of_short [] hquiet hshort
  rw [readExact]
  split
  · next hother =>
    rw [hcollect] at hother
    cases hother
  · next hother =>
    rw [hcollect] at hother
    cases hother
    rfl

/-! ## The next magic number -/

section

variable {magic : Bytes} {matched : Nat}

/-- Seeking is scanning what is pending: segments are scanned one behind the other. -/
theorem seekFrom_of_scan {tail : Bytes} (hquiet : stream.Quiet) (hmatched : matched ≠ magic.length)
    (hscan : scan magic matched stream.pending = (magic.length, tail)) :
    ∃ rest, seekFrom magic matched stream = .ok () rest ∧ rest.Quiet ∧ rest.pending = tail := by
  induction stream generalizing matched with
  | nil => exact absurd (congrArg Prod.fst hscan) hmatched
  | cons arrival stream ih =>
    cases arrival with
    | fault fault =>
      obtain ⟨rfl, hothers⟩ := quiet_fault_iff.1 hquiet
      exact ih hothers hmatched hscan
    | segment data =>
      have hothers := quiet_segment_iff.1 hquiet
      rw [pending_segment] at hscan
      rw [seekFrom]
      split
      · next hfound =>
        rw [scan_append_of_found hfound hmatched] at hscan
        exact ⟨_, rfl, quiet_segment_iff.2 hothers, congrArg Prod.snd hscan⟩
      · next hfound =>
        rw [scan_append_of_not_found _ hfound] at hscan
        exact ih hothers hfound hscan

theorem seekFrom_of_not_found (hquiet : stream.Quiet) (hmatched : matched ≠ magic.length)
    (hscan : (scan magic matched stream.pending).1 ≠ magic.length) :
    seekFrom magic matched stream = .error .insufficientData [] := by
  induction stream generalizing matched with
  | nil => rfl
  | cons arrival stream ih =>
    cases arrival with
    | fault fault =>
      obtain ⟨rfl, hothers⟩ := quiet_fault_iff.1 hquiet
      exact ih hothers hmatched hscan
    | segment data =>
      rw [pending_segment] at hscan
      rw [seekFrom]
      split
      · next hfound =>
        rw [scan_append_of_found hfound hmatched] at hscan
        exact absurd rfl hscan
      · next hfound =>
        rw [scan_append_of_not_found _ hfound] at hscan
        exact ih (quiet_segment_iff.1 hquiet) hfound hscan

end

/-- **Seeking ends behind the next magic number**, and takes the bytes in front of it along. -/
theorem seek_of_gap {gap tail : Bytes} (hnodup : magic.toBytes.Nodup)
    (hgap : ¬magic.toBytes <:+: gap) (hquiet : stream.Quiet)
    (hpending : stream.pending = gap ++ (magic.toBytes ++ tail)) :
    ∃ rest, seek magic stream = .ok () rest ∧ rest.Quiet ∧ rest.pending = tail := by
  refine seekFrom_of_scan hquiet (zero_ne_length_magic magic) ?_
  rw [hpending, scan_gap hnodup hgap]

theorem seek_of_present (hnodup : magic.toBytes.Nodup) (hquiet : stream.Quiet)
    (hpresent : magic.toBytes <:+: stream.pending) : ∃ rest, seek magic stream = .ok () rest := by
  have hscan := scan_of_present hnodup (magic_ne_nil magic) hpresent
  obtain ⟨rest, hseek, -, -⟩ :=
    seekFrom_of_scan hquiet (zero_ne_length_magic magic) (Prod.ext hscan rfl)
  exact ⟨rest, hseek⟩

/-- Without a magic number the stream is gone through to its end. -/
theorem seek_of_absent (hquiet : stream.Quiet) (hnone : ¬magic.toBytes <:+: stream.pending) :
    seek magic stream = .error .insufficientData [] :=
  seekFrom_of_not_found hquiet (zero_ne_length_magic magic) (scan_of_absent hnone)

/-- **Seeking finds the first magic number of a network**, wherever the segments end.  It succeeds
just if the magic number stands among the bytes to come, and has then taken the first occurrence and
what stands in front of it; if not, it has taken everything. -/
theorem seek_finds_first (network : Network) (hquiet : stream.Quiet) :
    ((∃ rest, seek network.magic stream = .ok () rest) ↔
        network.magic.toBytes <:+: stream.pending) ∧
      (∀ rest, seek network.magic stream = .ok () rest →
        ∃ gap, First network.magic.toBytes stream.pending gap rest.pending) ∧
      (¬network.magic.toBytes <:+: stream.pending →
        seek network.magic stream = .error .insufficientData []) := by
  have hnodup := network.nodup_magic
  refine ⟨⟨?_, seek_of_present hnodup hquiet⟩, fun rest => exists_first_of_seek hnodup,
    seek_of_absent hquiet⟩
  rintro ⟨rest, hseek⟩
  obtain ⟨gap, hfirst⟩ := exists_first_of_seek hnodup hseek
  exact ⟨gap, rest.pending, by rw [hfirst.eq_append, List.append_assoc]⟩

/-- A magic number that begins twice is found although it is cut in two, and where it ends. -/
theorem seek_finds_first_mainnet :
    ∃ gap, First Network.mainnet.magic.toBytes [0xF9, 0xBE, 0xF9, 0xBE, 0xB4, 0xD9, 7] gap [7] := by
  have hquiet : Quiet [.segment [0xF9, 0xBE, 0xF9], .fault .interrupted,
      .segment [0xBE, 0xB4, 0xD9, 7]] := by
    intro fault hfault
    simpa using hfault
  exact (seek_finds_first .mainnet hquiet).2.1 [.segment [7]] rfl

end Bitcoin.Stream
