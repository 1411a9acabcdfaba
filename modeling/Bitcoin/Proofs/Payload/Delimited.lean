import Bitcoin.Proofs.Payload.Exact

/-!
# Readers that delimit what they read

What a reader takes off the front of a payload depends on the bytes that it takes and on nothing
behind them.  As long as one of these bytes is missing, the reader says that the payload is too
short, and never anything else: **no rule is looked at before the bytes are there that it is
about**.

* `Reader.Takes` is what a reader does with the bytes that it takes, and without the last of them.
* `Reader.Delimited` says that whatever a reader accepts, it takes in this way.
* `Reader.Delimited.bind` puts readers together, and the fields of a payload follow from it.
* `Reader.Delimited.exactly_eq_error` is what becomes of a payload that is cut off or goes on.

The readers that look for the end of the payload do not delimit what they read.

This is the counterpart of `Bitcoin.Proofs.Frame.Prompt` for payloads, and the differences are worth
a word.  A payload is there as a whole, so there is nothing like a stream that may still go on, and
a reader that is short of bytes gives an error.  A frame may end in an error and still be settled;
here only acceptance counts, since nothing is claimed of payloads that no reader accepts.  That
makes `Reader.Delimited` easy to have: a reader that accepts nothing has it.

`Reader.Exact.delimited` is the bridge from exactness.  A reader of a fixed number of bytes which is
exact takes its value from these bytes and leaves the rest, so all that is to be shown is that fewer
bytes are too few; the runs and numbers follow from it.  Sizes do not have a fixed length, but their
first byte tells it, and so they are two such readers in a row.
-/

set_option autoImplicit false

namespace Bitcoin

open Stateful

namespace Reader

variable {α β : Type} {reader : Reader α} {next : α → Reader β} {front last bytes : Bytes}
  {a : α} {b : β}

/-! ## Taking -/

/-- The reader says that the payload is too short. -/
def Starves (reader : Reader α) (bytes : Bytes) : Prop :=
  ∃ field left, reader bytes = .error (.unexpectedEnd field) left

/-- The reader takes these bytes off every payload that begins with them; without the last of them
it says that the payload is too short. -/
structure Takes (reader : Reader α) (front : Bytes) (a : α) : Prop where
  whole : ∀ tail, reader (front ++ tail) = .ok a tail
  starves : ∀ short, short <+: front → short ≠ front → reader.Starves short

/-- Whatever the reader accepts, it takes. -/
def Delimited (reader : Reader α) : Prop :=
  ∀ bytes a rest, reader bytes = .ok a rest → ∃ front, bytes = front ++ rest ∧ reader.Takes front a

/-! ## Readers in a row -/

theorem Starves.bind (h : reader.Starves bytes) : (reader >>= next).Starves bytes := by
  obtain ⟨field, left, h⟩ := h
  exact ⟨field, left, bind_of_eq_error h⟩

theorem Takes.bind_starves (h : reader.Takes front a) (hnext : (next a).Starves bytes) :
    (reader >>= next).Starves (front ++ bytes) := by
  obtain ⟨field, left, hnext⟩ := hnext
  exact ⟨field, left, (bind_of_eq_ok (h.whole bytes)).trans hnext⟩

theorem Takes.bind (h : reader.Takes front a) (hnext : (next a).Takes last b) :
    (reader >>= next).Takes (front ++ last) b where
  whole tail := by
    rw [List.append_assoc, bind_of_eq_ok (h.whole _), hnext.whole]
  starves short hshort hne := by
    rcases Bytes.prefix_append_cases hshort with ⟨hfront, hfront'⟩ | ⟨left, rfl, hleft⟩
    · exact (h.starves short hfront hfront').bind
    · refine h.bind_starves (hnext.starves left hleft ?_)
      rintro rfl
      exact hne rfl

/-- **Readers in a row delimit what they read** if each of them does, whatever the ones before it
have read. -/
theorem Delimited.bind (h : reader.Delimited) (hnext : ∀ a, (next a).Delimited) :
    (reader >>= next).Delimited := by
  intro bytes b rest hread
  obtain ⟨a, between, hfirst, hsecond⟩ := bind_eq_ok_iff.1 hread
  obtain ⟨front, rfl, hfront⟩ := h _ _ _ hfirst
  obtain ⟨last, rfl, hlast⟩ := hnext a _ _ _ hsecond
  exact ⟨front ++ last, by rw [List.append_assoc], hfront.bind hlast⟩

/-- What is given without reading takes nothing. -/
theorem takes_pure (a : α) : (pure a : Reader α).Takes [] a where
  whole _ := rfl
  starves _ hshort hne := absurd (List.prefix_nil.1 hshort) hne

theorem delimited_pure (a : α) : (pure a : Reader α).Delimited := by
  rintro bytes a rest ⟨⟩
  exact ⟨[], rfl, takes_pure a⟩

/-- What accepts nothing has nothing to delimit. -/
theorem delimited_throw (e : PayloadError) : (throw e : Reader α).Delimited := by
  rintro bytes a rest ⟨⟩

theorem delimited_refuse (violation : Violation) : (refuse violation : Reader α).Delimited :=
  delimited_throw _

theorem Delimited.map (h : reader.Delimited) (f : α → β) : (f <$> reader).Delimited :=
  h.bind fun a => delimited_pure (f a)

theorem Delimited.ite {p : Prop} [Decidable p] {other : Reader α} (h : reader.Delimited)
    (hother : other.Delimited) : (if p then reader else other).Delimited := by
  split
  · exact h
  · exact hother

/-! ## Runs of bytes and numbers -/

/-- A reader of `n` bytes delimits them if it is exact, and fewer are too few for it. -/
theorem Exact.delimited {write : α → Bytes} {good : α → Prop} {n : Nat}
    (h : reader.Exact write good) (hlength : ∀ a, good a → (write a).length = n)
    (hshort : ∀ short : Bytes, short.length < n → reader.Starves short) : reader.Delimited := by
  intro bytes a rest hread
  obtain ⟨hgood, rfl⟩ := h.eq_ok_iff.1 hread
  refine ⟨write a, rfl, fun tail => h.eq_ok_iff.2 ⟨hgood, rfl⟩, fun short hcut hne => ?_⟩
  have hlt := Bytes.length_lt_of_prefix hcut hne
  rw [hlength a hgood] at hlt
  exact hshort short hlt

theorem delimited_take (n : Nat) (field : String) : (take n field).Delimited := by
  refine (exact_take n field).delimited (fun _ hlength => hlength) fun short hshort => ?_
  have hfew : (short.take n).length ≠ n := by
    rw [List.length_take]
    omega
  exact ⟨field, short, if_neg hfew⟩

theorem delimited_fixed (n : Nat) (field : String) : (fixed n field).Delimited := by
  refine (exact_fixed n field).delimited (fun run _ => run.length_eq) fun short hshort => ?_
  have hfew : FixedBytes.take? n short = none := by
    rw [FixedBytes.take?, dif_neg]
    rw [List.length_take]
    omega
  exact ⟨field, short, by rw [fixed, hfew]⟩

theorem delimited_u8 (field : String) : (u8 field).Delimited := by
  refine (exact_u8 field).delimited (n := 1) (fun _ _ => rfl) fun short hshort => ?_
  obtain rfl := List.length_eq_zero_iff.1 (Nat.lt_one_iff.1 hshort)
  exact ⟨field, [], rfl⟩

theorem delimited_nat (width : Nat) (field : String) : (nat width field).Delimited :=
  (delimited_fixed width field).map _

theorem delimited_u16BE (field : String) : (u16BE field).Delimited :=
  (delimited_fixed 2 field).map _

theorem delimited_u32 (field : String) : (u32 field).Delimited := (delimited_nat 4 field).map _

theorem delimited_i32 (field : String) : (i32 field).Delimited := (delimited_u32 field).map _

theorem delimited_u64 (field : String) : (u64 field).Delimited := (delimited_nat 8 field).map _

theorem delimited_i64 (field : String) : (i64 field).Delimited := (delimited_u64 field).map _

/-! ## Sizes -/

theorem delimited_sizeAbove (width least : Nat) (field : String) :
    (sizeAbove width least field).Delimited :=
  (delimited_nat width field).bind fun _ => (delimited_throw _).ite (delimited_pure _)

/-- The first byte of a size says how many bytes follow. -/
theorem delimited_compactSize (field : String) : (compactSize field).Delimited :=
  (delimited_u8 field).bind fun _ =>
    (delimited_sizeAbove 2 _ field).ite <| (delimited_sizeAbove 4 _ field).ite <|
      (delimited_sizeAbove 8 _ field).ite (delimited_pure _)

theorem delimited_count (field : String) (max : Nat) : (count field max).Delimited :=
  (delimited_compactSize field).bind fun _ => (delimited_throw _).ite (delimited_pure _)

theorem delimited_varBytes (field : String) : (varBytes field).Delimited :=
  (delimited_compactSize field).bind fun n => delimited_take n field

/-- A text is looked at when all of its bytes are there. -/
theorem delimited_text (field : String) : (text field).Delimited := by
  refine (delimited_varBytes field).bind fun bytes => ?_
  split
  · exact delimited_pure _
  · exact delimited_refuse _

/-! ## Lists -/

theorem delimited_timesFrom (h : reader.Delimited) (n : Nat) (done : List α) :
    (timesFrom reader n done).Delimited := by
  induction n generalizing done with
  | zero => exact delimited_pure _
  | succ n ih => exact h.bind fun a => ih (a :: done)

theorem delimited_times (h : reader.Delimited) (n : Nat) : (times n reader).Delimited :=
  delimited_timesFrom h n []

/-- **A list is delimited if its entries are.** -/
theorem delimited_list (h : reader.Delimited) (field : String) (max : Nat) :
    (list field max reader).Delimited :=
  (delimited_count field max).bind fun n => delimited_times h n

theorem delimited_mapM (h : ∀ b, (next b).Delimited) (bs : List α) :
    (bs.mapM next).Delimited := by
  induction bs with
  | nil => exact delimited_pure _
  | cons b bs ih =>
    rw [List.mapM_cons]
    exact (h b).bind fun _ => ih.bind fun _ => delimited_pure _

/-! ## Whole payloads -/

theorem exactly_of_starves (h : reader.Starves bytes) (format : String) :
    ∃ field, exactly format reader bytes = .error (.unexpectedEnd field) := by
  obtain ⟨field, left, h⟩ := h
  refine ⟨field, ?_⟩
  rw [exactly, bind_of_eq_error h]

/-- What stands behind a value is counted. -/
theorem exactly_of_trailing (h : reader bytes = .ok a last) (hlast : last ≠ []) (format : String) :
    exactly format reader bytes = .error (.trailingBytes format last.length) := by
  obtain ⟨b, rest, rfl⟩ := List.exists_cons_of_ne_nil hlast
  rw [exactly, bind_of_eq_ok h]
  rfl

/-- **A payload of a reader that delimits is all or nothing.**  Cut off anywhere it is too short,
and with anything behind it, it is too long. -/
theorem Delimited.exactly_eq_error (h : reader.Delimited) {format : String} {payload : Bytes}
    (haccepted : exactly format reader payload = .ok a) :
    (∀ short, short <+: payload → short ≠ payload →
        ∃ field, exactly format reader short = .error (.unexpectedEnd field)) ∧
      ∀ extra, extra ≠ [] →
        exactly format reader (payload ++ extra) =
          .error (.trailingBytes format extra.length) := by
  obtain ⟨front, hfront, htakes⟩ := h _ _ _ (exactly_eq_ok_iff.1 haccepted)
  rw [List.append_nil] at hfront
  obtain rfl := hfront
  refine ⟨fun short hshort hne => ?_, fun extra hextra => ?_⟩
  · exact exactly_of_starves (htakes.starves short hshort hne) format
  · exact exactly_of_trailing (htakes.whole extra) hextra format

end Reader

end Bitcoin
