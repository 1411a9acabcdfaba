import Bitcoin.Proofs.Payload.Exact

/-!
# One spelling of a size

A small number fits more than one form of a compact size.  What is written is the shortest form that
the number fits; a reader gives a number for that form alone, and tells the other forms from a
payload that is too short.

* `CompactSize.Form` says which spellings a number has if it may be put into any form that it fits.
* `CompactSize.announced_eq_encode_iff` finds the written one among them: an announced form is what
  is written just from its least number on, and longer below (`Announces.length_encode_lt`).
* `Reader.compactSize_eq_nonCanonicalSize_iff` says when a size is refused for being too long.
* `Reader.compactSize_canonical` puts together what is read, what is refused and why.
-/

set_option autoImplicit false

namespace Bitcoin

open Stateful

namespace CompactSize

/-! ## The forms of a number -/

variable {tag : UInt8} {width least n : Nat} {form : Bytes}

/-- **A spelling of a number**, in any of the forms that it fits. -/
inductive Form (n : Nat) : Bytes → Prop
  /-- A small number is its own byte. -/
  | single (hn : n < 0xFD) : Form n [UInt8.ofNat n]
  /-- A number stands behind the byte that announces its width. -/
  | announced {tag : UInt8} {width least : Nat} (h : Announces tag width least)
      (hn : n < Bytes.capacity width) : Form n (tag :: Bytes.littleEndian width n)

/-- Below its least number a form is longer than it has to be. -/
theorem Announces.length_encode_lt (h : Announces tag width least) (hn : n < least) :
    (encode n).length < (tag :: Bytes.littleEndian width n).length := by
  rw [length_encode, List.length_cons, Bytes.length_littleEndian, CompactSize.width]
  cases h <;> split_ifs <;> omega

/-- **An announced form is what is written** just from its least number on. -/
theorem announced_eq_encode_iff (h : Announces tag width least) (hn : n < Bytes.capacity width) :
    tag :: Bytes.littleEndian width n = encode n ↔ least ≤ n := by
  refine ⟨fun heq => ?_, fun hleast => (encode_announced h hleast hn).symm⟩
  by_contra hlt
  have hlength := h.length_encode_lt (Nat.lt_of_not_le hlt)
  rw [heq] at hlength
  exact Nat.lt_irrefl _ hlength

/-- A spelling that is not the written one is an announced form below its least number. -/
theorem Form.ne_encode_iff :
    Form n form ∧ form ≠ encode n ↔
      ∃ tag width least, Announces tag width least ∧ n < least ∧ n < Bytes.capacity width ∧
        form = tag :: Bytes.littleEndian width n := by
  refine ⟨?_, ?_⟩
  · rintro ⟨hform, hne⟩
    cases hform with
    | single hn => exact absurd (encode_of_lt hn).symm hne
    | announced h hn =>
      exact ⟨_, _, _, h, Nat.lt_of_not_le fun hleast =>
        hne ((announced_eq_encode_iff h hn).2 hleast), hn, rfl⟩
  · rintro ⟨tag, width, least, h, hlt, hn, rfl⟩
    exact ⟨.announced h hn, fun heq => absurd ((announced_eq_encode_iff h hn).1 heq) (by omega)⟩

/-- What is written of a number is one of its spellings. -/
theorem form_encode (hn : n < limit) : Form n (encode n) := by
  obtain hsmall | ⟨tag, width, least, h, hleast, hcapacity⟩ := lt_or_announced hn
  · rw [encode_of_lt hsmall]
    exact .single hsmall
  · rw [encode_announced h hleast hcapacity]
    exact .announced h hcapacity

end CompactSize

namespace Reader

open CompactSize

variable {field : String} {bytes rest : Bytes}

/-! ## Reading a form -/

/-- A number is refused only because the payload ends in it. -/
theorem nat_eq_error {width : Nat} {e : PayloadError} (h : nat width field bytes = .error e rest) :
    e = .unexpectedEnd field := by
  rw [nat, bind_eq_error_iff] at h
  obtain h | ⟨run, tail, -, ⟨⟩⟩ := h
  rw [fixed] at h
  split at h
  · cases h
  · cases h
    rfl

/-- A wide form is refused for being too long just if a number below its least one is there. -/
theorem sizeAbove_eq_nonCanonicalSize_iff {width least : Nat} :
    sizeAbove width least field bytes = .error .nonCanonicalSize rest ↔
      ∃ n, n < least ∧ n < Bytes.capacity width ∧ bytes = Bytes.littleEndian width n ++ rest := by
  rw [sizeAbove, bind_eq_error_iff]
  refine ⟨?_, ?_⟩
  · rintro (hend | ⟨n, tail, hn, hthrow⟩)
    · exact absurd (nat_eq_error hend) (by simp)
    · obtain ⟨hcapacity, rfl⟩ := (exact_nat width field).eq_ok_iff.1 hn
      split at hthrow
      · next hlt =>
        cases hthrow
        exact ⟨n, hlt, hcapacity, rfl⟩
      · cases hthrow
  · rintro ⟨n, hlt, hcapacity, rfl⟩
    exact .inr ⟨n, rest, (exact_nat width field).eq_ok_iff.2 ⟨hcapacity, rfl⟩, by
      rw [if_pos hlt]; rfl⟩

/-- **A size is refused for being too long** just if the payload begins with a spelling other than
the one that is written. -/
theorem compactSize_eq_nonCanonicalSize_iff :
    compactSize field bytes = .error .nonCanonicalSize rest ↔
      ∃ n form, (Form n form ∧ form ≠ encode n) ∧ bytes = form ++ rest := by
  simp only [Form.ne_encode_iff]
  refine ⟨fun h => ?_, ?_⟩
  · cases bytes with
    | nil => cases h
    | cons b tail =>
      obtain hb | ⟨width, least, hb⟩ := lt_or_announces b
      · rw [compactSize_of_lt hb] at h
        cases h
      · rw [compactSize_announced hb, sizeAbove_eq_nonCanonicalSize_iff] at h
        obtain ⟨n, hlt, hcapacity, rfl⟩ := h
        exact ⟨n, _, ⟨b, width, least, hb, hlt, hcapacity, rfl⟩, rfl⟩
  · rintro ⟨n, -, ⟨tag, width, least, h, hlt, hcapacity, rfl⟩, rfl⟩
    rw [List.cons_append, compactSize_announced h]
    exact sizeAbove_eq_nonCanonicalSize_iff.2 ⟨n, hlt, hcapacity, rfl⟩

/-! ## Sizes are a canonical code -/

/-- **Sizes are a canonical prefix code.**  A payload gives a number just if it begins with what is
written of that number, and what stands behind is left.  What is written is the shortest spelling of
the number, and no beginning of what is written of another.  A payload that begins with any other
spelling is refused for that reason, and nothing else is. -/
theorem compactSize_canonical (field : String) :
    (∀ n bytes rest, compactSize field bytes = .ok n rest ↔
      n < CompactSize.limit ∧ bytes = encode n ++ rest) ∧
    (∀ bytes rest, compactSize field bytes = .error .nonCanonicalSize rest ↔
      ∃ n form, (Form n form ∧ form ≠ encode n) ∧ bytes = form ++ rest) ∧
    (∀ n < CompactSize.limit, Form n (encode n) ∧
      ∀ form, Form n form ∧ form ≠ encode n → (encode n).length < form.length) ∧
    (∀ m n, m < CompactSize.limit → n < CompactSize.limit → encode m <+: encode n → m = n) := by
  refine ⟨fun n bytes rest => exact_compactSize field bytes n rest,
    fun _ _ => compactSize_eq_nonCanonicalSize_iff, fun n hn => ⟨form_encode hn, ?_⟩, ?_⟩
  · intro form hform
    obtain ⟨tag, width, least, h, hlt, -, rfl⟩ := Form.ne_encode_iff.1 hform
    exact h.length_encode_lt hlt
  · rintro m n hm hn ⟨tail, htail⟩
    have hspelled : encode m ++ tail = encode n ++ [] := by rw [htail, List.append_nil]
    exact (((exact_compactSize field).append_inj_iff hm hn).1 hspelled).1

/-- The number one in its own byte is read; in two bytes it is refused, although they are there. -/
theorem compactSize_canonical_one :
    compactSize "count" [0x01, 0xAA] = .ok 1 [0xAA] ∧
      compactSize "count" [0xFD, 0x01, 0x00, 0xAA] = .error .nonCanonicalSize [0xAA] := by
  have hcode := compactSize_canonical "count"
  have hform : Form 1 [0xFD, 0x01, 0x00] := .announced .two (by decide)
  exact ⟨(hcode.1 1 _ _).2 ⟨by decide, rfl⟩,
    (hcode.2.1 _ _).2 ⟨1, [0xFD, 0x01, 0x00], ⟨hform, by decide⟩, rfl⟩⟩

end Reader

end Bitcoin
