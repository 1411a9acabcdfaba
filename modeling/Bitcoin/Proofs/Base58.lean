import Bitcoin.Base58
import Mathlib.Data.Nat.Digits.Lemmas

/-!
# Base58 in both directions

Bytes and letters are digits of one number, to base 256 and to base 58.  The number forgets the
zeros in front, and these are counted on both sides, so nothing is lost.

* `Base58.digits_eq` and `Base58.ofDigits_eq`: the digits are those of Mathlib, as long as there is
  room for them.
* `Base58.values_eq_ok_iff`: **a text is read as digits just if it consists of their letters**.
* `Base58.decode_encode` and `Base58.encode_of_decode` are the two directions, and
  `Base58.decodeChecked_encodeChecked` and `Base58.encodeChecked_of_decodeChecked` say the same with
  the checksum: **bytes have one text, and a text that is accepted is the one of its bytes**.

The number of zeros in front and the rest of the bytes are treated apart from the first lemma on.
`Base58.encode_append` and `Base58.decode_append` say that both directions go through this division:
so many zeros, and a rest that does not start with one.  The rest is then determined by its number,
because its leading digit is not zero to either base.

The digits are written with a bound on their number instead of a proof that the division ends.  That
the bound is never reached takes an argument: twice as many letters as bytes are enough to hold the
number, since `58 ^ 2` is more than `256`, and as many bytes as letters are enough in the other
direction (`Base58.lt_pow_of_bytes`, `Base58.lt_pow_of_letters`).  With room for them, the digits
are those of `Nat.digits`, and what Mathlib knows of these is used from there on.

Nothing is said about the checksum but that it is a function of the bytes.  That a wrong letter is
found out is a matter of chance, and not of this library.
-/

set_option autoImplicit false

namespace Bitcoin.Base58

/-! ## Numbers to a base -/

theorem ofDigits_eq (base : Nat) (ds : List Nat) : ofDigits base ds = Nat.ofDigits base ds := by
  induction ds with
  | nil => rfl
  | cons d ds ih => rw [ofDigits, ih, Nat.ofDigits_cons]

theorem digits_eq {base count n : Nat} (hbase : 1 < base) (h : n < base ^ count) :
    digits base count n = Nat.digits base n := by
  induction count generalizing n with
  | zero =>
    obtain rfl : n = 0 := by simpa using h
    exact (Nat.digits_zero base).symm
  | succ count ih =>
    by_cases hn : n = 0
    · rw [digits, if_pos hn, hn, Nat.digits_zero]
    · have hdiv : n / base < base ^ count := by
        rw [Nat.div_lt_iff_lt_mul (Nat.zero_lt_of_lt hbase), ← Nat.pow_succ]
        exact h
      rw [digits, if_neg hn, ih hdiv, Nat.digits_def' hbase (Nat.pos_of_ne_zero hn)]

/-- Digits without a zero in the last place are those of their number. -/
theorem digits_ofDigits {base count : Nat} {ds : List Nat} (hbase : 1 < base)
    (hds : ∀ d ∈ ds, d < base) (hlast : ds.getLast? ≠ some 0)
    (hcount : ofDigits base ds < base ^ count) : digits base count (ofDigits base ds) = ds := by
  rw [digits_eq hbase hcount, ofDigits_eq]
  refine Nat.digits_ofDigits base hbase ds hds fun hne hzero => hlast ?_
  rw [List.getLast?_eq_getLast_of_ne_nil hne, hzero]

theorem ofDigits_digits {base count n : Nat} (hbase : 1 < base) (h : n < base ^ count) :
    ofDigits base (digits base count n) = n := by
  rw [digits_eq hbase h, ofDigits_eq, Nat.ofDigits_digits]

theorem lt_of_mem_digits {base count n d : Nat} (hbase : 1 < base) (h : n < base ^ count)
    (hd : d ∈ digits base count n) : d < base := by
  rw [digits_eq hbase h] at hd
  exact Nat.digits_lt_base hbase hd

/-- No zero is written in the last place. -/
theorem getLast?_digits_ne {base count n : Nat} (hbase : 1 < base) (h : n < base ^ count) :
    (digits base count n).getLast? ≠ some 0 := by
  rw [digits_eq hbase h]
  by_cases hn : n = 0
  · rw [hn, Nat.digits_zero]
    simp
  · rw [List.getLast?_eq_getLast_of_ne_nil (Nat.digits_ne_nil_iff_ne_zero.2 hn)]
    exact fun hzero => Nat.getLast_digit_ne_zero base hn (Option.some.inj hzero)

theorem ofDigits_lt {base : Nat} {ds : List Nat} (hbase : 1 < base) (hds : ∀ d ∈ ds, d < base) :
    ofDigits base ds < base ^ ds.length := by
  rw [ofDigits_eq]
  exact Nat.ofDigits_lt_base_pow_length hbase hds

/-- Bytes are digits to base 256. -/
theorem toNatBE_eq (bytes : Bytes) :
    Bytes.toNatBE bytes = ofDigits 256 (bytes.reverse.map UInt8.toNat) := by
  rw [Bytes.toNatBE]
  induction bytes.reverse with
  | nil => rfl
  | cons b bs ih => rw [Bytes.toNatLE, ih, List.map_cons, ofDigits]

/-! ## Letters -/

theorem letter_of_value? {c : Char} {digit : Nat} (h : value? c = some digit) :
    digit < 58 ∧ letter digit = c := by
  rw [value?, List.idxOf?_eq_some_iff] at h
  obtain ⟨hlt, hletter, -⟩ := h
  have hlength : alphabet.length = 58 := by decide
  refine ⟨hlength ▸ hlt, ?_⟩
  rw [letter, List.getD_eq_getElem?_getD, List.getElem?_eq_getElem hlt, hletter, Option.getD_some]

/-- **A text is read as digits just if it consists of their letters.** -/
theorem values_eq_ok_iff {text : List Char} {ds : List Nat} (index : Nat) :
    values index text = .ok ds ↔ (∀ d ∈ ds, d < 58) ∧ text = ds.map letter := by
  induction text generalizing ds index with
  | nil =>
    constructor
    · intro h
      cases h
      exact ⟨fun d hd => absurd hd List.not_mem_nil, rfl⟩
    · rintro ⟨-, h⟩
      rw [List.map_eq_nil_iff.1 h.symm]
      rfl
  | cons c text ih =>
    rw [values]
    constructor
    · intro h
      cases hc : value? c with
      | none =>
        rw [hc] at h
        cases h
      | some digit =>
        rw [hc] at h
        cases hrest : values (index + 1) text with
        | error e =>
          rw [hrest] at h
          cases h
        | ok rest =>
          rw [hrest] at h
          cases h
          obtain ⟨hdigit, hletter⟩ := letter_of_value? hc
          obtain ⟨hdigits, htext⟩ := (ih (index + 1)).1 hrest
          exact ⟨List.forall_mem_cons.2 ⟨hdigit, hdigits⟩, by rw [List.map_cons, hletter, htext]⟩
    · rintro ⟨hds, htext⟩
      cases ds with
      | nil => cases htext
      | cons d ds =>
        obtain ⟨hd, hds⟩ := List.forall_mem_cons.1 hds
        cases htext
        rw [value?_letter ⟨d, hd⟩, (ih (index + 1)).2 ⟨hds, rfl⟩]
        rfl

/-! ## Zeros in front

The zeros are taken off on one side and put back on the other.  What is left does not start with a
zero, so it is the digits of its number, none too few. -/

/-- The zeros in front of a list, and what stands behind them. -/
theorem exists_zeros {α : Type} (zero : α) (l : List α) :
    ∃ count rest, l = List.replicate count zero ++ rest ∧ rest.head? ≠ some zero := by
  induction l with
  | nil => exact ⟨0, [], rfl, by simp⟩
  | cons a l ih =>
    by_cases ha : a = zero
    · obtain ⟨count, rest, rfl, hrest⟩ := ih
      exact ⟨count + 1, rest, by rw [ha, List.replicate_succ, List.cons_append], hrest⟩
    · exact ⟨0, a :: l, rfl, fun h => ha (Option.some.inj h)⟩

theorem takeWhile_zeros {α : Type} [BEq α] [LawfulBEq α] {zero : α} {rest : List α} (count : Nat)
    (h : rest.head? ≠ some zero) :
    (List.replicate count zero ++ rest).takeWhile (· == zero) = List.replicate count zero := by
  induction count with
  | zero =>
    cases rest with
    | nil => rfl
    | cons a rest =>
      have ha : (a == zero) = false := beq_eq_false_iff_ne.2 fun heq => h (congrArg some heq)
      rw [List.replicate_zero, List.nil_append, List.takeWhile_cons, ha]
      rfl
  | succ count ih =>
    rw [List.replicate_succ, List.cons_append, List.takeWhile_cons, beq_self_eq_true, ih]
    rfl

theorem encode_append (count : Nat) {rest : Bytes} (h : rest.head? ≠ some 0) :
    encode (Bytes.zeros count ++ rest) = (List.replicate count 0 ++
      (digits 58 (2 * rest.length) (Bytes.toNatBE rest)).reverse).map letter := by
  rw [encode, Bytes.zeros, takeWhile_zeros count h, List.length_replicate,
    List.drop_left' List.length_replicate, List.map_append, List.map_replicate, List.map_reverse]
  rfl

theorem decode_append (count : Nat) {rest : List Nat} {text : List Char}
    (hvalues : values 0 text = .ok (List.replicate count 0 ++ rest)) (h : rest.head? ≠ some 0) :
    decode text = .ok (Bytes.zeros count ++
      ((digits 256 rest.length (ofDigits 58 rest.reverse)).map UInt8.ofNat).reverse) := by
  rw [decode, hvalues]
  simp only [bind, Except.bind, takeWhile_zeros count h, List.length_replicate,
    List.drop_left' List.length_replicate]
  rfl

/-! ## Both directions -/

/-- A number has at most twice as many digits to base 58 as to base 256. -/
theorem lt_pow_of_bytes {n count : Nat} (h : n < 256 ^ count) : n < 58 ^ (2 * count) := by
  rw [Nat.pow_mul]
  exact h.trans_le (Nat.pow_le_pow_left (by decide) count)

/-- It has at least as many. -/
theorem lt_pow_of_letters {n count : Nat} (h : n < 58 ^ count) : n < 256 ^ count :=
  h.trans_le (Nat.pow_le_pow_left (by decide) count)

theorem lt_of_mem_map_toNat {bytes : Bytes} {d : Nat} (h : d ∈ bytes.map UInt8.toNat) :
    d < 256 := by
  obtain ⟨b, -, rfl⟩ := List.mem_map.1 h
  exact b.toNat_lt

theorem toNatBE_lt_pow (bytes : Bytes) : Bytes.toNatBE bytes < 256 ^ bytes.length := by
  have hlt : ofDigits 256 (bytes.reverse.map UInt8.toNat) <
      256 ^ (bytes.reverse.map UInt8.toNat).length :=
    ofDigits_lt (by decide) fun _ => lt_of_mem_map_toNat
  rwa [← toNatBE_eq, List.length_map, List.length_reverse] at hlt

/-- The bytes of a number, most significant first. -/
def bytesOf (count n : Nat) : Bytes := ((digits 256 count n).map UInt8.ofNat).reverse

theorem bytesOf_toNatBE {count : Nat} {bytes : Bytes} (hfirst : bytes.head? ≠ some 0)
    (h : Bytes.toNatBE bytes < 256 ^ count) : bytesOf count (Bytes.toNatBE bytes) = bytes := by
  have hlast : (bytes.reverse.map UInt8.toNat).getLast? ≠ some 0 := by
    rw [List.getLast?_map, List.getLast?_reverse, ne_eq, Option.map_eq_some_iff]
    rintro ⟨b, hb, hzero⟩
    have hb0 : b = 0 := UInt8.toNat_inj.1 hzero
    exact hfirst (hb0 ▸ hb)
  rw [toNatBE_eq] at h
  have hbytes : (bytes.reverse.map UInt8.toNat).map UInt8.ofNat = bytes.reverse := by
    rw [List.map_map]
    exact (List.map_congr_left fun b _ => UInt8.ofNat_toNat).trans (List.map_id _)
  rw [bytesOf, toNatBE_eq, digits_ofDigits (by decide) (fun _ => lt_of_mem_map_toNat) hlast h,
    hbytes, List.reverse_reverse]

theorem toNatBE_bytesOf {count n : Nat} (h : n < 256 ^ count) :
    Bytes.toNatBE (bytesOf count n) = n := by
  have hbytes : ((digits 256 count n).map UInt8.ofNat).map UInt8.toNat = digits 256 count n := by
    rw [List.map_map]
    exact (List.map_congr_left fun d hd =>
      Nat.mod_eq_of_lt (lt_of_mem_digits (by decide) h hd)).trans (List.map_id _)
  rw [toNatBE_eq, bytesOf, List.reverse_reverse, hbytes, ofDigits_digits (by decide) h]

theorem head?_bytesOf_ne {count n : Nat} (h : n < 256 ^ count) :
    (bytesOf count n).head? ≠ some 0 := by
  rw [bytesOf, List.head?_reverse, List.getLast?_map, ne_eq, Option.map_eq_some_iff]
  rintro ⟨d, hd, hzero⟩
  have hlt : d < 256 := lt_of_mem_digits (by decide) h (List.mem_of_getLast? hd)
  have hd0 : d = 0 := by
    rw [← Nat.mod_eq_of_lt hlt, ← UInt8.toNat_ofNat', hzero]
    rfl
  exact getLast?_digits_ne (by decide) h (hd0 ▸ hd)

/-- **Bytes are read back from their text.** -/
theorem decode_encode (data : Bytes) : decode (encode data) = .ok data := by
  obtain ⟨count, rest, rfl, hrest⟩ := exists_zeros 0 data
  have hn : Bytes.toNatBE rest < 58 ^ (2 * rest.length) := lt_pow_of_bytes (toNatBE_lt_pow rest)
  generalize hds : digits 58 (2 * rest.length) (Bytes.toNatBE rest) = ds
  have hlt : ∀ d ∈ ds, d < 58 := fun d hd => lt_of_mem_digits (by decide) hn (hds ▸ hd)
  have hvalue : ofDigits 58 ds = Bytes.toNatBE rest := hds ▸ ofDigits_digits (by decide) hn
  have hfirst : ds.reverse.head? ≠ some 0 := by
    rw [List.head?_reverse, ← hds]
    exact getLast?_digits_ne (by decide) hn
  have hvalues : values 0 (encode (Bytes.zeros count ++ rest)) =
      .ok (List.replicate count 0 ++ ds.reverse) := by
    refine (values_eq_ok_iff 0).2 ⟨fun d hd => ?_, hds ▸ encode_append count hrest⟩
    rcases List.mem_append.1 hd with hzero | hd
    · rw [List.eq_of_mem_replicate hzero]
      decide
    · exact hlt d (List.mem_reverse.1 hd)
  have hroom : Bytes.toNatBE rest < 256 ^ ds.length :=
    lt_pow_of_letters (hvalue ▸ ofDigits_lt (by decide) hlt)
  show decode (encode (Bytes.zeros count ++ rest)) = .ok (Bytes.zeros count ++ rest)
  rw [decode_append count hvalues hfirst, List.reverse_reverse, hvalue, List.length_reverse]
  show _ = Except.ok (Bytes.zeros count ++ rest)
  rw [← bytesOf, bytesOf_toNatBE hrest hroom]

/-- **A text that is accepted is the text of its bytes.** -/
theorem encode_of_decode {text : List Char} {bytes : Bytes} (h : decode text = .ok bytes) :
    encode bytes = text := by
  cases hvalues : values 0 text with
  | error e =>
    rw [decode, hvalues] at h
    cases h
  | ok ds =>
    obtain ⟨hlt, htext⟩ := (values_eq_ok_iff 0).1 hvalues
    obtain ⟨count, rest, rfl, hrest⟩ := exists_zeros 0 ds
    rw [decode_append count hvalues hrest] at h
    cases h
    have hdigits : ∀ d ∈ rest.reverse, d < 58 := fun d hd =>
      hlt d (List.mem_append_right _ (List.mem_reverse.1 hd))
    have hlast : rest.reverse.getLast? ≠ some 0 := by rwa [List.getLast?_reverse]
    have hn : ofDigits 58 rest.reverse < 256 ^ rest.length := by
      have hlt := ofDigits_lt (by decide) hdigits
      rw [List.length_reverse] at hlt
      exact lt_pow_of_letters hlt
    have hvalue := toNatBE_bytesOf hn
    have hroom := lt_pow_of_bytes (toNatBE_lt_pow (bytesOf rest.length (ofDigits 58 rest.reverse)))
    rw [hvalue] at hroom
    rw [← bytesOf, encode_append count (head?_bytesOf_ne hn), hvalue,
      digits_ofDigits (by decide) hdigits hlast hroom, List.reverse_reverse]
    exact htext.symm

/-! ## Checksums -/

/-- Bytes are read back from their text with a checksum. -/
theorem decodeChecked_encodeChecked (data : Bytes) :
    decodeChecked (encodeChecked data) = .ok data := by
  have hlength : (data ++ (checksum data).toBytes).length - 4 = data.length := by
    rw [List.length_append, (checksum data).length_eq, Nat.add_sub_cancel]
  rw [decodeChecked, encodeChecked, String.toList_ofList, decode_encode]
  simp only [bind, Except.bind, hlength, List.take_left', List.drop_left',
    FixedBytes.ofBytes?_toBytes]
  exact if_pos trivial

/-- **A text with a checksum that is accepted is the text of its bytes.** -/
theorem encodeChecked_of_decodeChecked {text : String} {data : Bytes}
    (h : decodeChecked text = .ok data) : encodeChecked data = text := by
  rw [decodeChecked] at h
  cases hdecode : decode text.toList with
  | error e =>
    rw [hdecode] at h
    cases h
  | ok bytes =>
    rw [hdecode] at h
    simp only [bind, Except.bind] at h
    split at h
    · cases h
    next found hfound =>
    split at h
    · next hsum =>
      cases h
      rw [encodeChecked, hsum, ← FixedBytes.ofBytes?_eq_some_iff.1 hfound, List.take_append_drop,
        encode_of_decode hdecode, String.ofList_toList]
    · cases h

end Bitcoin.Base58
