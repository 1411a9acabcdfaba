import Bitcoin.Proofs.Frame.Ending
import Bitcoin.Proofs.Frame.Raw

/-!
# Headers that are written again

Of the twenty bytes of a header all are read but those behind the first zero of the command, and any
length that is not too long is accepted.  What is read is written again with zeros there, **so
twenty bytes come back as they were just if there were only zeros**.  A command with bytes that are
not ASCII is another matter: the reader has put a character in their place that no command has, and
the writer refuses it.

* `FixedBytes.frontOfZero` and `FixedBytes.fromZero` are the two parts of a command field, and
  `FixedBytes.clearBehindZero` is the field with the second part cleared.
* `commandField_commandOfField` is what the writer makes of the command that was read from a field.
* `FrameHeader.write_of_commandField` says that the three writes of a header are as good as one.
* `FrameHeader.write_of_ofBytes` is all of it, for any twenty bytes and any sink.

The command field is where the two directions fail to match, and its two halves are kept apart
throughout.  The reader maps the bytes in front of the first zero to characters one by one; a byte
beyond ASCII becomes the replacement character, so that the command can be shown.  The writer
encodes characters as UTF-8 and takes only those that are one byte long.  On ASCII the two are
inverse to each other.  Elsewhere the reader has lost the byte, and since the replacement character
is not ASCII, the writer refuses the command and does not make one up.

The length and the checksum need no such care: any four bytes are a checksum, and a length is the
same number in both directions.  A length beyond the limit is refused when it is read, so that no
header that was accepted has one.

`FrameHeader.write_of_ofBytes` is stated for every sink.  A header is three writes, and a sink may
take one of them and break in the next; that this makes no difference is `Sink.writeAll_append`.
-/

set_option autoImplicit false

namespace Bitcoin

open Stateful

/-! ## The command field -/

/-- All characters are among the first 128. -/
def IsAscii (text : String) : Prop := ∀ c ∈ text.toList, c.toNat < 128

namespace FixedBytes

variable {n : Nat}

/-- What stands in front of the first zero. -/
def frontOfZero (field : FixedBytes n) : Bytes := field.toBytes.takeWhile (· != 0)

theorem length_frontOfZero_le (field : FixedBytes n) : field.frontOfZero.length ≤ n := by
  have hprefix : field.frontOfZero <+: field.toBytes := List.takeWhile_prefix _
  simpa using hprefix.length_le

/-- What stands from the first zero on. -/
def fromZero (field : FixedBytes n) : Bytes := field.toBytes.dropWhile (· != 0)

theorem frontOfZero_append_fromZero (field : FixedBytes n) :
    field.frontOfZero ++ field.fromZero = field.toBytes := List.takeWhile_append_dropWhile

/-- The run with nothing but zeros behind its first zero. -/
def clearBehindZero (field : FixedBytes n) : FixedBytes n :=
  ⟨field.frontOfZero ++ Bytes.zeros (n - field.frontOfZero.length), by
    have hle := field.length_frontOfZero_le
    rw [List.length_append, Bytes.length_zeros]
    omega⟩

theorem frontOfZero_clearBehindZero (field : FixedBytes n) :
    field.clearBehindZero.frontOfZero = field.frontOfZero := by
  have hfront : field.frontOfZero.takeWhile (· != 0) = field.frontOfZero :=
    List.takeWhile_idem
  rw [frontOfZero, clearBehindZero, takeWhile_append_zeros, hfront]

/-- Nothing has to be cleared if there are only zeros. -/
theorem clearBehindZero_eq_self_iff {field : FixedBytes n} :
    field.clearBehindZero = field ↔ ∀ b ∈ field.fromZero, b = 0 := by
  have hparts := field.frontOfZero_append_fromZero
  have hlength : n - field.frontOfZero.length = field.fromZero.length := by
    have hsum := congrArg List.length hparts
    rw [List.length_append, field.length_eq] at hsum
    omega
  have hcleared : field.clearBehindZero.toBytes =
      field.frontOfZero ++ Bytes.zeros field.fromZero.length := by rw [← hlength]; rfl
  rw [FixedBytes.ext_iff, hcleared, ← hparts, List.append_cancel_left_eq, Bytes.zeros, eq_comm,
    List.eq_replicate_iff]
  exact and_iff_right rfl

end FixedBytes

theorem commandOfField_clearBehindZero (field : FixedBytes Command.fieldLength) :
    commandOfField field.clearBehindZero = commandOfField field := by
  have hfront := field.frontOfZero_clearBehindZero
  rw [FixedBytes.frontOfZero, FixedBytes.frontOfZero] at hfront
  rw [commandOfField, commandOfField, hfront]

theorem toNat_commandChar_lt_iff {b : UInt8} : (commandChar b).toNat < 128 ↔ b < 128 := by
  by_cases hb : b < 128
  · have hall : ∀ n < 128, (Char.ofNat n).toNat < 128 := by decide
    rw [commandChar, if_pos hb]
    exact iff_of_true (hall b.toNat (UInt8.lt_iff_toNat_lt.1 hb)) hb
  · rw [commandChar, if_neg hb]
    exact iff_of_false (by decide) hb

/-- A command is ASCII just if the bytes are that it was read from. -/
theorem isAscii_commandOfField_iff {field : FixedBytes Command.fieldLength} :
    IsAscii (commandOfField field) ↔ ∀ b ∈ field.frontOfZero, b < 128 := by
  rw [IsAscii, commandOfField, String.toList_ofList, List.forall_mem_map]
  exact forall₂_congr fun b _ => toNat_commandChar_lt_iff

/-- The bytes of an ASCII command are those that it was read from. -/
theorem toUtf8_commandOfField {field : FixedBytes Command.fieldLength}
    (h : IsAscii (commandOfField field)) :
    Text.toUtf8 (commandOfField field) = field.frontOfZero :=
  Text.toUtf8_ofList_commandChar (isAscii_commandOfField_iff.1 h)

/-- A text is ASCII if its bytes are. -/
theorem isAscii_of_toUtf8 {text : String} (h : ∀ b ∈ Text.toUtf8 text, b < 128) : IsAscii text := by
  rw [IsAscii, toList_of_ascii h, List.forall_mem_map]
  exact fun b hb => toNat_commandChar_lt_iff.2 (h b hb)

theorem commandField_of_not_isAscii {command : String} (h : ¬IsAscii command) :
    commandField command = .error .commandNotAscii := by
  rw [commandField, if_neg]
  intro hall
  exact h (isAscii_of_toUtf8 (by simpa using hall))

/-- **What the writer makes of a command that was read**: the field again, but cleared. -/
theorem commandField_commandOfField {field : FixedBytes Command.fieldLength}
    (h : IsAscii (commandOfField field)) :
    commandField (commandOfField field) = .ok field.clearBehindZero := by
  have hbytes := toUtf8_commandOfField h
  have hall : (Text.toUtf8 (commandOfField field)).all (· < 128) = true := by
    rw [hbytes]
    simpa using isAscii_commandOfField_iff.1 h
  have hlength : (Text.toUtf8 (commandOfField field)).length ≤ Command.fieldLength := by
    rw [hbytes]
    exact field.length_frontOfZero_le
  rw [commandField, if_pos hall, dif_pos hlength, Except.ok.injEq]
  apply FixedBytes.ext
  simp only [hbytes, FixedBytes.clearBehindZero]

/-! ## Headers -/

namespace FrameHeader

variable {header : FrameHeader}

theorem toBytes_eq_slices (bytes : FixedBytes size) :
    bytes.toBytes = (bytes.slice 0 12 (by decide)).toBytes ++
      (bytes.slice 12 4 (by decide)).toBytes ++ (bytes.slice 16 4 (by decide)).toBytes := by
  have hend : (bytes.toBytes.drop 16).length ≤ 4 := by
    rw [List.length_drop, bytes.length_eq, size]
  have hsum : (bytes.slice 16 4 (by decide)).toBytes = (bytes.toBytes.drop 12).drop 4 := by
    rw [List.drop_drop]
    exact List.take_of_length_le hend
  have hlength : (bytes.slice 12 4 (by decide)).toBytes = (bytes.toBytes.drop 12).take 4 := rfl
  have hfield : (bytes.slice 0 12 (by decide)).toBytes = bytes.toBytes.take 12 := rfl
  rw [List.append_assoc, hsum, hlength, hfield, List.take_append_drop, List.take_append_drop]

/-- Twenty bytes are three fields. -/
theorem eq_join (bytes : FixedBytes size) :
    bytes = join (bytes.slice 0 12 (by decide)) (bytes.slice 12 4 (by decide))
      (bytes.slice 16 4 (by decide)) :=
  FixedBytes.ext (toBytes_eq_slices bytes)

theorem join_left_inj_iff {field field' : FixedBytes Command.fieldLength}
    {length sum : FixedBytes 4} :
    join field length sum = join field' length sum ↔ field = field' := by
  rw [FixedBytes.ext_iff, FixedBytes.ext_iff, toBytes_join, toBytes_join,
    List.append_cancel_right_eq, List.append_cancel_right_eq]

/-- The three writes of a header are as good as one. -/
theorem write_of_commandField {field : FixedBytes Command.fieldLength}
    (h : commandField header.command = .ok field) (sink : Sink) :
    header.write sink = Sink.writeAll (field.toBytes ++
      Bytes.littleEndian 4 header.length.toNat ++ header.checksum.toBytes) sink := by
  rw [write, bind_of_eq_ok (ofExcept_eq_ok_iff.2 ⟨h, rfl⟩), Sink.writeAll_append,
    Sink.writeAll_append, bind_assoc]

/-- What was read from three fields is written as these fields, the first one cleared. -/
theorem write_of_isAscii {field : FixedBytes Command.fieldLength}
    (h : IsAscii (commandOfField field)) (length sum : FixedBytes 4) (sink : Sink) :
    write ⟨commandOfField field, UInt32.ofNat length.toBytes.toNatLE, sum⟩ sink =
      Sink.writeAll (join field.clearBehindZero length sum).toBytes sink := by
  have hlt : length.toBytes.toNatLE < UInt32.size := by
    have hlt := Bytes.toNatLE_lt length.toBytes
    rwa [length.length_eq] at hlt
  have hbytes := Bytes.littleEndian_toNatLE length.toBytes
  rw [length.length_eq, ← UInt32.toNat_ofNat_of_lt' hlt] at hbytes
  rw [write_of_commandField (commandField_commandOfField h), hbytes]
  rfl

theorem write_of_not_isAscii (h : ¬IsAscii header.command) (sink : Sink) :
    header.write sink = .error .commandNotAscii sink := by
  rw [write]
  exact bind_of_eq_error (ofExcept_eq_error_iff.2 ⟨commandField_of_not_isAscii h, rfl⟩)

/-- **Headers are written as they were read**, whatever the twenty bytes.  They are refused just if
they announce a payload that is too long.  If they are accepted, and no byte of the command is
beyond ASCII, what is written of the header is the same twenty bytes on every sink that has room for
them; they are read as the same header, and they are the bytes that were read first just if there
were only zeros from the first zero of the command on.  Otherwise nothing is written on any sink. -/
theorem write_of_ofBytes (raw : FixedBytes size) :
    let field : FixedBytes Command.fieldLength := raw.slice 0 12 (by decide)
    let announced := (raw.slice 12 4 (by decide)).toBytes.toNatLE
    (∀ e, ofBytes raw = .error e ↔
        maxPayloadLength < announced ∧ e = .messageTooLarge announced) ∧
      ∀ header, ofBytes raw = .ok header →
        ((∀ b ∈ field.frontOfZero, b < 128) →
          ∃ written : FixedBytes size,
            (∀ sink : Sink,
              (∀ room e, Sink.firstFault? sink.replies = some (room, e) → 20 ≤ room) →
              ∃ after, header.write sink = .ok () after ∧
                after.written = sink.written ++ written.toBytes) ∧
            ofBytes written = .ok header ∧ (written = raw ↔ ∀ b ∈ field.fromZero, b = 0)) ∧
        (¬(∀ b ∈ field.frontOfZero, b < 128) →
          ∀ sink, header.write sink = .error .commandNotAscii sink) := by
  intro field announced
  obtain ⟨length, sum, hlength, hraw⟩ : ∃ length sum : FixedBytes 4,
      announced = length.toBytes.toNatLE ∧ raw = join field length sum := ⟨_, _, rfl, eq_join raw⟩
  -- From here on the three fields are any fields.
  clear_value field announced
  subst hlength hraw
  rw [ofBytes_join]
  split
  · next hlong => simp [hlong, eq_comm]
  next hshort =>
  refine ⟨by simp [hshort], ?_⟩
  rintro _ ⟨⟩
  rw [← isAscii_commandOfField_iff]
  refine ⟨fun hascii => ?_, fun hascii sink => ?_⟩
  · refine ⟨join field.clearBehindZero length sum, fun sink hroom => ?_, ?_, ?_⟩
    · have hlength := (join field.clearBehindZero length sum).length_eq
      obtain ⟨left, hwrite⟩ := Sink.writeAll_of_room fun room e hfault =>
        Nat.le_trans (Nat.le_of_eq hlength) (hroom room e hfault)
      exact ⟨_, (write_of_isAscii hascii length sum sink).trans hwrite, rfl⟩
    · rw [ofBytes_join, commandOfField_clearBehindZero]
      exact if_neg hshort
    · rw [join_left_inj_iff, FixedBytes.clearBehindZero_eq_self_iff]
  · refine write_of_not_isAscii ?_ sink
    exact hascii

/-- A ping with `junk` behind the zero that ends its command, which is not written again. -/
theorem write_of_ofBytes_junk :
    let raw : FixedBytes size :=
      ⟨[112, 105, 110, 103, 0, 106, 117, 110, 107, 0, 0, 0, 8, 0, 0, 0, 1, 2, 3, 4], rfl⟩
    ∃ header written after, ofBytes raw = .ok header ∧ header.command = "ping" ∧
      header.write Sink.empty = .ok () after ∧ after.written = written.toBytes ∧
      ofBytes written = .ok header ∧ written ≠ raw := by
  intro raw
  have hread : ofBytes raw = .ok ⟨"ping", 8, ⟨[1, 2, 3, 4], rfl⟩⟩ := by decide
  have hascii : ∀ b ∈ (raw.slice 0 12 (by decide)).frontOfZero, b < 128 := by decide +kernel
  have hjunk : ¬∀ b ∈ (raw.slice 0 12 (by decide)).fromZero, b = 0 := by decide
  obtain ⟨written, hwrite, hagain, hsame⟩ := ((write_of_ofBytes raw).2 _ hread).1 hascii
  obtain ⟨after, hafter, hwritten⟩ := hwrite Sink.empty (by rintro _ _ ⟨⟩)
  exact ⟨_, written, after, hread, rfl, hafter, hwritten, hagain, mt hsame.1 hjunk⟩

end FrameHeader

end Bitcoin
