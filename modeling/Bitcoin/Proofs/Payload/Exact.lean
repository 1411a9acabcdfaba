import Bitcoin.Payload.Reader
import Bitcoin.Stateful
import Mathlib.Data.List.Forall2

/-!
# Readers that read exactly what is written

A reader and a way of writing belong together if the reader accepts just what is written, and leaves
what stands behind it.  This file says so for the fields of a payload: numbers, sizes, runs of
bytes, texts and lists.  The formats of the messages are put together from them.

* `Reader.Exact` is the property, as one equivalence: read from right to left it says that what was
  written is read back, from left to right that nothing else is read.
* `Reader.Exact.append_inj_iff` is what follows for the writing alone: spellings that stand one behind
  the other can be taken apart in one way only.
* `CompactSize.Announces` lists the bytes that announce a longer form of a size, with the width of
  the number behind them and the least number for which the form is needed.  The reader and the
  writer each have these numbers on their own; here both are compared with the one list.
* `Reader.exact_compactSize` says it of sizes, for every number below `CompactSize.limit`.  That
  only the shortest form is accepted is what makes it true.
* `Reader.exact_times`, `Reader.exact_list` and `Reader.exact_mapM` pass it on from an entry to a
  list of entries.

A number or a run of bytes can be longer than its field: the condition on the values that
`Reader.Exact` carries says which ones fit.

Exactness is about success only.  Which error a reader gives is not said, and does not have to be:
that a payload is refused follows when no value has it as its spelling.  In return the property is
easy to use, since a reader of many fields becomes an equation between runs of bytes, and the
payload in it can be rewritten from both sides.

The condition on the values is not a restriction on the reader.  It is the set of values that the
reader can give, and being exact means that there are no others; so a condition that is too weak
makes the statement false just as one that is too strong does.

Formats are put together along `>>=`, and `Reader.Exact.bind_eq_ok_iff` is the rule for that: the
first reader is exchanged for what it takes off the front.  It is stated for a success of the whole,
with the value of the first reader under a quantifier, so that `simp only` can go through a format
from its first field to its last one.  A field that depends on one before it, as a run of bytes
depends on its length, needs no other rule.
-/

set_option autoImplicit false

namespace Bitcoin

open Stateful

/-- The first number that has no compact size, `2 ^ 64`. -/
def CompactSize.limit : Nat := 0x10000000000000000

/-! ## The forms of a size -/

namespace CompactSize

variable {tag : UInt8} {width least n : Nat}

/-- The byte announces a number of the given width, which has no shorter form from `least` on. -/
inductive Announces : (tag : UInt8) → (width least : Nat) → Prop
  | two : Announces 0xFD 2 0xFD
  | four : Announces 0xFE 4 0x10000
  | eight : Announces 0xFF 8 0x100000000

theorem Announces.capacity_le (h : Announces tag width least) : Bytes.capacity width ≤ limit := by
  cases h <;> decide

/-- A byte either is a size by itself or announces a longer one. -/
theorem lt_or_announces (b : UInt8) : b.toNat < 0xFD ∨ ∃ width least, Announces b width least := by
  by_cases h16 : b = 0xFD
  · exact .inr ⟨2, 0xFD, h16 ▸ .two⟩
  by_cases h32 : b = 0xFE
  · exact .inr ⟨4, 0x10000, h32 ▸ .four⟩
  by_cases h64 : b = 0xFF
  · exact .inr ⟨8, 0x100000000, h64 ▸ .eight⟩
  have hb := b.toNat_lt
  simp only [← UInt8.toNat_inj, UInt8.reduceToNat] at h16 h32 h64
  exact .inl (by omega)

theorem encode_of_lt (hn : n < 0xFD) : encode n = [UInt8.ofNat n] := if_pos hn

/-- An announced form is written from its least number on. -/
theorem encode_announced (h : Announces tag width least) (hleast : least ≤ n)
    (hn : n < Bytes.capacity width) : encode n = tag :: Bytes.littleEndian width n := by
  rw [encode]
  cases h with
  | two =>
    have hn : n < 0x10000 := hn
    rw [if_neg (by omega), if_pos (by omega)]
  | four =>
    have hn : n < 0x100000000 := hn
    rw [if_neg (by omega), if_neg (by omega), if_pos (by omega)]
  | eight => rw [if_neg (by omega), if_neg (by omega), if_neg (by omega)]

/-- **The forms cover all numbers**: one ends where the next one begins. -/
theorem lt_or_announced (hn : n < limit) :
    n < 0xFD ∨ ∃ tag width least, Announces tag width least ∧ least ≤ n ∧
      n < Bytes.capacity width := by
  by_cases h8 : n < 0xFD
  · exact .inl h8
  by_cases h16 : n < 0x10000
  · exact .inr ⟨_, _, _, .two, by omega, h16⟩
  by_cases h32 : n < 0x100000000
  · exact .inr ⟨_, _, _, .four, by omega, h32⟩
  · exact .inr ⟨_, _, _, .eight, by omega, hn⟩

end CompactSize

namespace Reader

variable {α β : Type}

/-- **A reader is exact** for a way of writing and a condition on values: it gives a value just if
the value meets the condition and the payload begins with what is written of it, and it leaves what
stands behind. -/
def Exact (reader : Reader α) (write : α → Bytes) (good : α → Prop) : Prop :=
  ∀ bytes a rest, reader bytes = .ok a rest ↔ good a ∧ bytes = write a ++ rest

namespace Exact

variable {reader : Reader α} {write : α → Bytes} {good : α → Prop}

theorem eq_ok_iff (h : reader.Exact write good) {bytes rest : Bytes} {a : α} :
    reader bytes = .ok a rest ↔ good a ∧ bytes = write a ++ rest :=
  h bytes a rest

/-- What a reader does whose first step is exact. -/
theorem bind_eq_ok_iff (h : reader.Exact write good) {next : α → Reader β} {bytes rest : Bytes}
    {b : β} :
    (reader >>= next) bytes = .ok b rest ↔
      ∃ a tail, (good a ∧ bytes = write a ++ tail) ∧ next a tail = .ok b rest := by
  simp only [Stateful.bind_eq_ok_iff, h.eq_ok_iff]

/-- What an exact reader reads is told apart from what stands behind it: the spellings of two values
cannot begin alike and go on differently. -/
theorem append_inj_iff (h : reader.Exact write good) {a b : α} (ha : good a) (hb : good b)
    {rest rest' : Bytes} : write a ++ rest = write b ++ rest' ↔ a = b ∧ rest = rest' := by
  refine ⟨fun heq => ?_, ?_⟩
  · have hread : reader (write a ++ rest) = .ok a rest := h.eq_ok_iff.2 ⟨ha, rfl⟩
    have hread' : reader (write a ++ rest) = .ok b rest' := h.eq_ok_iff.2 ⟨hb, heq⟩
    rw [hread] at hread'
    cases hread'
    exact ⟨rfl, rfl⟩
  · rintro ⟨rfl, rfl⟩
    rfl

/-- Passing the value through a function keeps a reader exact, if the function can be undone. -/
theorem map (h : reader.Exact write good) {f : α → β} {g : β → α} (hgf : ∀ a, good a → g (f a) = a)
    (hfg : ∀ b, f (g b) = b) :
    (f <$> reader).Exact (fun b => write (g b)) (fun b => good (g b)) := by
  intro bytes b rest
  rw [map_eq_ok_iff]
  refine ⟨?_, ?_⟩
  · rintro ⟨a, hread, rfl⟩
    obtain ⟨ha, rfl⟩ := h.eq_ok_iff.1 hread
    show good (g (f a)) ∧ write a ++ rest = write (g (f a)) ++ rest
    rw [hgf a ha]
    exact ⟨ha, rfl⟩
  · rintro ⟨hb, rfl⟩
    exact ⟨g b, h.eq_ok_iff.2 ⟨hb, rfl⟩, hfg b⟩

/-- The condition can be said in other words. -/
theorem congr (h : reader.Exact write good) {good' : α → Prop} (hgood : ∀ a, good a ↔ good' a) :
    reader.Exact write good' := by
  intro bytes a rest
  rw [h.eq_ok_iff, hgood]

end Exact

/-- **A reader is exact at the end** of a payload: there it behaves like an exact reader.  What it
does further to the front is left open. -/
def ExactAtEnd (reader : Reader α) (write : α → Bytes) (good : α → Prop) : Prop :=
  ∀ bytes a, reader bytes = .ok a [] ↔ good a ∧ bytes = write a

theorem Exact.atEnd {reader : Reader α} {write : α → Bytes} {good : α → Prop}
    (h : reader.Exact write good) : reader.ExactAtEnd write good := by
  intro bytes a
  rw [h.eq_ok_iff, List.append_nil]

/-! ## Runs of bytes and numbers -/

theorem exact_fixed (n : Nat) (field : String) :
    (fixed n field).Exact FixedBytes.toBytes fun _ => True := by
  intro bytes run rest
  rw [fixed]
  rw [true_and, ← FixedBytes.take?_eq_some_iff]
  cases FixedBytes.take? n bytes <;> simp [Prod.ext_iff]

theorem exact_take (n : Nat) (field : String) :
    (take n field).Exact (fun run => run) fun run => run.length = n := by
  intro bytes run rest
  simp only [take]
  split
  · next hn =>
    refine ⟨?_, ?_⟩
    · rintro ⟨⟩
      exact ⟨hn, (List.take_append_drop n bytes).symm⟩
    · rintro ⟨hlength, rfl⟩
      rw [List.take_left' hlength, List.drop_left' hlength]
  · next hn =>
    refine ⟨?_, ?_⟩
    · rintro ⟨⟩
    · rintro ⟨hlength, rfl⟩
      rw [List.take_left' hlength] at hn
      exact absurd hlength hn

theorem exact_u8 (field : String) : (u8 field).Exact (fun b => [b]) fun _ => True := by
  intro bytes b rest
  cases bytes with
  | nil => simp [u8]
  | cons c bytes => simp [u8]

theorem exact_nat (width : Nat) (field : String) :
    (nat width field).Exact (Bytes.littleEndian width) fun n => n < Bytes.capacity width := by
  intro bytes n rest
  rw [nat, (exact_fixed width field).bind_eq_ok_iff]
  refine ⟨?_, ?_⟩
  · rintro ⟨run, tail, ⟨-, rfl⟩, ⟨⟩⟩
    have hlt := Bytes.toNatLE_lt run.toBytes
    have hbytes := Bytes.littleEndian_toNatLE run.toBytes
    rw [run.length_eq] at hlt hbytes
    exact ⟨hlt, by rw [hbytes]⟩
  · rintro ⟨hn, rfl⟩
    refine ⟨⟨Bytes.littleEndian width n, Bytes.length_littleEndian width n⟩, rest,
      ⟨trivial, rfl⟩, ?_⟩
    rw [Bytes.toNatLE_littleEndian, Nat.mod_eq_of_lt hn]
    rfl

theorem exact_u16BE (field : String) :
    (u16BE field).Exact (fun n => Bytes.bigEndian 2 n.toNat) fun _ => True := by
  intro bytes n rest
  rw [u16BE, (exact_fixed 2 field).bind_eq_ok_iff]
  refine ⟨?_, ?_⟩
  · rintro ⟨run, tail, ⟨-, rfl⟩, ⟨⟩⟩
    have hlt := Bytes.toNatBE_lt run.toBytes
    have hbytes := Bytes.bigEndian_toNatBE run.toBytes
    rw [run.length_eq] at hlt hbytes
    refine ⟨trivial, ?_⟩
    show _ = Bytes.bigEndian 2 (UInt16.ofNat run.toBytes.toNatBE).toNat ++ rest
    rw [UInt16.toNat_ofNat_of_lt' hlt, hbytes]
  · rintro ⟨-, rfl⟩
    refine ⟨⟨Bytes.bigEndian 2 n.toNat, Bytes.length_bigEndian 2 _⟩, rest, ⟨trivial, rfl⟩, ?_⟩
    have hn : n.toNat < Bytes.capacity 2 := n.toNat_lt
    rw [Bytes.toNatBE_bigEndian, Nat.mod_eq_of_lt hn, UInt16.ofNat_toNat]
    rfl

theorem exact_u32 (field : String) :
    (u32 field).Exact (fun n => Bytes.littleEndian 4 n.toNat) fun _ => True :=
  ((exact_nat 4 field).map (fun _ hn => UInt32.toNat_ofNat_of_lt' hn)
    (fun _ => UInt32.ofNat_toNat)).congr fun n => iff_true_intro n.toNat_lt

theorem exact_i32 (field : String) :
    (i32 field).Exact (fun n => Bytes.littleEndian 4 n.toUInt32.toNat) fun _ => True :=
  (exact_u32 field).map (fun n _ => n.toUInt32_toInt32) (fun n => n.toInt32_toUInt32)

theorem exact_u64 (field : String) :
    (u64 field).Exact (fun n => Bytes.littleEndian 8 n.toNat) fun _ => True :=
  ((exact_nat 8 field).map (fun _ hn => UInt64.toNat_ofNat_of_lt' hn)
    (fun _ => UInt64.ofNat_toNat)).congr fun n => iff_true_intro n.toNat_lt

theorem exact_i64 (field : String) :
    (i64 field).Exact (fun n => Bytes.littleEndian 8 n.toUInt64.toNat) fun _ => True :=
  (exact_u64 field).map (fun n _ => n.toUInt64_toInt64) (fun n => n.toInt64_toUInt64)

/-! ## Sizes -/

theorem exact_sizeAbove (width least : Nat) (field : String) :
    (sizeAbove width least field).Exact (Bytes.littleEndian width)
      fun n => least ≤ n ∧ n < Bytes.capacity width := by
  intro bytes n rest
  rw [sizeAbove, (exact_nat width field).bind_eq_ok_iff]
  refine ⟨?_, ?_⟩
  · rintro ⟨m, tail, ⟨hm, rfl⟩, h⟩
    split at h
    · cases h
    · cases h
      exact ⟨⟨by omega, hm⟩, rfl⟩
  · rintro ⟨⟨hleast, hn⟩, rfl⟩
    exact ⟨n, rest, ⟨hn, rfl⟩, by rw [if_neg (by omega)]; rfl⟩

/-- Behind an announcing byte a size is read as a wide number. -/
theorem compactSize_announced {field : String} {tag : UInt8} {width least : Nat} {bytes : Bytes}
    (h : CompactSize.Announces tag width least) :
    compactSize field (tag :: bytes) = sizeAbove width least field bytes := by
  cases h <;> rfl

/-- A byte that announces nothing is a size by itself. -/
theorem compactSize_of_lt {field : String} {b : UInt8} {bytes : Bytes} (hb : b.toNat < 0xFD) :
    compactSize field (b :: bytes) = .ok b.toNat bytes := by
  have hother : ∀ tag : UInt8, 0xFD ≤ tag.toNat → b ≠ tag := by
    rintro _ htag rfl
    omega
  have hfirst : u8 field (b :: bytes) = .ok b bytes := rfl
  rw [compactSize, bind_of_eq_ok hfirst, if_neg (hother 0xFD (by decide)),
    if_neg (hother 0xFE (by decide)), if_neg (hother 0xFF (by decide))]
  rfl

/-- **A size has one spelling.**  The three longer forms are exact from their least number on, and
those numbers are where the shorter forms end. -/
theorem exact_compactSize (field : String) :
    (compactSize field).Exact CompactSize.encode fun n => n < CompactSize.limit := by
  intro bytes n rest
  refine ⟨fun h => ?_, ?_⟩
  · cases bytes with
    | nil => cases h
    | cons b tail =>
      obtain hb | ⟨width, least, hb⟩ := CompactSize.lt_or_announces b
      · rw [compactSize_of_lt hb] at h
        cases h
        refine ⟨Nat.lt_trans hb (by decide), ?_⟩
        rw [CompactSize.encode_of_lt hb, UInt8.ofNat_toNat, List.singleton_append]
      · rw [compactSize_announced hb] at h
        obtain ⟨⟨hleast, hn⟩, rfl⟩ := (exact_sizeAbove width least field).eq_ok_iff.1 h
        refine ⟨Nat.lt_of_lt_of_le hn hb.capacity_le, ?_⟩
        rw [CompactSize.encode_announced hb hleast hn, List.cons_append]
  · rintro ⟨hn, rfl⟩
    obtain hsmall | ⟨tag, width, least, h, hleast, hcapacity⟩ := CompactSize.lt_or_announced hn
    · have hbyte : (UInt8.ofNat n).toNat = n :=
        UInt8.toNat_ofNat_of_lt' (Nat.lt_trans hsmall (by decide))
      rw [CompactSize.encode_of_lt hsmall, List.singleton_append,
        compactSize_of_lt (hbyte.symm ▸ hsmall), hbyte]
    · rw [CompactSize.encode_announced h hleast hcapacity, List.cons_append,
        compactSize_announced h]
      exact (exact_sizeAbove width least field).eq_ok_iff.2 ⟨⟨hleast, hcapacity⟩, rfl⟩

theorem exact_count (field : String) {max : Nat} (hmax : max < CompactSize.limit) :
    (count field max).Exact CompactSize.encode fun n => n ≤ max := by
  intro bytes n rest
  rw [count, (exact_compactSize field).bind_eq_ok_iff]
  refine ⟨?_, ?_⟩
  · rintro ⟨m, tail, ⟨hm, rfl⟩, h⟩
    split at h
    · cases h
    · cases h
      exact ⟨by omega, rfl⟩
  · rintro ⟨hn, rfl⟩
    exact ⟨n, rest, ⟨by omega, rfl⟩, by rw [if_neg (by omega)]; rfl⟩

theorem exact_varBytes (field : String) :
    (varBytes field).Exact CompactSize.encodeBytes fun run => run.length < CompactSize.limit := by
  intro bytes run rest
  simp only [varBytes, (exact_compactSize field).bind_eq_ok_iff, (exact_take _ field).eq_ok_iff]
  refine ⟨?_, ?_⟩
  · rintro ⟨n, tail, ⟨hn, rfl⟩, rfl, rfl⟩
    exact ⟨hn, by rw [CompactSize.encodeBytes, List.append_assoc]⟩
  · rintro ⟨hn, rfl⟩
    exact ⟨run.length, run ++ rest, ⟨hn, by rw [CompactSize.encodeBytes, List.append_assoc]⟩, rfl,
      rfl⟩

/-- A text is the run of its bytes: UTF-8 has one spelling for it too. -/
theorem exact_text (field : String) :
    (text field).Exact (fun s => CompactSize.encodeBytes (Text.toUtf8 s))
      fun s => (Text.toUtf8 s).length < CompactSize.limit := by
  intro bytes s rest
  rw [text, (exact_varBytes field).bind_eq_ok_iff]
  refine ⟨?_, ?_⟩
  · rintro ⟨run, tail, ⟨hrun, rfl⟩, h⟩
    cases hutf8 : Text.ofUtf8? run with
    | none =>
      rw [hutf8] at h
      cases h
    | some t =>
      rw [hutf8] at h
      cases h
      rw [Text.ofUtf8?_eq_some_iff.1 hutf8] at hrun ⊢
      exact ⟨hrun, rfl⟩
  · rintro ⟨hs, rfl⟩
    exact ⟨Text.toUtf8 s, rest, ⟨hs, rfl⟩, by rw [Text.ofUtf8?_toUtf8]; rfl⟩

/-! ## Lists -/

section List

variable {item : Reader α} {write : α → Bytes} {good : α → Prop}

/-- Reading entries in a row, with some already read: the invariant is that those stand, in reverse,
in front of the ones that the payload holds. -/
theorem timesFrom_eq_ok_iff (h : item.Exact write good) {n : Nat} {done xs : List α}
    {bytes rest : Bytes} :
    timesFrom item n done bytes = .ok xs rest ↔
      ∃ ys, (ys.length = n ∧ ∀ y ∈ ys, good y) ∧ xs = done.reverse ++ ys ∧
        bytes = ys.flatMap write ++ rest := by
  induction n generalizing done bytes with
  | zero =>
    refine ⟨?_, ?_⟩
    · rintro ⟨⟩
      exact ⟨[], by simp, by simp, by simp⟩
    · rintro ⟨ys, ⟨hlength, -⟩, rfl, rfl⟩
      obtain rfl := List.length_eq_zero_iff.1 hlength
      simp [timesFrom, pure_apply]
  | succ n ih =>
    rw [timesFrom, h.bind_eq_ok_iff]
    refine ⟨?_, ?_⟩
    · rintro ⟨x, tail, ⟨hx, rfl⟩, hothers⟩
      obtain ⟨ys, ⟨hlength, hys⟩, rfl, rfl⟩ := ih.1 hothers
      exact ⟨x :: ys, ⟨by simp [hlength], by simpa using ⟨hx, hys⟩⟩, by simp, by simp⟩
    · rintro ⟨ys, ⟨hlength, hys⟩, rfl, rfl⟩
      cases ys with
      | nil => simp at hlength
      | cons x ys =>
        refine ⟨x, ys.flatMap write ++ rest, ⟨hys x (by simp), by simp⟩, ih.2 ?_⟩
        exact ⟨ys, ⟨by simpa using hlength, fun y hy => hys y (by simp [hy])⟩, by simp, rfl⟩

theorem exact_times (h : item.Exact write good) (n : Nat) :
    (times n item).Exact (fun xs => xs.flatMap write)
      fun xs => xs.length = n ∧ ∀ x ∈ xs, good x := by
  intro bytes xs rest
  rw [times, timesFrom_eq_ok_iff h]
  refine ⟨?_, ?_⟩
  · rintro ⟨ys, hys, rfl, rfl⟩
    exact ⟨hys, rfl⟩
  · rintro ⟨hxs, rfl⟩
    exact ⟨xs, hxs, rfl, rfl⟩

/-- **A list is exact if its entries are.** -/
theorem exact_list (h : item.Exact write good) (field : String) {max : Nat}
    (hmax : max < CompactSize.limit) :
    (list field max item).Exact (CompactSize.encodeList write)
      fun xs => xs.length ≤ max ∧ ∀ x ∈ xs, good x := by
  intro bytes xs rest
  simp only [list, (exact_count field hmax).bind_eq_ok_iff, (exact_times h _).eq_ok_iff]
  refine ⟨?_, ?_⟩
  · rintro ⟨n, tail, ⟨hn, rfl⟩, ⟨rfl, hxs⟩, rfl⟩
    exact ⟨⟨hn, hxs⟩, by rw [CompactSize.encodeList, List.append_assoc]⟩
  · rintro ⟨⟨hlength, hxs⟩, rfl⟩
    exact ⟨xs.length, xs.flatMap write ++ rest,
      ⟨hlength, by rw [CompactSize.encodeList, List.append_assoc]⟩, ⟨rfl, hxs⟩, rfl⟩

/-- Lists behind their number are told apart from what stands behind them.  Every number that has a
compact size will do: no reader's limit is in the way. -/
theorem encodeList_append_inj_iff (h : item.Exact write good) {xs ys : List α}
    (hxs : xs.length < CompactSize.limit ∧ ∀ x ∈ xs, good x)
    (hys : ys.length < CompactSize.limit ∧ ∀ y ∈ ys, good y) (rest rest' : Bytes) :
    CompactSize.encodeList write xs ++ rest = CompactSize.encodeList write ys ++ rest' ↔
      xs = ys ∧ rest = rest' :=
  (exact_list h "" (Nat.sub_one_lt_of_lt hxs.1)).append_inj_iff
    ⟨Nat.le_sub_one_of_lt hxs.1, hxs.2⟩ ⟨Nat.le_sub_one_of_lt hys.1, hys.2⟩

/-- Entries that are read one by one, each in its own way. -/
theorem exact_mapM {next : β → Reader α} {goodFor : β → α → Prop}
    (h : ∀ b, (next b).Exact write (goodFor b)) (bs : List β) :
    (bs.mapM next).Exact (fun xs => xs.flatMap write) fun xs => List.Forall₂ goodFor bs xs := by
  induction bs with
  | nil =>
    intro bytes xs rest
    refine ⟨?_, ?_⟩
    · rintro ⟨⟩
      exact ⟨.nil, rfl⟩
    · rintro ⟨hxs, rfl⟩
      obtain rfl := List.forall₂_nil_left_iff.1 hxs
      rfl
  | cons b bs ih =>
    intro bytes xs rest
    simp only [List.mapM_cons, (h b).bind_eq_ok_iff, ih.bind_eq_ok_iff]
    refine ⟨?_, ?_⟩
    · rintro ⟨x, _, ⟨hx, rfl⟩, others, _, ⟨hothers, rfl⟩, ⟨⟩⟩
      exact ⟨.cons hx hothers, by simp⟩
    · rintro ⟨hxs, rfl⟩
      obtain ⟨x, others, hx, hothers, rfl⟩ := List.forall₂_cons_left_iff.1 hxs
      exact ⟨x, _, ⟨hx, by simp⟩, others, rest, ⟨hothers, rfl⟩, rfl⟩

end List

/-! ## Whole payloads -/

/-- A payload is read whole if the reader leaves nothing of it. -/
theorem exactly_eq_ok_iff {format : String} {reader : Reader α} {payload : Bytes} {a : α} :
    exactly format reader payload = .ok a ↔ reader payload = .ok a [] := by
  rw [exactly]
  cases hread : reader payload with
  | error e rest =>
    have hall : (do let value ← reader; finish format; return value : Reader α) payload =
        .error e rest := bind_eq_error_iff.2 (.inl hread)
    rw [hall]
    simp
  | ok value rest =>
    cases rest with
    | nil =>
      have hall : (do let value ← reader; finish format; return value : Reader α) payload =
          .ok value [] := Stateful.bind_eq_ok_iff.2 ⟨value, [], hread, rfl⟩
      rw [hall]
      simp
    | cons b rest =>
      have hall : (do let value ← reader; finish format; return value : Reader α) payload =
          .error (.trailingBytes format (rest.length + 1)) (b :: rest) :=
        bind_eq_error_iff.2 (.inr ⟨value, b :: rest, hread, rfl⟩)
      rw [hall]
      simp

end Reader

/-! ## What is short enough fits

A count or a length is at most the number of bytes behind it, so whatever a payload holds fits its
field if the payload is not too long. -/

namespace CompactSize

variable {α : Type} (item : α → Bytes) {items : List α}

theorem length_le_length_encodeBytes (bytes : Bytes) :
    bytes.length ≤ (encodeBytes bytes).length := by
  rw [encodeBytes, List.length_append]
  omega

theorem length_encodeBytes_pos (bytes : Bytes) : 0 < (encodeBytes bytes).length := by
  rw [encodeBytes, List.length_append, length_encode, width]
  split_ifs <;> omega

theorem length_flatMap_le_length_encodeList :
    (items.flatMap item).length ≤ (encodeList item items).length := by
  rw [encodeList, List.length_append]
  omega

theorem length_item_le_length_flatMap {x : α} (hx : x ∈ items) :
    (item x).length ≤ (items.flatMap item).length :=
  (List.sublist_flatten_of_mem (List.mem_map_of_mem hx)).length_le

theorem length_item_le_length_encodeList {x : α} (hx : x ∈ items) :
    (item x).length ≤ (encodeList item items).length :=
  Nat.le_trans (length_item_le_length_flatMap item hx) (length_flatMap_le_length_encodeList item)

theorem length_le_length_encodeList {item : α → Bytes} (hitem : ∀ x, 0 < (item x).length)
    (items : List α) : items.length ≤ (encodeList item items).length := by
  refine Nat.le_trans ?_ (length_flatMap_le_length_encodeList item)
  induction items with
  | nil => simp
  | cons x xs ih =>
    have hx := hitem x
    rw [List.flatMap_cons, List.length_append, List.length_cons]
    omega

end CompactSize

end Bitcoin
