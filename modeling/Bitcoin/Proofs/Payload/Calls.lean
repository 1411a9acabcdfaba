import Bitcoin.Proofs.Payload.Cursor

/-!
# Readers as the calls that they make

In memory a reader is a program that calls the steps of a cursor, and does something with what they
give.  Here such programs are data: the next call, and for each of its values the program behind it.

* `Calls.read` is the reader that a program stands for, `Calls.exec` runs it on a cursor.
* `Calls.exec_agrees`: **from a position within the payload every program runs as its reader does**,
  never panics, and leaves a position within the payload and not before the old one.  It is proved
  by induction over the program, one case for each call.
* `Reader.Program` is a program for a given reader.  Programs are put together as readers are, so
  that the calls of a format follow from the calls of its fields.

Sizes are words in a program, from the byte that announces them to the bytes that are taken, and the
programs of lists set memory aside before the first entry is read.

What a reader does on a list of bytes and what it does in memory are two different functions, and to
compare them reader by reader would mean to write each of them twice.  A program is written once and
has both meanings: `Calls.read` and `Calls.exec` are its two interpretations, and
`Calls.exec_agrees` relates them for all programs.

That the program is the right one is a matter of `Reader.Program`, whose only proof is an equation
between two readers.  The combinators follow those of readers, so nearly all of these equations are
settled by putting programs together, and the few others are about fields: a byte is a run of one
byte, and a size is a word.

A program branches on values, so that it is a tree with infinitely many branches, but each path
through it is finite.  That is why the proof is an induction on the program and needs no bound on
its length, and why a list is a program for each number of items.
-/

set_option autoImplicit false

namespace Bitcoin

/-! ## Programs -/

/-- A program that calls the steps of a cursor. -/
inductive Calls (α : Type) where
  | value (a : α)
  | refuse (e : PayloadError)
  | take (n : UInt64) (field : String) (next : Bytes → Calls α)
  | fixed (n : Nat) (hn : n < UInt64.size) (field : String) (next : FixedBytes n → Calls α)
  | takeRest (next : Bytes → Calls α)
  | remaining (next : Nat → Calls α)
  /-- Counts are numbers of 32 bits. -/
  | reserve (count minSize : UInt64) (hcount : count.toNat < 0x100000000) (next : Calls α)

namespace Calls

variable {α β : Type}

/-- Goes on with the value. -/
def bind (calls : Calls α) (next : α → Calls β) : Calls β :=
  match calls with
  | value a => next a
  | refuse e => refuse e
  | take n field rest => take n field fun run => (rest run).bind next
  | fixed n hn field rest => fixed n hn field fun run => (rest run).bind next
  | takeRest rest => takeRest fun run => (rest run).bind next
  | remaining rest => remaining fun n => (rest n).bind next
  | reserve count minSize hcount rest => reserve count minSize hcount (rest.bind next)

/-- The reader that the program stands for; setting memory aside reads nothing. -/
def read : Calls α → Reader α
  | value a => pure a
  | refuse e => throw e
  | take n field next => Reader.take n.toNat field >>= fun run => (next run).read
  | fixed n _ field next => Reader.fixed n field >>= fun run => (next run).read
  | takeRest next => Reader.takeRest >>= fun run => (next run).read
  | remaining next => Reader.remaining >>= fun n => (next n).read
  | reserve _ _ _ next => next.read

/-- Runs the program on a cursor. -/
def exec (layout : Layout) : Calls α → Cursor → Outcome α
  | value a, c => .ok a c
  | refuse e, c => .error e c
  | take n field next, c => (c.take n field).andThen fun run c => (next run).exec layout c
  | fixed n _ field next, c => (c.fixed n field).andThen fun run c => (next run).exec layout c
  | takeRest next, c => c.takeRest.andThen fun run c => (next run).exec layout c
  | remaining next, c => c.remaining.andThen fun n c => (next n.toNat).exec layout c
  | reserve count minSize _ next, c =>
    (c.reserve layout count minSize).andThen fun _ c => next.exec layout c

theorem read_bind (calls : Calls α) (next : α → Calls β) :
    (calls.bind next).read = calls.read >>= fun a => (next a).read := by
  induction calls with
  | value a => rfl
  | refuse e => rfl
  | take n field rest ih | fixed n hn field rest ih | takeRest rest ih | remaining rest ih =>
    simp only [bind, read, bind_assoc, ih]
  | reserve count minSize hcount rest ih => exact ih

/-- **Every program runs as its reader does, and keeps the position within the payload.** -/
theorem exec_agrees (layout : Layout) (calls : Calls α) {c : Cursor} (h : c.Within) :
    (calls.exec layout c).Agrees c (calls.read c.rest) := by
  -- Over the program, for every cursor: each call leaves one that is within the payload again.
  induction calls generalizing c with
  | value a => exact .ok h.reaches
  | refuse e => exact .error h.reaches
  | take n field next ih =>
    exact (h.take_agrees n field).andThen fun run d hd => ih run hd.within
  | fixed n hn field next ih =>
    exact (h.fixed_agrees hn field).andThen fun run d hd => ih run hd.within
  | takeRest next ih => exact h.takeRest_agrees.andThen fun run d hd => ih run hd.within
  | remaining next ih =>
    obtain ⟨n, hremaining, hn⟩ := h.remaining_eq
    have hread : (remaining next).read c.rest = (next n.toNat).read c.rest := by
      rw [hn]
      rfl
    rw [exec, hremaining, hread]
    exact ih n.toNat h
  | reserve count minSize hcount next ih =>
    rw [exec, h.reserve_eq layout hcount]
    exact ih h

/-! ## Sizes as words -/

/-- A number of at most eight bytes that does not fit the next smaller form of a size. -/
def sizeAbove (width : Nat) (hwidth : width < UInt64.size) (least : Nat) (field : String) :
    Calls UInt64 :=
  fixed width hwidth field fun run =>
    if Bytes.toNatLE run.toBytes < least then refuse .nonCanonicalSize
    else value (UInt64.ofNat (Bytes.toNatLE run.toBytes))

/-- The only byte of a run. -/
def onlyByte (run : FixedBytes 1) : UInt8 :=
  run.toBytes.get ⟨0, by rw [run.length_eq]; exact Nat.one_pos⟩

/-- A size as a word. -/
def compactSize (field : String) : Calls UInt64 :=
  fixed 1 (by decide) field fun run =>
    let first := onlyByte run
    if first = 0xFD then sizeAbove 2 (by decide) 0xFD field
    else if first = 0xFE then sizeAbove 4 (by decide) 0x10000 field
    else if first = 0xFF then sizeAbove 8 (by decide) 0x100000000 field
    else value first.toUInt64

theorem map_read_sizeAbove {width : Nat} (hwidth : width < UInt64.size)
    (hcapacity : Bytes.capacity width ≤ UInt64.size) (least : Nat) (field : String) :
    UInt64.toNat <$> (sizeAbove width hwidth least field).read =
      Reader.sizeAbove width least field := by
  simp only [sizeAbove, read, Reader.sizeAbove, Reader.nat, map_bind, bind_assoc, pure_bind]
  congr 1
  funext run
  split
  · rfl
  -- The number has at most eight bytes, so that the word loses none of it.
  · have hword : (UInt64.ofNat (Bytes.toNatLE run.toBytes)).toNat = Bytes.toNatLE run.toBytes := by
      have hlt := Bytes.toNatLE_lt run.toBytes
      rw [run.length_eq] at hlt
      exact UInt64.toNat_ofNat_of_lt' (by omega)
    rw [read, map_pure, hword]

/-- Reading a byte is reading a run of one byte. -/
theorem read_fixed_one (field : String) :
    (fixed 1 (by decide) field fun run => value (onlyByte run)).read = Reader.u8 field := by
  funext bytes
  cases bytes with
  | nil => rfl
  | cons b rest => rfl

theorem map_read_compactSize (field : String) :
    UInt64.toNat <$> (compactSize field).read = Reader.compactSize field := by
  rw [Reader.compactSize, ← read_fixed_one]
  simp only [compactSize, read, map_bind, bind_assoc, pure_bind]
  congr 1
  funext run
  split
  · exact map_read_sizeAbove _ (by decide) _ _
  · split
    · exact map_read_sizeAbove _ (by decide) _ _
    · split
      · exact map_read_sizeAbove _ (by decide) _ _
      · rfl

end Calls

/-! ## Programs of readers

A program of a reader is calls with the proof that they read as the reader does.  The combinators
have the names of those of readers, so that a program is put together like the reader that it stands
for. -/

namespace Reader

variable {α β : Type}

/-- A program that stands for the reader. -/
structure Program (reader : Reader α) where
  calls : Calls α
  read_eq : calls.read = reader

namespace Program

variable {reader : Reader α} {next : α → Reader β}

/-- Programs in a row. -/
def bind (first : Program reader) (rest : ∀ a, Program (next a)) : Program (reader >>= next) where
  calls := first.calls.bind fun a => (rest a).calls
  read_eq := by simp only [Calls.read_bind, first.read_eq, (rest _).read_eq]

/-- A value that is there without a call. -/
def pure (a : α) : Program (Pure.pure a) := ⟨.value a, rfl⟩

/-- An error; the cursor stays where the error was found. -/
def throw (e : PayloadError) : Program (MonadExcept.throw e : Reader α) := ⟨.refuse e, rfl⟩

/-- The error of a broken rule. -/
def refuse (violation : Violation) : Program (Reader.refuse violation : Reader α) := throw _

/-- A value that is computed from the one that was read. -/
def map (f : α → β) (program : Program reader) : Program (f <$> reader) where
  calls := program.calls.bind fun a => .value (f a)
  read_eq := by
    rw [Calls.read_bind, program.read_eq, map_eq_pure_bind]
    rfl

/-- A choice that depends on what was read before. -/
def ite {p : Prop} [Decidable p] {other : Reader α} (yes : Program reader) (no : Program other) :
    Program (if p then reader else other) where
  calls := if p then yes.calls else no.calls
  read_eq := by
    split
    · exact yes.read_eq
    · exact no.read_eq

/-! ## Fields -/

/-- A run of bytes. -/
def take (n : UInt64) (field : String) : Program (Reader.take n.toNat field) where
  calls := .take n field .value
  read_eq := bind_pure _

/-- A run whose length is known before anything is read. -/
def fixed (n : Nat) (field : String) (hn : n < UInt64.size := by decide) :
    Program (Reader.fixed n field) where
  calls := .fixed n hn field .value
  read_eq := bind_pure _

/-- All that is left. -/
def takeRest : Program Reader.takeRest where
  calls := .takeRest .value
  read_eq := bind_pure _

/-- How many bytes are left. -/
def remaining : Program Reader.remaining where
  calls := .remaining .value
  read_eq := bind_pure _

/-- Whether nothing is left: how many bytes are left is compared with zero. -/
def isEmpty : Program Reader.isEmpty where
  calls := .remaining fun n => .value (n == 0)
  read_eq := by
    funext bytes
    cases bytes <;> rfl

/-- The end of a payload, with the number of bytes that are left if it is not there. -/
def finish (format : String) : Program (Reader.finish format) where
  calls := .remaining fun n => if n = 0 then .value () else .refuse (.trailingBytes format n)
  read_eq := by
    funext bytes
    cases bytes <;> rfl

/-- A byte is a run of one byte. -/
def u8 (field : String) : Program (Reader.u8 field) := ⟨_, Calls.read_fixed_one field⟩

/-- A port number is a run of two bytes. -/
def u16BE (field : String) : Program (Reader.u16BE field) := (fixed 2 field).bind fun _ => pure _

/-- A number of four bytes. -/
def u32 (field : String) : Program (Reader.u32 field) :=
  ((fixed 4 field).bind fun _ => pure _).map _

/-- The same as a number that may be negative. -/
def i32 (field : String) : Program (Reader.i32 field) := (u32 field).map _

/-- A number of eight bytes. -/
def u64 (field : String) : Program (Reader.u64 field) :=
  ((fixed 8 field).bind fun _ => pure _).map _

/-- The same as a number that may be negative. -/
def i64 (field : String) : Program (Reader.i64 field) := (u64 field).map _

/-- What follows a size sees it as a word. -/
def size {next : Nat → Reader β} (field : String) (rest : ∀ n : UInt64, Program (next n.toNat)) :
    Program (Reader.compactSize field >>= next) where
  calls := (Calls.compactSize field).bind fun n => (rest n).calls
  read_eq := by
    simp only [Calls.read_bind, (rest _).read_eq, ← Calls.map_read_compactSize, bind_map_left]

/-- A size that nothing depends on. -/
def compactSize (field : String) : Program (Reader.compactSize field) where
  calls := (size field fun n => pure n.toNat).calls
  read_eq := by rw [(size field _).read_eq, bind_pure]

/-- A size that is compared with a limit as soon as it is read. -/
def count (field : String) (max : Nat) : Program (Reader.count field max) :=
  size field fun _ => (throw _).ite (pure _)

/-- A run behind its size, which is a word when the run is taken. -/
def varBytes (field : String) : Program (Reader.varBytes field) := size field fun n => take n field

/-- A run that is taken as a whole before it is looked at as a text. -/
def text (field : String) : Program (Reader.text field) :=
  (varBytes field).bind fun bytes =>
    { calls :=
        match Text.ofUtf8? bytes with
        | some s => .value s
        | none => .refuse (.invalid (.notUtf8 field))
      read_eq := by cases Text.ofUtf8? bytes <;> rfl }

/-! ## Lists -/

/-- The items that are left of a list, behind those that were read.  The number of items is that of
the list, so the program is as long as the list says. -/
def timesFrom (item : Program reader) :
    (n : Nat) → (done : List α) → Program (Reader.timesFrom reader n done)
  | 0, _ => pure _
  | n + 1, done => item.bind fun a => timesFrom item n (a :: done)

/-- Items in a row. -/
def times (n : Nat) (item : Program reader) : Program (Reader.times n reader) :=
  item.timesFrom n []

/-- A list.  Memory is set aside when the count has been compared with its limit. -/
def list (field : String) (max : Nat) (minSize : UInt64) (item : Program reader)
    (hmax : max < 0x100000000 := by decide) : Program (Reader.list field max reader) where
  calls := (Calls.compactSize field).bind fun n =>
    if h : max < n.toNat then .refuse (.tooManyEntries field n.toNat max)
    else .reserve n minSize (by omega) (item.times n.toNat).calls
  read_eq := by
    simp only [Reader.list, Reader.count, ← Calls.map_read_compactSize, Calls.read_bind,
      bind_map_left, bind_assoc]
    congr 1
    funext n
    -- Both sides compare the count with its limit first; what differs then reads nothing.
    by_cases h : max < n.toNat
    · rw [dif_pos h, if_pos h]
      rfl
    · rw [dif_neg h, if_neg h, pure_bind]
      exact (item.times n.toNat).read_eq

/-- One program for each entry of a list that is known. -/
def mapM (item : ∀ a, Program (next a)) : (entries : List α) → Program (entries.mapM next)
  | [] => ⟨.value [], List.mapM_nil.symm⟩
  | a :: entries =>
    let row := (item a).bind fun b => (mapM item entries).bind fun bs => pure (b :: bs)
    ⟨row.calls, by rw [row.read_eq, List.mapM_cons]⟩

end Program

end Reader

end Bitcoin
