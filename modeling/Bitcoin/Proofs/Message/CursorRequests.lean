import Bitcoin.Message.Block
import Bitcoin.Message.Inventory
import Bitcoin.Message.PeerAddress
import Bitcoin.Message.Version
import Bitcoin.Proofs.Payload.Calls

/-!
# Any requests to one cursor

A cursor is asked for numbers, sizes, runs of bytes, texts and whole formats, in any order.  A
request that fails may have read a part of what it was made for, and the next one goes on there.

* `NetAddr.program` and the like are the calls that the formats make.  They are put together from
  the calls of the fields as the readers are; added is how many bytes of the payload an entry of a
  list takes at least.
* `Cursor.Request` is what a cursor may be asked for, each request with its reader and its program.
* `Cursor.Within.perform_agrees` is one request, and `Cursor.Within.exists_afterAll` any number of
  them in a row.
* `Cursor.position_of_requests` is what holds of a cursor whatever it has been asked for.

Between two requests nothing is known of a cursor but that its position is within the payload, and
that is enough.  A request may stop in the middle of a list or of a number, with an error, and leave
the position at a place where no format begins; the next request starts there, whatever it asks for.
So the theorem is about an invariant that every single call keeps (`Cursor.Within`), and neither
about formats nor about payloads that make sense.

The programs are data and stand beside the readers of the formats, one for each.  A program carries
with it that it stands for its reader (`Reader.Program`), so there is nothing to prove about a
format here but that its calls are put together as its reader is; where the two differ, as with a
size that is compared as a word and then used as a number, the step in between has been dealt with
in `Bitcoin.Proofs.Payload.Calls`.

The last kind of request, `Cursor.Request.other`, is any program at all.  It is there for callers
who read formats of their own.

How much memory is set aside for a list is part of the programs as well, because it is a step like
the others that might panic: it divides what is left of the payload by the least size of an entry,
and what it asks for has to be less than memory can hold.
-/

set_option autoImplicit false

namespace Bitcoin

open Reader

/-! ## The calls of the formats -/

/-- The calls of an address: three runs of known lengths. -/
def NetAddr.program : Program NetAddr.read :=
  (Program.u64 _).bind fun _ => (Program.fixed 16 _).bind fun _ =>
    (Program.u16BE _).bind fun _ => .pure _

/-- The calls of an entry of an older address message. -/
def AddressEntry.program : Program AddressEntry.read :=
  (Program.u32 _).bind fun _ => NetAddr.program.bind fun _ => .pure _

/-- The calls of an older address message; an entry has thirty bytes. -/
def AddressEntry.listProgram : Program AddressEntry.readList := program.list _ _ 30

/-- The length of the address is compared with its limit as the word that is then taken. -/
def PeerEntry.program : Program PeerEntry.read :=
  (Program.u32 _).bind fun timestamp => (Program.compactSize _).bind fun services =>
    (Program.u8 _).bind fun networkId => Program.size _ fun length =>
      (Program.refuse _).ite <| (Program.take length _).bind fun bytes =>
        (Program.u16BE _).bind fun port =>
          { calls :=
              match PeerAddress.ofBytes networkId bytes with
              | .ok address => .value ⟨timestamp, ⟨UInt64.ofNat services⟩, address, port⟩
              | .error violation => .refuse (.invalid violation)
            read_eq := by cases PeerAddress.ofBytes networkId bytes <;> rfl }

/-- The calls of a newer address message; an entry has nine bytes at least. -/
def PeerEntry.listProgram : Program PeerEntry.readList := program.list _ _ 9

/-- The calls of an object. -/
def InventoryItem.program : Program InventoryItem.read :=
  (Program.u32 _).bind fun _ => (Program.fixed 32 _).bind fun _ => .pure _

/-- The calls of an inventory message; an object has 36 bytes. -/
def InventoryItem.listProgram : Program InventoryItem.readList := program.list _ _ 36

/-- The calls of a header: six runs of known lengths. -/
def BlockHeader.program : Program BlockHeader.read :=
  (Program.i32 _).bind fun _ => (Program.fixed 32 _).bind fun _ =>
    (Program.fixed 32 _).bind fun _ => (Program.u32 _).bind fun _ =>
      (Program.u32 _).bind fun _ => (Program.u32 _).bind fun _ => .pure _

/-- The calls of an entry of a header message, with the number behind the header. -/
def BlockHeader.entryProgram : Program BlockHeader.readEntry :=
  program.bind fun _ => (Program.compactSize _).bind fun _ => (Program.pure _).ite (.refuse _)

/-- The calls of a header message; an entry has 81 bytes at least. -/
def BlockHeader.listProgram : Program BlockHeader.readList := entryProgram.list _ _ 81

/-- The calls of a locator; its hashes are a list. -/
def BlockLocator.program : Program BlockLocator.read :=
  (Program.u32 _).bind fun _ => ((Program.fixed 32 _).list _ _ 32).bind fun _ =>
    (Program.fixed 32 _).bind fun _ => .pure _

/-- The calls of a filter.  Each limit is compared before the next call is made. -/
def BloomFilter.program : Program BloomFilter.read :=
  (Program.varBytes _).bind fun _ => (Program.refuse _).ite <| (Program.u32 _).bind fun _ =>
    (Program.refuse _).ite <| (Program.u32 _).bind fun _ => (Program.u8 _).bind fun _ => .pure _

/-- The calls that tell an output of an earlier transaction. -/
def OutPoint.program : Program OutPoint.read :=
  (Program.fixed 32 _).bind fun _ => (Program.u32 _).bind fun _ => .pure _

/-- The calls of an input, without its witness. -/
def TxInput.program : Program TxInput.read :=
  OutPoint.program.bind fun _ => (Program.varBytes _).bind fun _ => (Program.u32 _).bind fun _ =>
    .pure _

/-- The calls of a witness, which are made when all inputs and outputs have been read. -/
def TxInput.witnessProgram (input : TxInput) : Program input.readWitness :=
  ((Program.varBytes _).list _ _ 1).bind fun _ => .pure _

/-- The calls of an output. -/
def TxOutput.program : Program TxOutput.read :=
  (Program.i64 _).bind fun _ => (Program.varBytes _).bind fun _ => .pure _

namespace Transaction

/-- The calls of the inputs; an input has 41 bytes at least. -/
def inputsProgram : Program readInputs := TxInput.program.list _ _ 41

/-- The calls of the outputs; an output has nine bytes at least. -/
def outputsProgram : Program readOutputs := TxOutput.program.list _ _ 9

/-- The calls of the witnesses of inputs that have been read: as many as there are inputs. -/
def witnessesProgram (inputs : List TxInput) : Program (readWitnesses inputs) :=
  (Program.mapM TxInput.witnessProgram inputs).bind fun _ => (Program.pure _).ite (.refuse _)

/-- The calls behind an empty list of inputs.  Which of them are made depends on the flags. -/
def sectionsProgram : Program readSections :=
  (Program.u8 _).bind fun _ => (Program.pure _).ite <| inputsProgram.bind fun inputs =>
    outputsProgram.bind fun _ =>
      ((witnessesProgram inputs).bind fun _ => (Program.pure _).ite (.refuse _)).ite <|
        (Program.pure inputs).bind fun _ => (Program.pure _).ite (.refuse _)

/-- The calls of inputs and outputs in either format. -/
def spendingProgram (protocol : ProtocolVersion) : Program (readSpending protocol) :=
  inputsProgram.bind fun _ => sectionsProgram.ite <| outputsProgram.bind fun _ => .pure _

/-- The calls of a transaction. -/
def program (protocol : ProtocolVersion) : Program (read protocol) :=
  (Program.i32 _).bind fun _ => (spendingProgram protocol).bind fun _ =>
    (Program.u32 _).bind fun _ => .pure _

end Transaction

/-- The calls of a block.  Memory is set aside as if a transaction had sixty bytes; one may have
fewer, and then the list grows. -/
def Block.program (protocol : ProtocolVersion) : Program (Block.read protocol) :=
  BlockHeader.program.bind fun _ =>
    ((Transaction.program protocol).list _ _ 60).bind fun _ => .pure _

/-- The calls of a merkle block. -/
def MerkleBlock.program : Program MerkleBlock.read :=
  BlockHeader.program.bind fun _ => (Program.u32 _).bind fun _ =>
    ((Program.fixed 32 _).list _ _ 32).bind fun _ => (Program.varBytes _).bind fun _ => .pure _

/-- The calls of the relay flag: none but the question whether anything is left, if nothing is. -/
def VersionMessage.relayProgram : Program VersionMessage.readRelay :=
  Program.isEmpty.bind fun _ => (Program.pure _).ite <| (Program.u8 _).bind fun _ =>
    (Program.pure _).ite <| (Program.pure _).ite (.refuse _)

/-- The calls of an introduction. -/
def VersionMessage.program : Program VersionMessage.read :=
  (Program.i32 _).bind fun _ => (Program.u64 _).bind fun _ => (Program.i64 _).bind fun _ =>
    NetAddr.program.bind fun _ => NetAddr.program.bind fun _ => (Program.u64 _).bind fun _ =>
      (Program.text _).bind fun _ => (Program.i32 _).bind fun _ =>
        relayProgram.bind fun _ => .pure _

/-- The calls of a rejection, the last of which takes all that is left. -/
def RejectMessage.program : Program RejectMessage.read :=
  (Program.text _).bind fun _ => (Program.u8 _).bind fun _ => (Program.text _).bind fun _ =>
    Program.takeRest.bind fun _ => .pure _

/-! ## Formats -/

/-- What a payload, or a part of one, may be read as. -/
inductive Format where
  | netAddr
  | version
  | addresses
  | peers
  | inventory
  | locator
  | header
  | headers
  | outPoint
  | transaction
  | block
  | filter
  | merkle
  | rejection

namespace Format

/-- What is read. -/
def Value : Format → Type
  | netAddr => NetAddr
  | version => VersionMessage
  | addresses => List AddressEntry
  | peers => List PeerEntry
  | inventory => List InventoryItem
  | locator => BlockLocator
  | header => BlockHeader
  | headers => List BlockHeader
  | outPoint => OutPoint
  | transaction => Transaction
  | block => Block
  | filter => BloomFilter
  | merkle => MerkleBlock
  | rejection => RejectMessage

/-- How it is read. -/
def read (protocol : ProtocolVersion) : (format : Format) → Reader format.Value
  | netAddr => NetAddr.read
  | version => VersionMessage.read
  | addresses => AddressEntry.readList
  | peers => PeerEntry.readList
  | inventory => InventoryItem.readList
  | locator => BlockLocator.read
  | header => BlockHeader.read
  | headers => BlockHeader.readList
  | outPoint => OutPoint.read
  | transaction => Transaction.read protocol
  | block => Block.read protocol
  | filter => BloomFilter.read
  | merkle => MerkleBlock.read
  | rejection => RejectMessage.read

/-- The calls that reading it makes. -/
def program (protocol : ProtocolVersion) : (format : Format) → Program (format.read protocol)
  | netAddr => NetAddr.program
  | version => VersionMessage.program
  | addresses => AddressEntry.listProgram
  | peers => PeerEntry.listProgram
  | inventory => InventoryItem.listProgram
  | locator => BlockLocator.program
  | header => BlockHeader.program
  | headers => BlockHeader.listProgram
  | outPoint => OutPoint.program
  | transaction => Transaction.program protocol
  | block => Block.program protocol
  | filter => BloomFilter.program
  | merkle => MerkleBlock.program
  | rejection => RejectMessage.program

end Format

namespace Cursor

/-! ## Requests -/

/-- What may be asked of a cursor. -/
inductive Request where
  | u8 (field : String)
  | u16BE (field : String)
  | u32 (field : String)
  | i32 (field : String)
  | u64 (field : String)
  | i64 (field : String)
  /-- A run whose length is known; a hash is a run of 32 bytes. -/
  | fixed (n : UInt64) (field : String)
  | compactSize (field : String)
  | count (field : String) (max : UInt64)
  | take (n : UInt64) (field : String)
  | takeRest
  | varBytes (field : String)
  | text (field : String)
  | remaining
  | isEmpty
  | finish (format : String)
  | decode (format : Format) (protocol : ProtocolVersion)
  /-- A format that is not in the list, made of whatever calls. -/
  | other {α : Type} (calls : Calls α)

namespace Request

/-- What is given in answer to the request. -/
def Answer : Request → Type
  | u8 _ => UInt8
  | u16BE _ => UInt16
  | u32 _ => UInt32
  | i32 _ => Int32
  | u64 _ => UInt64
  | i64 _ => Int64
  | fixed n _ => FixedBytes n.toNat
  | compactSize _ | count _ _ | remaining => Nat
  | take _ _ | takeRest | varBytes _ => Bytes
  | text _ => String
  | isEmpty => Bool
  | finish _ => Unit
  | decode format _ => format.Value
  | @other α _ => α

/-- The reader that answers the request. -/
def reader : (request : Request) → Reader request.Answer
  | u8 field => Reader.u8 field
  | u16BE field => Reader.u16BE field
  | u32 field => Reader.u32 field
  | i32 field => Reader.i32 field
  | u64 field => Reader.u64 field
  | i64 field => Reader.i64 field
  | fixed n field => Reader.fixed n.toNat field
  | compactSize field => Reader.compactSize field
  | count field max => Reader.count field max.toNat
  | take n field => Reader.take n.toNat field
  | takeRest => Reader.takeRest
  | varBytes field => Reader.varBytes field
  | text field => Reader.text field
  | remaining => Reader.remaining
  | isEmpty => Reader.isEmpty
  | finish format => Reader.finish format
  | decode format protocol => format.read protocol
  | other calls => calls.read

/-- The calls that answering the request makes. -/
def program : (request : Request) → Program request.reader
  | u8 field => .u8 field
  | u16BE field => .u16BE field
  | u32 field => .u32 field
  | i32 field => .i32 field
  | u64 field => .u64 field
  | i64 field => .i64 field
  | fixed n field => .fixed n.toNat field n.toNat_lt
  | compactSize field => .compactSize field
  | count field max => .count field max.toNat
  | take n field => .take n field
  | takeRest => .takeRest
  | varBytes field => .varBytes field
  | text field => .text field
  | remaining => .remaining
  | isEmpty => .isEmpty
  | finish format => .finish format
  | decode format protocol => format.program protocol
  | other calls => ⟨calls, rfl⟩

/-- Answers the request in memory. -/
def perform (layout : Layout) (request : Request) (c : Cursor) : Outcome request.Answer :=
  request.program.calls.exec layout c

end Request

variable {c : Cursor}

/-- Where a cursor is left by requests in a row, each made whether or not those before it failed.
There is no such place if one of them panics. -/
def afterAll (layout : Layout) (requests : List Request) (c : Cursor) : Option Cursor :=
  requests.foldlM (fun c request => (request.perform layout c).cursor?) c

/-- A request is answered as its reader answers it. -/
theorem Within.perform_agrees (h : c.Within) (layout : Layout) (request : Request) :
    (request.perform layout c).Agrees c (request.reader c.rest) := by
  have hread := request.program.read_eq
  rw [← hread]
  exact request.program.calls.exec_agrees layout h

/-- The cursor comes through any requests. -/
theorem Within.exists_afterAll (h : c.Within) (layout : Layout) (requests : List Request) :
    ∃ d, c.afterAll layout requests = some d ∧ c.Reaches d := by
  induction requests generalizing c with
  | nil => exact ⟨c, rfl, h.reaches⟩
  | cons request requests ih =>
    obtain ⟨d, hfirst, hd⟩ := (h.perform_agrees layout request).exists_cursor
    obtain ⟨e, hrest, he⟩ := ih hd.within
    refine ⟨e, ?_, hd.trans he⟩
    rw [afterAll, List.foldlM_cons, hfirst]
    exact hrest

theorem perform_take (layout : Layout) (n : UInt64) (field : String) (c : Cursor) :
    (Request.take n field).perform layout c = c.take n field := by
  show (c.take n field).andThen .ok = _
  cases c.take n field <;> rfl

/-- **Whatever is asked of a cursor, in whatever order and however much of it fails, the position
stays within the payload and only moves forward.**  Between any two of the requests nothing panics,
each request is answered as its reader answers it, and taking either stays where it is or gives the
bytes between the old position and the new one: it fails just if there are too few of them, also
where the sum of position and length is no word. -/
theorem position_of_requests (layout : Layout) (buffer : Buffer) (earlier later : List Request) :
    ∃ c d, (start buffer).afterAll layout earlier = some c ∧ c.afterAll layout later = some d ∧
      d.buffer = buffer ∧ c.position ≤ d.position ∧ d.position ≤ buffer.size ∧
      (∀ request : Request, (request.perform layout d).Agrees d (request.reader d.rest)) ∧
      ∀ n field,
        (buffer.bytes.length < d.position.toNat + n.toNat →
          (Request.take n field).perform layout d = .error (.unexpectedEnd field) d) ∧
        (d.position.toNat + n.toNat ≤ buffer.bytes.length →
          ∃ run e, (Request.take n field).perform layout d = .ok run e ∧
            e.position.toNat = d.position.toNat + n.toNat ∧
            buffer.slice? d.position e.position = some run) := by
  obtain ⟨c, hearlier, hc⟩ := (within_start buffer).exists_afterAll layout earlier
  obtain ⟨d, hlater, hd⟩ := hc.within.exists_afterAll layout later
  have hbuffer : d.buffer = buffer := hd.buffer_eq.trans hc.buffer_eq
  have hwithin := hd.within
  have hwhole := hwithin.position_add
  have hend : d.position ≤ d.buffer.size := hwithin
  refine ⟨c, d, hearlier, hlater, hbuffer, hd.position_le, hbuffer ▸ hend,
    hwithin.perform_agrees layout, fun n field => ⟨fun hn => ?_, fun hn => ?_⟩⟩
  · rw [hbuffer] at hwhole
    rw [perform_take]
    exact hwithin.take_of_lt (by omega) field
  · rw [hbuffer] at hwhole
    have hle : n.toNat ≤ d.rest.length := by omega
    obtain ⟨e, htake, he, hposition, -⟩ := hwithin.take_of_le hle field
    refine ⟨d.rest.take n.toNat, e, (perform_take layout n field d).trans htake, hposition, ?_⟩
    rw [← hbuffer]
    exact hwithin.slice?_eq hposition hle

/-- The greatest word, as the size of a field and then as a length; the list of peers fails behind
its count, which stays read. -/
example : ((start ⟨List.replicate 9 0xFF ++ [1, 2], by decide⟩).afterAll ⟨88, by decide⟩
    [.varBytes "a", .take 0xFFFFFFFFFFFFFFFF "b", .decode .peers .current, .take 3 "c"]).map
      position = some 10 := by rfl

end Cursor

end Bitcoin
