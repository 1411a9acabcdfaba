import Bitcoin.Frame.Header
import Bitcoin.Message
import Bitcoin.Proofs.Message.Transaction

/-!
# The messages that are read

Which payload of a known command is read as which message.  All formats are exact, so a message is
read from its own payload or not at all, and `Message.Readable` says which messages are read.

* `Message.decode_eq_ok_iff` is the whole of decoding in one equivalence.
* `Message.readable_of_check` says that the checks of the writer are enough: a message that passes
  them is readable if its payload is not too long for a frame.
* `Message.check_of_readable` is about the other direction, where the writer asks for more.  It
  refuses a transaction without inputs even where that one would be read back, and refuses nothing
  else that is readable.

`Message.Readable` has a case for each message and no `protocol` in most of them.  The version of
the protocol plays a part in two places only, for pings and for transactions; whoever asks what a
newer peer makes of a message need not look further.

The step from the formats to the messages is the same for nearly all commands: the reader of the
format is mapped to a message, and the message is readable if the value is one that the format can
hold.  `Message.map_eq_ok_iff_of_exactAtEnd` says this once.  What is left for each command is to
name its format; that a message belongs to one command only is `Message.IsOf`, stated as a relation
so that no proof has to go through all pairs of commands and messages.

The checks of the writer are looked at in two directions, which are not inverse to each other.  A
message that passes them is readable if it is short enough, where the length stands for all the
fields whose size a check does not ask for.  And a message that is readable passes them, with the
exception of the ambiguous ones (`Message.isAmbiguous`): there the check looks at the inputs of a
transaction and not at its outputs.

What the checks leave to the length of the payload are the texts of an introduction and a rejection,
the hashes and flags of a merkle block, and everything inside a transaction but its inputs and
witnesses as such.  All of these have a size or a count in front, which could say more than a frame
can hold, and none of them is looked at before it is written; the lemmas of the first section say
that such a field is no longer than the payload.

Other modules cite `Message.decode_eq_ok_iff`, `Message.decode_of_check` and
`Message.check_of_readable`, and know nothing of the formats.  A change to a format is a change to
its lemma in `Bitcoin.Proofs.Message.Formats` or `Bitcoin.Proofs.Message.Transaction`; a new command
is one case in each of the lists below.
-/

set_option autoImplicit false

namespace Bitcoin

open Reader Stateful

/-! ## What is short enough fits -/

theorem VersionMessage.length_userAgent_le (v : VersionMessage) :
    (Text.toUtf8 v.userAgent).length ≤ v.write.length := by
  have h := CompactSize.length_le_length_encodeBytes (Text.toUtf8 v.userAgent)
  simp only [VersionMessage.write, List.length_append]
  omega

theorem RejectMessage.length_message_le (r : RejectMessage) :
    (Text.toUtf8 r.message).length ≤ r.write.length := by
  have h := CompactSize.length_le_length_encodeBytes (Text.toUtf8 r.message)
  simp only [RejectMessage.write, List.length_append]
  omega

theorem RejectMessage.length_reason_le (r : RejectMessage) :
    (Text.toUtf8 r.reason).length ≤ r.write.length := by
  have h := CompactSize.length_le_length_encodeBytes (Text.toUtf8 r.reason)
  simp only [RejectMessage.write, List.length_append]
  omega

theorem MerkleBlock.length_hashes_le (merkle : MerkleBlock) :
    merkle.hashes.length ≤ merkle.write.length := by
  have hhash : ∀ hash : Hash256, 0 < hash.toBytes.length := by simp
  have h := CompactSize.length_le_length_encodeList hhash merkle.hashes
  simp only [MerkleBlock.write, List.length_append]
  omega

theorem MerkleBlock.length_flags_le (merkle : MerkleBlock) :
    merkle.flags.length ≤ merkle.write.length := by
  have h := CompactSize.length_le_length_encodeBytes merkle.flags
  simp only [MerkleBlock.write, List.length_append]
  omega

theorem Block.length_transactions_le (b : Block) :
    (CompactSize.encodeList Transaction.write b.transactions).length ≤ b.write.length := by
  rw [Block.write, List.length_append]
  omega

/-! ## Transactions that pass their check -/

namespace Transaction

variable {protocol : ProtocolVersion} {tx : Transaction}

theorem length_write_pos (tx : Transaction) : 0 < tx.write.length := by
  rw [write_eq, List.length_append, Bytes.length_littleEndian]
  omega

theorem check_eq_ok_iff :
    tx.check protocol = .ok () ↔
      (tx.hasWitness → protocol.allowsWitness) ∧ (protocol.allowsWitness → tx.inputs ≠ []) := by
  rw [check]
  cases tx.hasWitness <;> cases protocol.allowsWitness <;> simp

theorem readable_of_check (hcheck : tx.check protocol = .ok ())
    (hlength : tx.write.length ≤ maxTransactionItems) : tx.Readable protocol := by
  obtain ⟨hwitness, hinputs⟩ := check_eq_ok_iff.1 hcheck
  exact ⟨fits_of_length_write hlength, hwitness,
    fun hallows hnone => absurd hnone (hinputs hallows)⟩

/-- A readable transaction has witnesses only where they are known, so the check can only find that
it has no inputs. -/
theorem Readable.check_eq (h : tx.Readable protocol) :
    tx.check protocol =
      if tx.inputs.isEmpty && protocol.allowsWitness then
        .error (.invalid .transactionWithoutInputs)
      else .ok () := by
  rw [check, if_neg]
  intro hwitness
  simp only [Bool.and_eq_true, Bool.not_eq_true'] at hwitness
  rw [h.witnessAllowed hwitness.1] at hwitness
  cases hwitness.2

end Transaction

namespace Message

/-- A peer of some protocol version reads the message from its payload. -/
def Readable (protocol : ProtocolVersion) : Message → Prop
  | version v => (Text.toUtf8 v.userAgent).length < CompactSize.limit
  | addr entries => entries.length ≤ AddressEntry.maxEntries
  | addrV2 entries =>
    entries.length ≤ PeerEntry.maxEntries ∧ ∀ entry ∈ entries, entry.address.check = .ok ()
  | inv items | getData items | notFound items =>
    items.length ≤ InventoryItem.maxEntries ∧ ∀ item ∈ items, item.kind.check = .ok ()
  | getBlocks locator | getHeaders locator => locator.hashes.length ≤ BlockLocator.maxEntries
  | headers hs => hs.length ≤ BlockHeader.maxEntries
  | block b =>
    b.transactions.length ≤ maxTransactionItems ∧ ∀ tx ∈ b.transactions, tx.Readable protocol
  | tx t => t.Readable protocol
  | ping nonce => nonce = none → protocol.needsPingNonce = false
  | filterLoad filter => filter.check = .ok ()
  | merkleBlock merkle =>
    merkle.hashes.length ≤ maxTransactionItems ∧ merkle.flags.length < CompactSize.limit
  | reject r =>
    (Text.toUtf8 r.message).length < CompactSize.limit ∧
      (Text.toUtf8 r.reason).length < CompactSize.limit
  | verack | pong _ | getAddr | sendAddrV2 | mempool | sendHeaders | feeFilter _ => True
  | unknown _ _ => False

/-- The transactions that a message carries. -/
def transactions : Message → List Transaction
  | block b => b.transactions
  | tx t => [t]
  | _ => []

/-- The message carries a transaction without inputs, and the peer knows witnesses: such a peer may
take the transaction for one with witnesses. -/
def isAmbiguous (protocol : ProtocolVersion) (message : Message) : Bool :=
  message.transactions.any fun tx => tx.inputs.isEmpty && protocol.allowsWitness

/-! ## Commands

A message belongs to one command or to none, and all messages of a command are made in one way. -/

/-- The messages that a command stands for, by what is in them.  This is `command?` the other way
round: from the command to the ways of making its messages. -/
def IsOf (message : Message) : Command → Prop
  | .version => ∃ v, version v = message
  | .verack => verack = message
  | .addr => ∃ entries, addr entries = message
  | .addrV2 => ∃ entries, addrV2 entries = message
  | .sendAddrV2 => sendAddrV2 = message
  | .getAddr => getAddr = message
  | .ping => ∃ nonce, ping nonce = message
  | .pong => ∃ nonce, pong nonce = message
  | .sendHeaders => sendHeaders = message
  | .feeFilter => ∃ feeRate, feeFilter feeRate = message
  | .reject => ∃ r, reject r = message
  | .inv => ∃ items, inv items = message
  | .getData => ∃ items, getData items = message
  | .notFound => ∃ items, notFound items = message
  | .getBlocks => ∃ locator, getBlocks locator = message
  | .getHeaders => ∃ locator, getHeaders locator = message
  | .headers => ∃ entries, headers entries = message
  | .block => ∃ b, block b = message
  | .tx => ∃ t, tx t = message
  | .mempool => mempool = message
  | .merkleBlock => ∃ merkle, merkleBlock merkle = message
  | .filterLoad => ∃ filter, filterLoad filter = message

/-- One way by cases on the message, which fixes the command, the other by cases on the command,
which fixes the message. -/
theorem command?_eq_some_iff {message : Message} {command : Command} :
    message.command? = some command ↔ message.IsOf command := by
  constructor
  · intro h
    cases message <;> cases h <;> first | exact ⟨_, rfl⟩ | rfl
  · intro h
    cases command with
    | verack | sendAddrV2 | getAddr | sendHeaders | mempool =>
      cases h
      rfl
    | _ =>
      obtain ⟨_, rfl⟩ := h
      rfl

theorem commandName_of_command? {message : Message} {command : Command}
    (h : message.command? = some command) : message.commandName = command.name := by
  cases message <;> cases h <;> rfl

/-- A message that has a payload has a command that is known. -/
theorem exists_command?_of_payload? {message : Message} {payload : Bytes}
    (h : message.payload? = some payload) : ∃ command, message.command? = some command := by
  cases message with
  | unknown command payload => cases h
  | _ => exact ⟨_, rfl⟩

/-! ## Reading -/

/-- The payload of a ping. -/
def writePing (nonce : Option UInt64) : Bytes :=
  match nonce with
  | none => []
  | some nonce => Bytes.littleEndian 8 nonce.toNat

theorem exactAtEnd_readPing (protocol : ProtocolVersion) :
    (readPing protocol).ExactAtEnd writePing
      fun nonce => nonce = none → protocol.needsPingNonce = false := by
  intro bytes nonce
  have hread : readPing protocol bytes =
      (if bytes.isEmpty && !protocol.needsPingNonce then return none
        else do
          let nonce ← Reader.u64 "ping: nonce"
          return some nonce : Reader (Option UInt64)) bytes := rfl
  rw [hread]
  split
  · next hempty =>
    simp only [Bool.and_eq_true, List.isEmpty_iff, Bool.not_eq_true'] at hempty
    obtain ⟨rfl, hneeds⟩ := hempty
    cases nonce with
    | none => simp [pure_apply, writePing, hneeds]
    | some nonce => simp [pure_apply, writePing, Bytes.littleEndian]
  · next hempty =>
    simp only [(exact_u64 _).bind_eq_ok_iff, pure_apply, EStateM.Result.ok.injEq, true_and]
    refine ⟨?_, ?_⟩
    · rintro ⟨nonce, _, rfl, rfl, rfl⟩
      exact ⟨by simp, by simp [writePing]⟩
    · rintro ⟨hnonce, rfl⟩
      cases nonce with
      | none => exact absurd (by simp [writePing, hnonce rfl]) hempty
      | some nonce => exact ⟨nonce, [], by simp [writePing], rfl, rfl⟩

section

variable {α : Type} {protocol : ProtocolVersion} {command : Command} {payload : Bytes}
  {message : Message}

/-- A command whose messages are made of what an exact reader gives. -/
theorem map_eq_ok_iff_of_exactAtEnd {make : α → Message} {reader : Reader α} {write : α → Bytes}
    {good : α → Prop} (h : reader.ExactAtEnd write good)
    (hgood : ∀ a, (make a).Readable protocol ↔ good a)
    (hwrite : ∀ a, (make a).payload? = some (write a)) :
    (make <$> reader) payload = .ok message [] ↔
      message.Readable protocol ∧ (∃ a, make a = message) ∧ message.payload? = some payload := by
  rw [Stateful.map_eq_ok_iff]
  refine ⟨?_, ?_⟩
  · rintro ⟨a, hread, rfl⟩
    obtain ⟨ha, rfl⟩ := (h _ _).1 hread
    exact ⟨(hgood a).2 ha, ⟨a, rfl⟩, hwrite a⟩
  · rintro ⟨hreadable, ⟨a, rfl⟩, hpayload⟩
    obtain rfl := Option.some.inj ((hwrite a).symm.trans hpayload)
    exact ⟨a, (h _ _).2 ⟨(hgood a).1 hreadable, rfl⟩, rfl⟩

/-- A command with a single message, which says nothing. -/
theorem pure_eq_ok_iff {only : Message} (hgood : only.Readable protocol)
    (hwrite : only.payload? = some []) :
    (pure only : Reader Message) payload = .ok message [] ↔
      message.Readable protocol ∧ only = message ∧ message.payload? = some payload := by
  rw [pure_apply, EStateM.Result.ok.injEq]
  refine ⟨?_, ?_⟩
  · rintro ⟨rfl, rfl⟩
    exact ⟨hgood, rfl, hwrite⟩
  · rintro ⟨-, rfl, hpayload⟩
    exact ⟨rfl, (Option.some.inj (hwrite.symm.trans hpayload)).symm⟩

/-- **A message is read from its own payload, if it is readable**, and from nothing else.  Each
command names its format, which is exact; that its messages are those with this command is said
once, by `IsOf`. -/
theorem read_eq_ok_iff :
    read protocol command payload = .ok message [] ↔
      message.Readable protocol ∧ message.command? = some command ∧
        message.payload? = some payload := by
  rw [command?_eq_some_iff]
  cases command with
  | version =>
    exact map_eq_ok_iff_of_exactAtEnd VersionMessage.exactAtEnd_read (fun _ => .rfl) (fun _ => rfl)
  | verack => exact pure_eq_ok_iff trivial rfl
  | addr =>
    exact map_eq_ok_iff_of_exactAtEnd AddressEntry.exact_readList.atEnd (fun _ => .rfl)
      (fun _ => rfl)
  | addrV2 =>
    exact map_eq_ok_iff_of_exactAtEnd PeerEntry.exact_readList.atEnd (fun _ => .rfl) (fun _ => rfl)
  | sendAddrV2 => exact pure_eq_ok_iff trivial rfl
  | getAddr => exact pure_eq_ok_iff trivial rfl
  | ping =>
    exact map_eq_ok_iff_of_exactAtEnd (exactAtEnd_readPing protocol) (fun _ => .rfl)
      (fun nonce => by cases nonce <;> rfl)
  | pong =>
    exact map_eq_ok_iff_of_exactAtEnd (exact_u64 _).atEnd (fun _ => .rfl) (fun _ => rfl)
  | sendHeaders => exact pure_eq_ok_iff trivial rfl
  | feeFilter =>
    exact map_eq_ok_iff_of_exactAtEnd (exact_i64 _).atEnd (fun _ => .rfl) (fun _ => rfl)
  | reject =>
    exact map_eq_ok_iff_of_exactAtEnd RejectMessage.exactAtEnd_read (fun _ => .rfl) (fun _ => rfl)
  | inv =>
    exact map_eq_ok_iff_of_exactAtEnd InventoryItem.exact_readList.atEnd (fun _ => .rfl)
      (fun _ => rfl)
  | getData =>
    exact map_eq_ok_iff_of_exactAtEnd InventoryItem.exact_readList.atEnd (fun _ => .rfl)
      (fun _ => rfl)
  | notFound =>
    exact map_eq_ok_iff_of_exactAtEnd InventoryItem.exact_readList.atEnd (fun _ => .rfl)
      (fun _ => rfl)
  | getBlocks =>
    exact map_eq_ok_iff_of_exactAtEnd BlockLocator.exact_read.atEnd (fun _ => .rfl) (fun _ => rfl)
  | getHeaders =>
    exact map_eq_ok_iff_of_exactAtEnd BlockLocator.exact_read.atEnd (fun _ => .rfl) (fun _ => rfl)
  | headers =>
    exact map_eq_ok_iff_of_exactAtEnd BlockHeader.exact_readList.atEnd (fun _ => .rfl)
      (fun _ => rfl)
  | block =>
    exact map_eq_ok_iff_of_exactAtEnd (Block.exact_read protocol).atEnd (fun _ => .rfl)
      (fun _ => rfl)
  | tx =>
    exact map_eq_ok_iff_of_exactAtEnd (Transaction.exact_read protocol).atEnd (fun _ => .rfl)
      (fun _ => rfl)
  | mempool => exact pure_eq_ok_iff trivial rfl
  | merkleBlock =>
    exact map_eq_ok_iff_of_exactAtEnd MerkleBlock.exact_read.atEnd (fun _ => .rfl) (fun _ => rfl)
  | filterLoad =>
    exact map_eq_ok_iff_of_exactAtEnd BloomFilter.exact_read.atEnd (fun _ => .rfl) (fun _ => rfl)

/-- **Decoding in one equivalence**, for the commands that are known. -/
theorem decode_eq_ok_iff {text : String} (hknown : Command.ofName? text = some command) :
    decode protocol text payload = .ok message ↔
      message.Readable protocol ∧ message.command? = some command ∧
        message.payload? = some payload := by
  rw [decode]
  rw [hknown]
  exact exactly_eq_ok_iff.trans read_eq_ok_iff

end

/-! ## What the writer checks -/

section

variable {α ε : Type} {protocol : ProtocolVersion} {message : Message} {payload : Bytes}

theorem toPayload_eq_ok_iff :
    message.toPayload protocol = .ok payload ↔
      message.check protocol = .ok () ∧ message.payload? = some payload := by
  rw [toPayload]
  cases message.check protocol with
  | error e => simp
  | ok _ => cases message.payload? <;> simp

theorem andThen_eq_ok_iff {x y : Except ε Unit} :
    (do x; y) = .ok () ↔ x = .ok () ∧ y = .ok () := by
  cases x with
  | error e => simp [bind, Except.bind]
  | ok _ => simp [bind, Except.bind]

theorem forM_eq_ok_iff {check : α → Except ε Unit} {xs : List α} :
    xs.forM check = .ok () ↔ ∀ x ∈ xs, check x = .ok () := by
  induction xs with
  | nil => simp [pure, Except.pure]
  | cons x xs ih =>
    simp only [List.forM_eq_forM, List.forM_cons, List.forall_mem_cons] at ih ⊢
    rw [← ih]
    exact andThen_eq_ok_iff

/-- Checks that know a single error refuse a list with that error. -/
theorem forM_eq_ite {check : α → Except ε Unit} {refuses : α → Bool} {e : ε} {xs : List α}
    (h : ∀ x ∈ xs, check x = if refuses x then .error e else .ok ()) :
    xs.forM check = if xs.any refuses then .error e else .ok () := by
  induction xs with
  | nil => rfl
  | cons x xs ih =>
    simp only [List.forM_eq_forM, List.forM_cons, List.forall_mem_cons, List.any_cons] at ih h ⊢
    rw [h.1, ih h.2]
    by_cases hx : refuses x <;> simp [hx, bind, Except.bind]

theorem checkCount_eq_ok_iff {field : String} {max : Nat} {entries : List α} :
    checkCount field max entries = .ok () ↔ entries.length ≤ max := by
  rw [checkCount]
  split <;> simp <;> omega

theorem checkInventory_eq_ok_iff {items : List InventoryItem} :
    checkInventory items = .ok () ↔
      items.length ≤ InventoryItem.maxEntries ∧ ∀ item ∈ items, item.kind.check = .ok () := by
  rw [checkInventory, andThen_eq_ok_iff, checkCount_eq_ok_iff, forM_eq_ok_iff]

/-- **What passes the checks is read back**, if the payload is short enough for a frame.  The checks
are about the limits of the formats, and the length of the payload is about the fields. -/
theorem readable_of_check (hcheck : message.check protocol = .ok ())
    (hpayload : message.payload? = some payload) (hlength : payload.length ≤ maxPayloadLength) :
    message.Readable protocol := by
  have hmax : maxPayloadLength ≤ maxTransactionItems ∧ maxTransactionItems < CompactSize.limit := by
    decide
  cases message with
  | version v =>
    cases hpayload
    exact Nat.lt_of_le_of_lt v.length_userAgent_le (by omega)
  | addr entries => exact checkCount_eq_ok_iff.1 hcheck
  | addrV2 entries =>
    obtain ⟨hcount, hentries⟩ := andThen_eq_ok_iff.1 hcheck
    exact ⟨checkCount_eq_ok_iff.1 hcount, forM_eq_ok_iff.1 hentries⟩
  | inv items => exact checkInventory_eq_ok_iff.1 hcheck
  | getData items => exact checkInventory_eq_ok_iff.1 hcheck
  | notFound items => exact checkInventory_eq_ok_iff.1 hcheck
  | getBlocks locator => exact checkCount_eq_ok_iff.1 hcheck
  | getHeaders locator => exact checkCount_eq_ok_iff.1 hcheck
  | headers hs => exact checkCount_eq_ok_iff.1 hcheck
  | block b =>
    cases hpayload
    have hwhole := b.length_transactions_le
    have hcount :=
      CompactSize.length_le_length_encodeList Transaction.length_write_pos b.transactions
    refine ⟨by omega, fun tx htx =>
      Transaction.readable_of_check (forM_eq_ok_iff.1 hcheck tx htx) ?_⟩
    have htx := CompactSize.length_item_le_length_encodeList Transaction.write htx
    omega
  | tx t =>
    cases hpayload
    exact Transaction.readable_of_check hcheck (by omega)
  | ping nonce =>
    rintro rfl
    cases hneeds : protocol.needsPingNonce with
    | false => rfl
    | true =>
      simp [check, hneeds] at hcheck
  | filterLoad filter => exact hcheck
  | merkleBlock merkle =>
    cases hpayload
    have hhashes := merkle.length_hashes_le
    have hflags := merkle.length_flags_le
    exact ⟨by omega, by omega⟩
  | reject r =>
    cases hpayload
    have hmessage := r.length_message_le
    have hreason := r.length_reason_le
    exact ⟨by omega, by omega⟩
  | verack => trivial
  | pong nonce => trivial
  | getAddr => trivial
  | sendAddrV2 => trivial
  | mempool => trivial
  | sendHeaders => trivial
  | feeFilter feeRate => trivial
  | unknown command payload => cases hpayload

theorem decode_of_check (hcheck : message.check protocol = .ok ())
    (hpayload : message.payload? = some payload) (hlength : payload.length ≤ maxPayloadLength) :
    decode protocol message.commandName payload = .ok message := by
  obtain ⟨known, hcommand⟩ := exists_command?_of_payload? hpayload
  have hknown : Command.ofName? message.commandName = some known := by
    rw [commandName_of_command? hcommand, Command.ofName?_name]
  exact (decode_eq_ok_iff hknown).2
    ⟨readable_of_check hcheck hpayload hlength, hcommand, hpayload⟩

theorem readable_of_mem_transactions (h : message.Readable protocol) {tx : Transaction}
    (htx : tx ∈ message.transactions) : tx.Readable protocol := by
  cases message with
  | block b => exact h.2 tx htx
  | tx t =>
    obtain rfl := List.mem_singleton.1 htx
    exact h
  | _ => cases htx

/-- **The one readable thing that is not written** is a transaction without inputs, where witnesses
are known.  It has no outputs either, so it would be read back, and the check that is made for those
that would not be refuses it with them. -/
theorem check_of_readable (h : message.Readable protocol) :
    message.check protocol =
      if message.isAmbiguous protocol then .error (.invalid .transactionWithoutInputs)
      else .ok () := by
  cases message with
  | version v => rfl
  | addr entries => exact checkCount_eq_ok_iff.2 h
  | addrV2 entries => exact andThen_eq_ok_iff.2 ⟨checkCount_eq_ok_iff.2 h.1, forM_eq_ok_iff.2 h.2⟩
  | inv items => exact checkInventory_eq_ok_iff.2 h
  | getData items => exact checkInventory_eq_ok_iff.2 h
  | notFound items => exact checkInventory_eq_ok_iff.2 h
  | getBlocks locator => exact checkCount_eq_ok_iff.2 h
  | getHeaders locator => exact checkCount_eq_ok_iff.2 h
  | headers hs => exact checkCount_eq_ok_iff.2 h
  | block b => exact forM_eq_ite fun tx htx => (h.2 tx htx).check_eq
  | tx t =>
    rw [isAmbiguous, transactions, List.any_cons, List.any_nil, Bool.or_false]
    exact h.check_eq
  | ping nonce =>
    cases nonce with
    | none =>
      rw [check, if_neg (by simp [h rfl])]
      rfl
    | some nonce => rfl
  | filterLoad filter => exact h
  | merkleBlock merkle => rfl
  | reject r => rfl
  | verack => rfl
  | pong nonce => rfl
  | getAddr => rfl
  | sendAddrV2 => rfl
  | mempool => rfl
  | sendHeaders => rfl
  | feeFilter feeRate => rfl
  | unknown command payload => cases h

end

end Message

end Bitcoin
