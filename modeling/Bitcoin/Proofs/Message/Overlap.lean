import Bitcoin.Proofs.Message.Readable

/-!
# Where the two formats overlap

Peers that do not know witnesses read transactions in the plain format only, and newer peers read
both formats.  So the same payload goes through two readers, and they take different ways wherever
the number of inputs is zero.

* `Transaction.readable_newer` and `Transaction.readable_older` say which transactions are read on
  both sides: of those that an older peer reads, the ones with an input, and of those that a newer
  peer reads, the ones without witnesses.
* `Message.formats_agree` is the same for payloads: all that an older peer reads a newer one reads
  alike, if every transaction has an input, and all that a newer peer reads an older one reads
  alike, if no transaction has a witness.

A message is read from its own payload only, so there is no need to follow the readers through a
block: that the first transaction ends in the same place on both sides is part of
`Block.exact_read`.

Neither condition can be dropped.  The bytes that an older peer reads as a transaction without
inputs may be a transaction with a witness for a newer one, and nothing in the payload says which
was meant: the example at the end is a payload with both meanings.
-/

set_option autoImplicit false

namespace Bitcoin

namespace ProtocolVersion

theorem allowsWitness_of_le {version : ProtocolVersion} (h : firstWithWitness ≤ version) :
    version.allowsWitness = true :=
  decide_eq_true h

theorem allowsWitness_of_lt {version : ProtocolVersion} (h : version < firstWithWitness) :
    version.allowsWitness = false :=
  decide_eq_false (Int32.not_le.2 h)

end ProtocolVersion

namespace Transaction

variable {older newer : ProtocolVersion} {tx : Transaction}

/-- With an input, the number of inputs is not taken for the mark of the other format. -/
theorem readable_newer (hnewer : newer.allowsWitness = true) (h : tx.Readable older)
    (hinputs : tx.inputs ≠ []) : tx.Readable newer :=
  ⟨h.toFits, fun _ => hnewer, fun _ hnone => absurd hnone hinputs⟩

/-- Without a witness, the other format is not used. -/
theorem readable_older (holder : older.allowsWitness = false) (h : tx.Readable newer)
    (hwitness : tx.hasWitness = false) : tx.Readable older := by
  refine ⟨h.toFits, fun hsome => ?_, fun hallows => ?_⟩
  · rw [hwitness] at hsome
    cases hsome
  · rw [holder] at hallows
    cases hallows

end Transaction

namespace Message

variable {protocol older newer : ProtocolVersion} {known : Command} {payload : Bytes}
  {message : Message}

/-- For the messages that consist of transactions, the protocol version matters in the transactions
only. -/
theorem readable_iff_transactions (hcommand : known = .tx ∨ known = .block)
    (h : message.command? = some known) :
    message.Readable protocol ↔
      message.transactions.length ≤ maxTransactionItems ∧
        ∀ tx ∈ message.transactions, tx.Readable protocol := by
  rcases hcommand with rfl | rfl
  · cases message <;> cases h
    next t =>
      have hlength : 1 ≤ maxTransactionItems := by decide
      simpa [Readable, transactions] using fun _ => hlength
  · cases message <;> cases h
    rfl

/-- Such a message is read by any other peer that can read its transactions. -/
theorem decode_of_transactions (hcommand : known = .tx ∨ known = .block)
    (h : decode older known.name payload = .ok message)
    (htransactions : ∀ tx ∈ message.transactions, tx.Readable older → tx.Readable newer) :
    decode newer known.name payload = .ok message := by
  have hknown := Command.ofName?_name known
  obtain ⟨hreadable, hmessage, hpayload⟩ := (decode_eq_ok_iff hknown).1 h
  obtain ⟨hcount, hall⟩ := (readable_iff_transactions hcommand hmessage).1 hreadable
  refine (decode_eq_ok_iff hknown).2 ⟨?_, hmessage, hpayload⟩
  exact (readable_iff_transactions hcommand hmessage).2
    ⟨hcount, fun tx htx => htransactions tx htx (hall tx htx)⟩

/-- **The two formats agree where they overlap.**  What a peer that knows no witnesses reads in the
payload of a transaction or a block, a peer that knows them reads there too, if every transaction
has an input; and the other way round, if no transaction has a witness. -/
theorem formats_agree (holder : older < .firstWithWitness) (hnewer : .firstWithWitness ≤ newer)
    (hcommand : known = .tx ∨ known = .block) :
    (decode older known.name payload = .ok message →
        (∀ tx ∈ message.transactions, tx.inputs ≠ []) →
        decode newer known.name payload = .ok message) ∧
      (decode newer known.name payload = .ok message →
        (∀ tx ∈ message.transactions, tx.hasWitness = false) →
        decode older known.name payload = .ok message) := by
  have hforbids := ProtocolVersion.allowsWitness_of_lt holder
  have hallows := ProtocolVersion.allowsWitness_of_le hnewer
  refine ⟨fun h hinputs => ?_, fun h hwitness => ?_⟩
  · exact decode_of_transactions hcommand h fun tx htx hreadable =>
      Transaction.readable_newer hallows hreadable (hinputs tx htx)
  · exact decode_of_transactions hcommand h fun tx htx hreadable =>
      Transaction.readable_older hforbids hreadable (hwitness tx htx)

/-- A block whose transaction has one input and no outputs. -/
def blockSpendingOne : Block := ⟨default, [⟨1, [⟨.null, [], 0, []⟩], [], 0⟩]⟩

/-- It is read by peers of the last version without witnesses and the first one with them. -/
theorem formats_agree_blockSpendingOne :
    decode 70011 "block" blockSpendingOne.write = .ok (block blockSpendingOne) ∧
      decode 70012 "block" blockSpendingOne.write = .ok (block blockSpendingOne) := by
  have hagree := @formats_agree 70011 70012 .block blockSpendingOne.write (block blockSpendingOne)
    (by decide) (by decide) (.inr rfl)
  have holder : decode 70011 "block" blockSpendingOne.write = .ok (block blockSpendingOne) := by
    decide +kernel
  have hnewer := hagree.1 holder (by decide)
  exact ⟨hagree.2 hnewer (by decide), hnewer⟩

/-- Without inputs the formats need not agree: here an older peer reads an output with a long
script, and a newer one reads an input with a witness and no outputs. -/
example :
    let payload : Bytes := [1, 0, 0, 0, 0, 1, 1] ++ Bytes.zeros 7 ++ [37] ++ Bytes.zeros 34 ++
      [1, 1, 7, 0, 0, 0, 0]
    decode 70011 "tx" payload =
        .ok (tx ⟨1, [], [⟨1, Bytes.zeros 34 ++ [1, 1, 7]⟩], 0⟩) ∧
      decode 70012 "tx" payload =
        .ok (tx ⟨1, [⟨⟨⟨Bytes.zeros 7 ++ [37] ++ Bytes.zeros 24, rfl⟩, 0⟩, [], 0, [[7]]⟩], [], 0⟩) := by
  decide +kernel

end Message

end Bitcoin
