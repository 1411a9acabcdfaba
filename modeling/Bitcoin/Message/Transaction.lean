import Bitcoin.Digest
import Bitcoin.Payload.Reader
import Bitcoin.Protocol

/-!
# Transactions

A transaction is written in one of two formats.  The plain format has version, inputs, outputs and
lock time.  The format with witnesses puts a zero and a one byte behind the version and the
witnesses of all inputs in front of the lock time; it is used if some input has a witness.  The zero
byte stands where the plain format has the number of inputs, so that a peer that knows witnesses
takes a transaction without inputs for one with witnesses.

* `writePlain` and `writeWithWitness` are the two formats, `write` chooses between them.
* `read` reads both, if the protocol version allows it.
* `txid` is the hash of the plain format, whatever the witnesses are.
* `check` refuses what would not be read back, and one transaction that would.

The flag behind the zero is a set of bits, and only the lowest of them has a meaning.
`readSections` reads what the set bits announce before it looks at the others, so a payload that is
too short is told to be too short, whatever its flag.
-/

set_option autoImplicit false

namespace Bitcoin

/-- An output of an earlier transaction. -/
structure OutPoint where
  txid : Hash256
  index : UInt32
deriving DecidableEq, Inhabited

namespace OutPoint

/-- What the input of a coinbase refers to. -/
def null : OutPoint := ⟨.zero 32, 0xFFFFFFFF⟩

/-- The transaction, and the place of the output in it. -/
def write (outpoint : OutPoint) : Bytes :=
  outpoint.txid.toBytes ++ Bytes.littleEndian 4 outpoint.index.toNat

/-- Reads which output is meant. -/
def read : Reader OutPoint := do
  let txid ← Reader.fixed 32 "outpoint: txid"
  let index ← Reader.u32 "outpoint: vout"
  return ⟨txid, index⟩

end OutPoint

/-- What a transaction spends.  The witness is a list of runs of bytes, empty if there is none. -/
structure TxInput where
  previous : OutPoint
  script : Bytes
  sequence : UInt32
  witness : List Bytes
deriving DecidableEq, Inhabited

/-- What a transaction pays. -/
structure TxOutput where
  value : Int64
  script : Bytes
deriving DecidableEq, Inhabited

/-- A transaction; scripts are runs of bytes. -/
structure Transaction where
  version : Int32
  inputs : List TxInput
  outputs : List TxOutput
  lockTime : UInt32
deriving DecidableEq, Inhabited

/-- Counts inside a transaction have no limit but that of a 32-bit number. -/
def maxTransactionItems : Nat := 0xFFFFFFFF

namespace TxInput

/-- An input without its witness. -/
def write (input : TxInput) : Bytes :=
  input.previous.write ++ CompactSize.encodeBytes input.script ++
    Bytes.littleEndian 4 input.sequence.toNat

/-- Reads an input as both formats have it: the witness, if there is one, comes later. -/
def read : Reader TxInput := do
  let previous ← OutPoint.read
  let script ← Reader.varBytes "tx: script_sig"
  let sequence ← Reader.u32 "tx: sequence"
  return ⟨previous, script, sequence, []⟩

/-- The witness of an input. -/
def writeWitness (input : TxInput) : Bytes :=
  CompactSize.encodeList CompactSize.encodeBytes input.witness

/-- Reads the witness of an input that was read without it. -/
def readWitness (input : TxInput) : Reader TxInput := do
  let witness ←
    Reader.list "tx: witness item count" maxTransactionItems (Reader.varBytes "tx: witness item")
  return { input with witness }

/-- Whether the input has a witness. -/
def hasWitness (input : TxInput) : Bool := !input.witness.isEmpty

end TxInput

namespace TxOutput

/-- The amount, and the script behind its length. -/
def write (output : TxOutput) : Bytes :=
  Bytes.littleEndian 8 output.value.toUInt64.toNat ++ CompactSize.encodeBytes output.script

/-- Reads an output.  The amount may be any number of eight bytes, also a negative one. -/
def read : Reader TxOutput := do
  let value ← Reader.i64 "tx: value"
  let script ← Reader.varBytes "tx: script_pubkey"
  return ⟨value, script⟩

end TxOutput

namespace Transaction

/-- Whether some input has a witness. -/
def hasWitness (tx : Transaction) : Bool := tx.inputs.any TxInput.hasWitness

/-- Whether the transaction creates coins: its only input refers to nothing. -/
def isCoinbase (tx : Transaction) : Bool :=
  match tx.inputs with
  | [input] => decide (input.previous = OutPoint.null)
  | _ => false

/-! ## Writing -/

/-- The inputs and outputs, which both formats have. -/
def writeSpending (tx : Transaction) : Bytes :=
  CompactSize.encodeList TxInput.write tx.inputs ++ CompactSize.encodeList TxOutput.write tx.outputs

/-- The plain format. -/
def writePlain (tx : Transaction) : Bytes :=
  Bytes.littleEndian 4 tx.version.toUInt32.toNat ++ tx.writeSpending ++
    Bytes.littleEndian 4 tx.lockTime.toNat

/-- The format with witnesses. -/
def writeWithWitness (tx : Transaction) : Bytes :=
  Bytes.littleEndian 4 tx.version.toUInt32.toNat ++ [0, 1] ++ tx.writeSpending ++
    tx.inputs.flatMap TxInput.writeWitness ++ Bytes.littleEndian 4 tx.lockTime.toNat

/-- The format with witnesses if there are any. -/
def write (tx : Transaction) : Bytes := if tx.hasWitness then tx.writeWithWitness else tx.writePlain

/-- The name of the transaction. -/
def txid (tx : Transaction) : Hash256 := doubleSha256 tx.writePlain

/-! ## Reading -/

/-- Reads inputs behind their number. -/
def readInputs : Reader (List TxInput) :=
  Reader.list "tx: input count" maxTransactionItems TxInput.read

/-- Reads outputs behind their number. -/
def readOutputs : Reader (List TxOutput) :=
  Reader.list "tx: output count" maxTransactionItems TxOutput.read

/-- Reads the witnesses of all inputs, of which at least one has to be there. -/
def readWitnesses (inputs : List TxInput) : Reader (List TxInput) := do
  let inputs ← inputs.mapM TxInput.readWitness
  if inputs.any TxInput.hasWitness then return inputs else Reader.refuse .superfluousWitness

/-- Reads the sections that the flags behind an empty list of inputs announce: none for zero, inputs
and outputs for any other flags, and witnesses for the lowest of them.  Other flags are known to
nobody. -/
def readSections : Reader (List TxInput × List TxOutput) := do
  let flags ← Reader.u8 "tx: segwit flag"
  if flags = 0 then return ([], [])
  else
    let inputs ← readInputs
    let outputs ← readOutputs
    let inputs ← if flags &&& 1 = 1 then readWitnesses inputs else pure inputs
    if flags = 1 then return (inputs, outputs) else Reader.refuse .unknownTransactionSections

/-- Reads inputs and outputs in either format. -/
def readSpending (protocol : ProtocolVersion) : Reader (List TxInput × List TxOutput) := do
  let inputs ← readInputs
  if inputs.isEmpty && protocol.allowsWitness then readSections
  else
    let outputs ← readOutputs
    return (inputs, outputs)

/-- Reads a transaction in either format. -/
def read (protocol : ProtocolVersion) : Reader Transaction := do
  let version ← Reader.i32 "tx: version"
  let (inputs, outputs) ← readSpending protocol
  let lockTime ← Reader.u32 "tx: lock_time"
  return ⟨version, inputs, outputs, lockTime⟩

/-- A transaction with witnesses is not understood by an older peer, and one without inputs is taken
for one with witnesses by a newer one.  The outputs are not looked at, though without any of them
either a newer peer reads such a transaction as it is. -/
def check (protocol : ProtocolVersion) (tx : Transaction) : Except PayloadError Unit :=
  if tx.hasWitness && !protocol.allowsWitness then .error (.invalid .witnessNotUnderstood)
  else if tx.inputs.isEmpty && protocol.allowsWitness then
    .error (.invalid .transactionWithoutInputs)
  else .ok ()

end Transaction

end Bitcoin
