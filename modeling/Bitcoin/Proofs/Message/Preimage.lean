import Bitcoin.Proofs.Message.Transaction

/-!
# What the name of a transaction is made of

The name of a transaction is the hash of its plain format.  The plain format leaves the witnesses
out, and says everything else: two transactions that agree in it differ in witnesses only.

* `Transaction.txid_eq_doubleSha256` says what is hashed, and
  `Transaction.txid_eq_doubleSha256_write_bare` that it is what a peer is sent of the transaction
  once its witnesses are taken away.
* `Transaction.writePlain_bare` and `Transaction.txid_bare` say that the witnesses are left out.
* `Transaction.writePlain_eq_iff` takes the plain format apart, field by field.
* `Transaction.preimage_determines` puts both together.

The fields have readers that are exact, so each of them ends in one place only
(`Reader.Exact.append_inj_iff`).  The reader of whole transactions is of no use here: it refuses
counts that still have a compact size, and may take the plain format for the other one.
-/

set_option autoImplicit false

namespace Bitcoin.Transaction

open Reader

/-- A transaction without its witnesses. -/
def bare (tx : Transaction) : Transaction := { tx with inputs := tx.inputs.map TxInput.bare }

/-- Every length that the plain format says has a compact size. -/
structure HasSizes (tx : Transaction) : Prop where
  inputs : tx.inputs.length < CompactSize.limit
  outputs : tx.outputs.length < CompactSize.limit
  inputScripts : ∀ input ∈ tx.inputs, input.script.length < CompactSize.limit
  outputScripts : ∀ output ∈ tx.outputs, output.script.length < CompactSize.limit

variable {a b : Transaction}

theorem bare_eq_iff :
    a.bare = b.bare ↔
      a.version = b.version ∧ a.inputs.map TxInput.bare = b.inputs.map TxInput.bare ∧
        a.outputs = b.outputs ∧ a.lockTime = b.lockTime := by
  rw [bare, bare, mk.injEq]

/-! ## The witnesses are left out -/

theorem writePlain_bare (tx : Transaction) : tx.bare.writePlain = tx.writePlain := by
  rw [writePlain, writePlain, writeSpending, writeSpending, bare, encodeList_map_bare]

/-- The plain format is what is hashed. -/
theorem txid_eq_doubleSha256 (tx : Transaction) : tx.txid = doubleSha256 tx.writePlain := rfl

theorem txid_bare (tx : Transaction) : tx.bare.txid = tx.txid := by
  rw [txid_eq_doubleSha256, txid_eq_doubleSha256, writePlain_bare]

theorem hasWitness_bare (tx : Transaction) : tx.bare.hasWitness = false := by
  refine hasWitness_eq_false_iff.2 fun input hinput => ?_
  obtain ⟨full, -, rfl⟩ := List.mem_map.1 hinput
  rfl

/-- **The name of a transaction is the hash of what is written of it without its witnesses.**  So a
transaction has one name, whether it is sent with its witnesses or without. -/
theorem txid_eq_doubleSha256_write_bare (tx : Transaction) :
    tx.txid = doubleSha256 tx.bare.write := by
  rw [write, if_neg (by simp [hasWitness_bare]), writePlain_bare, txid_eq_doubleSha256]

/-! ## Nothing else is -/

theorem HasSizes.bareInputs (h : a.HasSizes) :
    (a.inputs.map TxInput.bare).length < CompactSize.limit ∧
      ∀ input ∈ a.inputs.map TxInput.bare,
        input.script.length < CompactSize.limit ∧ input.witness = [] := by
  refine ⟨by simpa using h.inputs, fun input hinput => ?_⟩
  obtain ⟨full, hfull, rfl⟩ := List.mem_map.1 hinput
  exact ⟨h.inputScripts full hfull, rfl⟩

/-- The plain format of a transaction, as fields that stand one behind the other. -/
theorem writePlain_eq (tx : Transaction) :
    tx.writePlain =
      Bytes.littleEndian 4 tx.version.toUInt32.toNat ++
        (CompactSize.encodeList TxInput.write (tx.inputs.map TxInput.bare) ++
          (CompactSize.encodeList TxOutput.write tx.outputs ++
            (Bytes.littleEndian 4 tx.lockTime.toNat ++ []))) := by
  simp [writePlain, writeSpending, encodeList_map_bare]

theorem writePlain_eq_iff (ha : a.HasSizes) (hb : b.HasSizes) :
    a.writePlain = b.writePlain ↔
      a.version = b.version ∧ a.inputs.map TxInput.bare = b.inputs.map TxInput.bare ∧
        a.outputs = b.outputs ∧ a.lockTime = b.lockTime := by
  have hinputs := encodeList_append_inj_iff TxInput.exact_read ha.bareInputs hb.bareInputs
  have houtputs := encodeList_append_inj_iff TxOutput.exact_read ⟨ha.outputs, ha.outputScripts⟩
    ⟨hb.outputs, hb.outputScripts⟩
  rw [writePlain_eq, writePlain_eq, (exact_i32 "").append_inj_iff trivial trivial, hinputs, houtputs,
    (exact_u32 "").append_inj_iff trivial trivial, and_iff_left (rfl : ([] : Bytes) = [])]

/-- **The plain format stands for all of a transaction but its witnesses.**  Two transactions have
the same plain format just if they are equal without their witnesses, and then they have one name.
-/
theorem preimage_determines (ha : a.HasSizes) (hb : b.HasSizes) :
    (a.writePlain = b.writePlain ↔ a.bare = b.bare) ∧ (a.bare = b.bare → a.txid = b.txid) := by
  refine ⟨(writePlain_eq_iff ha hb).trans bare_eq_iff.symm, fun h => ?_⟩
  rw [← txid_bare a, h, txid_bare]

/-- A transaction with a witness. -/
def withWitness : Transaction := ⟨1, [⟨.null, [7], 0, [[1, 2]]⟩], [⟨5, [9]⟩], 0⟩

/-- The same transaction with a byte of the input's script in its witness. -/
def withShorterScript : Transaction := ⟨1, [⟨.null, [], 0, [[1, 2], [7]]⟩], [⟨5, [9]⟩], 0⟩

/-- Without its witness the transaction keeps its name, and with another script it has another plain
format. -/
theorem preimage_determines_withWitness :
    withWitness.txid = withWitness.bare.txid ∧
      withWitness.writePlain ≠ withShorterScript.writePlain := by
  have hsizes : withWitness.HasSizes := by constructor <;> decide
  have hbare : withWitness.bare.HasSizes := by constructor <;> decide
  have hshorter : withShorterScript.HasSizes := by constructor <;> decide
  refine ⟨(preimage_determines hsizes hbare).2 (by decide), fun heq => ?_⟩
  have h : withWitness.bare = withShorterScript.bare :=
    (preimage_determines hsizes hshorter).1.1 heq
  exact absurd h (by decide)

end Bitcoin.Transaction
