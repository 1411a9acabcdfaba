import Bitcoin.Proofs.Message.Formats

/-!
# Both formats of a transaction are exact

A transaction has two formats, and a reader tells them apart by the bytes behind the version.  Where
the plain format has the number of inputs the other one has a zero, so a transaction without inputs
is in the way: its plain format begins like the other one.

* `Transaction.Readable` says which transactions are read back from what is written of them.  Apart
  from lengths that fit, the witnesses must be allowed, and **a peer that knows witnesses reads a
  transaction without inputs only if it has no outputs either**: the zero that stands for their
  number then says that no section follows.
* `Transaction.exact_read` says that these are all the transactions that are ever read.
* `Block.exact_read` and `MerkleBlock.exact_read` follow for what holds transactions or names them.

The reader does not know which format it has before it.  It reads the number of inputs; if that is
zero and the peer knows witnesses, the byte behind it is taken for a flag, and what follows for
sections.  `Transaction.readSections_eq_ok_iff` is the whole of that branch, and shows that only two
flags can lead to a transaction: one, with inputs, outputs and at least one witness that is not
empty, and zero, with nothing at all.  The second is the transaction without inputs and outputs,
whose plain format happens to be read in this way and whose spelling is the same in both.

An exact reader has one spelling for a value, and here there seem to be two, since a transaction
with no witness could be sent in the longer format as well.  It is refused: the longer format must
have a witness, or it would not have been used.  That is the last condition in
`Transaction.exact_readWitnesses`.

The witnesses are read when all inputs and outputs are there, each for an input that has been read
without its own.  So they are told by a reader for each input (`TxInput.exact_readWitness`), and
`TxInput.bare` is what the two readings of an input have in common.

The lengths need a word.  A count is refused above a limit that is far below what its field can
hold, and the length of a script is not.  A payload that fits in a frame is too short for either to
matter (`Transaction.fits_of_length_write`), since each item takes up a byte at least.

The two formats, with a bar between the fields:

```
plain            version | inputs | outputs | lock time
with witnesses   version | 0 | flags | inputs | outputs | witnesses | lock time
```

What stands between the version and the lock time is `Transaction.writeSections`.  The two fields
around it are the same in both formats, so `Transaction.readSpending_eq_ok_iff` is where the formats
are told apart, and `Transaction.exact_read` only adds the fields.
-/

set_option autoImplicit false

namespace Bitcoin

open Reader Stateful

theorem OutPoint.exact_read : OutPoint.read.Exact OutPoint.write fun _ => True := by
  intro bytes outpoint rest
  simp only [OutPoint.read, (exact_fixed _ _).bind_eq_ok_iff, (exact_u32 _).bind_eq_ok_iff,
    pure_apply, EStateM.Result.ok.injEq, true_and]
  refine ⟨?_, ?_⟩
  · rintro ⟨txid, _, rfl, index, _, rfl, rfl, rfl⟩
    simp [OutPoint.write]
  · rintro rfl
    simp only [OutPoint.write, List.append_assoc]
    exact ⟨_, _, rfl, _, _, rfl, rfl, rfl⟩

theorem TxOutput.exact_read :
    TxOutput.read.Exact TxOutput.write fun output => output.script.length < CompactSize.limit := by
  intro bytes output rest
  simp only [TxOutput.read, (exact_i64 _).bind_eq_ok_iff, (exact_varBytes _).bind_eq_ok_iff,
    pure_apply, EStateM.Result.ok.injEq, true_and]
  refine ⟨?_, ?_⟩
  · rintro ⟨value, _, rfl, script, _, ⟨hscript, rfl⟩, rfl, rfl⟩
    exact ⟨hscript, by simp [TxOutput.write]⟩
  · rintro ⟨hscript, rfl⟩
    simp only [TxOutput.write, List.append_assoc]
    exact ⟨_, _, rfl, _, _, ⟨hscript, rfl⟩, rfl, rfl⟩

/-! ## Inputs and their witnesses -/

namespace TxInput

/-- An input as it is read before the witnesses are. -/
def bare (input : TxInput) : TxInput := { input with witness := [] }

/-- The lengths inside a witness fit their fields. -/
structure WitnessFits (input : TxInput) : Prop where
  count : input.witness.length ≤ maxTransactionItems
  items : ∀ item ∈ input.witness, item.length < CompactSize.limit

theorem witnessFits_of_eq_nil {input : TxInput} (h : input.witness = []) : input.WitnessFits :=
  ⟨by simp [h], by simp [h]⟩

theorem witnessFits_of_length_writeWitness {input : TxInput}
    (h : input.writeWitness.length ≤ maxTransactionItems) : input.WitnessFits := by
  have hmax : maxTransactionItems < CompactSize.limit := by decide
  refine ⟨?_, ?_⟩
  · exact Nat.le_trans
      (CompactSize.length_le_length_encodeList CompactSize.length_encodeBytes_pos _) h
  · intro item hitem
    have hwritten : (CompactSize.encodeBytes item).length ≤ input.writeWitness.length :=
      CompactSize.length_item_le_length_encodeList _ hitem
    have hlength := CompactSize.length_le_length_encodeBytes item
    omega

theorem map_bare_eq_self {inputs : List TxInput} (h : ∀ input ∈ inputs, input.witness = []) :
    inputs.map bare = inputs := by
  rw [List.map_congr_left (g := id) fun input hinput => ?_, List.map_id]
  cases input
  obtain rfl := h _ hinput
  rfl

theorem exact_read :
    TxInput.read.Exact TxInput.write fun input =>
      input.script.length < CompactSize.limit ∧ input.witness = [] := by
  intro bytes input rest
  simp only [TxInput.read, OutPoint.exact_read.bind_eq_ok_iff, (exact_varBytes _).bind_eq_ok_iff,
    (exact_u32 _).bind_eq_ok_iff, pure_apply, EStateM.Result.ok.injEq, true_and]
  refine ⟨?_, ?_⟩
  · rintro ⟨previous, _, rfl, script, _, ⟨hscript, rfl⟩, sequence, _, rfl, rfl, rfl⟩
    exact ⟨⟨hscript, rfl⟩, by simp [TxInput.write]⟩
  · rintro ⟨⟨hscript, hwitness⟩, rfl⟩
    simp only [TxInput.write, List.append_assoc]
    refine ⟨_, _, rfl, _, _, ⟨hscript, rfl⟩, _, _, rfl, ?_, rfl⟩
    rw [← hwitness]

theorem exact_readWitness (input : TxInput) :
    (readWitness input).Exact writeWitness fun full =>
      full.bare = input.bare ∧ full.WitnessFits := by
  intro bytes full rest
  have hlist := exact_list (exact_varBytes "tx: witness item") "tx: witness item count"
    (show maxTransactionItems < CompactSize.limit by decide)
  simp only [readWitness, hlist.bind_eq_ok_iff, pure_apply, EStateM.Result.ok.injEq]
  refine ⟨?_, ?_⟩
  · rintro ⟨witness, _, ⟨⟨hcount, hitems⟩, rfl⟩, rfl, rfl⟩
    exact ⟨⟨rfl, hcount, hitems⟩, rfl⟩
  · rintro ⟨⟨hbare, hcount, hitems⟩, rfl⟩
    refine ⟨full.witness, rest, ⟨⟨hcount, hitems⟩, rfl⟩, ?_, rfl⟩
    cases full
    cases input
    cases hbare
    rfl

theorem forall₂_bare_iff {inputs full : List TxInput} :
    List.Forall₂ (fun input full => full.bare = input.bare ∧ full.WitnessFits) inputs full ↔
      full.map bare = inputs.map bare ∧ ∀ input ∈ full, input.WitnessFits := by
  induction inputs generalizing full with
  | nil => cases full <;> simp
  | cons input inputs ih =>
    cases full with
    | nil => simp
    | cons x full =>
      simp only [List.forall₂_cons, ih, List.map_cons, List.cons.injEq, List.forall_mem_cons]
      tauto

theorem length_write_pos (input : TxInput) : 0 < input.write.length := by
  rw [write, List.length_append, Bytes.length_littleEndian]
  omega

theorem length_script_le (input : TxInput) : input.script.length ≤ input.write.length := by
  have h := CompactSize.length_le_length_encodeBytes input.script
  simp only [write, List.length_append]
  omega

end TxInput

namespace TxOutput

theorem length_write_pos (output : TxOutput) : 0 < output.write.length := by
  rw [write, List.length_append, Bytes.length_littleEndian]
  omega

theorem length_script_le (output : TxOutput) : output.script.length ≤ output.write.length := by
  have h := CompactSize.length_le_length_encodeBytes output.script
  simp only [write, List.length_append]
  omega

end TxOutput

namespace Transaction

/-! ## Which transactions are read back -/

/-- The lengths inside a transaction fit their fields. -/
structure Fits (tx : Transaction) : Prop where
  inputs : tx.inputs.length ≤ maxTransactionItems
  outputs : tx.outputs.length ≤ maxTransactionItems
  inputScripts : ∀ input ∈ tx.inputs, input.script.length < CompactSize.limit
  outputScripts : ∀ output ∈ tx.outputs, output.script.length < CompactSize.limit
  witnesses : ∀ input ∈ tx.inputs, input.WitnessFits

theorem fits_of_eq_nil {tx : Transaction} (hinputs : tx.inputs = []) (houtputs : tx.outputs = []) :
    tx.Fits := by
  constructor <;> simp [hinputs, houtputs]

/-- A peer of some protocol version reads the transaction back. -/
structure Readable (protocol : ProtocolVersion) (tx : Transaction) : Prop extends Fits tx where
  witnessAllowed : tx.hasWitness → protocol.allowsWitness
  outputs_eq_nil : protocol.allowsWitness → tx.inputs = [] → tx.outputs = []

theorem hasWitness_eq_false_iff {tx : Transaction} :
    tx.hasWitness = false ↔ ∀ input ∈ tx.inputs, input.witness = [] := by
  simp [hasWitness, TxInput.hasWitness]

theorem hasWitness_of_inputs_eq_nil {tx : Transaction} (h : tx.inputs = []) :
    tx.hasWitness = false := by
  simp [hasWitness_eq_false_iff, h]

/-! ## The sections -/

/-- What stands between the version and the lock time. -/
def writeSections (tx : Transaction) : Bytes :=
  if tx.hasWitness then [0, 1] ++ tx.writeSpending ++ tx.inputs.flatMap TxInput.writeWitness
  else tx.writeSpending

theorem write_eq (tx : Transaction) :
    tx.write = Bytes.littleEndian 4 tx.version.toUInt32.toNat ++ tx.writeSections ++
      Bytes.littleEndian 4 tx.lockTime.toNat := by
  rw [write, writeSections]
  split
  · simp [writeWithWitness]
  · rfl

/-- The witnesses are not among the inputs that both formats have. -/
theorem encodeList_map_bare (inputs : List TxInput) :
    CompactSize.encodeList TxInput.write (inputs.map TxInput.bare) =
      CompactSize.encodeList TxInput.write inputs := by
  simp only [CompactSize.encodeList, List.length_map, List.flatMap_map]
  rfl

theorem exact_readInputs :
    readInputs.Exact (CompactSize.encodeList TxInput.write) fun inputs =>
      inputs.length ≤ maxTransactionItems ∧
        ∀ input ∈ inputs, input.script.length < CompactSize.limit ∧ input.witness = [] :=
  exact_list TxInput.exact_read _ (by decide)

theorem exact_readOutputs :
    readOutputs.Exact (CompactSize.encodeList TxOutput.write) fun outputs =>
      outputs.length ≤ maxTransactionItems ∧
        ∀ output ∈ outputs, output.script.length < CompactSize.limit :=
  exact_list TxOutput.exact_read _ (by decide)

theorem exact_readWitnesses (inputs : List TxInput) :
    (readWitnesses inputs).Exact (fun full => full.flatMap TxInput.writeWitness) fun full =>
      (full.map TxInput.bare = inputs.map TxInput.bare ∧ ∀ input ∈ full, input.WitnessFits) ∧
        full.any TxInput.hasWitness := by
  intro bytes full rest
  have hmapM := exact_mapM TxInput.exact_readWitness inputs
  simp only [readWitnesses, hmapM.bind_eq_ok_iff, TxInput.forall₂_bare_iff]
  refine ⟨?_, ?_⟩
  · rintro ⟨full, _, ⟨hfull, rfl⟩, h⟩
    split at h
    · next hany =>
      cases h
      exact ⟨⟨hfull, hany⟩, rfl⟩
    · cases h
  · rintro ⟨⟨hfull, hany⟩, rfl⟩
    exact ⟨full, rest, ⟨hfull, rfl⟩, by rw [if_pos hany]; rfl⟩

/-- **The sections behind an empty list of inputs.**  Only two flag bytes are ever accepted: zero,
which says that there is nothing, and one, which announces inputs, outputs and witnesses. -/
theorem readSections_eq_ok_iff {tx : Transaction} {bytes rest : Bytes} :
    readSections bytes = .ok (tx.inputs, tx.outputs) rest ↔
      (tx.inputs = [] ∧ tx.outputs = []) ∧ bytes = 0 :: rest ∨
      (tx.Fits ∧ tx.hasWitness) ∧
        bytes = 1 :: (tx.writeSpending ++ tx.inputs.flatMap TxInput.writeWitness ++ rest) := by
  simp only [readSections, (exact_u8 _).bind_eq_ok_iff, true_and]
  refine ⟨?_, ?_⟩
  · rintro ⟨flags, tail, rfl, h⟩
    split at h
    · next hflags =>
      simp only [pure_apply, EStateM.Result.ok.injEq, Prod.mk.injEq] at h
      obtain ⟨⟨hinputs, houtputs⟩, rfl⟩ := h
      exact .inl ⟨⟨hinputs.symm, houtputs.symm⟩, by rw [hflags]; rfl⟩
    simp only [exact_readInputs.bind_eq_ok_iff, exact_readOutputs.bind_eq_ok_iff] at h
    obtain ⟨inputs, _, ⟨⟨hcount, hinputs⟩, rfl⟩, outputs, _, ⟨⟨houtputs, hscripts⟩, rfl⟩, h⟩ := h
    by_cases hflags : flags = 1
    · subst hflags
      rw [if_pos (by decide), (exact_readWitnesses inputs).bind_eq_ok_iff] at h
      obtain ⟨full, _, ⟨⟨⟨hbare, hwitnesses⟩, hany⟩, rfl⟩, h⟩ := h
      cases h
      obtain rfl : inputs = tx.inputs.map TxInput.bare := by
        rw [hbare, TxInput.map_bare_eq_self fun input h => (hinputs input h).2]
      rw [List.length_map] at hcount
      have hinputScripts : ∀ input ∈ tx.inputs, input.script.length < CompactSize.limit := by
        intro input hinput
        exact (hinputs input.bare (List.mem_map_of_mem hinput)).1
      refine .inr ⟨⟨⟨hcount, houtputs, hinputScripts, hscripts, hwitnesses⟩, hany⟩, ?_⟩
      simp [writeSpending, encodeList_map_bare]
    · -- any other flags are refused once their sections are read
      simp only [if_neg hflags] at h
      split at h
      · obtain ⟨_, _, _, h⟩ := bind_eq_ok_iff.1 h
        cases h
      · cases h
  · rintro (⟨⟨hinputs, houtputs⟩, rfl⟩ | ⟨⟨hfits, hwitness⟩, rfl⟩)
    · exact ⟨0, rest, rfl, by rw [if_pos rfl, hinputs, houtputs]; rfl⟩
    · refine ⟨1, _, rfl, ?_⟩
      rw [if_neg (by decide)]
      simp only [exact_readInputs.bind_eq_ok_iff, exact_readOutputs.bind_eq_ok_iff]
      -- The inputs are read without their witnesses first.
      have hbare : ∀ input ∈ tx.inputs.map TxInput.bare,
          input.script.length < CompactSize.limit ∧ input.witness = [] := by
        intro input hinput
        obtain ⟨full, hfull, rfl⟩ := List.mem_map.1 hinput
        exact ⟨hfits.inputScripts full hfull, rfl⟩
      refine ⟨tx.inputs.map TxInput.bare, CompactSize.encodeList TxOutput.write tx.outputs ++
          (tx.inputs.flatMap TxInput.writeWitness ++ rest), ⟨⟨?_, hbare⟩, ?_⟩,
        tx.outputs, _, ⟨⟨hfits.outputs, hfits.outputScripts⟩, rfl⟩, ?_⟩
      · rw [List.length_map]
        exact hfits.inputs
      · simp [writeSpending, encodeList_map_bare]
      · rw [if_pos (by decide), (exact_readWitnesses _).bind_eq_ok_iff]
        refine ⟨tx.inputs, rest, ⟨⟨⟨?_, hfits.witnesses⟩, hwitness⟩, rfl⟩, rfl⟩
        rw [List.map_map]
        rfl

/-- Inputs and outputs are read back in either format. -/
theorem readSpending_eq_ok_iff {protocol : ProtocolVersion} (tx : Transaction)
    {bytes rest : Bytes} :
    readSpending protocol bytes = .ok (tx.inputs, tx.outputs) rest ↔
      tx.Readable protocol ∧ bytes = tx.writeSections ++ rest := by
  simp only [readSpending, exact_readInputs.bind_eq_ok_iff]
  refine ⟨?_, ?_⟩
  · rintro ⟨inputs, tail, ⟨⟨hcount, hinputs⟩, rfl⟩, h⟩
    split at h
    · next hempty =>
      simp only [Bool.and_eq_true, List.isEmpty_iff] at hempty
      obtain ⟨rfl, hallows⟩ := hempty
      -- No inputs, and witnesses are known: no outputs either, or it is the other format.
      rcases readSections_eq_ok_iff.1 h with ⟨⟨hnone, houtputs⟩, rfl⟩ | ⟨⟨hfits, hwitness⟩, rfl⟩
      · have hwitness := hasWitness_of_inputs_eq_nil hnone
        refine ⟨⟨fits_of_eq_nil hnone houtputs, fun _ => hallows, fun _ _ => houtputs⟩, ?_⟩
        rw [writeSections, if_neg (by simp [hwitness]), writeSpending, hnone, houtputs]
        rfl
      · refine ⟨⟨hfits, fun _ => hallows, ?_⟩, ?_⟩
        · intro _ hnone
          rw [hasWitness_of_inputs_eq_nil hnone] at hwitness
          cases hwitness
        · rw [writeSections, if_pos hwitness]
          simp [CompactSize.encodeList, CompactSize.encode]
    · next hempty =>
      -- The plain format, whose inputs have no witnesses.
      simp only [exact_readOutputs.bind_eq_ok_iff, pure_apply, EStateM.Result.ok.injEq,
        Prod.mk.injEq] at h
      obtain ⟨outputs, _, ⟨⟨houtputs, hscripts⟩, rfl⟩, ⟨rfl, rfl⟩, rfl⟩ := h
      have hwitness := hasWitness_eq_false_iff.2 fun input h => (hinputs input h).2
      refine ⟨⟨⟨hcount, houtputs, fun input h => (hinputs input h).1, hscripts,
        fun input h => TxInput.witnessFits_of_eq_nil (hinputs input h).2⟩, ?_, ?_⟩, ?_⟩
      · rw [hwitness]
        intro h
        cases h
      · intro hallows hnone
        exact absurd (by simp [hnone, hallows]) hempty
      · rw [writeSections, if_neg (by simp [hwitness]), writeSpending, List.append_assoc]
  · rintro ⟨hreadable, rfl⟩
    by_cases hwitness : tx.hasWitness
    · have hallows := hreadable.witnessAllowed hwitness
      refine ⟨[], 1 :: (tx.writeSpending ++ tx.inputs.flatMap TxInput.writeWitness ++ rest),
        ⟨by simp, ?_⟩, ?_⟩
      · rw [writeSections, if_pos hwitness]
        simp [CompactSize.encodeList, CompactSize.encode]
      · rw [if_pos (by simp [hallows])]
        exact readSections_eq_ok_iff.2 (.inr ⟨⟨hreadable.toFits, hwitness⟩, rfl⟩)
    · rw [writeSections, if_neg hwitness, writeSpending]
      have hbare := hasWitness_eq_false_iff.1 (Bool.eq_false_iff.2 hwitness)
      refine ⟨tx.inputs, CompactSize.encodeList TxOutput.write tx.outputs ++ rest,
        ⟨⟨hreadable.inputs, fun input h => ⟨hreadable.inputScripts input h, hbare input h⟩⟩,
          by simp⟩, ?_⟩
      split
      · next hempty =>
        simp only [Bool.and_eq_true, List.isEmpty_iff] at hempty
        -- A newer peer reads on as if sections followed, and the number of outputs says none.
        obtain ⟨hnone, hallows⟩ := hempty
        have houtputs := hreadable.outputs_eq_nil hallows hnone
        refine readSections_eq_ok_iff.2 (.inl ⟨⟨hnone, houtputs⟩, ?_⟩)
        rw [houtputs]
        rfl
      · simp only [exact_readOutputs.bind_eq_ok_iff]
        exact ⟨tx.outputs, rest, ⟨⟨hreadable.outputs, hreadable.outputScripts⟩, rfl⟩, rfl⟩

/-- **A transaction is read just if it is readable**, and from nothing but what is written of it. -/
theorem exact_read (protocol : ProtocolVersion) :
    (Transaction.read protocol).Exact Transaction.write (Transaction.Readable protocol) := by
  intro bytes tx rest
  simp only [Transaction.read, (exact_i32 _).bind_eq_ok_iff, bind_eq_ok_iff, true_and]
  refine ⟨?_, ?_⟩
  · rintro ⟨version, _, rfl, ⟨inputs, outputs⟩, tail, hspending, h⟩
    simp only [(exact_u32 _).eq_ok_iff, true_and, pure_apply, EStateM.Result.ok.injEq] at h
    obtain ⟨lockTime, _, rfl, rfl, rfl⟩ := h
    obtain ⟨hreadable, rfl⟩ :=
      (readSpending_eq_ok_iff ⟨version, inputs, outputs, lockTime⟩).1 hspending
    exact ⟨hreadable, by simp [write_eq]⟩
  · rintro ⟨hreadable, rfl⟩
    simp only [write_eq, List.append_assoc]
    refine ⟨_, _, rfl, _, _, (readSpending_eq_ok_iff tx).2 ⟨hreadable, rfl⟩, ?_⟩
    simp only [(exact_u32 _).eq_ok_iff, true_and, pure_apply, EStateM.Result.ok.injEq]
    exact ⟨_, _, rfl, rfl, rfl⟩

/-! ## What is short enough fits -/

theorem length_writeSpending_le (tx : Transaction) :
    tx.writeSpending.length ≤ tx.write.length := by
  rw [write_eq, writeSections]
  split <;> simp only [List.length_append] <;> omega

theorem length_writeWitness_le {tx : Transaction} (h : tx.hasWitness) :
    (tx.inputs.flatMap TxInput.writeWitness).length ≤ tx.write.length := by
  rw [write_eq, writeSections, if_pos h]
  simp only [List.length_append]
  omega

/-- A transaction with a short spelling fits: the lengths in it are at most its own. -/
theorem fits_of_length_write {tx : Transaction} (h : tx.write.length ≤ maxTransactionItems) :
    tx.Fits := by
  have hmax : maxTransactionItems < CompactSize.limit := by decide
  have hspending := tx.length_writeSpending_le
  rw [writeSpending, List.length_append] at hspending
  have hinputs := CompactSize.length_le_length_encodeList TxInput.length_write_pos tx.inputs
  have houtputs := CompactSize.length_le_length_encodeList TxOutput.length_write_pos tx.outputs
  refine ⟨by omega, by omega, fun input hinput => ?_, fun output houtput => ?_,
    fun input hinput => ?_⟩
  · have hlength := CompactSize.length_item_le_length_encodeList TxInput.write hinput
    have hscript := input.length_script_le
    omega
  · have hlength := CompactSize.length_item_le_length_encodeList TxOutput.write houtput
    have hscript := output.length_script_le
    omega
  · by_cases hwitness : tx.hasWitness
    · have hlength :=
        CompactSize.length_item_le_length_flatMap TxInput.writeWitness hinput
      have hwhole := length_writeWitness_le hwitness
      exact TxInput.witnessFits_of_length_writeWitness (by omega)
    · exact TxInput.witnessFits_of_eq_nil
        (hasWitness_eq_false_iff.1 (Bool.eq_false_iff.2 hwitness) input hinput)

end Transaction

/-! ## Blocks -/

theorem Block.exact_read (protocol : ProtocolVersion) :
    (Block.read protocol).Exact Block.write fun block =>
      block.transactions.length ≤ maxTransactionItems ∧
        ∀ tx ∈ block.transactions, tx.Readable protocol := by
  intro bytes block rest
  have hlist := exact_list (Transaction.exact_read protocol) "block: txn_count"
    (show maxTransactionItems < CompactSize.limit by decide)
  simp only [Block.read, BlockHeader.exact_read.bind_eq_ok_iff, hlist.bind_eq_ok_iff, pure_apply,
    EStateM.Result.ok.injEq, true_and]
  refine ⟨?_, ?_⟩
  · rintro ⟨header, _, rfl, transactions, _, ⟨hreadable, rfl⟩, rfl, rfl⟩
    exact ⟨hreadable, by simp [Block.write]⟩
  · rintro ⟨hreadable, rfl⟩
    simp only [Block.write, List.append_assoc]
    exact ⟨_, _, rfl, _, _, ⟨hreadable, rfl⟩, rfl, rfl⟩

theorem MerkleBlock.exact_read :
    MerkleBlock.read.Exact MerkleBlock.write fun merkle =>
      merkle.hashes.length ≤ maxTransactionItems ∧ merkle.flags.length < CompactSize.limit := by
  intro bytes merkle rest
  have hlist := exact_list (exact_fixed 32 "merkleblock: hash") "merkleblock: hash count"
    (show maxTransactionItems < CompactSize.limit by decide)
  simp only [MerkleBlock.read, BlockHeader.exact_read.bind_eq_ok_iff, hlist.bind_eq_ok_iff,
    (exact_u32 _).bind_eq_ok_iff, (exact_varBytes _).bind_eq_ok_iff, pure_apply,
    EStateM.Result.ok.injEq, true_and, implies_true, and_true]
  refine ⟨?_, ?_⟩
  · rintro ⟨header, _, rfl, total, _, rfl, hashes, _, ⟨hhashes, rfl⟩, flags, _, ⟨hflags, rfl⟩, rfl,
      rfl⟩
    exact ⟨⟨hhashes, hflags⟩, by simp [MerkleBlock.write]⟩
  · rintro ⟨⟨hhashes, hflags⟩, rfl⟩
    simp only [MerkleBlock.write, List.append_assoc]
    exact ⟨_, _, rfl, _, _, rfl, _, _, ⟨hhashes, rfl⟩, _, _, ⟨hflags, rfl⟩, rfl, rfl⟩

end Bitcoin
