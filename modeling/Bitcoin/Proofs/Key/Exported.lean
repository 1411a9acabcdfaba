import Bitcoin.Proofs.KeyTree.Obtained

/-!
# Keys that are written and read back

A text does not tell the path of a key, and which of the test networks it is for.  All else is read
back, of every key that there is.

* `ExtendedKey.withLastStep` is what a reader finds: the key with the last step of its path.
* `ExtendedKey.WellFormed.short`: such a key is one that can be read, since **there is no last step
  just at depth zero**, where there is no parent either.
* `ExtendedKey.ofText_toText`: every key that can be obtained is read back from its texts.

What a text leaves out is told by one function and not by a list of fields.
`ExtendedKey.withLastStep` is the identity on all fields but the path, so a reader finds the depth,
the chain code, the fingerprint of the parent and the halves as they were.

The reader is strict in one point.  At depth zero it accepts no parent and no index but zero, and
below it takes the index for the last step; a key that had a path at depth zero, or none below,
could be written and would come back as another key, or not at all.  No such key can be obtained
(`Bitcoin.Proofs.KeyTree.Obtained`), which is why the theorem speaks of keys that are obtainable and
not of all values of the type.

The networks for testing share their numbers, so a text for any of them is read as one for the
first.  This is no loss for the key, which does not know its network.
-/

set_option autoImplicit false

namespace Bitcoin

open KeyTree

theorem KeyHalf.version_forKeys (half : KeyHalf) (network : Network) :
    half.version network.forKeys = half.version network := by
  cases network <;> rfl

theorem Network.forKeys_eq (network : Network) :
    network.forKeys = if network = mainnet then mainnet else testnet := by
  cases network <;> rfl

theorem Network.forKeys_forKeys (network : Network) :
    network.forKeys.forKeys = network.forKeys := by
  cases network <;> rfl

namespace ExtendedKey

variable {key : ExtendedKey} {secret : Secret}

/-- The key, of whose path only the last step is known. -/
def withLastStep (key : ExtendedKey) : ExtendedKey :=
  { key with path := ⟨key.path.last?.toList⟩ }

@[simp] theorem childNumber_withLastStep (key : ExtendedKey) :
    key.withLastStep.childNumber = key.childNumber := by
  rw [childNumber, childNumber, withLastStep, KeyPath.last?]
  cases key.path.last? <;> rfl

theorem path_withLastStep_eq_master_iff :
    key.withLastStep.path = .master ↔ key.path = .master := by
  rcases key with ⟨⟨steps⟩, _⟩
  simp [withLastStep, KeyPath.master, KeyPath.last?]

theorem serialize_withLastStep (key : ExtendedKey) (version : Nat) (half : FixedBytes 33) :
    key.withLastStep.serialize version half = key.serialize version half := by
  rw [serialize, serialize, childNumber_withLastStep]
  rfl

namespace WellFormed

theorem short (h : key.WellFormed) : key.withLastStep.Short where
  length_le_one := by
    rw [withLastStep]
    cases key.path.last? <;> simp
  depth_eq_zero_iff := h.depth_eq_zero_iff.trans path_withLastStep_eq_master_iff.symm
  parentFingerprint_eq_zero := h.parentFingerprint_eq_zero

/-- What is written of a key, with the half that it has, is read back. -/
theorem ofText_encodeChecked (h : key.WellFormed) {half : KeyHalf} {field : FixedBytes 33}
    (hspells : key.Spells field half) (network : Network) :
    ofText (Base58.encodeChecked (key.serialize (half.version network) field)) =
      .ok (key.withLastStep, network.forKeys) := by
  refine ofText_eq_ok_iff.2 ⟨network.forKeys_forKeys, h.short, half, field, ?_, ?_⟩
  · cases half <;> exact hspells
  · rw [KeyHalf.version_forKeys, serialize_withLastStep]

theorem ofText_toPublicText (h : key.WellFormed) (network : Network) :
    ofText (key.toPublicText network) = .ok (key.neuter.withLastStep, network.forKeys) := by
  have hspells : key.neuter.Spells key.pointBytes .publicHalf := ⟨rfl, h.proper, rfl⟩
  exact h.neuter.ofText_encodeChecked hspells network

theorem ofText_toPrivateText (h : key.WellFormed) (hprivate : key.isWatching = false)
    (network : Network) :
    ∃ text, key.toPrivateText network = .ok text ∧
      ofText text = .ok (key.withLastStep, network.forKeys) := by
  obtain ⟨secret, hsecret⟩ : ∃ secret, key.secret = some secret := by
    rwa [isWatching, Option.isNone_eq_false_iff, Option.isSome_iff_exists] at hprivate
  have hspells : key.Spells (secretField secret) .privateHalf :=
    ⟨secret, hsecret, h.paired secret hsecret, rfl⟩
  exact ⟨_, by rw [toPrivateText, hsecret], h.ofText_encodeChecked hspells network⟩

end WellFormed

/-- **A key is read back from its texts**, on every network and whatever it was obtained from: with
its private half from the private text, and without it from the public one.  Of its path the last
step is left, and there is none just at depth zero. -/
theorem ofText_toText (h : Obtainable key) (network : Network) :
    let readNetwork := if network = .mainnet then Network.mainnet else .testnet
    ofText (key.toPublicText network) = .ok (key.neuter.withLastStep, readNetwork) ∧
      (key.isWatching = false → ∃ text, key.toPrivateText network = .ok text ∧
        ofText text = .ok (key.withLastStep, readNetwork)) ∧
      (key.withLastStep.path = .master ↔ key.depth = 0) := by
  have hformed := h.wellFormed
  rw [← Network.forKeys_eq]
  exact ⟨hformed.ofText_toPublicText network, fun hprivate =>
    hformed.ofText_toPrivateText hprivate network,
    path_withLastStep_eq_master_iff.trans hformed.depth_eq_zero_iff.symm⟩

/-- A child with both halves on a test network. -/
theorem ofText_toText_firstChild :
    ∃ child text, leastMaster.derive ⟨0⟩ = .ok child ∧
      ofText (child.toPublicText .signet) = .ok (child.neuter.withLastStep, .testnet) ∧
      child.toPrivateText .signet = .ok text ∧
      ofText text = .ok (child.withLastStep, .testnet) := by
  obtain ⟨child, hchild⟩ := exists_firstChild
  have hobtained : Obtainable child := .derive obtainable_leastMaster hchild
  have hprivate : child.isWatching = false := (child_of_derive hchild).isWatching_eq
  obtain ⟨hpublic, hread, -⟩ := ofText_toText hobtained .signet
  obtain ⟨text, htext, hback⟩ := hread hprivate
  exact ⟨child, text, hchild, hpublic, htext, hback⟩

end ExtendedKey

end Bitcoin
