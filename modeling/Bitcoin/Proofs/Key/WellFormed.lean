import Bitcoin.Proofs.Key.Text

/-!
# Well-formed keys

The fields of a key depend on each other, but not as tightly as they would if every key were
derived from a master key: a key that was read from a text knows its depth and only the last step of
its path.  What all keys have in common is `ExtendedKey.WellFormed`.

* The four ways to make a key give well-formed keys (`ExtendedKey.Made.wellFormed`).
* A key without its private half is as well formed as the key (`ExtendedKey.WellFormed.neuter`), and
  **so are the children of well-formed keys** (`ExtendedKey.WellFormed.derive`), down to the
  greatest depth.

The relation between depth and path is a compromise.  For derived keys they are equal, for a key
from a text the path has one step and the depth is whatever the text says, and a child of either has
one more of both.  What survives is that there is no path just at depth zero, which is what reading
a text asks for, and that the path is not longer than the depth.

The depth is a byte, and a child of the deepest key would be at depth zero again, with a path.
Since such a child is refused, the sum in `ExtendedKey.toNat_depth_of_derive` is one of natural
numbers.

That the public half is proper, a point of the curve other than infinity, has to be shown again for
each way to come by a key.  A multiple of the generator by a private half is proper because the
order of the generator is the bound of private halves, a point that was read has been looked at, and
a sum is on the curve and was refused if it was at infinity.
-/

set_option autoImplicit false

namespace Bitcoin

open Curve

/-! ## Points -/

/-- A multiple of the generator by a private half is no sum that cancels. -/
theorem Secret.proper_toPoint (secret : Secret) : secret.toPoint.Proper := by
  have hwide : secret.value < 2 ^ 256 := secret.value_lt.trans (by decide)
  refine ⟨Point.onCurve_ofScalar hwide, ?_⟩
  rw [toPoint, ne_eq, Point.ofScalar_eq_infinity_iff hwide, Nat.mod_eq_of_lt secret.value_lt]
  exact Nat.ne_of_gt secret.value_pos

theorem Curve.Point.Proper.addScalar? {point sum : Point} {scalar : Nat} (hpoint : point.Proper)
    (hscalar : scalar < order) (h : point.addScalar? scalar = some sum) : sum.Proper := by
  have hcurve : (ofScalar scalar + point).OnCurve :=
    (onCurve_ofScalar (hscalar.trans (by decide))).add hpoint.onCurve
  unfold Point.addScalar? at h
  split at h
  · cases h
  · next hfinite =>
    cases h
    exact ⟨hcurve, hfinite⟩

namespace ExtendedKey

variable {key parent : ExtendedKey} {step : ChildNumber}

/-- What the fields of every key have to do with each other.  The path may be shorter than the
depth, but there is no path just at depth zero, and no parent there either; the public half is a
point of the curve other than infinity, and belongs to the private half. -/
structure WellFormed (key : ExtendedKey) : Prop extends Rooted key where
  length_le_depth : key.path.steps.length ≤ key.depth.toNat
  paired : key.Paired
  proper : key.point.Proper

/-! ## Keys that are made -/

theorem proper_ofSecret (path : KeyPath) (depth : UInt8) (chainCode : FixedBytes 32)
    (secret : Secret) (parentFingerprint : FixedBytes 4) :
    (ofSecret path depth chainCode secret parentFingerprint).point.Proper := by
  rw [paired_ofSecret secret rfl]
  exact secret.proper_toPoint

/-- The keys that are made without another key: from a seed, from the bytes of one half, or from a
text. -/
inductive Made : ExtendedKey → Prop
  | ofSeed {key : ExtendedKey} {seed : Bytes} (h : ofSeed seed = .ok key) : Made key
  | ofSecretBytes {key : ExtendedKey} {bytes chainCode : FixedBytes 32}
      (h : masterOfSecretBytes bytes chainCode = .ok key) : Made key
  | ofPointBytes {key : ExtendedKey} {bytes : FixedBytes 33} {chainCode : FixedBytes 32}
      (h : masterOfPointBytes bytes chainCode = .ok key) : Made key
  | ofText {key : ExtendedKey} {text : String} {network : Network}
      (h : ofText text = .ok (key, network)) : Made key

/-- A master key of which a private half is known. -/
theorem wellFormed_ofSecret_master (chainCode : FixedBytes 32) (secret : Secret) :
    (ofSecret .master 0 chainCode secret (.zero 4)).WellFormed where
  depth_eq_zero_iff := iff_of_true rfl rfl
  parentFingerprint_eq_zero _ := rfl
  length_le_depth := Nat.zero_le _
  paired := paired_ofSecret
  proper := proper_ofSecret ..

/-- A master key of which a public half is known. -/
theorem wellFormed_ofPoint_master (chainCode : FixedBytes 32) {point : Point}
    (h : point.Proper) : (ofPoint .master 0 chainCode point (.zero 4)).WellFormed where
  depth_eq_zero_iff := iff_of_true rfl rfl
  parentFingerprint_eq_zero _ := rfl
  length_le_depth := Nat.zero_le _
  paired := paired_ofPoint
  proper := h

/-- The master key of a seed is made of its private half. -/
theorem exists_ofSecret_of_ofSeed {seed : Bytes} (h : ofSeed seed = .ok key) :
    ∃ secret chainCode, key = ofSecret .master 0 chainCode secret (.zero 4) := by
  rw [ofSeed] at h
  split at h
  · cases h
  · dsimp only at h
    split at h
    · cases h
      exact ⟨_, _, rfl⟩
    · cases h

theorem wellFormed_of_ofSeed {seed : Bytes} (h : ofSeed seed = .ok key) : key.WellFormed := by
  obtain ⟨secret, chainCode, rfl⟩ := exists_ofSecret_of_ofSeed h
  exact wellFormed_ofSecret_master _ _

theorem wellFormed_of_masterOfSecretBytes {bytes chainCode : FixedBytes 32}
    (h : masterOfSecretBytes bytes chainCode = .ok key) : key.WellFormed := by
  rw [masterOfSecretBytes] at h
  split at h
  · cases h
    exact wellFormed_ofSecret_master _ _
  · cases h

theorem wellFormed_of_masterOfPointBytes {bytes : FixedBytes 33} {chainCode : FixedBytes 32}
    (h : masterOfPointBytes bytes chainCode = .ok key) : key.WellFormed := by
  rw [masterOfPointBytes] at h
  split at h
  · next point hpoint =>
    cases h
    exact wellFormed_ofPoint_master _ (Point.decompress?_eq_some_iff.1 hpoint).1
  · cases h

theorem Spells.proper {field : FixedBytes 33} {half : KeyHalf} (h : key.Spells field half) :
    key.point.Proper := by
  cases half with
  | publicHalf => exact h.2.1
  | privateHalf =>
    obtain ⟨secret, -, hpoint, -⟩ := h
    rw [hpoint]
    exact secret.proper_toPoint

theorem Spells.paired {field : FixedBytes 33} {half : KeyHalf} (h : key.Spells field half) :
    key.Paired := by
  intro secret hsecret
  cases half with
  | publicHalf => cases h.1.symm.trans hsecret
  | privateHalf =>
    obtain ⟨other, hother, hpoint, -⟩ := h
    cases hother.symm.trans hsecret
    exact hpoint

/-- A key that is read has at most one step, and none just at depth zero. -/
theorem Short.length_le_depth (h : key.Short) : key.path.steps.length ≤ key.depth.toNat := by
  by_cases hdepth : key.depth = 0
  · rw [h.depth_eq_zero_iff.1 hdepth]
    exact Nat.zero_le _
  · have hpos : 0 < key.depth.toNat := by
      rw [Nat.pos_iff_ne_zero, ne_eq, ← UInt8.toNat_zero, UInt8.toNat_inj]
      exact hdepth
    exact h.length_le_one.trans hpos

theorem wellFormed_of_ofText {text : String} {network : Network}
    (h : ofText text = .ok (key, network)) : key.WellFormed := by
  obtain ⟨-, hshort, half, field, hspells, -⟩ := ofText_eq_ok_iff.1 h
  exact ⟨hshort.toRooted, hshort.length_le_depth, hspells.paired, hspells.proper⟩

/-- **A key that is made is well formed.** -/
theorem Made.wellFormed (h : Made key) : key.WellFormed := by
  rcases h with h | h | h | h
  · exact wellFormed_of_ofSeed h
  · exact wellFormed_of_masterOfSecretBytes h
  · exact wellFormed_of_masterOfPointBytes h
  · exact wellFormed_of_ofText h

/-! ## Keys that are made of others -/

theorem WellFormed.neuter (h : key.WellFormed) : key.neuter.WellFormed :=
  { h with paired := paired_neuter key }

/-- There is one more step to a child than to its parent, and no child of the deepest keys. -/
theorem toNat_depth_of_derive (h : parent.derive step = .ok key) :
    key.depth.toNat = parent.depth.toNat + 1 := by
  have hdepth : parent.depth ≠ 255 := by
    intro hdeepest
    have hrefusal : parent.refusal? step.isHardened ≠ none := by
      rw [refusal?, if_pos hdeepest]
      split <;> simp
    obtain ⟨e, he⟩ := Option.ne_none_iff_exists'.1 hrefusal
    cases (derive_of_refusal he).symm.trans h
  have hlt : parent.depth.toNat + 1 < 256 := by
    have hne : parent.depth.toNat ≠ 255 := fun h => hdepth (UInt8.toNat_inj.1 h)
    have hbyte : parent.depth.toNat < 256 := parent.depth.toNat_lt
    omega
  rw [(child_of_derive h).depth_eq, UInt8.toNat_add]
  exact Nat.mod_eq_of_lt hlt

theorem proper_of_childOfHash {hash : FixedBytes 64} (hparent : parent.point.Proper)
    (h : parent.childOfHash step hash = .ok key) : key.point.Proper := by
  rw [childOfHash] at h
  split at h
  · cases h
  · next hscalar =>
    split at h
    · split at h
      · cases h
        exact proper_ofSecret ..
      · cases h
    · split at h
      · next sum hsum =>
        cases h
        exact hparent.addScalar? (Nat.not_le.1 hscalar) hsum
      · cases h

theorem proper_of_derive (hparent : parent.point.Proper) (h : parent.derive step = .ok key) :
    key.point.Proper := by
  cases hrefusal : parent.refusal? step.isHardened with
  | some e => cases (derive_of_refusal hrefusal).symm.trans h
  | none => exact proper_of_childOfHash hparent ((derive_of_no_refusal hrefusal).symm.trans h)

/-- **The children of well-formed keys are well formed.** -/
theorem WellFormed.derive (hparent : parent.WellFormed) (h : parent.derive step = .ok key) :
    key.WellFormed := by
  have hchild := child_of_derive h
  have hdepth := toNat_depth_of_derive h
  have hne : key.depth ≠ 0 := by
    rw [ne_eq, ← UInt8.toNat_inj, hdepth]
    exact Nat.succ_ne_zero _
  have hpath : key.path ≠ .master := by
    rw [hchild.path_eq]
    simp [KeyPath.child, KeyPath.master]
  refine ⟨⟨iff_of_false hne hpath, fun hzero => absurd hzero hne⟩, ?_, hchild.paired,
    proper_of_derive hparent.proper h⟩
  rw [hchild.path_eq, hdepth, KeyPath.child, List.length_append]
  exact Nat.succ_le_succ hparent.length_le_depth

end ExtendedKey

end Bitcoin
