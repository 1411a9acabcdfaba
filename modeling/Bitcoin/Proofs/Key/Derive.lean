import Bitcoin.Key.Derivation
import Mathlib.Data.List.Induction

/-!
# What is derived

A step of a path is refused for two reasons that do not depend on the index, or finds that the index
has no key, or gives a key.  Everything later is known of derived keys is in the lemmas here.

* `ExtendedKey.refusal?` says why a parent has no hardened, or no other, children at all;
  `ExtendedKey.derive_of_refusal` and `ExtendedKey.refusal_of_derive` tie it to what is derived.
* `ExtendedKey.Child` is what a derived key has to do with its parent
  (`ExtendedKey.child_of_derive`).
* `ExtendedKey.Paired` says that the two halves of a key belong together, **as they do in every
  child** and in every key that is made without another.
* `ExtendedKey.derivePath_child` goes along a path from its end, and `KeyPath.induction_child` is
  the induction that fits it.

A derivation asks two things before it computes anything: whether the parent can have such a child
at all, and whether it is not too deep already.  Both depend on the parent and on one bit of the
index, and are collected in `ExtendedKey.refusal?`.  What is left is the hash, of which nothing is
assumed here or elsewhere in the library: the left half may be too large and the sum may vanish, and
then the index has no key.  Where a theorem needs that a certain key exists, it says so as a
hypothesis, and `ExtendedKey.leastMaster` with its first child is the case that was computed.

`ExtendedKey.Child` is what can be said of a child without the hash: its path, its depth, its
parent, and that it has the halves that the parent has and that they belong together.  Most modules
about keys need some of it and none of the computation, so none of them unfolds
`ExtendedKey.childOfHash` to learn what the path or the depth of a child is.

Paths are lists of steps from the top, and a derivation goes along them in this order; but most
facts about it are proved from the end, one step after the path above it, since the key *above* a
step is what the step depends on.  `KeyPath.induction_child` is the induction for this, and
`ExtendedKey.derivePath_child` takes the place of an equation for the recursion.
-/

set_option autoImplicit false

namespace Bitcoin

open Curve

/-- Two computations that may fail, one after the other, succeed if both do. -/
theorem Fallible.bind_eq_ok_iff {ε α β : Type} {x : Except ε α} {f : α → Except ε β} {b : β} :
    (x >>= f) = .ok b ↔ ∃ a, x = .ok a ∧ f a = .ok b := by
  cases x with
  | ok a => simp [bind, Except.bind]
  | error e => simp [bind, Except.bind]

theorem Fallible.toOption_eq_some_iff {ε α : Type} {x : Except ε α} {a : α} :
    x.toOption = some a ↔ x = .ok a := by
  cases x <;> simp [Except.toOption]

/-! ## Paths -/

namespace KeyPath

variable (path other : KeyPath) (step : ChildNumber)

@[simp] theorem extend_master : path.extend .master = path := by
  rw [extend, master, List.append_nil]

theorem extend_child : path.extend (other.child step) = (path.extend other).child step := by
  rw [extend, extend, child, child, List.append_assoc]

theorem extend_extend (last : KeyPath) :
    (path.extend other).extend last = path.extend (other.extend last) := by
  rw [extend, extend, extend, extend, List.append_assoc]

variable {path other} in
theorem extend_inj {suffix : KeyPath} :
    path.extend suffix = path.extend other ↔ suffix = other := by
  rw [extend, extend, mk.injEq, List.append_cancel_left_eq, ← mk.injEq]

variable {path other} in
/-- One path is below another if the steps of the other are its first steps. -/
theorem exists_extend_iff :
    (∃ suffix, path = other.extend suffix) ↔ other.steps <+: path.steps := by
  constructor
  · rintro ⟨suffix, rfl⟩
    exact List.prefix_append _ _
  · rintro ⟨rest, hrest⟩
    exact ⟨⟨rest⟩, by rw [extend, hrest]⟩

theorem not_child_prefix : ¬(path.child step).steps <+: path.steps := by
  intro h
  have hlength : (path.steps ++ [step]).length ≤ path.steps.length := h.length_le
  rw [List.length_append, List.length_singleton] at hlength
  omega

variable {path other} in
/-- Above the master key there is nothing. -/
theorem eq_master_of_prefix (h : other.steps <+: master.steps) : other = master :=
  congrArg KeyPath.mk (List.prefix_nil.1 h)

variable {path other step} in
/-- What is above a child is the child itself, or above its parent. -/
theorem prefix_child_iff :
    other.steps <+: (path.child step).steps ↔
      other = path.child step ∨ other.steps <+: path.steps := by
  rw [child, List.prefix_concat_iff, mk.injEq]

theorem child_ne_master : path.child step ≠ master :=
  fun h => List.append_ne_nil_of_right_ne_nil _ (List.cons_ne_nil _ _) (congrArg steps h)

@[simp] theorem last?_child : (path.child step).last? = some step := by
  rw [last?, child, List.getLast?_concat]

/-- A path is that of the master key, or one step longer than another. -/
@[elab_as_elim]
theorem induction_child {motive : KeyPath → Prop} (path : KeyPath) (master : motive .master)
    (child : ∀ path step, motive path → motive (path.child step)) : motive path := by
  obtain ⟨steps⟩ := path
  induction steps using List.reverseRecOn with
  | nil => exact master
  | append_singleton steps step ih => exact child ⟨steps⟩ step ih

end KeyPath

namespace ExtendedKey

variable {parent key : ExtendedKey} {step : ChildNumber} {path : KeyPath} {e : KeyError}

/-! ## The halves of a key -/

/-- The public half belongs to the private half, if that is known. -/
def Paired (key : ExtendedKey) : Prop := ∀ secret ∈ key.secret, key.point = secret.toPoint

theorem paired_ofSecret {path : KeyPath} {depth : UInt8} {chainCode : FixedBytes 32}
    {secret : Secret} {parentFingerprint : FixedBytes 4} :
    (ofSecret path depth chainCode secret parentFingerprint).Paired := by
  rintro _ ⟨⟩
  rfl

theorem paired_ofPoint {path : KeyPath} {depth : UInt8} {chainCode : FixedBytes 32} {point : Point}
    {parentFingerprint : FixedBytes 4} :
    (ofPoint path depth chainCode point parentFingerprint).Paired := by
  rintro _ ⟨⟩

theorem paired_neuter (key : ExtendedKey) : key.neuter.Paired := by
  rintro _ ⟨⟩

/-! ## One step -/

/-- Why a key has no hardened, or no other, children. -/
def refusal? (parent : ExtendedKey) (hardened : Bool) : Option KeyError :=
  if hardened && parent.isWatching then some .hardenedFromPublic
  else if parent.depth = 255 then some .maxDepthReached
  else none

theorem derive_of_refusal (h : parent.refusal? step.isHardened = some e) :
    parent.derive step = .error e := by
  rw [refusal?] at h
  rw [derive]
  split at h
  · next hwatching =>
    cases h
    exact if_pos hwatching
  · next hprivate =>
    rw [if_neg hprivate]
    split at h
    · next hdepth =>
      cases h
      exact if_pos hdepth
    · cases h

theorem derive_of_no_refusal (h : parent.refusal? step.isHardened = none) :
    parent.derive step = parent.childOfHash step
      (hmacSha512 parent.chainCode.toBytes (parent.derivationData step)) := by
  rw [refusal?] at h
  rw [derive]
  split at h
  · cases h
  · next hprivate =>
    rw [if_neg hprivate]
    split at h
    · cases h
    · next hdepth => exact if_neg hdepth

/-- What a derived key has to do with its parent. -/
structure Child (parent : ExtendedKey) (step : ChildNumber) (key : ExtendedKey) : Prop where
  path_eq : key.path = parent.path.child step
  depth_eq : key.depth = parent.depth + 1
  isWatching_eq : key.isWatching = parent.isWatching
  parentFingerprint_eq : key.parentFingerprint = parent.fingerprint
  paired : key.Paired

theorem child_of_childOfHash {hash : FixedBytes 64}
    (h : parent.childOfHash step hash = .ok key) : parent.Child step key := by
  rw [childOfHash] at h
  split at h
  · cases h
  split at h
  · next secret hsecret =>
    split at h
    · cases h
      exact ⟨rfl, rfl, by rw [isWatching, isWatching, hsecret]; rfl, rfl, paired_ofSecret⟩
    · cases h
  · next hsecret =>
    split at h
    · cases h
      exact ⟨rfl, rfl, by rw [isWatching, isWatching, hsecret]; rfl, rfl, paired_ofPoint⟩
    · cases h

theorem eq_invalidDerivation_of_childOfHash {hash : FixedBytes 64}
    (h : parent.childOfHash step hash = .error e) : e = .invalidDerivation := by
  rw [childOfHash] at h
  split at h
  · cases h
    rfl
  split at h <;> split at h <;> cases h <;> rfl

theorem child_of_derive (h : parent.derive step = .ok key) : parent.Child step key := by
  cases hrefusal : parent.refusal? step.isHardened with
  | some e => cases (derive_of_refusal hrefusal).symm.trans h
  | none => exact child_of_childOfHash ((derive_of_no_refusal hrefusal).symm.trans h)

/-- **A step fails for one of three reasons**, two of which are known before anything is computed.
-/
theorem refusal_of_derive (h : parent.derive step = .error e) :
    parent.refusal? step.isHardened = some e ∨
      parent.refusal? step.isHardened = none ∧ e = .invalidDerivation := by
  cases hrefusal : parent.refusal? step.isHardened with
  | some e' =>
    cases (derive_of_refusal hrefusal).symm.trans h
    exact .inl rfl
  | none =>
    rw [derive_of_no_refusal hrefusal] at h
    exact .inr ⟨rfl, eq_invalidDerivation_of_childOfHash h⟩

theorem eq_of_refusal {hardened : Bool} (h : parent.refusal? hardened = some e) :
    e = .hardenedFromPublic ∧ hardened = true ∧ parent.isWatching = true ∨
      e = .maxDepthReached ∧ parent.depth = 255 := by
  rw [refusal?] at h
  split at h
  · next hwatching =>
    cases h
    exact .inl ⟨rfl, Bool.and_eq_true_iff.1 hwatching⟩
  · split at h
    · next hdepth =>
      cases h
      exact .inr ⟨rfl, hdepth⟩
    · cases h

/-! ## A path -/

theorem derivePath_child (key : ExtendedKey) (path : KeyPath) (step : ChildNumber) :
    key.derivePath (path.child step) =
      key.derivePath path >>= fun parent => parent.derive step := by
  rw [derivePath, KeyPath.child, List.foldlM_append]
  exact bind_congr fun _ => bind_pure _

/-- A key at the end of a path is the child of one at the end of the path without its last step. -/
theorem derivePath_child_eq_ok_iff :
    key.derivePath (path.child step) = .ok parent ↔
      ∃ above, key.derivePath path = .ok above ∧ above.derive step = .ok parent := by
  rw [derivePath_child, Fallible.bind_eq_ok_iff]

theorem path_of_derivePath {start : ExtendedKey} (h : start.derivePath path = .ok key) :
    key.path = start.path.extend path := by
  induction path using KeyPath.induction_child generalizing key with
  | master =>
    cases h
    exact (KeyPath.extend_master _).symm
  | child path step ih =>
    obtain ⟨above, habove, hkey⟩ := derivePath_child_eq_ok_iff.1 h
    rw [(child_of_derive hkey).path_eq, ih habove, KeyPath.extend_child]

/-! ## One key for all cases

Whether an index has a key can only be found out by computing it.  Where a theorem is applied to a
key that has children, it is this one. -/

/-- The master key with the least private half. -/
def leastMaster : ExtendedKey := .ofSecret .master 0 (.zero 32) ⟨1, by decide, by decide⟩ (.zero 4)

theorem exists_derive_of_isSome (h : (parent.derive step).toOption.isSome = true) :
    ∃ key, parent.derive step = .ok key := by
  cases hderive : parent.derive step with
  | ok key => exact ⟨key, rfl⟩
  | error e =>
    rw [hderive] at h
    cases h

theorem exists_firstChild : ∃ key, leastMaster.derive ⟨0⟩ = .ok key :=
  exists_derive_of_isSome (by decide +kernel)

end ExtendedKey

end Bitcoin
