import Bitcoin.Proofs.Key.Exported

/-!
# Deriving from keys that were read

A key that is read from a text has lost all of its path but the last step.  What is derived from it
is what is derived from the key that was written, each with the steps missing in front of its path
that were lost: **no step of a derivation looks at the path**.

* `ExtendedKey.graft` puts steps in front of the path of a key.  It can be done before a derivation
  or after it, by `ExtendedKey.derive_graft` and `ExtendedKey.derivePath_graft`.
* The texts show whether the path of a key ends with a step.  `ExtendedKey.toPublicText_graft` and
  `ExtendedKey.toPrivateText_graft` need it that nothing is put in front of no path at all.
* `ExtendedKey.derivePath_of_imported` is every path from every key that was written and read.

Instead of following two derivations side by side, the module has one lemma about one step: put
steps in front of the path, then derive, or the other way round.  Along a path this is an induction
whose step is that lemma (`ExtendedKey.derivePath_graft`), and it covers errors as well as keys,
since both sides are `Except` and the equation is one of `Except.map`.

The condition `ExtendedKey.Attached` is there because of the texts alone.  The number of a child is
the last step of its path, and the master key counts as a first child; steps in front of the empty
path would put another number there.  A key with a path keeps its last step whatever is put in
front, and so do all keys below it.

The comparison includes the texts because a caller who imports a key sees no more of the keys below
it than that: two keys with different paths may well be the same key for him.
-/

set_option autoImplicit false

namespace Bitcoin

open KeyTree

/-- The path up to the last step. -/
def KeyPath.above (path : KeyPath) : KeyPath := ⟨path.steps.dropLast⟩

namespace ExtendedKey

variable {key other : ExtendedKey} {above path : KeyPath}

/-! ## Steps in front of a path -/

/-- The key with more steps in front of its path. -/
def graft (above : KeyPath) (key : ExtendedKey) : ExtendedKey :=
  { key with path := above.extend key.path }

theorem graft_withLastStep (key : ExtendedKey) :
    key.withLastStep.graft key.path.above = key := by
  have hpath : key.path.above.extend ⟨key.path.last?.toList⟩ = key.path := by
    rcases key with ⟨⟨steps⟩, _⟩
    rcases List.eq_nil_or_concat steps with rfl | ⟨steps, step, rfl⟩
    · rfl
    · simp [KeyPath.above, KeyPath.extend, KeyPath.last?]
  rw [graft, withLastStep, hpath]

theorem childOfHash_graft (above : KeyPath) (key : ExtendedKey) (step : ChildNumber)
    (hash : FixedBytes 64) :
    (key.graft above).childOfHash step hash = (key.childOfHash step hash).map (graft above) := by
  have hsecret : (key.graft above).secret = key.secret := rfl
  have hpoint : (key.graft above).point = key.point := rfl
  have hpath : (key.graft above).path.child step = above.extend (key.path.child step) :=
    (KeyPath.extend_child _ _ _).symm
  rw [childOfHash, childOfHash, hsecret, hpoint, hpath]
  split
  · rfl
  · split
    · split <;> rfl
    · split <;> rfl

/-- **A step does not look at the path.** -/
theorem derive_graft (above : KeyPath) (key : ExtendedKey) (step : ChildNumber) :
    (key.graft above).derive step = (key.derive step).map (graft above) := by
  rcases hrefusal : key.refusal? step.isHardened with _ | e
  · rw [derive_of_no_refusal hrefusal, ← childOfHash_graft]
    exact derive_of_no_refusal hrefusal
  · rw [derive_of_refusal hrefusal]
    exact derive_of_refusal hrefusal

theorem derivePath_graft (above : KeyPath) (key : ExtendedKey) (path : KeyPath) :
    (key.graft above).derivePath path = (key.derivePath path).map (graft above) := by
  induction path using KeyPath.induction_child with
  | master => rfl
  | child path step ih =>
    rw [derivePath_child, derivePath_child, ih]
    rcases key.derivePath path with e | parent
    · rfl
    · exact derive_graft above parent step

/-! ## Texts -/

/-- Nothing is put in front of no path at all. -/
def Attached (above : KeyPath) (key : ExtendedKey) : Prop :=
  key.path = .master → above = .master

theorem childNumber_graft (h : key.Attached above) :
    (key.graft above).childNumber = key.childNumber := by
  have hlast : (above.extend key.path).last? = key.path.last? := by
    by_cases hmaster : key.path = .master
    · rw [h hmaster, hmaster]
      rfl
    · have hsteps : key.path.steps ≠ [] := fun hnil => hmaster (congrArg KeyPath.mk hnil)
      exact List.getLast?_append_of_ne_nil _ hsteps
  rw [childNumber, childNumber, graft, hlast]

theorem serialize_graft (h : key.Attached above) (version : Nat) (half : FixedBytes 33) :
    (key.graft above).serialize version half = key.serialize version half := by
  rw [serialize, serialize, childNumber_graft h]
  rfl

theorem toPublicText_graft (h : key.Attached above) (network : Network) :
    (key.graft above).toPublicText network = key.toPublicText network := by
  rw [toPublicText, toPublicText, serialize_graft h]
  rfl

theorem toPrivateText_graft (h : key.Attached above) (network : Network) :
    (key.graft above).toPrivateText network = key.toPrivateText network := by
  have hsecret : (key.graft above).secret = key.secret := rfl
  rw [toPrivateText, toPrivateText, hsecret]
  rcases key.secret with _ | secret
  · rfl
  · dsimp only
    rw [serialize_graft h]

theorem Attached.of_derivePath (h : key.Attached above) (hkey : key.derivePath path = .ok other) :
    other.Attached above := by
  intro hmaster
  rw [path_of_derivePath hkey, KeyPath.extend, KeyPath.master, KeyPath.mk.injEq] at hmaster
  have hnil := (List.append_eq_nil_iff.1 hmaster).1
  exact h (congrArg KeyPath.mk hnil)

theorem attached_withLastStep (key : ExtendedKey) : key.withLastStep.Attached key.path.above := by
  intro hmaster
  rw [path_withLastStep_eq_master_iff.1 hmaster]
  rfl

/-! ## Imported keys -/

/-- The keys are the same, and so are their texts, but the path of the one is that of the other with
more steps in front. -/
structure SameBelow (above : KeyPath) (key other : ExtendedKey) : Prop where
  path_eq : key.path = above.extend other.path
  depth_eq : key.depth = other.depth
  chainCode_eq : key.chainCode = other.chainCode
  secret_eq : key.secret = other.secret
  point_eq : key.point = other.point
  parentFingerprint_eq : key.parentFingerprint = other.parentFingerprint
  toPublicText_eq : ∀ network, key.toPublicText network = other.toPublicText network
  toPrivateText_eq : ∀ network, key.toPrivateText network = other.toPrivateText network

/-- Two derivations end in such keys, or in the same error. -/
inductive SameOutcome (above : KeyPath) :
    Except KeyError ExtendedKey → Except KeyError ExtendedKey → Prop where
  | ok {key other : ExtendedKey} (h : SameBelow above key other) :
    SameOutcome above (.ok key) (.ok other)
  | error (e : KeyError) : SameOutcome above (.error e) (.error e)

theorem sameBelow_graft (h : key.Attached above) : SameBelow above (key.graft above) key where
  path_eq := rfl
  depth_eq := rfl
  chainCode_eq := rfl
  secret_eq := rfl
  point_eq := rfl
  parentFingerprint_eq := rfl
  toPublicText_eq := toPublicText_graft h
  toPrivateText_eq := toPrivateText_graft h

/-- The key with the last step of its path is as good as the key. -/
theorem sameOutcome_withLastStep (key : ExtendedKey) (path : KeyPath) :
    SameOutcome key.path.above (key.derivePath path) (key.withLastStep.derivePath path) := by
  have hgraft := derivePath_graft key.path.above key.withLastStep path
  rw [graft_withLastStep] at hgraft
  rw [hgraft]
  rcases hother : key.withLastStep.derivePath path with e | other
  · exact .error e
  · exact .ok (sameBelow_graft (key.attached_withLastStep.of_derivePath hother))

/-- **Writing a key and reading it changes nothing below it.**  The key that is read from the public
text has the children that the key has without its private half, and the one from the private text
has those of the key, on every network and along every path.  Where one derivation fails the other
one does, for the same reason. -/
theorem derivePath_of_imported (h : Obtainable key) (network : Network) :
    (∃ imported readNetwork, ofText (key.toPublicText network) = .ok (imported, readNetwork) ∧
      ∀ path, SameOutcome key.path.above (key.neuter.derivePath path)
        (imported.derivePath path)) ∧
    (key.isWatching = false →
      ∃ text imported readNetwork, key.toPrivateText network = .ok text ∧
        ofText text = .ok (imported, readNetwork) ∧
        ∀ path, SameOutcome key.path.above (key.derivePath path) (imported.derivePath path)) := by
  have hformed := h.wellFormed
  refine ⟨⟨_, _, hformed.ofText_toPublicText network, key.neuter.sameOutcome_withLastStep⟩,
    fun hprivate => ?_⟩
  obtain ⟨text, htext, hread⟩ := hformed.ofText_toPrivateText hprivate network
  exact ⟨text, _, _, htext, hread, key.sameOutcome_withLastStep⟩

/-- Two steps below a child, from its private text. -/
theorem derivePath_of_imported_firstChild :
    ∃ child text imported readNetwork, leastMaster.derive ⟨0⟩ = .ok child ∧
      child.toPrivateText .regtest = .ok text ∧ ofText text = .ok (imported, readNetwork) ∧
      SameOutcome .master (child.derivePath ⟨[⟨1⟩, ⟨0x80000000⟩]⟩)
        (imported.derivePath ⟨[⟨1⟩, ⟨0x80000000⟩]⟩) := by
  obtain ⟨child, hchild⟩ := exists_firstChild
  have hobtained : Obtainable child := .derive obtainable_leastMaster hchild
  have hprivate : child.isWatching = false := (child_of_derive hchild).isWatching_eq
  obtain ⟨text, imported, readNetwork, htext, hread, hsame⟩ :=
    (derivePath_of_imported hobtained .regtest).2 hprivate
  have habove : child.path.above = .master := by
    rw [(child_of_derive hchild).path_eq]
    rfl
  rw [habove] at hsame
  exact ⟨child, text, imported, readNetwork, hchild, htext, hread, hsame _⟩

end ExtendedKey

end Bitcoin
