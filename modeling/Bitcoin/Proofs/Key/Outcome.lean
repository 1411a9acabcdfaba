import Bitcoin.Proofs.Key.Watching
import Bitcoin.Proofs.Key.WellFormed

/-!
# How a derivation ends

Whether there is a key at the end of a path can be told beforehand, from the path and two fields of
the key at its start, but for the one thing that nobody can know: that an index on the way has no
key.  A path on which this does not happen is `ExtendedKey.Passable`.

* `ExtendedKey.exists_derivePath_iff` says when there is a key.  It goes along the path from its
  end, and each step is taken unless the parent refuses it (`ExtendedKey.exists_derive_iff`).
* `ExtendedKey.exists_derive_of_derivePath_error` finds the step at which a derivation fails, and
  `ExtendedKey.passable_iff` says what that means for passable paths.
* `ExtendedKey.derivePath_outcome` is all of it together, with the fields of the key that is found.

The condition that a path is passable cannot be dropped, and it cannot be checked without computing
the keys: whether an index has a key is decided by a hash.  It is stated step by step, for the
parents that there are.  Given that, everything about the outcome is arithmetic on the depth and a
look at the marks of the steps.

Both reasons for which a step is refused may hold at once, when a hardened child is asked of a
watching key at the greatest depth.  Then the missing half is told, because it is looked at first,
and `ExtendedKey.refusal?_eq_some_iff` keeps the order: the second reason is only given where the
first does not hold.

That the failing step is the *first* one that cannot be taken follows from there being a key above
it.  What stands behind it in the path has no say (`ExtendedKey.derivePath_of_prefix_error`).
-/

set_option autoImplicit false

namespace Bitcoin

/-! ## Paths -/

namespace KeyPath

variable {path : KeyPath} {step : ChildNumber}

@[simp] theorem depth_master : master.depth = 0 := rfl

@[simp] theorem depth_child : (path.child step).depth = path.depth + 1 := by
  rw [depth, child, List.length_append, List.length_singleton, depth]

theorem forall_mem_child_iff {good : ChildNumber → Prop} :
    (∀ other ∈ (path.child step).steps, good other) ↔
      (∀ other ∈ path.steps, good other) ∧ good step := by
  rw [child, List.forall_mem_append, List.forall_mem_singleton]

end KeyPath

namespace ExtendedKey

variable {key parent derived : ExtendedKey} {path front : KeyPath} {step : ChildNumber}
  {hardened : Bool} {e : KeyError}

/-! ## Refusals -/

/-- That the private half is missing is found before the depth is looked at. -/
theorem refusal?_eq_some_iff :
    key.refusal? hardened = some e ↔
      (hardened = true ∧ key.isWatching = true) ∧ e = .hardenedFromPublic ∨
        ¬(hardened = true ∧ key.isWatching = true) ∧ key.depth = 255 ∧ e = .maxDepthReached := by
  rw [refusal?, ← Bool.and_eq_true_iff]
  split
  · next hwatching => simp [hwatching, eq_comm]
  · next hprivate =>
    split
    · next hdepth => simp [hprivate, hdepth, eq_comm]
    · next hdepth => simp [hprivate, hdepth]

theorem refusal?_eq_none_iff :
    key.refusal? hardened = none ↔
      (key.isWatching = false ∨ hardened = false) ∧ key.depth.toNat < 255 := by
  have hdepth : key.depth.toNat < 255 ↔ key.depth ≠ 255 := by
    rw [ne_eq, ← UInt8.toNat_inj]
    have hbyte : key.depth.toNat < 256 := key.depth.toNat_lt
    show _ ↔ ¬key.depth.toNat = 255
    omega
  rw [hdepth, refusal?]
  cases hardened <;> cases key.isWatching <;> simp

/-! ## Passable paths -/

/-- No step of a path comes to an index that has no key. -/
def Passable (key : ExtendedKey) (path : KeyPath) : Prop :=
  ∀ front step parent, (front.child step).steps <+: path.steps →
    key.derivePath front = .ok parent → parent.derive step ≠ .error .invalidDerivation

theorem Passable.above (h : key.Passable (path.child step)) : key.Passable path :=
  fun front last parent hfront => h front last parent (hfront.trans (List.prefix_append _ _))

theorem Passable.last (h : key.Passable (path.child step))
    (hparent : key.derivePath path = .ok parent) :
    parent.derive step ≠ .error .invalidDerivation :=
  h path step parent (List.prefix_refl _) hparent

/-- A step is taken unless it is refused. -/
theorem exists_derive_iff (h : parent.derive step ≠ .error .invalidDerivation) :
    (∃ key, parent.derive step = .ok key) ↔ parent.refusal? step.isHardened = none := by
  constructor
  · rintro ⟨key, hkey⟩
    cases hrefusal : parent.refusal? step.isHardened with
    | none => rfl
    | some e => cases hkey.symm.trans (derive_of_refusal hrefusal)
  · intro hnone
    cases hkey : parent.derive step with
    | ok key => exact ⟨key, rfl⟩
    | error e =>
      obtain hrefusal | ⟨-, rfl⟩ := refusal_of_derive hkey
      · cases hnone.symm.trans hrefusal
      · exact absurd hkey h

/-- The depth counts the steps, and never more of them than fit. -/
theorem toNat_depth_of_derivePath (h : key.derivePath path = .ok derived) :
    derived.depth.toNat = key.depth.toNat + path.depth := by
  induction path using KeyPath.induction_child generalizing derived with
  | master =>
    cases h
    rfl
  | child path step ih =>
    obtain ⟨above, habove, hderived⟩ := derivePath_child_eq_ok_iff.1 h
    rw [toNat_depth_of_derive hderived, ih habove, KeyPath.depth_child, Nat.add_assoc]

/-- **There is a key at the end of a passable path** just if no hardened step is asked of a watching
key and the path is not too long. -/
theorem exists_derivePath_iff (h : key.Passable path) :
    (∃ derived, key.derivePath path = .ok derived) ↔
      (key.isWatching = false ∨ ∀ step ∈ path.steps, step.isHardened = false) ∧
        key.depth.toNat + path.depth ≤ 255 := by
  induction path using KeyPath.induction_child with
  | master =>
    have hbyte : key.depth.toNat < 256 := key.depth.toNat_lt
    refine iff_of_true ⟨key, rfl⟩ ⟨.inr fun step hstep => (by cases hstep), ?_⟩
    rw [KeyPath.depth_master]
    omega
  | child path step ih =>
    -- What the last step needs of its parent is told by the start and the length of the path.
    have hlast : (∃ derived, key.derivePath (path.child step) = .ok derived) ↔
        (∃ parent, key.derivePath path = .ok parent) ∧
          (key.isWatching = false ∨ step.isHardened = false) ∧
            key.depth.toNat + path.depth < 255 := by
      constructor
      · rintro ⟨derived, hderived⟩
        obtain ⟨parent, hparent, hderive⟩ := derivePath_child_eq_ok_iff.1 hderived
        have hrefusal := (exists_derive_iff (h.last hparent)).1 ⟨derived, hderive⟩
        rw [refusal?_eq_none_iff, isWatching_of_derivePath hparent,
          toNat_depth_of_derivePath hparent] at hrefusal
        exact ⟨⟨parent, hparent⟩, hrefusal⟩
      · rintro ⟨⟨parent, hparent⟩, htaken⟩
        rw [← isWatching_of_derivePath hparent, ← toNat_depth_of_derivePath hparent,
          ← refusal?_eq_none_iff] at htaken
        obtain ⟨derived, hderived⟩ := (exists_derive_iff (h.last hparent)).2 htaken
        exact ⟨derived, derivePath_child_eq_ok_iff.2 ⟨parent, hparent, hderived⟩⟩
    rw [hlast, ih h.above, KeyPath.forall_mem_child_iff, KeyPath.depth_child]
    constructor
    · rintro ⟨⟨hsteps, -⟩, hstep, hdepth⟩
      refine ⟨?_, by omega⟩
      exact hsteps.elim .inl fun hsteps => hstep.imp_right fun hstep => ⟨hsteps, hstep⟩
    · rintro ⟨hsteps, hdepth⟩
      exact ⟨⟨hsteps.imp_right And.left, by omega⟩, hsteps.imp_right And.right, by omega⟩

/-! ## The step that fails -/

/-- **A derivation fails at one of its steps**, and all the steps in front of it are taken. -/
theorem exists_derive_of_derivePath_error (h : key.derivePath path = .error e) :
    ∃ front step parent, (front.child step).steps <+: path.steps ∧
      key.derivePath front = .ok parent ∧ parent.derive step = .error e := by
  induction path using KeyPath.induction_child with
  | master => cases h
  | child path step ih =>
    rw [derivePath_child] at h
    cases hparent : key.derivePath path with
    | ok parent =>
      rw [hparent] at h
      exact ⟨path, step, parent, List.prefix_refl _, hparent, h⟩
    | error e' =>
      rw [hparent] at h
      cases h
      obtain ⟨front, last, parent, hfront, hfails⟩ := ih hparent
      exact ⟨front, last, parent, hfront.trans (List.prefix_append _ _), hfails⟩

/-- No step behind one that fails changes anything. -/
theorem derivePath_of_prefix_error (hfront : front.steps <+: path.steps)
    (h : key.derivePath front = .error e) : key.derivePath path = .error e := by
  obtain ⟨rest, hrest⟩ := hfront
  rw [derivePath] at h
  rw [derivePath, ← hrest, List.foldlM_append, h]
  rfl

/-- A path is passable unless its derivation ends at an index that has no key. -/
theorem passable_iff :
    key.Passable path ↔ key.derivePath path ≠ .error .invalidDerivation := by
  constructor
  · intro h hinvalid
    obtain ⟨front, step, parent, hfront, hparent, hderive⟩ :=
      exists_derive_of_derivePath_error hinvalid
    exact h front step parent hfront hparent hderive
  · intro h front step parent hfront hparent hderive
    refine h (derivePath_of_prefix_error hfront ?_)
    rw [derivePath_child, hparent]
    exact hderive

/-- What a step is refused for on a passable path. -/
theorem refused_of_derive_error (hpassed : parent.derive step ≠ .error .invalidDerivation)
    (hparent : key.derivePath front = .ok parent) (h : parent.derive step = .error e) :
    (step.isHardened = true ∧ key.isWatching = true) ∧ e = .hardenedFromPublic ∨
      ¬(step.isHardened = true ∧ key.isWatching = true) ∧
        key.depth.toNat + front.depth = 255 ∧ e = .maxDepthReached := by
  obtain hrefusal | ⟨-, rfl⟩ := refusal_of_derive h
  · rw [refusal?_eq_some_iff, isWatching_of_derivePath hparent, ← UInt8.toNat_inj,
      toNat_depth_of_derivePath hparent] at hrefusal
    exact hrefusal
  · exact absurd h hpassed

/-- **The outcome of deriving along a path**, for any key and any path without indices that have no
key.

* There is a key at the end just if the start has a private half or no step is hardened, and the
  depths of the start and of the path are at most 255 together.
* The path of that key is that of the start and the path, its depth is the sum of the two depths, it
  has a private half just if the start has, and below a parent it is the child with the last step
  that names this parent.
* If there is none, the error is that of the first step that cannot be taken.  It is that a hardened
  child is asked of a watching key, or else, that the parent is as deep as a key can be. -/
theorem derivePath_outcome (h : key.Passable path) :
    ((∃ derived, key.derivePath path = .ok derived) ↔
        (key.isWatching = false ∨ ∀ step ∈ path.steps, step.isHardened = false) ∧
          key.depth.toNat + path.depth ≤ 255) ∧
      (∀ derived, key.derivePath path = .ok derived →
        derived.path = key.path.extend path ∧
          derived.depth.toNat = key.depth.toNat + path.depth ∧
          derived.isWatching = key.isWatching ∧
          ∀ front step, path = front.child step → derived.childNumber = step ∧
            ∃ parent, key.derivePath front = .ok parent ∧
              derived.parentFingerprint = parent.fingerprint) ∧
      ∀ e, key.derivePath path = .error e →
        ∃ front step parent, (front.child step).steps <+: path.steps ∧
          key.derivePath front = .ok parent ∧ parent.derive step = .error e ∧
          ((step.isHardened = true ∧ key.isWatching = true) ∧ e = .hardenedFromPublic ∨
            ¬(step.isHardened = true ∧ key.isWatching = true) ∧
              key.depth.toNat + front.depth = 255 ∧ e = .maxDepthReached) := by
  refine ⟨exists_derivePath_iff h, fun derived hderived => ?_, fun e herror => ?_⟩
  · refine ⟨path_of_derivePath hderived, toNat_depth_of_derivePath hderived,
      isWatching_of_derivePath hderived, ?_⟩
    rintro front step rfl
    obtain ⟨parent, hparent, hderive⟩ := derivePath_child_eq_ok_iff.1 hderived
    have hchild := child_of_derive hderive
    refine ⟨?_, parent, hparent, hchild.parentFingerprint_eq⟩
    rw [childNumber, hchild.path_eq, KeyPath.last?_child, Option.getD_some]
  · obtain ⟨front, step, parent, hfront, hparent, hderive⟩ :=
      exists_derive_of_derivePath_error herror
    have hpassed := h front step parent hfront hparent
    exact ⟨front, step, parent, hfront, hparent, hderive,
      refused_of_derive_error hpassed hparent hderive⟩

/-- The first child of a master key, and a path on which a watching key has only that one. -/
theorem derivePath_outcome_watching :
    (∃ child, leastMaster.derivePath ⟨[⟨0⟩]⟩ = .ok child ∧ child.depth.toNat = 1 ∧
        child.parentFingerprint = leastMaster.fingerprint) ∧
      leastMaster.neuter.derivePath ⟨[⟨0⟩, ⟨0x80000000⟩, ⟨1⟩]⟩ = .error .hardenedFromPublic ∧
      ¬∃ derived, leastMaster.neuter.derivePath ⟨[⟨0⟩, ⟨0x80000000⟩, ⟨1⟩]⟩ = .ok derived := by
  obtain ⟨child, hchild⟩ := exists_firstChild
  have hchild : leastMaster.derivePath (KeyPath.master.child ⟨0⟩) = .ok child :=
    derivePath_child_eq_ok_iff.2 ⟨leastMaster, rfl, hchild⟩
  have hpassable : leastMaster.Passable (KeyPath.master.child ⟨0⟩) :=
    passable_iff.2 (by rw [hchild]; exact nofun)
  obtain ⟨-, hdepth, -, hlast⟩ := (derivePath_outcome hpassable).2.1 child hchild
  obtain ⟨-, parent, hparent, hfingerprint⟩ := hlast .master ⟨0⟩ rfl
  cases hparent
  obtain ⟨watching, hwatching⟩ := exists_firstChild_neuter
  have hrefused : watching.derive ⟨0x80000000⟩ = .error .hardenedFromPublic :=
    derive_of_refusal (refusal?_eq_some_iff.2
      (.inl ⟨⟨rfl, (child_of_derive hwatching).isWatching_eq⟩, rfl⟩))
  have hfront : leastMaster.neuter.derivePath ⟨[⟨0⟩, ⟨0x80000000⟩]⟩ =
      .error .hardenedFromPublic := by
    show leastMaster.neuter.derivePath ((KeyPath.master.child ⟨0⟩).child ⟨0x80000000⟩) = _
    rw [derivePath_child, derivePath_child_eq_ok_iff.2 ⟨leastMaster.neuter, rfl, hwatching⟩]
    exact hrefused
  have hfails : leastMaster.neuter.derivePath ⟨[⟨0⟩, ⟨0x80000000⟩, ⟨1⟩]⟩ =
      .error .hardenedFromPublic := derivePath_of_prefix_error ⟨[⟨1⟩], rfl⟩ hfront
  have hpassable : leastMaster.neuter.Passable ⟨[⟨0⟩, ⟨0x80000000⟩, ⟨1⟩]⟩ :=
    passable_iff.2 (by rw [hfails]; exact nofun)
  refine ⟨⟨child, hchild, hdepth, hfingerprint⟩, hfails, fun hderived => ?_⟩
  obtain ⟨hsteps, -⟩ := (derivePath_outcome hpassable).1.1 hderived
  exact absurd hsteps (by decide)

end ExtendedKey

end Bitcoin
