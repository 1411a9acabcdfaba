import Bitcoin.Proofs.KeyTree.Lookup

/-!
# How indices are used

The search for a next child uses up the index that is due, tries it, and goes on to the next one if
it has no key.  `KeyTree.deriveFirstOf_succ` is one attempt; what a whole search does follows by
induction on the attempts.

* `KeyTree.Advanced` says that **one counter has moved forward and all else is as before**.
* `KeyTree.FirstFrom` says which child is handed out: the first one from the index that is due on.
* `KeyTree.counts_deriveFirstOf` is the search as a whole, `KeyTree.deriveFirstOf_of_refusal` and
  `KeyTree.refusal_of_deriveFirstOf` the search for a parent that has no such children.

The statement to prove is about any number of attempts, for every tree: wherever the counter stands,
the search either gives the first child that has a key and leaves the counter behind it, or fails
with the counter somewhere further on.  `KeyTree.Counts` says so of the result of a search, and the
induction passes the tree with its counter one further to the attempts that remain.  Between two
attempts nothing but the counter changes, so that the pieces fit together by
`KeyTree.Advanced.trans`.

An index is used *before* the child is derived.  One attempt can therefore end in three ways with
the same tree: with a key, with an error that ends the search, and with the search going on.  This
is what `KeyTree.deriveFirstOf_succ` shows in one place, and no later proof opens the search again.

Whether a parent has children of a kind at all does not depend on the index (`refusal?`), so a
refused search ends with its first attempt.  `KeyTree.refusal_of_deriveFirstOf` is the other
direction: an error that a parent gives for itself was given at the first attempt, and the counter
has moved by one, which is what a refusal costs in `Bitcoin.Proofs.KeyTree.NextChild`.

The search of a key without a tree is a different function, and is compared with this one in
`Bitcoin.Proofs.KeyTree.Search`.
-/

set_option autoImplicit false

namespace Bitcoin.KeyTree

open Stateful ChildNumber ExtendedKey

variable {tree before after : KeyTree} {path : KeyPath} {parent key : ExtendedKey} {hardened : Bool}
  {attempts start index : Nat} {e : KeyError}

/-! ## The index that is due -/

/-- The child that is due for the parent at a path. -/
def dueChild (tree : KeyTree) (path : KeyPath) (hardened : Bool) : ChildNumber :=
  .ofParts (tree.nextIndex path hardened) hardened

/-- The tree once the index that is due is used. -/
def useDue (tree : KeyTree) (path : KeyPath) (hardened : Bool) : KeyTree :=
  tree.setLastChild path hardened (tree.dueChild path hardened)

theorem nextIndex_le (tree : KeyTree) (path : KeyPath) (hardened : Bool) :
    tree.nextIndex path hardened ≤ hardenedBit := by
  rw [nextIndex]
  split
  · next last _ => exact last.index_lt
  · exact Nat.zero_le _

/-- The counter stands at the index after the one that was used. -/
theorem nextIndex_useDue (h : tree.nextIndex path hardened < hardenedBit) :
    (tree.useDue path hardened).nextIndex path hardened = tree.nextIndex path hardened + 1 := by
  rw [nextIndex, useDue, lastChild?_setLastChild, if_pos ⟨rfl, rfl⟩, dueChild]
  show (ofParts (tree.nextIndex path hardened) hardened).index + 1 = _
  rw [index_ofParts h]

/-- The child that is due is told by the counter alone. -/
theorem dueChild_congr {other : KeyTree}
    (h : tree.nextIndex path hardened = other.nextIndex path hardened) :
    tree.dueChild path hardened = other.dueChild path hardened := by
  rw [dueChild, dueChild, h]

theorem takeNextChild_of_lt (h : tree.nextIndex path hardened < hardenedBit) :
    takeNextChild path hardened tree =
      .ok (tree.dueChild path hardened) (tree.useDue path hardened) := by
  have hindex : ofIndex (tree.nextIndex path hardened) hardened =
      .ok (tree.dueChild path hardened) := if_pos h
  show (Stateful.ofExcept (ofIndex (tree.nextIndex path hardened) hardened) >>= fun child => do
    set (tree.setLastChild path hardened child)
    return child : KeyTreeM ChildNumber) tree = _
  rw [bind_of_eq_ok (ofExcept_eq_ok_iff.2 ⟨hindex, rfl⟩)]
  rfl

/-- When the indices are used up, nothing changes. -/
theorem takeNextChild_of_eq (h : tree.nextIndex path hardened = hardenedBit) :
    takeNextChild path hardened tree = .error (.invalidChildIndex hardenedBit) tree := by
  have hindex : ofIndex (tree.nextIndex path hardened) hardened =
      .error (.invalidChildIndex hardenedBit) := by
    rw [h]
    rfl
  show (Stateful.ofExcept (ofIndex (tree.nextIndex path hardened) hardened) >>= fun child => do
    set (tree.setLastChild path hardened child)
    return child : KeyTreeM ChildNumber) tree = _
  exact bind_of_eq_error (ofExcept_eq_error_iff.2 ⟨hindex, rfl⟩)

/-! ## One attempt -/

/-- One attempt: the index is used before the child is derived. -/
theorem deriveFirstOf_succ (attempts : Nat)
    (h : tree.nextIndex parent.path hardened < hardenedBit) :
    deriveFirstOf parent hardened (attempts + 1) tree =
      match parent.derive (tree.dueChild parent.path hardened) with
      | .error .invalidDerivation =>
        deriveFirstOf parent hardened attempts (tree.useDue parent.path hardened)
      | .error e => .error e (tree.useDue parent.path hardened)
      | .ok key => .ok key ((tree.useDue parent.path hardened).insert key) := by
  rw [deriveFirstOf, bind_of_eq_ok (takeNextChild_of_lt h)]
  cases parent.derive (tree.dueChild parent.path hardened) with
  | ok key => rfl
  | error e => cases e <;> rfl

theorem deriveFirstOf_of_eq (attempts : Nat)
    (h : tree.nextIndex parent.path hardened = hardenedBit) :
    deriveFirstOf parent hardened (attempts + 1) tree =
      .error (.invalidChildIndex hardenedBit) tree := by
  rw [deriveFirstOf]
  exact bind_of_eq_error (takeNextChild_of_eq h)

/-! ## What moves -/

/-- One counter has moved forward, and all else is as before. -/
structure Advanced (path : KeyPath) (hardened : Bool) (before after : KeyTree) : Prop where
  rootPath_eq : after.rootPath = before.rootPath
  key?_eq : ∀ other, after.key? other = before.key? other
  lastChild?_eq : ∀ other flag, ¬(path = other ∧ hardened = flag) →
    after.lastChild? other flag = before.lastChild? other flag
  nextIndex_le : before.nextIndex path hardened ≤ after.nextIndex path hardened

theorem Advanced.refl (tree : KeyTree) : Advanced path hardened tree tree :=
  ⟨rfl, fun _ => rfl, fun _ _ _ => rfl, Nat.le_refl _⟩

theorem Advanced.trans {middle : KeyTree} (h : Advanced path hardened before middle)
    (h' : Advanced path hardened middle after) : Advanced path hardened before after where
  rootPath_eq := h'.rootPath_eq.trans h.rootPath_eq
  key?_eq other := (h'.key?_eq other).trans (h.key?_eq other)
  lastChild?_eq other flag hother := (h'.lastChild?_eq other flag hother).trans
    (h.lastChild?_eq other flag hother)
  nextIndex_le := Nat.le_trans h.nextIndex_le h'.nextIndex_le

theorem advanced_useDue (h : tree.nextIndex path hardened < hardenedBit) :
    Advanced path hardened tree (tree.useDue path hardened) where
  rootPath_eq := rootPath_setLastChild ..
  key?_eq other := key?_setLastChild ..
  lastChild?_eq other flag hother := by rw [useDue, lastChild?_setLastChild, if_neg hother]
  nextIndex_le := by
    rw [nextIndex_useDue h]
    exact Nat.le_succ _

theorem Advanced.filed (h : Advanced path hardened before after) (hfiled : before.Filed) :
    after.Filed := by
  intro other key hkey
  rw [h.key?_eq] at hkey
  exact hfiled other key hkey

/-- No counter goes back. -/
theorem Advanced.nextIndex_le_nextIndex (h : Advanced path hardened before after)
    (other : KeyPath) (flag : Bool) : before.nextIndex other flag ≤ after.nextIndex other flag := by
  by_cases hother : path = other ∧ hardened = flag
  · obtain ⟨rfl, rfl⟩ := hother
    exact h.nextIndex_le
  · have heq : after.nextIndex other flag = before.nextIndex other flag := by
      rw [nextIndex, nextIndex, h.lastChild?_eq other flag hother]
    exact Nat.le_of_eq heq.symm

/-! ## Which child is found -/

/-- The first child of a parent from an index on, all those between having no key. -/
structure FirstFrom (parent : ExtendedKey) (hardened : Bool) (start index : Nat)
    (key : ExtendedKey) : Prop where
  start_le : start ≤ index
  index_lt : index < hardenedBit
  derive_eq : parent.derive (.ofParts index hardened) = .ok key
  passed : ∀ between, start ≤ between → between < index →
    parent.derive (.ofParts between hardened) = .error .invalidDerivation

theorem FirstFrom.of_succ (h : FirstFrom parent hardened (start + 1) index key)
    (hstart : parent.derive (.ofParts start hardened) = .error .invalidDerivation) :
    FirstFrom parent hardened start index key where
  start_le := Nat.le_of_succ_le h.start_le
  index_lt := h.index_lt
  derive_eq := h.derive_eq
  passed between hle hlt := by
    rcases Nat.eq_or_lt_of_le hle with rfl | hlt'
    · exact hstart
    · exact h.passed between hlt' hlt

theorem FirstFrom.path_eq (h : FirstFrom parent hardened start index key) :
    key.path = parent.path.child (.ofParts index hardened) :=
  (child_of_derive h.derive_eq).path_eq

/-- A search uses up the indices that it tries, and gives the first child that it finds. -/
def Counts (parent : ExtendedKey) (hardened : Bool) (before : KeyTree) :
    EStateM.Result KeyError KeyTree ExtendedKey → Prop
  | .ok key after => ∃ counted index,
      Advanced parent.path hardened before counted ∧
      counted.nextIndex parent.path hardened = index + 1 ∧
      FirstFrom parent hardened (before.nextIndex parent.path hardened) index key ∧
      after = counted.insert key
  | .error _ after => Advanced parent.path hardened before after

theorem counts_deriveFirstOf (parent : ExtendedKey) (hardened : Bool) (attempts : Nat)
    (tree : KeyTree) :
    Counts parent hardened tree (deriveFirstOf parent hardened attempts tree) := by
  induction attempts generalizing tree with
  | zero => exact .refl tree
  | succ attempts ih =>
    rcases Nat.eq_or_lt_of_le (tree.nextIndex_le parent.path hardened) with heq | hlt
    · rw [deriveFirstOf_of_eq attempts heq]
      exact .refl tree
    have hadvanced := advanced_useDue hlt
    rw [deriveFirstOf_succ attempts hlt]
    split
    · next hderive =>
      specialize ih (tree.useDue parent.path hardened)
      cases hrest : deriveFirstOf parent hardened attempts (tree.useDue parent.path hardened) with
      | error e after =>
        rw [hrest] at ih
        exact hadvanced.trans ih
      | ok key after =>
        rw [hrest] at ih
        obtain ⟨counted, index, hmore, hnext, hfirst, rfl⟩ := ih
        rw [nextIndex_useDue hlt] at hfirst
        exact ⟨counted, index, hadvanced.trans hmore, hnext, hfirst.of_succ hderive, rfl⟩
    · exact hadvanced
    · next key hderive =>
      refine ⟨_, _, hadvanced, nextIndex_useDue hlt, ⟨Nat.le_refl _, hlt, hderive, ?_⟩, rfl⟩
      intro between hle hlt'
      omega

/-! ## Parents that have no such children -/

theorem isHardened_dueChild (h : tree.nextIndex path hardened < hardenedBit) :
    (tree.dueChild path hardened).isHardened = hardened := isHardened_ofParts h hardened

/-- **A refusal uses up an index**: it comes after the counter has moved. -/
theorem deriveFirstOf_of_refusal (attempts : Nat) (hrefusal : parent.refusal? hardened = some e)
    (h : tree.nextIndex parent.path hardened < hardenedBit) :
    deriveFirstOf parent hardened (attempts + 1) tree =
      .error e (tree.useDue parent.path hardened) := by
  rw [← isHardened_dueChild h] at hrefusal
  rw [deriveFirstOf_succ attempts h, derive_of_refusal hrefusal]
  obtain ⟨rfl, -⟩ | ⟨rfl, -⟩ := eq_of_refusal hrefusal <;> rfl

/-- A search fails because the parent has no such children, which the first attempt finds, or
because it comes to an end, of the attempts or of the indices. -/
theorem refusal_of_deriveFirstOf
    (h : deriveFirstOf parent hardened attempts tree = .error e after) :
    (parent.refusal? hardened = some e ∧ tree.nextIndex parent.path hardened < hardenedBit ∧
        after = tree.useDue parent.path hardened) ∨
      e = .attemptsExhausted ∨ e = .invalidChildIndex hardenedBit := by
  induction attempts generalizing tree with
  | zero =>
    cases h
    exact .inr (.inl rfl)
  | succ attempts ih =>
    rcases Nat.eq_or_lt_of_le (tree.nextIndex_le parent.path hardened) with heq | hlt
    · rw [deriveFirstOf_of_eq attempts heq] at h
      cases h
      exact .inr (.inr rfl)
    cases hrefusal : parent.refusal? hardened with
    | some refused =>
      rw [deriveFirstOf_of_refusal attempts hrefusal hlt] at h
      cases h
      exact .inl ⟨rfl, hlt, rfl⟩
    | none =>
      -- Nothing is refused, so this index has no key and the next one is tried.
      rw [deriveFirstOf_succ attempts hlt] at h
      split at h
      · obtain ⟨hsome, -⟩ | hend := ih h
        · rw [hrefusal] at hsome
          cases hsome
        · exact .inr hend
      · next refused hinvalid hderive =>
        obtain hsome | ⟨-, rfl⟩ := refusal_of_derive hderive
        · rw [isHardened_dueChild hlt, hrefusal] at hsome
          cases hsome
        · exact absurd rfl hinvalid
      · cases h

end Bitcoin.KeyTree
