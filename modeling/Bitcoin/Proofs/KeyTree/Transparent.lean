import Bitcoin.Proofs.KeyTree.Run

/-!
# The tree remembers and changes nothing

As long as nobody puts keys into it, a tree only spares work: it holds keys that are derived from
its root, and a lookup gives what deriving the whole path from the root would give.

* `KeyTree.Transparent` is the invariant: **the tree holds the root and keys derived from it, and
  with a key all those on its path**.  `KeyTree.transparent_after` is the step and
  `KeyTree.transparent_run` the run.
* `KeyTree.lookup_extend` and `KeyTree.lookup_of_not_below` are the lookups in such a tree, and
  `KeyTree.deriveNextChild_extend` is its next child.

The step is proved from the effects in `Bitcoin.Proofs.KeyTree.Run`.  Every effect either leaves the
keys alone or files a child of a key that was just found, and for such a child there is
`KeyTree.Transparent.insert`.  Counters do not come into it at all (`KeyTree.Transparent.congr`): a
tree that has counted is as transparent as before.

From the invariant, lookups are computed without looking at what happens to be in the tree.  The
nearest key on the way up is derived from the root, so the way down from it continues the way from
the root, and the result is that of the whole way.  If the path does not lead through the root,
there is no key on it, since all keys in the tree are at the root or below it; a lookup does not go
from the root upwards, even if the root is a child itself.

With `put` in the run nothing of this is true any more, for two reasons.  A key can be put above the
root, from where lookups find other keys; and it can be put in the place of the root, of which
`KeyTree.root` then gives whatever is there now.  The theorem says what holds until that happens.

Transparent trees are used twice more.  `Bitcoin.Proofs.KeyTree.Demand` and
`Bitcoin.Proofs.KeyTree.Order` show that they cannot tell the order of requests, and
`Bitcoin.Proofs.CommandLine.Children` that counting through the children of a key shows what
deriving each of them by its path shows.
-/

set_option autoImplicit false

namespace Bitcoin.KeyTree

open Stateful ExtendedKey

variable {root parent key : ExtendedKey} {tree before after : KeyTree} {path suffix : KeyPath}
  {step : ChildNumber} {relative create : Bool}

/-- The tree holds its root and keys derived from it, and with each key the one above it. -/
structure Transparent (root : ExtendedKey) (tree : KeyTree) : Prop where
  rootPath_eq : tree.rootPath = root.path
  key?_root : tree.key? root.path = some root
  derived : ∀ path key, tree.key? path = some key →
    ∃ suffix, path = root.path.extend suffix ∧ root.derivePath suffix = .ok key
  above : ∀ suffix step, tree.key? (root.path.extend (suffix.child step)) ≠ none →
    tree.key? (root.path.extend suffix) ≠ none

theorem transparent_ofRoot (root : ExtendedKey) : Transparent root (ofRoot root) where
  rootPath_eq := rfl
  key?_root := by rw [key?_ofRoot, if_pos rfl]
  derived path key hkey := by
    rw [key?_ofRoot] at hkey
    split at hkey
    · next hpath =>
      cases hkey
      exact ⟨.master, by rw [KeyPath.extend_master, hpath], rfl⟩
    · cases hkey
  above suffix step hchild := by
    rw [key?_ofRoot, if_neg] at hchild
    · exact absurd rfl hchild
    · intro hroot
      have hlength := congrArg (fun path => path.steps.length) hroot
      simp [KeyPath.extend, KeyPath.child] at hlength

namespace Transparent

/-- A key in the tree is what deriving gives. -/
theorem derivePath_eq (h : Transparent root tree)
    (hkey : tree.key? (root.path.extend suffix) = some key) : root.derivePath suffix = .ok key := by
  obtain ⟨other, hpath, hother⟩ := h.derived _ key hkey
  rw [KeyPath.extend_inj.1 hpath]
  exact hother

theorem filed (h : Transparent root tree) : tree.Filed := by
  intro path key hkey
  obtain ⟨suffix, rfl, hsuffix⟩ := h.derived path key hkey
  exact path_of_derivePath hsuffix

/-- The counters do not count. -/
theorem congr (h : Transparent root before) (hroot : after.rootPath = before.rootPath)
    (hkeys : ∀ path, after.key? path = before.key? path) : Transparent root after where
  rootPath_eq := hroot.trans h.rootPath_eq
  key?_root := (hkeys _).trans h.key?_root
  derived path key hkey := h.derived path key ((hkeys path).symm.trans hkey)
  above suffix step hchild := by
    rw [hkeys] at hchild ⊢
    exact h.above suffix step hchild

/-- A child of a key in the tree may be put into it. -/
theorem insert (h : Transparent root tree) (hparent : tree.key? path = some parent)
    (hkey : parent.derive step = .ok key) : Transparent root (tree.insert key) := by
  obtain ⟨suffix, rfl, hsuffix⟩ := h.derived path parent hparent
  have hderive : root.derivePath (suffix.child step) = .ok key :=
    derivePath_child_eq_ok_iff.2 ⟨parent, hsuffix, hkey⟩
  have hpath : key.path = root.path.extend (suffix.child step) := path_of_derivePath hderive
  have hkept : ∀ other, tree.key? other ≠ none → (tree.insert key).key? other ≠ none := by
    intro other hother
    rw [key?_insert]
    split
    · exact Option.some_ne_none key
    · exact hother
  exact {
    rootPath_eq := h.rootPath_eq
    key?_root := by
      rw [key?_insert, if_neg, h.key?_root]
      intro hroot
      -- The new key has a step more than the root, at least.
      have hlength := congrArg (fun path => path.steps.length) (hpath.symm.trans hroot)
      simp [KeyPath.extend, KeyPath.child] at hlength
    derived := by
      intro other found hfound
      rw [key?_insert] at hfound
      split at hfound
      · next heq =>
        cases hfound
        exact ⟨suffix.child step, heq.symm.trans hpath, hderive⟩
      · exact h.derived other found hfound
    above := by
      intro other last hchild
      rw [key?_insert] at hchild
      split at hchild
      · next heq =>
        -- The new key is the child of the parent, and that is in the tree.
        have hsame : (other.child last).steps = (suffix.child step).steps :=
          congrArg KeyPath.steps (KeyPath.extend_inj.1 (heq.symm.trans hpath))
        have hother : other = suffix := congrArg KeyPath.mk (List.append_inj' hsame rfl).1
        rw [hother]
        exact hkept _ (by rw [hparent]; exact Option.some_ne_none parent)
      · exact hkept _ (h.above other last hchild) }

end Transparent

/-! ## Lookups -/

/-- **A lookup gives what is derived**, the key or the error, and the tree is as good as before. -/
theorem lookup_extend (h : Transparent root tree) (suffix : KeyPath) :
    ∃ after, lookup (root.path.extend suffix) true tree =
      Stateful.ofExcept (root.derivePath suffix) after ∧ Transparent root after := by
  induction suffix using KeyPath.induction_child with
  | master =>
    rw [KeyPath.extend_master]
    exact ⟨tree, lookup_of_key? h.key?_root, h⟩
  | child suffix step ih =>
    cases hkey : tree.key? (root.path.extend (suffix.child step)) with
    | some key =>
      refine ⟨tree, ?_, h⟩
      rw [lookup_of_key? hkey, h.derivePath_eq hkey]
      rfl
    | none =>
      -- The parent is looked up, which files all keys above it, and the key is derived from it.
      obtain ⟨after, hlookup, hafter⟩ := ih
      rw [KeyPath.extend_child] at hkey ⊢
      rw [lookup_child hkey, derivePath_child]
      cases hparent : root.derivePath suffix with
      | error e =>
        rw [hparent] at hlookup
        exact ⟨after, bind_of_eq_error hlookup, hafter⟩
      | ok parent =>
        rw [hparent] at hlookup
        rw [bind_of_eq_ok hlookup]
        show ∃ last, deriveInto parent step after = Stateful.ofExcept (parent.derive step) last ∧ _
        cases hderive : parent.derive step with
        | error e => exact ⟨after, deriveInto_of_derive_error hderive, hafter⟩
        | ok key =>
          have hfound := (grown_of_lookup_ok h.filed hlookup).2
          exact ⟨after.insert key, deriveInto_of_derive_ok hderive,
            hafter.insert hfound hderive⟩

/-- Above the root and beside it there is nothing. -/
theorem lookup_of_not_below (h : Transparent root tree)
    (hpath : ¬∃ suffix, path = root.path.extend suffix) :
    lookup path true tree = .error .noParent tree := by
  refine lookup_of_bare fun above habove => ?_
  cases hkey : tree.key? above with
  | none => rfl
  | some key =>
    obtain ⟨suffix, rfl, -⟩ := h.derived above key hkey
    obtain ⟨rest, rfl⟩ := KeyPath.exists_extend_iff.2 habove
    exact absurd ⟨suffix.extend rest, KeyPath.extend_extend ..⟩ hpath

/-- The tree that a lookup leaves is as good as before. -/
theorem transparent_left_lookup (h : Transparent root tree) (path : KeyPath) (create : Bool) :
    Transparent root (left (lookup path create tree)) := by
  cases create with
  | false =>
    rw [left_lookup_false]
    exact h
  | true =>
    by_cases hpath : ∃ suffix, path = root.path.extend suffix
    · obtain ⟨suffix, rfl⟩ := hpath
      obtain ⟨after, hlookup, hafter⟩ := lookup_extend h suffix
      rw [hlookup]
      cases root.derivePath suffix <;> exact hafter
    · rw [lookup_of_not_below h hpath]
      exact h

/-! ## Next children -/

/-- **The next child is what is derived** for the index that is due, the key or the error, unless
this index has no key.  If there is a key, the counter stands at the index after it. -/
theorem deriveNextChild_extend {hardened : Bool} {due : ChildNumber} (h : Transparent root tree)
    (hdue : tree.dueChild (root.path.extend suffix) hardened = due)
    (hnext : tree.nextIndex (root.path.extend suffix) hardened < ChildNumber.hardenedBit)
    (hpassed : root.derivePath (suffix.child due) ≠ .error .invalidDerivation) :
    ∃ after, deriveNextChild (root.path.extend suffix) false true hardened tree =
        Stateful.ofExcept (root.derivePath (suffix.child due)) after ∧
      ∀ key, root.derivePath (suffix.child due) = .ok key → Transparent root after ∧
        after.nextIndex (root.path.extend suffix) hardened =
          tree.nextIndex (root.path.extend suffix) hardened + 1 := by
  subst hdue
  obtain ⟨found, hlookup, hfound⟩ := lookup_extend h suffix
  rw [derivePath_child] at hpassed ⊢
  cases hparent : root.derivePath suffix with
  | error e =>
    rw [hparent] at hlookup
    exact ⟨found, deriveNextChild_of_get_error hardened hlookup, fun _ hkey => by cases hkey⟩
  | ok parent =>
    rw [hparent] at hlookup hpassed
    obtain ⟨hgrown, hkey⟩ := grown_of_lookup_ok h.filed hlookup
    have hget : get (root.path.extend suffix) false true tree = .ok parent found := hlookup
    -- Looking the parent up does not move the counter.
    have hcounted := hgrown.nextIndex_eq (root.path.extend suffix) hardened
    have hfree := hnext
    rw [← hcounted] at hfree
    have hused := advanced_useDue hfree
    show ∃ after, _ = Stateful.ofExcept (parent.derive (tree.dueChild _ hardened)) after ∧
      ∀ key, parent.derive (tree.dueChild _ hardened) = .ok key → _
    cases hderive : parent.derive (tree.dueChild (root.path.extend suffix) hardened) with
    | error e =>
      obtain hrefusal | ⟨-, rfl⟩ := refusal_of_derive hderive
      · rw [isHardened_dueChild hnext] at hrefusal
        exact ⟨_, deriveNextChild_of_refusal h.filed rfl hget hnext hrefusal,
          fun _ hkey => by cases hkey⟩
      · exact absurd hderive hpassed
    | ok key =>
      refine ⟨(found.useDue (root.path.extend suffix) hardened).insert key,
        deriveNextChild_of_derive h.filed rfl hget hnext hderive, fun other hother => ?_⟩
      cases hother
      have hafter : Transparent root (found.useDue (root.path.extend suffix) hardened) :=
        hfound.congr hused.rootPath_eq hused.key?_eq
      refine ⟨hafter.insert ((hused.key?_eq _).trans hkey) hderive, ?_⟩
      rw [nextIndex_insert, nextIndex_useDue hfree, hcounted]

/-! ## Requests -/

/-- **What a request leaves is as good as before**, unless it puts a key into the tree. -/
theorem transparent_after (h : Transparent root tree) {request : Request}
    (hput : ∀ key, request ≠ .put key) : Transparent root (request.after tree) := by
  have heffect : Effect tree (request.counter? tree) (request.after tree) :=
    effect_after h.filed hput
  generalize request.after tree = after at heffect ⊢
  have hfound : ∀ {path create parent found}, lookup path create tree = .ok parent found →
      Transparent root found ∧ found.key? path = some parent := by
    intro path create parent found hlookup
    have hleft := transparent_left_lookup h path create
    rw [hlookup] at hleft
    exact ⟨hleft, (grown_of_lookup_ok h.filed hlookup).2⟩
  cases heffect with
  | lookedUp path create => exact transparent_left_lookup h path create
  | derived hlookup hkey =>
    obtain ⟨hgood, hparent⟩ := hfound hlookup
    exact hgood.insert hparent hkey
  | counted hlookup _ hcounted =>
    exact (hfound hlookup).1.congr hcounted.rootPath_eq hcounted.key?_eq
  | handedOut hlookup _ hcounted hkey =>
    obtain ⟨hgood, hparent⟩ := hfound hlookup
    exact (hgood.congr hcounted.rootPath_eq hcounted.key?_eq).insert
      ((hcounted.key?_eq _).trans hparent) hkey

theorem transparent_run (h : Transparent root tree) {requests : List Request}
    (hputs : ∀ key, Request.put key ∉ requests) : Transparent root (run requests tree) := by
  induction requests generalizing tree with
  | nil => exact h
  | cons request rest ih =>
    have hput : ∀ key, request ≠ .put key := by
      rintro key rfl
      exact hputs key List.mem_cons_self
    exact ih (transparent_after h hput) fun key hkey => hputs key (List.mem_cons_of_mem _ hkey)

/-- Every path between the root and a key in the tree has a key in the tree. -/
theorem Transparent.key?_between (h : Transparent root tree) {other : KeyPath}
    (hkey : tree.key? path ≠ none) (hroot : root.path.steps <+: other.steps)
    (hpath : other.steps <+: path.steps) : tree.key? other ≠ none := by
  obtain ⟨suffix, rfl⟩ := KeyPath.exists_extend_iff.2 hroot
  obtain ⟨rest, rfl⟩ := KeyPath.exists_extend_iff.2 hpath
  -- Up from the key, one step at a time.
  induction rest using KeyPath.induction_child with
  | master =>
    rw [KeyPath.extend_master] at hkey
    exact hkey
  | child rest step ih =>
    refine ih ?_ (List.prefix_append _ _)
    rw [KeyPath.extend_child, KeyPath.extend_extend, ← KeyPath.extend_child] at hkey
    rw [KeyPath.extend_extend]
    exact h.above _ step hkey

/-- **The tree is transparent.**  However it was used, as long as nobody put a key into it, it holds
keys that are derived from the root, each under its own path, and with each of them all those on its
path from the root on.  A lookup that may derive gives what is derived from the root, the key or the
error, whether the path is given from the master key or from the root; it finds nothing outside the
paths below the root; and the root is what it was. -/
theorem lookups_transparent (root : ExtendedKey) {requests : List Request}
    (hputs : ∀ key, Request.put key ∉ requests) :
    let tree := run requests (ofRoot root)
    (∀ path key, tree.key? path = some key → key.path = path ∧
        ∃ suffix, path = root.path.extend suffix ∧ root.derivePath suffix = .ok key) ∧
      (∀ path other, tree.key? path ≠ none → root.path.steps <+: other.steps →
        other.steps <+: path.steps → tree.key? other ≠ none) ∧
      (∀ suffix, ∃ after,
        get (root.path.extend suffix) false true tree =
            Stateful.ofExcept (root.derivePath suffix) after ∧
          get suffix true true tree = Stateful.ofExcept (root.derivePath suffix) after) ∧
      (∀ path, ¬root.path.steps <+: path.steps →
        get path false true tree = .error .noParent tree) ∧
      KeyTree.root tree = .ok root tree := by
  intro tree
  have h : Transparent root tree := transparent_run (transparent_ofRoot root) hputs
  refine ⟨fun path key hkey => ⟨h.filed path key hkey, h.derived path key hkey⟩,
    fun path other hkey hroot hpath => h.key?_between hkey hroot hpath, fun suffix => ?_,
    fun path hpath => ?_, ?_⟩
  · obtain ⟨after, hlookup, -⟩ := lookup_extend h suffix
    refine ⟨after, hlookup, ?_⟩
    rw [get_eq_lookup, absolute, if_pos rfl, h.rootPath_eq]
    exact hlookup
  · exact lookup_of_not_below h fun hbelow => hpath (KeyPath.exists_extend_iff.1 hbelow)
  · rw [root_eq, find, h.rootPath_eq, h.key?_root]

/-- A tree whose root is not a master key, after a next child and a lookup beside the root. -/
theorem lookups_transparent_child :
    let root : ExtendedKey := .ofSecret ⟨[⟨7⟩]⟩ 1 (.zero 32) ⟨1, by decide, by decide⟩ (.zero 4)
    let tree := run [.deriveNextChild .master true false true, .get ⟨[⟨3⟩]⟩ false true]
      (ofRoot root)
    (∃ key after, root.derivePath ⟨[⟨0x80000005⟩]⟩ = .ok key ∧
        get ⟨[⟨7⟩, ⟨0x80000005⟩]⟩ false true tree = .ok key after) ∧
      get ⟨[⟨3⟩]⟩ false true tree = .error .noParent tree ∧
      KeyTree.root tree = .ok root tree := by
  intro root tree
  obtain ⟨-, -, hbelow, hbeside, hroot⟩ := lookups_transparent root
    (by simp : ∀ key, Request.put key ∉
      [.deriveNextChild .master true false true, .get ⟨[⟨3⟩]⟩ false true])
  refine ⟨?_, hbeside ⟨[⟨3⟩]⟩ (by decide), hroot⟩
  obtain ⟨after, hget, -⟩ := hbelow ⟨[⟨0x80000005⟩]⟩
  obtain ⟨key, hkey⟩ : ∃ key, root.derive ⟨0x80000005⟩ = .ok key :=
    exists_derive_of_isSome (by decide +kernel)
  have hpath : root.derivePath (KeyPath.master.child ⟨0x80000005⟩) = .ok key :=
    derivePath_child_eq_ok_iff.2 ⟨root, rfl, hkey⟩
  exact ⟨key, after, hpath, hget.trans (ofExcept_eq_ok_iff.2 ⟨hpath, rfl⟩)⟩

end Bitcoin.KeyTree
