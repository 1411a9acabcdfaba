import Bitcoin.KeyTree
import Bitcoin.Proofs.Key.Derive

/-!
# What a lookup does to the tree

A lookup that may derive goes up the path to a key that is in the tree, and derives its way down
again.  It is taken apart along the path from its end: `lookup_of_key?`, `lookup_master` and
`lookup_child` say all that it does, and proofs about lookups are inductions on the path with these
three.

* `KeyTree.Filed` is the invariant of the tree: **every key is filed under its own path**.
* `KeyTree.Nearest` is the key at which the way up ends, and `KeyTree.Filled` what the way down
  leaves: **each key that can be derived on it, and nothing else**.  `KeyTree.lookup_cases` is the
  whole effect of a lookup, in a tree with any holes.
* `KeyTree.Grown` is what a lookup leaves as it is: the keys that were there, the counters and the
  path of the root (`grown_of_lookup_ok` and `grown_of_lookup_error`).

There are two things to be said of a lookup, and they are needed in different places.

What it *gives* and what it *leaves* in full is `KeyTree.lookup_cases`.  It names the nearest key on
the way up, and the tree behind the way down is then known place by place.  The way down may end
early, where a child has no key or is refused; what was derived until then stays in the tree, which
is why `KeyTree.Filled` speaks of `derivePath` at each place and not of the end of the path alone.
One statement covers both cases, since a place on the way for which there is no key was empty before
and is empty afterwards.

What it *keeps* is `KeyTree.Grown`, which forgets where keys were filled in.  Later modules mostly
need this: a tree that has grown has the counters that it had, so requests that count can look a
parent up first and then reason about counters alone.

All of it holds in trees with holes, in which a key may be there without the one above it.  Such
trees arise when callers put keys into them.  Nothing is assumed of the keys either, apart from
where they are filed: the key at a place need not be derived from the one above it.  Trees in which
it is are the business of `Bitcoin.Proofs.KeyTree.Transparent`.

The hash maps of a tree appear in the first section and nowhere else.  From there on a tree is what
`key?`, `lastChild?` and `rootPath` say of it.

The way of a lookup for `M/1/2/3`, in a tree that has keys at `M` and `M/1/2/3/4` and at no other
place:

```
up     M/1/2/3   no key
       M/1/2     no key
       M/1       no key
       M         the nearest key
down   M/1       derived and filed
       M/1/2     derived and filed
       M/1/2/3   derived, filed and given
```

The key at `M/1/2/3/4` is not touched.  If `M/1/2` could not be derived, `M/1` would stay in the
tree, and the error would be given.
-/

set_option autoImplicit false

namespace Bitcoin.KeyTree

open Stateful ExtendedKey

variable {tree after : KeyTree} {path : KeyPath} {step : ChildNumber} {key parent : ExtendedKey}
  {relative create : Bool} {e : KeyError}

/-! ## Keys and counters -/

theorem key?_insert (tree : KeyTree) (key : ExtendedKey) (path : KeyPath) :
    (tree.insert key).key? path = if key.path = path then some key else tree.key? path := by
  simp [key?, insert, Std.HashMap.getElem?_insert]

theorem key?_insert_self (tree : KeyTree) (key : ExtendedKey) :
    (tree.insert key).key? key.path = some key := by
  rw [key?_insert, if_pos rfl]

@[simp] theorem nextIndex_insert (tree : KeyTree) (key : ExtendedKey) (path : KeyPath)
    (hardened : Bool) : (tree.insert key).nextIndex path hardened = tree.nextIndex path hardened :=
  rfl

@[simp] theorem key?_setLastChild (tree : KeyTree) (parent : KeyPath) (hardened : Bool)
    (child : ChildNumber) (path : KeyPath) :
    (tree.setLastChild parent hardened child).key? path = tree.key? path := by
  cases hardened <;> rfl

@[simp] theorem rootPath_setLastChild (tree : KeyTree) (parent : KeyPath) (hardened : Bool)
    (child : ChildNumber) : (tree.setLastChild parent hardened child).rootPath = tree.rootPath := by
  cases hardened <;> rfl

theorem lastChild?_setLastChild (tree : KeyTree) (parent : KeyPath) (hardened : Bool)
    (child : ChildNumber) (path : KeyPath) (flag : Bool) :
    (tree.setLastChild parent hardened child).lastChild? path flag =
      if parent = path ∧ hardened = flag then some child else tree.lastChild? path flag := by
  cases hardened <;> cases flag <;>
    simp [lastChild?, setLastChild, Std.HashMap.getElem?_insert]

theorem key?_ofRoot (root : ExtendedKey) (path : KeyPath) :
    (ofRoot root).key? path = if root.path = path then some root else none := by
  simp [key?, ofRoot, Std.HashMap.getElem?_insert]

@[simp] theorem nextIndex_ofRoot (root : ExtendedKey) (path : KeyPath) (hardened : Bool) :
    (ofRoot root).nextIndex path hardened = 0 := by
  cases hardened <;> simp [nextIndex, lastChild?, ofRoot]

/-! ## Filing -/

/-- Every key is filed under its own path. -/
def Filed (tree : KeyTree) : Prop := ∀ path key, tree.key? path = some key → key.path = path

theorem filed_ofRoot (root : ExtendedKey) : (ofRoot root).Filed := by
  intro path key h
  rw [key?_ofRoot] at h
  split at h
  · next hpath =>
    cases h
    exact hpath
  · cases h

theorem Filed.insert (h : tree.Filed) (key : ExtendedKey) : (tree.insert key).Filed := by
  intro path found hfound
  rw [key?_insert] at hfound
  split at hfound
  · next hpath =>
    cases hfound
    exact hpath
  · exact h path found hfound

theorem Filed.setLastChild (h : tree.Filed) (parent : KeyPath) (hardened : Bool)
    (child : ChildNumber) : (tree.setLastChild parent hardened child).Filed := by
  intro path key hkey
  rw [key?_setLastChild] at hkey
  exact h path key hkey

/-! ## The steps of a lookup -/

theorem deriveInto_of_derive_ok (h : parent.derive step = .ok key) :
    deriveInto parent step tree = .ok key (tree.insert key) := by
  rw [deriveInto, bind_of_eq_ok (ofExcept_eq_ok_iff.2 ⟨h, rfl⟩)]
  rfl

theorem deriveInto_of_derive_error (h : parent.derive step = .error e) :
    deriveInto parent step tree = .error e tree :=
  bind_of_eq_error (ofExcept_eq_error_iff.2 ⟨h, rfl⟩)

theorem get_eq_lookup (tree : KeyTree) (path : KeyPath) (relative create : Bool) :
    get path relative create tree = lookup (tree.absolute path relative) create tree := rfl

theorem getOrDerive_nil (tree : KeyTree) :
    getOrDerive [] tree =
      match tree.key? .master with
      | some key => .ok key tree
      | none => .error .noParent tree := rfl

theorem getOrDerive_cons (last : ChildNumber) (above : List ChildNumber) (tree : KeyTree) :
    getOrDerive (last :: above) tree =
      match tree.key? ⟨(last :: above).reverse⟩ with
      | some key => .ok key tree
      | none => (getOrDerive above >>= fun parent => deriveInto parent last : KeyTreeM _) tree :=
  rfl

/-- What is in the tree is found. -/
theorem lookup_of_key? (h : tree.key? path = some key) :
    lookup path create tree = .ok key tree := by
  cases create with
  | false =>
    show find path tree = _
    rw [find, h]
  | true =>
    show getOrDerive path.steps.reverse tree = _
    obtain ⟨steps⟩ := path
    cases hsteps : steps.reverse with
    | nil =>
      obtain rfl := List.reverse_eq_nil_iff.1 hsteps
      rw [getOrDerive_nil, show tree.key? .master = some key from h]
    | cons last above => rw [getOrDerive_cons, ← hsteps, List.reverse_reverse, h]

theorem get_of_key? (h : tree.key? (tree.absolute path relative) = some key) :
    get path relative create tree = .ok key tree := lookup_of_key? h

theorem lookup_false (h : tree.key? path = none) :
    lookup path false tree = .error (.keyNotFound path) tree := by
  show find path tree = _
  rw [find, h]

theorem lookup_master (h : tree.key? .master = none) :
    lookup .master true tree = .error .noParent tree := by
  show getOrDerive [] tree = _
  rw [getOrDerive_nil, h]

/-- What is not in the tree is derived from the key above it. -/
theorem lookup_child (h : tree.key? (path.child step) = none) :
    lookup (path.child step) true tree =
      (lookup path true >>= fun parent => deriveInto parent step) tree := by
  have hsteps : (path.child step).steps.reverse = step :: path.steps.reverse := by
    rw [KeyPath.child, List.reverse_append]
    rfl
  have hpath : (⟨(step :: path.steps.reverse).reverse⟩ : KeyPath) = path.child step := by
    rw [List.reverse_cons, List.reverse_reverse]
    rfl
  show getOrDerive (path.child step).steps.reverse tree = _
  rw [hsteps, getOrDerive_cons, hpath, h]
  rfl

/-! ## The nearest key -/

/-- Neither under a path nor above it there is a key in the tree. -/
def Bare (tree : KeyTree) (path : KeyPath) : Prop :=
  ∀ above : KeyPath, above.steps <+: path.steps → tree.key? above = none

/-- The nearest key on the way up from a path: it is in the tree under `near`, the steps of `rest`
lead down from there to the path, and none of the longer paths on the way has a key. -/
structure Nearest (tree : KeyTree) (path near rest : KeyPath) (key : ExtendedKey) : Prop where
  path_eq : path = near.extend rest
  key?_eq : tree.key? near = some key
  missing : ∀ front : KeyPath, front ≠ .master → front.steps <+: rest.steps →
    tree.key? (near.extend front) = none

theorem nearest_of_key? (h : tree.key? path = some key) : Nearest tree path path .master key where
  path_eq := (KeyPath.extend_master path).symm
  key?_eq := h
  missing _ hfront habove := absurd (KeyPath.eq_master_of_prefix habove) hfront

/-- A child that is not in the tree has the same key above it as its parent. -/
theorem Nearest.child {near rest : KeyPath} (h : Nearest tree path near rest key)
    (hmissing : tree.key? (path.child step) = none) :
    Nearest tree (path.child step) near (rest.child step) key where
  path_eq := by rw [h.path_eq, KeyPath.extend_child]
  key?_eq := h.key?_eq
  missing front hfront habove := by
    rcases KeyPath.prefix_child_iff.1 habove with rfl | habove
    · rw [KeyPath.extend_child, ← h.path_eq, hmissing]
    · exact h.missing front hfront habove

theorem bare_or_nearest (tree : KeyTree) (path : KeyPath) :
    tree.Bare path ∨ ∃ near rest key, Nearest tree path near rest key := by
  induction path using KeyPath.induction_child with
  | master =>
    cases hkey : tree.key? .master with
    | some key => exact .inr ⟨_, _, key, nearest_of_key? hkey⟩
    | none =>
      refine .inl fun above habove => ?_
      rw [KeyPath.eq_master_of_prefix habove, hkey]
  | child path step ih =>
    cases hkey : tree.key? (path.child step) with
    | some key => exact .inr ⟨_, _, key, nearest_of_key? hkey⟩
    | none =>
      rcases ih with hbare | ⟨near, rest, key, hnearest⟩
      · refine .inl fun above habove => ?_
        rcases KeyPath.prefix_child_iff.1 habove with rfl | habove
        · exact hkey
        · exact hbare above habove
      · exact .inr ⟨near, rest.child step, key, hnearest.child hkey⟩

/-! ## What a lookup fills in -/

/-- With nothing to start from, a lookup leaves everything as it is. -/
theorem lookup_of_bare (h : tree.Bare path) : lookup path true tree = .error .noParent tree := by
  induction path using KeyPath.induction_child with
  | master => exact lookup_master (h .master (List.prefix_refl _))
  | child path step ih =>
    rw [lookup_child (h _ (List.prefix_refl _))]
    exact bind_of_eq_error (ih fun above habove =>
      h above (habove.trans (List.prefix_append _ _)))

/-- The tree after the way down from a key that is filed under `near`: at each place on the way, up
to the end of `rest`, stands the key that is derived there, or none if there is none, and at all
other places and in the counters it is what it was. -/
structure Filled (near rest : KeyPath) (key : ExtendedKey) (before after : KeyTree) : Prop where
  rootPath_eq : after.rootPath = before.rootPath
  lastHardened_eq : after.lastHardened = before.lastHardened
  lastNormal_eq : after.lastNormal = before.lastNormal
  derived : ∀ front : KeyPath, front.steps <+: rest.steps →
    after.key? (near.extend front) = (key.derivePath front).toOption
  others : ∀ other, (∀ front : KeyPath, front.steps <+: rest.steps → other ≠ near.extend front) →
    after.key? other = before.key? other

namespace Filled

variable {before : KeyTree} {near rest : KeyPath} {derived : ExtendedKey}

theorem refl (h : tree.key? near = some key) : Filled near .master key tree tree where
  rootPath_eq := rfl
  lastHardened_eq := rfl
  lastNormal_eq := rfl
  derived front habove := by
    rw [KeyPath.eq_master_of_prefix habove, KeyPath.extend_master, h]
    rfl
  others _ _ := rfl

/-- What is behind the last step was not written yet. -/
theorem key?_child (h : Filled near rest key before after) (step : ChildNumber) :
    after.key? (near.extend (rest.child step)) = before.key? (near.extend (rest.child step)) := by
  refine h.others _ fun front habove hsame => ?_
  rw [← KeyPath.extend_inj.1 hsame] at habove
  exact KeyPath.not_child_prefix rest step habove

/-- A step for which there is no key leaves the hole that was there. -/
theorem child (h : Filled near rest key before after)
    (hmissing : before.key? (near.extend (rest.child step)) = none)
    (herror : (key.derivePath (rest.child step)).toOption = none) :
    Filled near (rest.child step) key before after :=
  { h with
    derived := by
      intro front habove
      rcases KeyPath.prefix_child_iff.1 habove with rfl | habove
      · rw [h.key?_child, hmissing, herror]
      · exact h.derived front habove
    others := fun other hother => h.others other fun front habove =>
      hother front (habove.trans (List.prefix_append _ _)) }

/-- A step for which there is a key puts it where it belongs. -/
theorem insert (h : Filled near rest key before after)
    (hderived : key.derivePath (rest.child step) = .ok derived)
    (hpath : derived.path = near.extend (rest.child step)) :
    Filled near (rest.child step) key before (after.insert derived) where
  rootPath_eq := h.rootPath_eq
  lastHardened_eq := h.lastHardened_eq
  lastNormal_eq := h.lastNormal_eq
  derived front habove := by
    rcases KeyPath.prefix_child_iff.1 habove with rfl | habove
    · rw [← hpath, key?_insert_self, hderived]
      rfl
    · rw [key?_insert, if_neg, h.derived front habove]
      rw [hpath, KeyPath.extend_inj]
      rintro rfl
      exact KeyPath.not_child_prefix rest step habove
  others other hother := by
    rw [key?_insert, if_neg, h.others other fun front habove =>
      hother front (habove.trans (List.prefix_append _ _))]
    rintro rfl
    exact hother _ (List.prefix_refl _) hpath

end Filled

/-- **A lookup derives its way down from the nearest key**, and keeps what it derives. -/
theorem lookup_of_nearest {near rest : KeyPath} (hfiled : tree.Filed)
    (h : Nearest tree path near rest key) :
    ∃ after, lookup path true tree = Stateful.ofExcept (key.derivePath rest) after ∧
      Filled near rest key tree after := by
  obtain ⟨rfl, hkey, hmissing⟩ := h
  -- Down the way, one step at a time: above each hole is what the steps so far have left.
  induction rest using KeyPath.induction_child with
  | master =>
    rw [KeyPath.extend_master]
    exact ⟨tree, lookup_of_key? hkey, .refl hkey⟩
  | child rest step ih =>
    have hchild : tree.key? (near.extend (rest.child step)) = none :=
      hmissing _ (KeyPath.child_ne_master rest step) (List.prefix_refl _)
    obtain ⟨after, hlookup, hfilled⟩ := ih fun front hfront habove =>
      hmissing front hfront (habove.trans (List.prefix_append _ _))
    have hstep : key.derivePath (rest.child step) =
        key.derivePath rest >>= fun parent => parent.derive step := derivePath_child key rest step
    rw [KeyPath.extend_child] at hchild ⊢
    rw [lookup_child hchild]
    rw [← KeyPath.extend_child] at hchild
    cases hrest : key.derivePath rest with
    | error e =>
      rw [hrest] at hlookup hstep
      refine ⟨after, ?_, hfilled.child hchild (by rw [hstep]; rfl)⟩
      rw [bind_of_eq_error hlookup, hstep]
      rfl
    | ok parent =>
      rw [hrest] at hlookup hstep
      rw [bind_of_eq_ok hlookup]
      cases hderive : parent.derive step with
      | error e =>
        have herror : key.derivePath (rest.child step) = .error e := hstep.trans hderive
        rw [deriveInto_of_derive_error hderive, herror]
        exact ⟨after, rfl, hfilled.child hchild (by rw [herror]; rfl)⟩
      | ok derived =>
        have hok : key.derivePath (rest.child step) = .ok derived := hstep.trans hderive
        have hpath : derived.path = near.extend (rest.child step) := by
          rw [path_of_derivePath hok, hfiled near key hkey]
        rw [deriveInto_of_derive_ok hderive, hok]
        exact ⟨after.insert derived, rfl, hfilled.insert hok hpath⟩

/-- **All that a lookup does** that may derive. -/
theorem lookup_cases (hfiled : tree.Filed) (path : KeyPath) :
    tree.Bare path ∧ lookup path true tree = .error .noParent tree ∨
      ∃ near rest key after, Nearest tree path near rest key ∧
        lookup path true tree = Stateful.ofExcept (key.derivePath rest) after ∧
        Filled near rest key tree after := by
  rcases bare_or_nearest tree path with hbare | ⟨near, rest, key, hnearest⟩
  · exact .inl ⟨hbare, lookup_of_bare hbare⟩
  · obtain ⟨after, hlookup, hfilled⟩ := lookup_of_nearest hfiled hnearest
    exact .inr ⟨near, rest, key, after, hnearest, hlookup, hfilled⟩

/-! ## What a lookup leaves as it is -/

/-- A tree that has more keys than another, all of them at a path or above it, and is the same in
all else. -/
structure Grown (path : KeyPath) (before after : KeyTree) : Prop where
  rootPath_eq : after.rootPath = before.rootPath
  lastHardened_eq : after.lastHardened = before.lastHardened
  lastNormal_eq : after.lastNormal = before.lastNormal
  filed : after.Filed
  keeps : ∀ other key, before.key? other = some key → after.key? other = some key
  others : ∀ other, ¬other.steps <+: path.steps → after.key? other = before.key? other

namespace Grown

variable {before : KeyTree}

theorem refl (h : tree.Filed) : Grown path tree tree :=
  ⟨rfl, rfl, rfl, h, fun _ _ hkey => hkey, fun _ _ => rfl⟩

theorem lastChild?_eq (h : Grown path before after) (parent : KeyPath) (hardened : Bool) :
    after.lastChild? parent hardened = before.lastChild? parent hardened := by
  rw [lastChild?, lastChild?, h.lastHardened_eq, h.lastNormal_eq]

theorem nextIndex_eq (h : Grown path before after) (parent : KeyPath) (hardened : Bool) :
    after.nextIndex parent hardened = before.nextIndex parent hardened := by
  rw [nextIndex, nextIndex, h.lastChild?_eq]

end Grown

/-- The tree has grown, whether a key was found or not, and a key that was found is in it. -/
def Grows (path : KeyPath) (before : KeyTree) : EStateM.Result KeyError KeyTree ExtendedKey → Prop
  | .ok key after => Grown path before after ∧ after.key? path = some key
  | .error _ after => Grown path before after

namespace Filled

variable {near rest other : KeyPath} {found : ExtendedKey}

/-- Where a key in the tree comes from: it was filled in, or it was there. -/
theorem derivePath_or_key? (h : Filled near rest key tree after)
    (hfound : after.key? other = some found) :
    (∃ front, other = near.extend front ∧ key.derivePath front = .ok found) ∨
      tree.key? other = some found := by
  by_cases hbelow : ∃ front : KeyPath, front.steps <+: rest.steps ∧ other = near.extend front
  · obtain ⟨front, habove, rfl⟩ := hbelow
    rw [h.derived front habove, Fallible.toOption_eq_some_iff] at hfound
    exact .inl ⟨front, rfl, hfound⟩
  · rw [h.others other fun front habove hsame => hbelow ⟨front, habove, hsame⟩] at hfound
    exact .inr hfound

/-- What is filled in is filed, as all else. -/
theorem filed (h : Filled near rest key tree after) (hfiled : tree.Filed)
    (hkey : tree.key? near = some key) : after.Filed := by
  intro other found hfound
  rcases h.derivePath_or_key? hfound with ⟨front, rfl, hderived⟩ | hfound
  · rw [path_of_derivePath hderived, hfiled near key hkey]
  · exact hfiled other found hfound

/-- Filling in replaces no key: there was none behind the nearest one. -/
theorem keeps (h : Filled near rest key tree after) (hnearest : Nearest tree path near rest key)
    (hfound : tree.key? other = some found) : after.key? other = some found := by
  by_cases hbelow : ∃ front : KeyPath, front.steps <+: rest.steps ∧ other = near.extend front
  · obtain ⟨front, habove, rfl⟩ := hbelow
    by_cases hfront : front = .master
    · subst hfront
      rw [KeyPath.extend_master, hnearest.key?_eq] at hfound
      rw [h.derived _ habove, ← hfound]
      rfl
    · rw [hnearest.missing front hfront habove] at hfound
      cases hfound
  · rw [h.others other fun front habove hsame => hbelow ⟨front, habove, hsame⟩, hfound]

theorem grown (h : Filled near rest key tree after) (hfiled : tree.Filed)
    (hnearest : Nearest tree path near rest key) : Grown path tree after where
  rootPath_eq := h.rootPath_eq
  lastHardened_eq := h.lastHardened_eq
  lastNormal_eq := h.lastNormal_eq
  filed := h.filed hfiled hnearest.key?_eq
  keeps _ _ hfound := h.keeps hnearest hfound
  others other hother := by
    refine h.others other ?_
    rintro front ⟨steps, hsteps⟩ rfl
    refine hother ⟨steps, ?_⟩
    rw [hnearest.path_eq, KeyPath.extend, KeyPath.extend, List.append_assoc, hsteps]

end Filled

theorem grows_lookup (hfiled : tree.Filed) : Grows path tree (lookup path create tree) := by
  cases create with
  | false =>
    cases hkey : tree.key? path with
    | some found =>
      rw [lookup_of_key? hkey]
      exact ⟨.refl hfiled, hkey⟩
    | none =>
      rw [lookup_false hkey]
      exact .refl hfiled
  | true =>
    rcases lookup_cases hfiled path with
      ⟨-, hlookup⟩ | ⟨near, rest, key, after, hnearest, hlookup, hfilled⟩
    · rw [hlookup]
      exact .refl hfiled
    · have hgrown := hfilled.grown hfiled hnearest
      rw [hlookup]
      cases hderived : key.derivePath rest with
      | error e => exact hgrown
      | ok found =>
        refine ⟨hgrown, ?_⟩
        rw [hnearest.path_eq, hfilled.derived rest (List.prefix_refl _), hderived]
        rfl

/-- **A lookup finds the key of its path and the tree only grows**, at the path or above it. -/
theorem grown_of_lookup_ok (hfiled : tree.Filed) (h : lookup path create tree = .ok key after) :
    Grown path tree after ∧ after.key? path = some key := by
  have hgrows : Grows path tree (lookup path create tree) := grows_lookup hfiled
  rw [h] at hgrows
  exact hgrows

/-- A lookup that fails leaves the keys that it found on its way. -/
theorem grown_of_lookup_error (hfiled : tree.Filed) (h : lookup path create tree = .error e after) :
    Grown path tree after := by
  have hgrows : Grows path tree (lookup path create tree) := grows_lookup hfiled
  rw [h] at hgrows
  exact hgrows

end Bitcoin.KeyTree
