import Bitcoin.Proofs.KeyTree.Transparent

/-!
# Requests that derive what they need

A caller who lets the tree derive what is missing asks for the key under a path, for a child of it
or for its next child.  The tree first looks the key up, in the same way for all three, and what it
finds does not depend on the tree but on its root alone.

* `KeyTree.fromRoot` is what is found under a path, the key or the error, and `KeyTree.lookup_eq`
  says so.  **A lookup that fails leaves the keys that it found on its way**, which
  `KeyTree.key?_left_lookup_ne_none_iff` tells by their paths.
* `KeyTree.Demand` is such a request: a lookup, and then a wish that is served (`perform_eq`).
* `KeyTree.key?_left_perform_ne_none_iff` tells the paths of the keys that a demand leaves in the
  tree.  Which keys these are is known: `KeyTree.Transparent.key?_eq`.

Demands are the requests about which callers who share a tree can be careless.  The others are left
out for a reason: `put` changes what is derived from then on, and a request that may not derive can
succeed or fail depending on what others have asked for before.

The two things to know of a demand are its answer and its tree.

* The answer to a lookup is a function of the root, `KeyTree.fromRoot`.  A child by its number is
  one derivation more.  Only a next child looks at the tree, and there at one counter.
* The tree is described by the *paths* of its keys.  Which key stands at a path is then no question,
  because there is only one that is derived from the root along it (`KeyTree.Transparent.key?_eq`).
  This is what makes two trees comparable that were filled in different orders.

The description has to be exact.  A lookup that fails does leave something behind, namely the keys
on its way up to the one that failed.  So the lemma about paths is an equivalence, with the keys
that were there, the keys on the way and the key that was given as its three cases, and a run of
demands adds them up in `Bitcoin.Proofs.KeyTree.Order`.
-/

set_option autoImplicit false

namespace Bitcoin.KeyTree

open Stateful ExtendedKey

variable {α : Type} {root parent key : ExtendedKey} {tree tree' found found' : KeyTree}
  {path other : KeyPath} {hardened : Bool}

/-! ## What is found under a path -/

/-- What a caller is told. -/
def outcome : EStateM.Result KeyError KeyTree α → Except KeyError α
  | .ok value _ => .ok value
  | .error e _ => .error e

/-- The key that is derived from the root along a path, which has to lead through the root. -/
def fromRoot (root : ExtendedKey) (path : KeyPath) : Except KeyError ExtendedKey :=
  if root.path.steps <+: path.steps then
    root.derivePath ⟨path.steps.drop root.path.steps.length⟩
  else .error .noParent

theorem fromRoot_extend (root : ExtendedKey) (suffix : KeyPath) :
    fromRoot root (root.path.extend suffix) = root.derivePath suffix := by
  have hbelow : root.path.steps <+: (root.path.extend suffix).steps := List.prefix_append _ _
  rw [fromRoot, if_pos hbelow, KeyPath.extend, List.drop_left]

theorem fromRoot_of_not_below (h : ¬∃ suffix, path = root.path.extend suffix) :
    fromRoot root path = .error .noParent :=
  if_neg fun hbelow => h (KeyPath.exists_extend_iff.2 hbelow)

theorem fromRoot_eq_ok_iff :
    fromRoot root path = .ok key ↔
      ∃ suffix, path = root.path.extend suffix ∧ root.derivePath suffix = .ok key := by
  constructor
  · intro hkey
    by_cases hbelow : ∃ suffix, path = root.path.extend suffix
    · obtain ⟨suffix, rfl⟩ := hbelow
      exact ⟨suffix, rfl, by rw [← hkey, fromRoot_extend]⟩
    · rw [fromRoot_of_not_below hbelow] at hkey
      cases hkey
  · rintro ⟨suffix, rfl, hkey⟩
    rw [fromRoot_extend, hkey]

/-- A key in the tree is the one that is found under its path. -/
theorem Transparent.fromRoot_eq (h : Transparent root tree) (hkey : tree.key? path = some key) :
    fromRoot root path = .ok key :=
  fromRoot_eq_ok_iff.2 (h.derived path key hkey)

/-- So two trees with the same root have the same key under a path, if both have one. -/
theorem Transparent.key?_eq (h : Transparent root tree) (h' : Transparent root tree')
    (hboth : tree.key? path ≠ none ↔ tree'.key? path ≠ none) :
    tree.key? path = tree'.key? path := by
  rcases hkey : tree.key? path with _ | key
  · rw [hkey] at hboth
    by_contra hother
    exact hboth.2 (Ne.symm hother) rfl
  · obtain ⟨key', hkey'⟩ := Option.ne_none_iff_exists'.1 (hboth.1 (by simp [hkey]))
    have hsame := (h.fromRoot_eq hkey).symm.trans (h'.fromRoot_eq hkey')
    rw [hkey', Except.ok.inj hsame]

/-- **A lookup finds what is derived from the root**, in every tree that grew from it. -/
theorem lookup_eq (h : Transparent root tree) (path : KeyPath) :
    ∃ found, lookup path true tree = Stateful.ofExcept (fromRoot root path) found ∧
      Transparent root found ∧ Grown path tree found := by
  have hlookup : ∃ found, lookup path true tree = Stateful.ofExcept (fromRoot root path) found ∧
      Transparent root found := by
    by_cases hpath : ∃ suffix, path = root.path.extend suffix
    · obtain ⟨suffix, rfl⟩ := hpath
      rw [fromRoot_extend]
      exact lookup_extend h suffix
    · rw [fromRoot_of_not_below hpath]
      exact ⟨tree, lookup_of_not_below h hpath, h⟩
  obtain ⟨found, hlookup, hfound⟩ := hlookup
  refine ⟨found, hlookup, hfound, ?_⟩
  rcases hpath : fromRoot root path with e | key
  · rw [hpath] at hlookup
    exact grown_of_lookup_error h.filed hlookup
  · rw [hpath] at hlookup
    exact (grown_of_lookup_ok h.filed hlookup).1

/-- A key that is found is in the tree. -/
theorem lookup_of_fromRoot (h : Transparent root tree) (hkey : fromRoot root path = .ok key) :
    ∃ found, lookup path true tree = .ok key found ∧ found.key? path = some key ∧
      Transparent root found ∧ Grown path tree found := by
  obtain ⟨found, hlookup, hfound⟩ := lookup_eq h path
  rw [hkey] at hlookup
  exact ⟨found, hlookup, (grown_of_lookup_ok h.filed hlookup).2, hfound⟩

theorem key?_insert_ne_none_iff (tree : KeyTree) (key : ExtendedKey) (other : KeyPath) :
    (tree.insert key).key? other ≠ none ↔ tree.key? other ≠ none ∨ key.path = other := by
  rw [key?_insert]
  split <;> simp [*]

/-- What a lookup finds on its way stays in the tree, even if there is nothing at the end. -/
theorem key?_left_lookup_of_prefix (h : Transparent root tree)
    (hother : other.steps <+: path.steps) (hkey : fromRoot root other = .ok key) :
    (left (lookup path true tree)).key? other ≠ none := by
  -- Along the path from its end: the key is found there, or on the way to the step before.
  induction path using KeyPath.induction_child with
  | master =>
    obtain rfl : other = .master := congrArg KeyPath.mk (List.prefix_nil.1 hother)
    obtain ⟨found, hlookup, hfound, -⟩ := lookup_of_fromRoot h hkey
    rw [hlookup]
    exact Option.ne_none_iff_exists'.2 ⟨key, hfound⟩
  | child path step ih =>
    rcases List.prefix_concat_iff.1 hother with hsteps | habove
    · obtain rfl : other = path.child step := congrArg KeyPath.mk hsteps
      obtain ⟨found, hlookup, hfound, -⟩ := lookup_of_fromRoot h hkey
      rw [hlookup]
      exact Option.ne_none_iff_exists'.2 ⟨key, hfound⟩
    · by_cases hchild : tree.key? (path.child step) = none
      · have hkept := ih habove
        rw [lookup_child hchild]
        rcases hlookup : lookup path true tree with ⟨parent, after⟩ | ⟨e, after⟩
        · rw [hlookup] at hkept
          rw [bind_of_eq_ok hlookup]
          rcases left_deriveInto parent step after with heq | ⟨child, -, heq⟩
          · rw [heq]
            exact hkept
          · rw [heq, key?_insert_ne_none_iff]
            exact .inl hkept
        · rw [hlookup] at hkept
          rw [bind_of_eq_error hlookup]
          exact hkept
      · obtain ⟨found, hfound⟩ := Option.ne_none_iff_exists'.1 hchild
        rw [lookup_of_key? hfound]
        obtain ⟨suffix, rfl, -⟩ := fromRoot_eq_ok_iff.1 hkey
        exact h.key?_between hchild (List.prefix_append _ _) hother

theorem key?_left_lookup_ne_none_iff (h : Transparent root tree) :
    (left (lookup path true tree)).key? other ≠ none ↔
      tree.key? other ≠ none ∨
        other.steps <+: path.steps ∧ ∃ key, fromRoot root other = .ok key := by
  constructor
  · intro hkey
    by_cases hother : other.steps <+: path.steps
    · obtain ⟨key, hkey⟩ := Option.ne_none_iff_exists'.1 hkey
      exact .inr ⟨hother, key, (transparent_left_lookup h path true).fromRoot_eq hkey⟩
    · obtain ⟨found, hlookup, -, hgrown⟩ := lookup_eq h path
      rw [hlookup, left_ofExcept, hgrown.others other hother] at hkey
      exact .inl hkey
  · rintro (hkey | ⟨hother, key, hkey⟩)
    · obtain ⟨found, hlookup, -, hgrown⟩ := lookup_eq h path
      obtain ⟨key, hkey⟩ := Option.ne_none_iff_exists'.1 hkey
      rw [hlookup, left_ofExcept]
      exact Option.ne_none_iff_exists'.2 ⟨key, hgrown.keeps other key hkey⟩
    · exact key?_left_lookup_of_prefix h hother hkey

theorem lastChild?_left_lookup (h : Transparent root tree) (path other : KeyPath)
    (hardened : Bool) :
    (left (lookup path true tree)).lastChild? other hardened = tree.lastChild? other hardened := by
  obtain ⟨found, hlookup, -, hgrown⟩ := lookup_eq h path
  rw [hlookup, left_ofExcept, hgrown.lastChild?_eq]

/-! ## Demands -/

/-- What a caller wants of a path: the key there, a child of it, or its next child. -/
inductive Wish
  | itself
  | child (step : ChildNumber)
  | next (hardened : Bool)

/-- What is done once the key is found. -/
def Wish.serve : Wish → ExtendedKey → KeyTreeM ExtendedKey
  | .itself, key => pure key
  | .child step, parent => deriveInto parent step
  | .next hardened, parent => deriveFirstOf parent hardened maxAttempts

/-- A request that lets the tree derive the key under a path and those above it. -/
structure Demand where
  path : KeyPath
  relative : Bool
  wish : Wish

namespace Demand

/-- The demand as a request. -/
def request (demand : Demand) : Request :=
  match demand.wish with
  | .itself => .get demand.path demand.relative true
  | .child step => .deriveChild demand.path demand.relative true step
  | .next hardened => .deriveNextChild demand.path demand.relative true hardened

/-- What the tree does. -/
def perform (demand : Demand) : KeyTreeM ExtendedKey :=
  match demand.wish with
  | .itself => KeyTree.get demand.path demand.relative true
  | .child step => KeyTree.deriveChild demand.path demand.relative true step
  | .next hardened => KeyTree.deriveNextChild demand.path demand.relative true hardened

/-- The path that is meant, in a tree with that root. -/
def target (root : ExtendedKey) (demand : Demand) : KeyPath :=
  if demand.relative then root.path.extend demand.path else demand.path

/-- The counter that is asked for, that of a path for hardened children or for others. -/
def counter? (root : ExtendedKey) (demand : Demand) : Option (KeyPath × Bool) :=
  match demand.wish with
  | .next hardened => some (demand.target root, hardened)
  | _ => none

variable {demand demand' : Demand}

theorem left_perform (demand : Demand) (tree : KeyTree) :
    left (demand.perform tree) = demand.request.after tree := by
  rcases demand with ⟨_, _, _ | _ | _⟩ <;> rfl

theorem request_ne_put (demand : Demand) (key : ExtendedKey) : demand.request ≠ .put key := by
  rcases demand with ⟨_, _, _ | _ | _⟩ <;> exact nofun

theorem absolute_eq_target (h : Transparent root tree) (demand : Demand) :
    tree.absolute demand.path demand.relative = demand.target root := by
  rw [absolute, target, h.rootPath_eq]

theorem counter?_request (h : Transparent root tree) (demand : Demand) :
    demand.request.counter? tree = demand.counter? root := by
  have htarget := absolute_eq_target h demand
  rcases demand with ⟨_, _, _ | _ | _⟩
  · rfl
  · rfl
  · exact congrArg some (Prod.ext htarget rfl)

/-- A demand is a lookup, and then its wish. -/
theorem perform_eq (h : Transparent root tree) (demand : Demand) :
    demand.perform tree =
      (lookup (demand.target root) true >>= demand.wish.serve) tree := by
  rw [← absolute_eq_target h]
  rcases demand with ⟨path, relative, _ | _ | _⟩
  · exact congrFun (bind_pure (KeyTree.get path relative true)).symm tree
  · rfl
  · rfl

theorem transparent_perform (h : Transparent root tree) (demand : Demand) :
    Transparent root (left (demand.perform tree)) := by
  rw [left_perform]
  exact transparent_after h demand.request_ne_put

/-- Other counters stand still. -/
theorem lastChild?_perform (h : Transparent root tree) (demand : Demand)
    (hother : demand.counter? root ≠ some (other, hardened)) :
    (left (demand.perform tree)).lastChild? other hardened = tree.lastChild? other hardened := by
  rw [left_perform]
  refine (kept_after h.filed demand.request).lastChild?_eq other hardened ?_
  rw [counter?_request h]
  exact hother

/-- Nothing is served where nothing is found. -/
theorem perform_of_error {e : KeyError} (h : Transparent root tree)
    (hnone : fromRoot root (demand.target root) = .error e) :
    demand.perform tree = .error e (left (lookup (demand.target root) true tree)) := by
  obtain ⟨found, hlookup, -⟩ := lookup_eq h (demand.target root)
  rw [hnone] at hlookup
  rw [perform_eq h, bind_of_eq_error hlookup, hlookup]
  rfl

/-- The wish is served in the tree that the lookup leaves. -/
theorem perform_of_ok (h : Transparent root tree)
    (hparent : fromRoot root (demand.target root) = .ok parent) :
    ∃ found, left (lookup (demand.target root) true tree) = found ∧
      demand.perform tree = demand.wish.serve parent found ∧
      parent.path = demand.target root ∧ found.key? parent.path = some parent ∧
      Grown (demand.target root) tree found := by
  obtain ⟨found, hlookup, hkey, hfound, hgrown⟩ := lookup_of_fromRoot h hparent
  have hpath : parent.path = demand.target root := hfound.filed _ _ hkey
  refine ⟨found, by rw [hlookup]; rfl, ?_, hpath, by rw [hpath]; exact hkey, hgrown⟩
  rw [perform_eq h, bind_of_eq_ok hlookup]

end Demand

/-! ## The keys in the tree -/

/-- Serving a wish files the key that it gives, and no other. -/
theorem key?_left_serve_ne_none_iff (wish : Wish)
    (hparent : found.key? parent.path = some parent) :
    (left (wish.serve parent found)).key? other ≠ none ↔
      found.key? other ≠ none ∨
        ∃ key, outcome (wish.serve parent found) = .ok key ∧ key.path = other := by
  cases wish with
  | itself =>
    show found.key? other ≠ none ↔ _ ∨ ∃ key, Except.ok parent = Except.ok key ∧ key.path = other
    refine ⟨.inl, ?_⟩
    rintro (hkey | ⟨_, ⟨⟩, rfl⟩)
    · exact hkey
    · exact Option.ne_none_iff_exists'.2 ⟨parent, hparent⟩
  | child step =>
    show (left (deriveInto parent step found)).key? other ≠ none ↔
      _ ∨ ∃ key, outcome (deriveInto parent step found) = .ok key ∧ key.path = other
    rcases hderive : parent.derive step with e | key
    · rw [deriveInto_of_derive_error hderive]
      simp [left, outcome]
    · rw [deriveInto_of_derive_ok hderive]
      simp [left, outcome, key?_insert_ne_none_iff]
  | next hardened =>
    show (left (deriveFirstOf parent hardened maxAttempts found)).key? other ≠ none ↔
      _ ∨ ∃ key, outcome (deriveFirstOf parent hardened maxAttempts found) = .ok key ∧
        key.path = other
    have hcounts := counts_deriveFirstOf parent hardened maxAttempts found
    rcases hfirst : deriveFirstOf parent hardened maxAttempts found with ⟨key, after⟩ | ⟨e, after⟩
    · rw [hfirst] at hcounts
      obtain ⟨counted, _, hcounted, -, -, rfl⟩ := hcounts
      have hkept := hcounted.key?_eq other
      simp [left, outcome, key?_insert_ne_none_iff, hkept]
    · rw [hfirst] at hcounts
      have hkept := Advanced.key?_eq hcounts other
      simp [left, outcome, hkept]

/-- **What a demand leaves in the tree**: the keys on the way to the path that was asked for, as far
as there are any, and the key that was given. -/
theorem key?_left_perform_ne_none_iff (h : Transparent root tree) (demand : Demand) :
    (left (demand.perform tree)).key? other ≠ none ↔
      tree.key? other ≠ none ∨
        (other.steps <+: (demand.target root).steps ∧ ∃ key, fromRoot root other = .ok key) ∨
        ∃ key, outcome (demand.perform tree) = .ok key ∧ key.path = other := by
  rw [← or_assoc, ← key?_left_lookup_ne_none_iff h]
  rcases hparent : fromRoot root (demand.target root) with e | parent
  · rw [Demand.perform_of_error h hparent]
    simp [left, outcome]
  · obtain ⟨found, hfound, hperform, -, hkey, -⟩ := Demand.perform_of_ok h hparent
    rw [hperform, hfound]
    exact key?_left_serve_ne_none_iff demand.wish hkey

end Bitcoin.KeyTree
