import Bitcoin.Proofs.KeyTree.Counter

/-!
# Runs

A tree is used by one request after the other.  Requests that come from several callers at once are
a run too, as each of them is answered as a whole.

* `KeyTree.Request` is what can be asked for, `KeyTree.run` the tree after some requests.
* `KeyTree.Effect` is all that a request can do (`KeyTree.effect_after`); every invariant of the
  tree is proved by cases on it.
* `KeyTree.Kept` is what one request keeps: **keys stay filed and no counter goes back, and the only
  one that moves is that of the parent who was asked for its next child** (`KeyTree.kept_after`).
  `KeyTree.filed_run`, `KeyTree.nextIndex_le_run` and `KeyTree.lastChild?_run` say it of a run.
* `KeyTree.get_fills_in` is the whole effect of one lookup in a tree that any run has left.

A request either puts a key into the tree, which is a change that the caller chose, or it has one of
the four effects of `KeyTree.Effect`.  The point of naming them is that no other module needs to
open the functions that answer requests.  An invariant is checked against the four effects, and for
`put` apart, and then it holds of runs, by induction on the list of requests.  The invariants that
are proved in this way are `KeyTree.Filed`, the counters of `KeyTree.Kept`, `KeyTree.AllKeys` in
`Bitcoin.Proofs.KeyTree.Replaced` and `KeyTree.Transparent` in its own module.

The effects do not say which error a request ends with, and they need not.  A request may fail and
still have changed the tree: a lookup keeps what it derived on its way, and a counter stays where it
was moved to.  So runs are about the tree that is `left`, whether or not there was an error, and
answers are looked at where they matter.

The parent of a request can be named by its path from the master key or from the root of the tree.
`KeyTree.Request.counter?` brings both to the one path under which counters are kept, and
`KeyTree.Request.counter?_congr` says that it does so alike all along a run, since the path of the
root never changes.

Requests here come one after the other.  That is no restriction on callers who share a tree behind a
lock, since a lock is held for a whole request; how many orders there are to be answered in, and
what they have in common, is in `Bitcoin.Proofs.KeyTree.Order`.
-/

set_option autoImplicit false

namespace Bitcoin.KeyTree

open Stateful ChildNumber ExtendedKey

/-- What a caller can ask a tree for. -/
inductive Request
  | get (path : KeyPath) (relative create : Bool)
  | deriveChild (path : KeyPath) (relative create : Bool) (child : ChildNumber)
  | deriveNextChild (path : KeyPath) (relative create hardened : Bool)
  | put (key : ExtendedKey)
  | root

/-- The tree that is left, whether there was an error or not. -/
def left {α : Type} : EStateM.Result KeyError KeyTree α → KeyTree
  | .ok _ after => after
  | .error _ after => after

namespace Request

/-- The tree after a request. -/
def after (request : Request) (tree : KeyTree) : KeyTree :=
  match request with
  | .get path relative create => left (KeyTree.get path relative create tree)
  | .deriveChild path relative create child =>
    left (KeyTree.deriveChild path relative create child tree)
  | .deriveNextChild path relative create hardened =>
    left (KeyTree.deriveNextChild path relative create hardened tree)
  | .put key => left (KeyTree.put key tree)
  | .root => left (KeyTree.root tree)

/-- The counter that a request may move: that of a parent, for hardened children or for others. -/
def counter? (request : Request) (tree : KeyTree) : Option (KeyPath × Bool) :=
  match request with
  | .deriveNextChild path relative _ hardened => some (tree.absolute path relative, hardened)
  | _ => none

theorem counter?_congr {before after : KeyTree} (h : after.rootPath = before.rootPath)
    (request : Request) : request.counter? after = request.counter? before := by
  cases request with
  | deriveNextChild path relative create hardened => rw [counter?, counter?, absolute, absolute, h]
  | _ => rfl

/-- The child that a request is given by some counter. -/
def handsOut? (counter : KeyPath × Bool) (request : Request) (tree : KeyTree) :
    Option ChildNumber :=
  match request with
  | .deriveNextChild path relative create hardened =>
    if (tree.absolute path relative, hardened) = counter then
      match KeyTree.deriveNextChild path relative create hardened tree with
      | .ok key _ => key.path.last?
      | .error _ _ => none
    else none
  | _ => none

end Request

/-- The tree after some requests. -/
def run (requests : List Request) (tree : KeyTree) : KeyTree :=
  requests.foldl (fun tree request => request.after tree) tree

/-- The children that a counter gives in a run, the first one first. -/
def handedOut (counter : KeyPath × Bool) : List Request → KeyTree → List ChildNumber
  | [], _ => []
  | request :: rest, tree =>
    (request.handsOut? counter tree).toList ++ handedOut counter rest (request.after tree)

@[simp] theorem run_nil (tree : KeyTree) : run [] tree = tree := rfl

@[simp] theorem run_cons (request : Request) (rest : List Request) (tree : KeyTree) :
    run (request :: rest) tree = run rest (request.after tree) := rfl

/-! ## The parent that is meant -/

variable {tree before after found : KeyTree} {path target : KeyPath} {parent key : ExtendedKey}
  {relative create hardened : Bool} {e : KeyError}

theorem grown_of_get_ok (hfiled : tree.Filed) (h : get path relative create tree = .ok key after) :
    Grown (tree.absolute path relative) tree after ∧
      after.key? (tree.absolute path relative) = some key :=
  grown_of_lookup_ok hfiled h

theorem grown_of_get_error (hfiled : tree.Filed)
    (h : get path relative create tree = .error e after) :
    Grown (tree.absolute path relative) tree after :=
  grown_of_lookup_error hfiled h

/-- A key that is found has the path that was asked for. -/
theorem path_of_get (hfiled : tree.Filed) (h : get path relative create tree = .ok key after) :
    key.path = tree.absolute path relative := by
  obtain ⟨hgrown, hkey⟩ := grown_of_get_ok hfiled h
  exact hgrown.filed _ key hkey

theorem deriveChild_of_get_ok (child : ChildNumber)
    (h : get path relative create tree = .ok parent after) :
    deriveChild path relative create child tree = deriveInto parent child after :=
  bind_of_eq_ok h

theorem deriveChild_of_get_error (child : ChildNumber)
    (h : get path relative create tree = .error e after) :
    deriveChild path relative create child tree = .error e after :=
  bind_of_eq_error h

theorem deriveNextChild_of_get_ok (hardened : Bool)
    (h : get path relative create tree = .ok parent after) :
    deriveNextChild path relative create hardened tree =
      deriveFirstOf parent hardened maxAttempts after :=
  bind_of_eq_ok h

theorem deriveNextChild_of_get_error (hardened : Bool)
    (h : get path relative create tree = .error e after) :
    deriveNextChild path relative create hardened tree = .error e after :=
  bind_of_eq_error h

/-- The child that is due is the next one, if it has a key. -/
theorem deriveNextChild_of_derive (hfiled : tree.Filed)
    (htarget : tree.absolute path relative = target)
    (hget : get path relative create tree = .ok parent found)
    (hnext : tree.nextIndex target hardened < hardenedBit)
    (hderive : parent.derive (tree.dueChild target hardened) = .ok key) :
    deriveNextChild path relative create hardened tree =
      .ok key ((found.useDue target hardened).insert key) := by
  have hpath : parent.path = target := (path_of_get hfiled hget).trans htarget
  have hsame := (grown_of_get_ok hfiled hget).1.nextIndex_eq target hardened
  rw [← hsame, ← hpath] at hnext
  rw [← dueChild_congr hsame, ← hpath] at hderive
  rw [deriveNextChild_of_get_ok hardened hget, maxAttempts, deriveFirstOf_succ 99 hnext, hderive,
    hpath]

/-- A parent who has no such children uses up an index. -/
theorem deriveNextChild_of_refusal (hfiled : tree.Filed)
    (htarget : tree.absolute path relative = target)
    (hget : get path relative create tree = .ok parent found)
    (hnext : tree.nextIndex target hardened < hardenedBit)
    (hrefusal : parent.refusal? hardened = some e) :
    deriveNextChild path relative create hardened tree = .error e (found.useDue target hardened) := by
  have hpath : parent.path = target := (path_of_get hfiled hget).trans htarget
  have hsame := (grown_of_get_ok hfiled hget).1.nextIndex_eq target hardened
  rw [← hsame, ← hpath] at hnext
  rw [deriveNextChild_of_get_ok hardened hget, ← hpath]
  exact deriveFirstOf_of_refusal 99 hrefusal hnext

theorem root_eq (tree : KeyTree) : root tree = find tree.rootPath tree := rfl

theorem left_lookup_false (path : KeyPath) (tree : KeyTree) :
    left (lookup path false tree) = tree := by
  show left (find path tree) = tree
  rw [find]
  split <;> rfl

theorem left_ofExcept {α : Type} (x : Except KeyError α) (tree : KeyTree) :
    left (Stateful.ofExcept x tree) = tree := by
  cases x <;> rfl

/-- A lookup that may derive leaves the tree as it is, or fills in behind the nearest key. -/
theorem left_lookup_cases (hfiled : tree.Filed) (path : KeyPath) :
    left (lookup path true tree) = tree ∨
      ∃ near rest key, Nearest tree path near rest key ∧
        Filled near rest key tree (left (lookup path true tree)) := by
  rcases lookup_cases hfiled path with
    ⟨-, hlookup⟩ | ⟨near, rest, key, after, hnearest, hlookup, hfilled⟩
  · rw [hlookup]
    exact .inl rfl
  · rw [hlookup, left_ofExcept]
    exact .inr ⟨near, rest, key, hnearest, hfilled⟩

/-- A child that is derived is put into the tree, and that is all. -/
theorem left_deriveInto (parent : ExtendedKey) (child : ChildNumber) (tree : KeyTree) :
    left (deriveInto parent child tree) = tree ∨
      ∃ key, parent.derive child = .ok key ∧
        left (deriveInto parent child tree) = tree.insert key := by
  cases hderive : parent.derive child with
  | error e =>
    rw [deriveInto_of_derive_error hderive]
    exact .inl rfl
  | ok key =>
    rw [deriveInto_of_derive_ok hderive]
    exact .inr ⟨key, rfl, rfl⟩

/-- A next child is put into a tree in which the counter has moved, and that is all. -/
theorem left_deriveFirstOf (parent : ExtendedKey) (hardened : Bool) (attempts : Nat)
    (tree : KeyTree) :
    ∃ counted, Advanced parent.path hardened tree counted ∧
      (left (deriveFirstOf parent hardened attempts tree) = counted ∨
        ∃ child key, parent.derive child = .ok key ∧
          left (deriveFirstOf parent hardened attempts tree) = counted.insert key) := by
  have hcounts := counts_deriveFirstOf parent hardened attempts tree
  cases hfirst : deriveFirstOf parent hardened attempts tree with
  | error e after =>
    rw [hfirst] at hcounts
    exact ⟨after, hcounts, .inl rfl⟩
  | ok key after =>
    rw [hfirst] at hcounts
    obtain ⟨counted, index, hadvanced, -, hindex, rfl⟩ := hcounts
    exact ⟨counted, hadvanced, .inr ⟨_, key, hindex.derive_eq, rfl⟩⟩

/-- All that a request does, unless it puts a key into the tree: it looks a key up, it may use
indices for the children of that key, and it may put a child of it into the tree. -/
inductive Effect (tree : KeyTree) (moved : Option (KeyPath × Bool)) : KeyTree → Prop
  | lookedUp (path : KeyPath) (create : Bool) : Effect tree moved (left (lookup path create tree))
  | derived {path : KeyPath} {create : Bool} {parent key : ExtendedKey} {found : KeyTree}
      {child : ChildNumber} (hfound : lookup path create tree = .ok parent found)
      (hkey : parent.derive child = .ok key) : Effect tree moved (found.insert key)
  | counted {path : KeyPath} {create hardened : Bool} {parent : ExtendedKey}
      {found counted : KeyTree} (hfound : lookup path create tree = .ok parent found)
      (hmoved : moved = some (path, hardened)) (hcounted : Advanced path hardened found counted) :
      Effect tree moved counted
  | handedOut {path : KeyPath} {create hardened : Bool} {parent key : ExtendedKey}
      {found counted : KeyTree} {child : ChildNumber}
      (hfound : lookup path create tree = .ok parent found)
      (hmoved : moved = some (path, hardened)) (hcounted : Advanced path hardened found counted)
      (hkey : parent.derive child = .ok key) : Effect tree moved (counted.insert key)

/-- **What a request does.** -/
theorem effect_after (hfiled : tree.Filed) {request : Request}
    (hput : ∀ key, request ≠ .put key) :
    Effect tree (request.counter? tree) (request.after tree) := by
  cases request with
  | get path relative create => exact .lookedUp (tree.absolute path relative) create
  | deriveChild path relative create child =>
    show Effect tree none (left (deriveChild path relative create child tree))
    have hlooked : Effect tree none (left (get path relative create tree)) :=
      .lookedUp (tree.absolute path relative) create
    -- If the lookup fails, the request leaves what the lookup leaves.
    cases hget : get path relative create tree with
    | error e found =>
      rw [hget] at hlooked
      rw [deriveChild_of_get_error child hget]
      exact hlooked
    | ok parent found =>
      rw [hget] at hlooked
      rw [deriveChild_of_get_ok child hget]
      obtain heq | ⟨key, hkey, heq⟩ := left_deriveInto parent child found
      · rw [heq]
        exact hlooked
      · rw [heq]
        exact .derived hget hkey
  | deriveNextChild path relative create hardened =>
    show Effect tree (some (tree.absolute path relative, hardened))
      (left (deriveNextChild path relative create hardened tree))
    cases hget : get path relative create tree with
    | error e found =>
      have hlooked : Effect tree (some (tree.absolute path relative, hardened))
          (left (get path relative create tree)) := .lookedUp (tree.absolute path relative) create
      rw [hget] at hlooked
      rw [deriveNextChild_of_get_error hardened hget]
      exact hlooked
    | ok parent found =>
      rw [deriveNextChild_of_get_ok hardened hget]
      obtain ⟨counted, hcounted, heq⟩ := left_deriveFirstOf parent hardened maxAttempts found
      rw [path_of_get hfiled hget] at hcounted
      obtain heq | ⟨child, key, hkey, heq⟩ := heq
      · rw [heq]
        exact .counted hget rfl hcounted
      · rw [heq]
        exact .handedOut hget rfl hcounted hkey
  | put key => exact absurd rfl (hput key)
  | root => exact .lookedUp tree.rootPath false

/-! ## What a request keeps -/

/-- Keys are still filed, no counter has gone back, and all but the one that may move stand where
they stood. -/
structure Kept (moved : Option (KeyPath × Bool)) (before after : KeyTree) : Prop where
  rootPath_eq : after.rootPath = before.rootPath
  filed : after.Filed
  lastChild?_eq : ∀ path hardened, moved ≠ some (path, hardened) →
    after.lastChild? path hardened = before.lastChild? path hardened
  nextIndex_le : ∀ path hardened, before.nextIndex path hardened ≤ after.nextIndex path hardened

namespace Kept

variable {moved : Option (KeyPath × Bool)}

theorem refl (hfiled : tree.Filed) : Kept moved tree tree :=
  ⟨rfl, hfiled, fun _ _ _ => rfl, fun _ _ => Nat.le_refl _⟩

theorem of_grown (h : Grown path before after) : Kept moved before after where
  rootPath_eq := h.rootPath_eq
  filed := h.filed
  lastChild?_eq other flag _ := h.lastChild?_eq other flag
  nextIndex_le other flag := Nat.le_of_eq (h.nextIndex_eq other flag).symm

theorem insert (h : Kept moved before after) (key : ExtendedKey) :
    Kept moved before (after.insert key) :=
  { h with filed := h.filed.insert key }

theorem advanced {middle : KeyTree} (h : Kept (some (path, hardened)) before middle)
    (h' : Advanced path hardened middle after) : Kept (some (path, hardened)) before after where
  rootPath_eq := h'.rootPath_eq.trans h.rootPath_eq
  filed := h'.filed h.filed
  lastChild?_eq other flag hother := by
    rw [h'.lastChild?_eq other flag, h.lastChild?_eq other flag hother]
    rintro ⟨rfl, rfl⟩
    exact hother rfl
  nextIndex_le other flag :=
    Nat.le_trans (h.nextIndex_le other flag) (h'.nextIndex_le_nextIndex other flag)

end Kept

theorem Kept.of_effect {moved : Option (KeyPath × Bool)} (hfiled : tree.Filed)
    (h : Effect tree moved after) : Kept moved tree after := by
  cases h with
  | lookedUp path create =>
    cases hlookup : lookup path create tree with
    | ok key found => exact .of_grown (grown_of_lookup_ok hfiled hlookup).1
    | error e found => exact .of_grown (grown_of_lookup_error hfiled hlookup)
  | derived hfound hkey => exact (of_grown (grown_of_lookup_ok hfiled hfound).1).insert _
  | counted hfound hmoved hcounted =>
    subst hmoved
    exact (of_grown (grown_of_lookup_ok hfiled hfound).1).advanced hcounted
  | handedOut hfound hmoved hcounted hkey =>
    subst hmoved
    exact ((of_grown (grown_of_lookup_ok hfiled hfound).1).advanced hcounted).insert _

/-- **What a request keeps.** -/
theorem kept_after (hfiled : tree.Filed) (request : Request) :
    Kept (request.counter? tree) tree (request.after tree) := by
  by_cases hput : ∃ key, request = .put key
  · obtain ⟨key, rfl⟩ := hput
    exact (Kept.refl hfiled).insert key
  · exact .of_effect hfiled (effect_after hfiled (not_exists.1 hput))

/-! ## What a run keeps -/

theorem filed_run (hfiled : tree.Filed) (requests : List Request) : (run requests tree).Filed := by
  induction requests generalizing tree with
  | nil => exact hfiled
  | cons request rest ih => exact ih (kept_after hfiled request).filed

theorem nextIndex_le_run (hfiled : tree.Filed) (requests : List Request) (path : KeyPath)
    (hardened : Bool) :
    tree.nextIndex path hardened ≤ (run requests tree).nextIndex path hardened := by
  induction requests generalizing tree with
  | nil => exact Nat.le_refl _
  | cons request rest ih =>
    have hkept := kept_after hfiled request
    exact Nat.le_trans (hkept.nextIndex_le path hardened) (ih hkept.filed)

/-- A counter that no request asks for stands still. -/
theorem lastChild?_run (hfiled : tree.Filed) (requests : List Request)
    (h : ∀ request ∈ requests, request.counter? tree ≠ some (path, hardened)) :
    (run requests tree).lastChild? path hardened = tree.lastChild? path hardened := by
  induction requests generalizing tree with
  | nil => rfl
  | cons request rest ih =>
    have hkept := kept_after hfiled request
    have hrest : ∀ later ∈ rest, later.counter? (request.after tree) ≠ some (path, hardened) := by
      intro later hlater
      rw [Request.counter?_congr hkept.rootPath_eq]
      exact h later (List.mem_cons_of_mem _ hlater)
    rw [run_cons, ih hkept.filed hrest, hkept.lastChild?_eq _ _ (h request List.mem_cons_self)]

/-! ## Lookups after a run -/

/-- **The exact effect of a lookup**, however the tree was used before.  A lookup that may derive
fails and changes nothing if there is no key at the path or above it.  If there is one, it gives what
is derived from the nearest one along the rest of the way, the key or the error, and fills in each
key that is derived on the way; no key is replaced, and nothing else changes.  A lookup that may not
derive gives the key at the path or fails, and changes nothing. -/
theorem get_fills_in (root : ExtendedKey) (requests : List Request) (path : KeyPath)
    (relative : Bool) :
    let tree := run requests (ofRoot root)
    let target := tree.absolute path relative
    (tree.Bare target ∧ get path relative true tree = .error .noParent tree ∨
        ∃ near rest key after, Nearest tree target near rest key ∧
          get path relative true tree = Stateful.ofExcept (key.derivePath rest) after ∧
          Filled near rest key tree after ∧ Grown target tree after) ∧
      (∀ key, tree.key? target = some key → get path relative false tree = .ok key tree) ∧
      (tree.key? target = none →
        get path relative false tree = .error (.keyNotFound target) tree) := by
  intro tree target
  have hfiled : tree.Filed := filed_run (filed_ofRoot root) requests
  refine ⟨?_, fun key => get_of_key?, fun hmissing => lookup_false hmissing⟩
  rcases lookup_cases hfiled target with
    hbare | ⟨near, rest, key, after, hnearest, hlookup, hfilled⟩
  · exact .inl hbare
  · exact .inr ⟨near, rest, key, after, hnearest, hlookup, hfilled,
      hfilled.grown hfiled hnearest⟩

end Bitcoin.KeyTree
