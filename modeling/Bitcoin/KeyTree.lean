import Bitcoin.Key.Derivation
import Bitcoin.Stateful
import Std.Data.HashMap

/-!
# The tree of keys

A wallet starts from one key and derives others below it again and again.  A `KeyTree` remembers the
keys it has derived, under their own paths, and hands out fresh children of a key by counting, with
one counter for hardened children and one for the others.

* `KeyTree.get` looks a key up, and derives it and what is missing above it if asked to.
* `KeyTree.deriveNextChild` gives the first child that was not handed out before, `deriveChild` a
  child of the caller's choice.
* A counter moves before the child is derived, so an index is not handed out twice, whatever
  happens.
-/

set_option autoImplicit false

namespace Bitcoin

/-- The keys derived so far, and the child last handed out for each parent. -/
structure KeyTree where
  rootPath : KeyPath
  keys : Std.HashMap KeyPath ExtendedKey
  lastHardened : Std.HashMap KeyPath ChildNumber
  lastNormal : Std.HashMap KeyPath ChildNumber

/-- What is done with a tree. -/
abbrev KeyTreeM := EStateM KeyError KeyTree

namespace KeyTree

/-- The tree with one key, under its own path. -/
def ofRoot (root : ExtendedKey) : KeyTree :=
  ⟨root.path, (∅ : Std.HashMap KeyPath ExtendedKey).insert root.path root, ∅, ∅⟩

/-- The number of keys in the tree. -/
def size (tree : KeyTree) : Nat := tree.keys.size

/-- Whether there is no key in the tree. -/
def isEmpty (tree : KeyTree) : Bool := tree.keys.isEmpty

/-- The key in the tree under a path. -/
def key? (tree : KeyTree) (path : KeyPath) : Option ExtendedKey := tree.keys[path]?

/-- Puts a key under its own path. -/
def insert (tree : KeyTree) (key : ExtendedKey) : KeyTree :=
  { tree with keys := tree.keys.insert key.path key }

/-- The path that is meant: from the master key, or relative to the root of the tree. -/
def absolute (tree : KeyTree) (path : KeyPath) (relative : Bool) : KeyPath :=
  if relative then tree.rootPath.extend path else path

/-! ## Looking up -/

/-- Puts a key into the tree. -/
def put (key : ExtendedKey) : KeyTreeM Unit := modify fun tree => tree.insert key

/-- The key in the tree under a path, which must be there. -/
def find (path : KeyPath) : KeyTreeM ExtendedKey := fun tree =>
  match tree.key? path with
  | some key => .ok key tree
  | none => .error (.keyNotFound path) tree

/-- The child of a key, which is put into the tree. -/
def deriveInto (parent : ExtendedKey) (child : ChildNumber) : KeyTreeM ExtendedKey := do
  let key ← Stateful.ofExcept (parent.derive child)
  put key
  return key

/-- The key at the end of some steps, the last one first.  A key that is not in the tree is derived
from the one above it, and put into the tree. -/
def getOrDerive : List ChildNumber → KeyTreeM ExtendedKey
  | [] => fun tree =>
    match tree.key? .master with
    | some key => .ok key tree
    | none => .error .noParent tree
  | last :: above => fun tree =>
    match tree.key? ⟨(last :: above).reverse⟩ with
    | some key => .ok key tree
    | none => (do
        let parent ← getOrDerive above
        deriveInto parent last : KeyTreeM ExtendedKey) tree

/-- The key under a path from the master key.  With `create`, what is missing is derived. -/
def lookup (path : KeyPath) (create : Bool) : KeyTreeM ExtendedKey :=
  if create then getOrDerive path.steps.reverse else find path

/-- The key under a path. -/
def get (path : KeyPath) (relative create : Bool) : KeyTreeM ExtendedKey := do
  let tree ← MonadState.get
  lookup (tree.absolute path relative) create

/-- The key that the tree started from. -/
def root : KeyTreeM ExtendedKey := do
  let tree ← MonadState.get
  find tree.rootPath

/-! ## Children -/

/-- The child last handed out for the parent at a path. -/
def lastChild? (tree : KeyTree) (parent : KeyPath) (hardened : Bool) : Option ChildNumber :=
  if hardened then tree.lastHardened[parent]? else tree.lastNormal[parent]?

/-- Notes the child last handed out. -/
def setLastChild (tree : KeyTree) (parent : KeyPath) (hardened : Bool) (child : ChildNumber) :
    KeyTree :=
  if hardened then { tree with lastHardened := tree.lastHardened.insert parent child }
  else { tree with lastNormal := tree.lastNormal.insert parent child }

/-- The index that is due for the next child of the parent at a path. -/
def nextIndex (tree : KeyTree) (parent : KeyPath) (hardened : Bool) : Nat :=
  match tree.lastChild? parent hardened with
  | some last => last.index + 1
  | none => 0

/-- Hands out the next child of the parent at a path.  When the indices are used up, nothing
changes. -/
def takeNextChild (parent : KeyPath) (hardened : Bool) : KeyTreeM ChildNumber := do
  let tree ← MonadState.get
  let child ← Stateful.ofExcept (ChildNumber.ofIndex (tree.nextIndex parent hardened) hardened)
  set (tree.setLastChild parent hardened child)
  return child

/-- The first of so many next children that has a key.  Other errors end the search. -/
def deriveFirstOf (parent : ExtendedKey) (hardened : Bool) : Nat → KeyTreeM ExtendedKey
  | 0 => throw .attemptsExhausted
  | attempts + 1 => do
    let child ← takeNextChild parent.path hardened
    match parent.derive child with
    | .error .invalidDerivation => deriveFirstOf parent hardened attempts
    | .error e => throw e
    | .ok key => do
      put key
      return key

/-- The next child of a key, which is put into the tree. -/
def deriveNextChild (path : KeyPath) (relative create hardened : Bool) : KeyTreeM ExtendedKey := do
  let parent ← KeyTree.get path relative create
  deriveFirstOf parent hardened ExtendedKey.maxAttempts

/-- A child of a key, which is put into the tree.  The counters stay where they are. -/
def deriveChild (path : KeyPath) (relative create : Bool) (child : ChildNumber) :
    KeyTreeM ExtendedKey := do
  let parent ← KeyTree.get path relative create
  deriveInto parent child

end KeyTree

end Bitcoin
