import Bitcoin.Proofs.Key.WellFormed
import Bitcoin.Proofs.KeyTree.Replaced

/-!
# The keys that a caller can get

Keys come from keys: a private half is forgotten, children are derived, one by one, along a path or
as the next one that exists, and trees of keys answer requests.  A tree may be handed any keys that
the caller has, in between, and each of its answers is a key again.

* `KeyTree.ObtainedFrom` are the keys that can be got from some keys, in finitely many steps.
* `KeyTree.Hereditary` is a property that every child has from its parent.  The next child, the key
  at the end of a path and the answers of a tree have it too: **a tree adds nothing of its own**, as
  every key in it was put there or is a child of one that was (`KeyTree.allKeys_run`).
* `KeyTree.ObtainedFrom.induction`: so two steps are all that there is to check, one derivation and
  forgetting the private half.
* `KeyTree.Obtainable.wellFormed` and `KeyTree.ObtainedFrom.isWatching` are what it is used for.

The keys that can be obtained are an inductive predicate with one constructor for each operation.
An induction over it has six cases, and three of them hide an induction of their own: the next child
is found by a search, a path is a row of children, and the answer of a tree is at the end of any run
of requests, in the course of which other obtained keys were put into the tree.  Each of these is
dealt with once, for every hereditary property, and `KeyTree.ObtainedFrom.induction` then asks for
two steps only.

`KeyTree.ObtainedFrom` starts from any keys.  Started from the keys that are made from seeds, from
halves that were computed elsewhere and from texts (`ExtendedKey.Made`), it is all keys that a
caller can ever hold, and these are well formed.  Started from a single watching key, it is what
somebody can do who was given that key and nothing else.  That all of it is watching is the
statement that matters to those who give such keys away.

That a private half belongs to its public half is said by the group of the curve, and not by the
function that multiplies: the coordinates of `Point.ofGroup` come from the group law that
`Bitcoin.Proofs.Curve.Group` ties to the arithmetic.
-/

set_option autoImplicit false

namespace Bitcoin.KeyTree

open Curve ExtendedKey
open scoped FieldElement

variable {given : ExtendedKey → Prop} {tree : KeyTree} {key start : ExtendedKey}
  {request : Request}

/-! ## Answers -/

/-- The key that a request is answered with, if it is answered with one. -/
def Request.answer? (request : Request) (tree : KeyTree) : Option ExtendedKey :=
  match request with
  | .get path relative create => value? (KeyTree.get path relative create tree)
  | .root => value? (KeyTree.root tree)
  | request => request.derived? tree

theorem key?_of_lookup (hfiled : tree.Filed) {path : KeyPath} {create : Bool}
    (h : value? (lookup path create tree) = some key) :
    (left (lookup path create tree)).key? path = some key := by
  obtain ⟨after, hlookup⟩ := value?_eq_some_iff.1 h
  rw [hlookup]
  exact (grown_of_lookup_ok hfiled hlookup).2

/-- The answer is a key in the tree. -/
theorem exists_key?_of_answer? (hfiled : tree.Filed) (h : request.answer? tree = some key) :
    ∃ path, (request.after tree).key? path = some key := by
  cases request with
  | get path relative create => exact ⟨tree.absolute path relative, key?_of_lookup hfiled h⟩
  | root =>
    have hroot : value? (lookup tree.rootPath false tree) = some key := h
    show ∃ path, (left (lookup tree.rootPath false tree)).key? path = some key
    exact ⟨tree.rootPath, key?_of_lookup hfiled hroot⟩
  | put key => cases h
  | deriveChild path relative create child =>
    have hderived : (Request.deriveChild path relative create child).derived? tree = some key := h
    exact ⟨key.path, (placed_of_derived? hfiled hderived).key?_self⟩
  | deriveNextChild path relative create hardened =>
    have hderived : (Request.deriveNextChild path relative create hardened).derived? tree =
      some key := h
    exact ⟨key.path, (placed_of_derived? hfiled hderived).key?_self⟩

/-! ## Keys that are obtained -/

/-- The keys that can be got from some keys.  A tree starts from one such key, is used for some
requests that put only such keys into it, and is asked for a key. -/
inductive ObtainedFrom (given : ExtendedKey → Prop) : ExtendedKey → Prop
  | given {key : ExtendedKey} (h : given key) : ObtainedFrom given key
  | neuter {key : ExtendedKey} (h : ObtainedFrom given key) : ObtainedFrom given key.neuter
  | derive {parent key : ExtendedKey} {child : ChildNumber} (h : ObtainedFrom given parent)
      (hkey : parent.derive child = .ok key) : ObtainedFrom given key
  | deriveNext {parent key : ExtendedKey} {child : ChildNumber} (h : ObtainedFrom given parent)
      (hkey : parent.deriveNext child = .ok key) : ObtainedFrom given key
  | derivePath {start key : ExtendedKey} {path : KeyPath} (h : ObtainedFrom given start)
      (hkey : start.derivePath path = .ok key) : ObtainedFrom given key
  | answered {root key : ExtendedKey} {requests : List Request} {request : Request}
      (hroot : ObtainedFrom given root)
      (hputs : ∀ other, Request.put other ∈ requests → ObtainedFrom given other)
      (hkey : request.answer? (run requests (ofRoot root)) = some key) : ObtainedFrom given key

/-- The keys that a caller can get who starts from nothing. -/
def Obtainable : ExtendedKey → Prop := ObtainedFrom Made

/-! ## What all of them have in common -/

/-- A property that every child has from its parent. -/
def Hereditary (good : ExtendedKey → Prop) : Prop :=
  ∀ parent child key, good parent → parent.derive child = .ok key → good key

namespace Hereditary

variable {good : ExtendedKey → Prop}

theorem of_deriveFrom (h : Hereditary good) {parent : ExtendedKey} {child : ChildNumber}
    {places attempts : Nat} (hparent : good parent)
    (hkey : parent.deriveFrom child places attempts = .ok key) : good key := by
  induction attempts generalizing places with
  | zero => cases hkey
  | succ attempts ih =>
    rw [deriveFrom] at hkey
    obtain ⟨candidate, -, hkey⟩ := Fallible.bind_eq_ok_iff.1 hkey
    split at hkey
    · exact ih hkey
    · exact h parent candidate key hparent hkey

theorem inherited (h : Hereditary good) : Inherited fun _ => good := fun _ => h

theorem of_derivePath (h : Hereditary good) {path : KeyPath} (hstart : good start)
    (hkey : start.derivePath path = .ok key) : good key :=
  h.inherited.of_derivePath start.path hstart hkey

theorem of_answer? (h : Hereditary good) {root : ExtendedKey} {requests : List Request}
    (hroot : good root) (hputs : ∀ other, Request.put other ∈ requests → good other)
    (hkey : request.answer? (run requests (ofRoot root)) = some key) : good key := by
  have hstart : AllKeys (fun _ => good) (ofRoot root) := by
    intro path found hfound
    rw [key?_ofRoot] at hfound
    split at hfound
    · cases hfound
      exact hroot
    · cases hfound
  have hkeys : AllKeys (fun _ => good) (run requests (ofRoot root)) :=
    allKeys_run h.inherited hstart (filed_ofRoot root) hputs
  have hfiled : (run requests (ofRoot root)).Filed := filed_run (filed_ofRoot root) requests
  have hlast : ∀ other, request = .put other → good other := by
    rintro other rfl
    cases hkey
  obtain ⟨path, hpath⟩ := exists_key?_of_answer? hfiled hkey
  exact allKeys_after h.inherited hkeys hfiled hlast path key hpath

end Hereditary

/-- **What every child has from its parent, and a key keeps that forgets its private half**, holds
of all keys that can be got from keys of which it holds. -/
theorem ObtainedFrom.induction {good : ExtendedKey → Prop} (hgiven : ∀ key, given key → good key)
    (hneuter : ∀ key, good key → good key.neuter) (hderive : Hereditary good)
    (h : ObtainedFrom given key) : good key := by
  induction h with
  | given h => exact hgiven _ h
  | neuter _ ih => exact hneuter _ ih
  | derive _ hkey ih => exact hderive _ _ _ ih hkey
  | deriveNext _ hkey ih => exact hderive.of_deriveFrom ih hkey
  | derivePath _ hkey ih => exact hderive.of_derivePath ih hkey
  | answered _ _ hkey ihroot ihputs => exact hderive.of_answer? ihroot ihputs hkey

/-- **Every key is well formed.** -/
theorem Obtainable.wellFormed (h : Obtainable key) : key.WellFormed :=
  h.induction (fun _ => Made.wellFormed) (fun _ => WellFormed.neuter)
    fun _ _ _ => WellFormed.derive

/-- **No private half is found again.** -/
theorem ObtainedFrom.isWatching (hgiven : ∀ key, given key → key.isWatching = true)
    (h : ObtainedFrom given key) : key.isWatching = true :=
  h.induction hgiven (fun _ _ => rfl) fun _ _ _ hparent hkey =>
    (child_of_derive hkey).isWatching_eq.trans hparent

theorem point_of_wellFormed (h : key.WellFormed) {secret : Secret} (hsecret : secret ∈ key.secret) :
    key.point = Point.ofGroup (secret.value • groupGenerator) := by
  rw [h.paired secret hsecret, Secret.toPoint,
    Point.ofScalar_eq_ofGroup (secret.value_lt.trans (by decide))]

/-- **Keys stay well formed under every operation.**  Whatever keys are made and whatever is done
with them and with trees of them, the path of a key is no longer than its depth, the depth is zero
just if there is no path, there is no parent then, and a private half is a scalar in range, which
takes the generator to the public half.  And what comes from a watching key is watching. -/
theorem wellFormed_of_obtainable :
    (∀ key, Obtainable key →
      key.path.depth ≤ key.depth.toNat ∧ (key.depth = 0 ↔ key.path = .master) ∧
        (key.depth = 0 → key.parentFingerprint = .zero 4) ∧
        ∀ secret ∈ key.secret, 0 < secret.value ∧ secret.value < order ∧
          key.point = Point.ofGroup (secret.value • groupGenerator)) ∧
    ∀ start key, start.isWatching = true → ObtainedFrom (· = start) key →
      key.isWatching = true := by
  refine ⟨fun key hkey => ?_, fun start key hstart hkey => ?_⟩
  · have hformed := hkey.wellFormed
    exact ⟨hformed.length_le_depth, hformed.depth_eq_zero_iff, hformed.parentFingerprint_eq_zero,
      fun secret hsecret =>
        ⟨secret.value_pos, secret.value_lt, point_of_wellFormed hformed hsecret⟩⟩
  · have hgiven : ∀ other, other = start → other.isWatching = true := by
      rintro _ rfl
      exact hstart
    exact hkey.isWatching hgiven

theorem obtainable_leastMaster : Obtainable leastMaster := by
  have hbytes : masterOfSecretBytes (Secret.toBytes ⟨1, by decide, by decide⟩) (.zero 32) =
      .ok leastMaster := by
    rw [masterOfSecretBytes, Secret.ofBytes?_toBytes]
    rfl
  exact .given (.ofSecretBytes hbytes)

/-- A tree derives a child of the master key, and a watching key has that child too. -/
theorem wellFormed_of_obtainable_firstChild :
    ∃ child watching,
      (Request.deriveChild .master false false ⟨0⟩).answer? (ofRoot leastMaster) = some child ∧
      child.path.depth ≤ child.depth.toNat ∧ (child.depth = 0 ↔ child.path = .master) ∧
      (∀ secret ∈ child.secret,
        child.point = Point.ofGroup (secret.value • groupGenerator)) ∧
      leastMaster.neuter.derive ⟨0⟩ = .ok watching ∧ watching.isWatching = true := by
  obtain ⟨child, hchild⟩ := exists_firstChild
  have hcall : deriveChild .master false false ⟨0⟩ (ofRoot leastMaster) =
      .ok child ((ofRoot leastMaster).insert child) :=
    deriveChild_of_derive ((key?_ofRoot leastMaster .master).trans rfl) hchild
  have hanswer : (Request.deriveChild .master false false ⟨0⟩).answer?
      (run [] (ofRoot leastMaster)) = some child := (after_deriveChild hcall).1
  have hputs : ∀ other, Request.put other ∈ [] → Obtainable other := nofun
  have hobtained : Obtainable child := .answered obtainable_leastMaster hputs hanswer
  obtain ⟨watching, hwatching⟩ := exists_firstChild_neuter
  obtain ⟨hdepth, hmaster, -, hsecret⟩ := wellFormed_of_obtainable.1 child hobtained
  exact ⟨child, watching, hanswer, hdepth, hmaster, fun secret h => (hsecret secret h).2.2,
    hwatching, wellFormed_of_obtainable.2 leastMaster.neuter watching rfl
      (.derive (.given rfl) hwatching)⟩

end Bitcoin.KeyTree
