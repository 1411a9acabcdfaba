import Bitcoin.Proofs.Key.Watching
import Bitcoin.Proofs.KeyTree.Run

/-!
# Which keys are replaced

A child that is derived is put into the tree without a look at what is there.  It takes the place of
a key that was put there by a caller, or that was derived when there was another key above it.

* `KeyTree.Placed` is what a request does that derives a child: **only the place of the child is
  written, and the child is that of the key above it**.  All other requests that put no key into the
  tree leave every key where it is (`KeyTree.keeps_of_derived?_eq_none`).
* `KeyTree.AllKeys` is a property of all keys in the tree.  If the children of keys that have it
  have it too, every request keeps it (`KeyTree.allKeys_after`), and so does a run that puts no key
  into the tree without it (`KeyTree.allKeys_run`).
* `KeyTree.keys_replaced` puts both together: a key is replaced only below or at a key that a caller
  put into the tree.

It would be simpler if a tree never replaced a key.  It does, and it is on purpose that a child
which is derived again is written again: where the tree was used as it is meant to be, this writes
what was there already.  The theorem is about how far that goes.

A place is settled by the keys above it.  As long as no caller has put a key into a place or above
it, the only key that can ever stand there is the one that is derived from the root
(`KeyTree.eq_of_derivedTowards`), so writing it again changes nothing.  This is an invariant of the
tree, `KeyTree.AllKeys` of `KeyTree.DerivedTowards`, and not something that one request could show:
the request derives a child of whatever key it finds, and that this key is the right one is what the
run before it has to say.

`KeyTree.AllKeys` is more general than that, and is used again for the keys that callers can obtain
(`Bitcoin.Proofs.KeyTree.Obtained`).  A property may depend on the place of a key, which is how one
says "derived from the root, unless it stands somewhere else".

A key that a caller has put there does not have this protection, and
`KeyTree.not_forall_keeps_after` shows the worst of it.  A key with its private half is in the tree;
its parent is replaced by the same key without one; and deriving the child once more leaves a child
that can only watch.  No check compares the two, and no error is given.  Lookups alone never do
this, as they derive only what is missing (`KeyTree.keeps_left_lookup`).

The example in full: with `M` the root, `M/0` is derived, then `M` without its private half is put
into the tree, then `M/0` is derived again.  Each of the three requests succeeds, and what `M/0` has
lost is its private half.
-/

set_option autoImplicit false

namespace Bitcoin.KeyTree

open Stateful ExtendedKey

variable {tree before after found : KeyTree} {path : KeyPath} {parent key child : ExtendedKey}
  {step : ChildNumber} {relative create hardened : Bool} {e : KeyError}

/-! ## One request -/

/-- The value of a step that succeeds. -/
def value? {α : Type} : EStateM.Result KeyError KeyTree α → Option α
  | .ok value _ => some value
  | .error _ _ => none

theorem value?_eq_some_iff {α : Type} {result : EStateM.Result KeyError KeyTree α} {value : α} :
    value? result = some value ↔ ∃ after, result = .ok value after := by
  cases result <;> simp [value?]

theorem value?_eq_none_iff {α : Type} {result : EStateM.Result KeyError KeyTree α} :
    value? result = none ↔ ∃ e after, result = .error e after := by
  cases result <;> simp [value?]

/-- The child that a request derives, if it does. -/
def Request.derived? (request : Request) (tree : KeyTree) : Option ExtendedKey :=
  match request with
  | .deriveChild path relative create child =>
    value? (KeyTree.deriveChild path relative create child tree)
  | .deriveNextChild path relative create hardened =>
    value? (KeyTree.deriveNextChild path relative create hardened tree)
  | _ => none

/-- Every key of a tree is in another one, under the same path. -/
def Keeps (before after : KeyTree) : Prop :=
  ∀ path key, before.key? path = some key → after.key? path = some key

/-- A child of a key in the tree is in its place, and every key is where it was, unless the child
is there now. -/
structure Placed (child : ExtendedKey) (before after : KeyTree) : Prop where
  key?_self : after.key? child.path = some child
  others : ∀ path key, path ≠ child.path → before.key? path = some key →
    after.key? path = some key
  above : ∃ path step parent, child.path = path.child step ∧ after.key? path = some parent ∧
    parent.derive step = .ok child

/-- A child is put into a tree in which the key above it was found. -/
theorem placed_insert {counted : KeyTree} (hgrown : Grown path tree found)
    (hparent : found.key? path = some parent)
    (hkeys : ∀ other, counted.key? other = found.key? other)
    (hkey : parent.derive step = .ok key) : Placed key tree (counted.insert key) where
  key?_self := key?_insert_self counted key
  others other old hother hold := by
    rw [key?_insert, if_neg hother.symm, hkeys]
    exact hgrown.keeps other old hold
  above := by
    have hpath : key.path = path.child step := by
      rw [(child_of_derive hkey).path_eq, hgrown.filed path parent hparent]
    refine ⟨path, step, parent, hpath, ?_, hkey⟩
    rw [key?_insert, if_neg, hkeys, hparent]
    intro hsame
    have hself : (path.child step).steps = path.steps := by
      rw [← hpath, hsame]
    exact KeyPath.not_child_prefix path step ⟨[], (List.append_nil _).trans hself⟩

theorem placed_of_deriveChild (hfiled : tree.Filed)
    (h : deriveChild path relative create step tree = .ok key after) : Placed key tree after := by
  obtain ⟨parent, found, hget, hinto⟩ := bind_eq_ok_iff.1 h
  obtain ⟨hgrown, hparent⟩ := grown_of_get_ok hfiled hget
  cases hkey : parent.derive step with
  | error e =>
    rw [deriveInto_of_derive_error hkey] at hinto
    cases hinto
  | ok derived =>
    rw [deriveInto_of_derive_ok hkey] at hinto
    cases hinto
    exact placed_insert hgrown hparent (fun _ => rfl) hkey

theorem placed_of_deriveNextChild (hfiled : tree.Filed)
    (h : deriveNextChild path relative create hardened tree = .ok key after) :
    Placed key tree after := by
  obtain ⟨parent, found, hget, hfirst⟩ := bind_eq_ok_iff.1 h
  obtain ⟨hgrown, hparent⟩ := grown_of_get_ok hfiled hget
  have hcounts := counts_deriveFirstOf parent hardened maxAttempts found
  rw [hfirst] at hcounts
  obtain ⟨counted, index, hadvanced, -, hindex, rfl⟩ := hcounts
  exact placed_insert hgrown hparent hadvanced.key?_eq hindex.derive_eq

theorem placed_of_derived? (hfiled : tree.Filed) {request : Request}
    (h : request.derived? tree = some child) : Placed child tree (request.after tree) := by
  cases request with
  | deriveChild path relative create step =>
    obtain ⟨after, hcall⟩ := value?_eq_some_iff.1 h
    rw [Request.after, hcall]
    exact placed_of_deriveChild hfiled hcall
  | deriveNextChild path relative create hardened =>
    obtain ⟨after, hcall⟩ := value?_eq_some_iff.1 h
    rw [Request.after, hcall]
    exact placed_of_deriveNextChild hfiled hcall
  | _ => cases h

theorem keeps_left_lookup (hfiled : tree.Filed) (path : KeyPath) (create : Bool) :
    Keeps tree (left (lookup path create tree)) := by
  cases hlookup : lookup path create tree with
  | ok key after => exact (grown_of_lookup_ok hfiled hlookup).1.keeps
  | error e after => exact (grown_of_lookup_error hfiled hlookup).keeps

theorem keeps_of_deriveChild_error (hfiled : tree.Filed)
    (h : deriveChild path relative create step tree = .error e after) : Keeps tree after := by
  obtain hget | ⟨parent, found, hget, hinto⟩ := bind_eq_error_iff.1 h
  · exact (grown_of_get_error hfiled hget).keeps
  · have hkeeps := (grown_of_get_ok hfiled hget).1.keeps
    cases hkey : parent.derive step with
    | error e =>
      rw [deriveInto_of_derive_error hkey] at hinto
      cases hinto
      exact hkeeps
    | ok derived =>
      rw [deriveInto_of_derive_ok hkey] at hinto
      cases hinto

theorem keeps_of_deriveNextChild_error (hfiled : tree.Filed)
    (h : deriveNextChild path relative create hardened tree = .error e after) :
    Keeps tree after := by
  obtain hget | ⟨parent, found, hget, hfirst⟩ := bind_eq_error_iff.1 h
  · exact (grown_of_get_error hfiled hget).keeps
  · have hcounts := counts_deriveFirstOf parent hardened maxAttempts found
    rw [hfirst] at hcounts
    intro other key hkey
    rw [Advanced.key?_eq hcounts]
    exact (grown_of_get_ok hfiled hget).1.keeps other key hkey

/-- **A request that derives no child replaces no key**, whether it succeeds or not. -/
theorem keeps_of_derived?_eq_none (hfiled : tree.Filed) {request : Request}
    (hput : ∀ key, request ≠ .put key) (h : request.derived? tree = none) :
    Keeps tree (request.after tree) := by
  cases request with
  | get path relative create => exact keeps_left_lookup hfiled (tree.absolute path relative) create
  | root => exact keeps_left_lookup hfiled tree.rootPath false
  | put key => exact absurd rfl (hput key)
  | deriveChild path relative create step =>
    obtain ⟨e, after, hcall⟩ := value?_eq_none_iff.1 h
    rw [Request.after, hcall]
    exact keeps_of_deriveChild_error hfiled hcall
  | deriveNextChild path relative create hardened =>
    obtain ⟨e, after, hcall⟩ := value?_eq_none_iff.1 h
    rw [Request.after, hcall]
    exact keeps_of_deriveNextChild_error hfiled hcall

/-! ## Properties of all keys -/

/-- Every key in the tree has a property, which may depend on where it is filed. -/
def AllKeys (good : KeyPath → ExtendedKey → Prop) (tree : KeyTree) : Prop :=
  ∀ path key, tree.key? path = some key → good path key

/-- The children of keys with the property have it. -/
def Inherited (good : KeyPath → ExtendedKey → Prop) : Prop :=
  ∀ path parent step key, good path parent → parent.derive step = .ok key →
    good (path.child step) key

/-- Keys further down have it too. -/
theorem Inherited.of_derivePath {good : KeyPath → ExtendedKey → Prop} {suffix : KeyPath}
    (hgood : Inherited good) (path : KeyPath) (hparent : good path parent)
    (hkey : parent.derivePath suffix = .ok key) : good (path.extend suffix) key := by
  -- Along the path from its end, which is where the last step is.
  induction suffix using KeyPath.induction_child generalizing key with
  | master =>
    cases hkey
    rw [KeyPath.extend_master]
    exact hparent
  | child suffix step ih =>
    obtain ⟨above, habove, hstep⟩ := derivePath_child_eq_ok_iff.1 hkey
    rw [KeyPath.extend_child]
    exact hgood _ above step key (ih habove) hstep

namespace AllKeys

variable {good : KeyPath → ExtendedKey → Prop}

theorem insert (h : AllKeys good tree) (hkey : good key.path key) :
    AllKeys good (tree.insert key) := by
  intro path found hfound
  rw [key?_insert] at hfound
  split at hfound
  · next hpath =>
    cases hfound
    exact hpath ▸ hkey
  · exact h path found hfound

theorem congr (h : AllKeys good before) (hkeys : ∀ path, after.key? path = before.key? path) :
    AllKeys good after := by
  intro path key hkey
  rw [hkeys] at hkey
  exact h path key hkey

/-- A child of a key in the tree may be put into it. -/
theorem insert_child (hgood : Inherited good) (h : AllKeys good tree) (hfiled : tree.Filed)
    (hparent : tree.key? path = some parent) (hkey : parent.derive step = .ok key) :
    AllKeys good (tree.insert key) := by
  have hpath : key.path = path.child step := by
    rw [(child_of_derive hkey).path_eq, hfiled path parent hparent]
  exact h.insert (hpath ▸ hgood path parent step key (h path parent hparent) hkey)

/-- Keys that are filled in below a key with the property have it. -/
theorem of_filled {near rest : KeyPath} (hgood : Inherited good) (h : AllKeys good tree)
    (hkey : tree.key? near = some key) (hfilled : Filled near rest key tree after) :
    AllKeys good after := by
  intro path found hfound
  rcases hfilled.derivePath_or_key? hfound with ⟨front, rfl, hderived⟩ | hfound
  · exact hgood.of_derivePath near (h near key hkey) hderived
  · exact h path found hfound

theorem left_lookup (hgood : Inherited good) (h : AllKeys good tree) (hfiled : tree.Filed)
    (path : KeyPath) (create : Bool) : AllKeys good (left (lookup path create tree)) := by
  cases create with
  | false =>
    rw [left_lookup_false]
    exact h
  | true =>
    rcases left_lookup_cases hfiled path with heq | ⟨near, rest, key, hnearest, hfilled⟩
    · rw [heq]
      exact h
    · exact of_filled hgood h hnearest.key?_eq hfilled

theorem of_effect {moved : Option (KeyPath × Bool)} (hgood : Inherited good)
    (h : AllKeys good tree) (hfiled : tree.Filed) (heffect : Effect tree moved after) :
    AllKeys good after := by
  have hfound : ∀ {path create parent found}, lookup path create tree = .ok parent found →
      AllKeys good found ∧ found.Filed ∧ found.key? path = some parent := by
    intro path create parent found hlookup
    have hleft := left_lookup hgood h hfiled path create
    rw [hlookup] at hleft
    obtain ⟨hgrown, hparent⟩ := grown_of_lookup_ok hfiled hlookup
    exact ⟨hleft, hgrown.filed, hparent⟩
  cases heffect with
  | lookedUp path create => exact left_lookup hgood h hfiled path create
  | derived hlookup hkey =>
    obtain ⟨hkeys, hfiled, hparent⟩ := hfound hlookup
    exact insert_child hgood hkeys hfiled hparent hkey
  | counted hlookup _ hcounted => exact (hfound hlookup).1.congr hcounted.key?_eq
  | handedOut hlookup _ hcounted hkey =>
    obtain ⟨hkeys, hfiled, hparent⟩ := hfound hlookup
    exact insert_child hgood (hkeys.congr hcounted.key?_eq) (hcounted.filed hfiled)
      ((hcounted.key?_eq _).trans hparent) hkey

end AllKeys

section

variable {good : KeyPath → ExtendedKey → Prop}

/-- **A request keeps what children inherit**, unless it puts a key without it into the tree. -/
theorem allKeys_after (hgood : Inherited good) (h : AllKeys good tree) (hfiled : tree.Filed)
    {request : Request} (hput : ∀ key, request = .put key → good key.path key) :
    AllKeys good (request.after tree) := by
  by_cases hrequest : ∃ key, request = .put key
  · obtain ⟨key, rfl⟩ := hrequest
    exact h.insert (hput key rfl)
  · exact h.of_effect hgood hfiled (effect_after hfiled (not_exists.1 hrequest))

theorem allKeys_run (hgood : Inherited good) (h : AllKeys good tree) (hfiled : tree.Filed)
    {requests : List Request} (hputs : ∀ key, Request.put key ∈ requests → good key.path key) :
    AllKeys good (run requests tree) := by
  induction requests generalizing tree with
  | nil => exact h
  | cons request rest ih =>
    have hfirst : ∀ key, request = .put key → good key.path key := by
      rintro key rfl
      exact hputs key List.mem_cons_self
    exact ih (allKeys_after hgood h hfiled hfirst) (kept_after hfiled request).filed
      fun key hkey => hputs key (List.mem_cons_of_mem _ hkey)

end

/-! ## Keys that stay -/

/-- A key at a path or above it is derived from the root. -/
def DerivedTowards (root : ExtendedKey) (target path : KeyPath) (key : ExtendedKey) : Prop :=
  path.steps <+: target.steps →
    ∃ suffix, path = root.path.extend suffix ∧ root.derivePath suffix = .ok key

theorem inherited_derivedTowards (root : ExtendedKey) (target : KeyPath) :
    Inherited (DerivedTowards root target) := by
  intro path parent step key hparent hkey hprefix
  obtain ⟨suffix, rfl, hsuffix⟩ := hparent ((List.prefix_append _ _).trans hprefix)
  exact ⟨suffix.child step, (KeyPath.extend_child ..).symm,
    derivePath_child_eq_ok_iff.2 ⟨parent, hsuffix, hkey⟩⟩

theorem allKeys_ofRoot (root : ExtendedKey) (target : KeyPath) :
    AllKeys (DerivedTowards root target) (ofRoot root) := by
  intro path key hkey _
  rw [key?_ofRoot] at hkey
  split at hkey
  · next hpath =>
    cases hkey
    exact ⟨.master, by rw [KeyPath.extend_master, hpath], rfl⟩
  · cases hkey

/-- No key is put into the tree at a path or above it. -/
def UntouchedTowards (path : KeyPath) (requests : List Request) : Prop :=
  ∀ key, Request.put key ∈ requests → ¬key.path.steps <+: path.steps

/-- A key has no place towards a path where none was put. -/
theorem allKeys_of_untouched (root : ExtendedKey) {requests : List Request}
    (h : UntouchedTowards path requests) :
    AllKeys (DerivedTowards root path) (run requests (ofRoot root)) :=
  allKeys_run (inherited_derivedTowards root path) (allKeys_ofRoot root path) (filed_ofRoot root)
    fun key hkey hprefix => absurd hprefix (h key hkey)

/-- Where no key was put, there is at most the one key that is derived from the root. -/
theorem eq_of_derivedTowards {root : ExtendedKey}
    (hbefore : AllKeys (DerivedTowards root path) before)
    (hafter : AllKeys (DerivedTowards root path) after) (hkey : before.key? path = some key)
    (hother : after.key? path = some child) : child = key := by
  obtain ⟨suffix, hpath, hsuffix⟩ := hbefore path key hkey (List.prefix_refl _)
  obtain ⟨suffix', hpath', hsuffix'⟩ := hafter path child hother (List.prefix_refl _)
  rw [KeyPath.extend_inj.1 (hpath.symm.trans hpath'), hsuffix'] at hsuffix
  exact Except.ok.inj hsuffix

/-- **Which keys are replaced.**  A request that derives no child, or fails, replaces no key.  One
that derives a child writes to the place of the child, and there the child of the key above it is
now; all other keys stay.  And a key stays in any case as long as no caller has put a key into its
place or into one above it. -/
theorem keys_replaced (root : ExtendedKey) (requests : List Request) {request : Request}
    (hput : ∀ key, request ≠ .put key) :
    let tree := run requests (ofRoot root)
    let after := request.after tree
    (request.derived? tree = none → Keeps tree after) ∧
      (∀ child, request.derived? tree = some child → Placed child tree after) ∧
      ∀ path key, UntouchedTowards path requests → tree.key? path = some key →
        after.key? path = some key := by
  intro tree after
  have hfiled : tree.Filed := filed_run (filed_ofRoot root) requests
  refine ⟨keeps_of_derived?_eq_none hfiled hput, fun child => placed_of_derived? hfiled, ?_⟩
  intro path key huntouched hkey
  have hbefore : AllKeys (DerivedTowards root path) tree := allKeys_of_untouched root huntouched
  have hafter : AllKeys (DerivedTowards root path) after :=
    allKeys_after (inherited_derivedTowards root path) hbefore hfiled
      fun key hrequest => absurd hrequest (hput key)
  cases hderived : request.derived? tree with
  | none => exact keeps_of_derived?_eq_none hfiled hput hderived path key hkey
  | some child =>
    have hplaced : Placed child tree after := placed_of_derived? hfiled hderived
    by_cases hpath : path = child.path
    · subst hpath
      rw [← eq_of_derivedTowards hbefore hafter hkey hplaced.key?_self]
      exact hplaced.key?_self
    · exact hplaced.others path key hpath hkey

/-- A key that was imported for the second child of the master key, as a caller may do who knows it
from elsewhere. -/
def imported : ExtendedKey := { leastMaster with path := ⟨[⟨1⟩]⟩, depth := 1 }

/-- The child of a key that is in the tree. -/
theorem deriveChild_of_derive (hparent : tree.key? (tree.absolute path relative) = some parent)
    (hkey : parent.derive step = .ok key) :
    deriveChild path relative create step tree = .ok key (tree.insert key) := by
  rw [deriveChild_of_get_ok step (get_of_key? hparent), deriveInto_of_derive_ok hkey]

theorem after_deriveChild (h : deriveChild path relative create step tree = .ok key after) :
    (Request.deriveChild path relative create step).derived? tree = some key ∧
      (Request.deriveChild path relative create step).after tree = after := by
  constructor
  · rw [Request.derived?, h]
    rfl
  · rw [Request.after, h]
    rfl

/-- A master key whose first child is derived, and a key from elsewhere. -/
theorem run_deriveChild_put {first : ExtendedKey} (hfirst : leastMaster.derive ⟨0⟩ = .ok first)
    (other : ExtendedKey) :
    run [.deriveChild .master false false ⟨0⟩, .put other] (ofRoot leastMaster) =
      ((ofRoot leastMaster).insert first).insert other := by
  have hcall : deriveChild .master false false ⟨0⟩ (ofRoot leastMaster) =
      .ok first ((ofRoot leastMaster).insert first) :=
    deriveChild_of_derive ((key?_ofRoot leastMaster .master).trans rfl) hfirst
  rw [run_cons, (after_deriveChild hcall).2]
  rfl

/-- The second child takes the place of the imported key, and the first one stays. -/
theorem keys_replaced_imported :
    let second := Request.deriveChild .master false false ⟨1⟩
    let tree := run [.deriveChild .master false false ⟨0⟩, .put imported] (ofRoot leastMaster)
    ∃ first child, leastMaster.derive ⟨0⟩ = .ok first ∧ leastMaster.derive ⟨1⟩ = .ok child ∧
      tree.key? first.path = some first ∧ (second.after tree).key? first.path = some first ∧
      tree.key? child.path = some imported ∧ (second.after tree).key? child.path = some child := by
  intro second tree
  obtain ⟨first, hfirst⟩ := exists_firstChild
  obtain ⟨child, hchild⟩ : ∃ key, leastMaster.derive ⟨1⟩ = .ok key :=
    exists_derive_of_isSome (by decide +kernel)
  have hfirstPath : first.path = ⟨[⟨0⟩]⟩ := (child_of_derive hfirst).path_eq
  have hchildPath : child.path = imported.path := (child_of_derive hchild).path_eq
  have htree : tree = ((ofRoot leastMaster).insert first).insert imported :=
    run_deriveChild_put hfirst imported
  have hroot : tree.key? .master = some leastMaster := by
    rw [htree, key?_insert, if_neg (by decide), key?_insert, if_neg (by rw [hfirstPath]; decide),
      key?_ofRoot]
    rfl
  have hkept : tree.key? first.path = some first := by
    rw [htree, key?_insert, if_neg (by rw [hfirstPath]; decide), key?_insert_self]
  have hcall : deriveChild .master false false ⟨1⟩ tree = .ok child (tree.insert child) :=
    deriveChild_of_derive hroot hchild
  have hput : ∀ key, second ≠ .put key := by
    intro key
    simp [second]
  obtain ⟨-, hplaced, hstays⟩ :=
    keys_replaced leastMaster [.deriveChild .master false false ⟨0⟩, .put imported] hput
  have huntouched : UntouchedTowards first.path
      [.deriveChild .master false false ⟨0⟩, .put imported] := by
    intro key hkey
    simp only [List.mem_cons, reduceCtorEq, Request.put.injEq, List.not_mem_nil, or_false,
      false_or] at hkey
    rw [hkey, hfirstPath]
    decide
  refine ⟨first, child, hfirst, hchild, hkept, hstays _ _ huntouched hkept, ?_,
    (hplaced child (after_deriveChild hcall).1).key?_self⟩
  rw [hchildPath, htree, key?_insert_self]

/-- A key without its private half takes the place of the whole key, once its parent has lost its
private half. -/
theorem not_forall_keeps_after :
    ¬∀ (root : ExtendedKey) (requests : List Request) (request : Request),
      (∀ key, request ≠ .put key) →
        Keeps (run requests (ofRoot root)) (request.after (run requests (ofRoot root))) := by
  intro hall
  obtain ⟨first, hfirst⟩ := exists_firstChild
  obtain ⟨bare, hbare⟩ := exists_firstChild_neuter
  have hfirstPath : first.path = ⟨[⟨0⟩]⟩ := (child_of_derive hfirst).path_eq
  have hbarePath : bare.path = first.path := (child_of_derive hbare).path_eq.trans hfirstPath.symm
  have hdiffer : bare ≠ first := by
    rintro rfl
    have hwatching := (child_of_derive hbare).isWatching_eq
    rw [(child_of_derive hfirst).isWatching_eq] at hwatching
    cases hwatching
  have hkeeps := hall leastMaster [.deriveChild .master false false ⟨0⟩, .put leastMaster.neuter]
    (.deriveChild .master false false ⟨0⟩) (fun key hput => by cases hput)
  rw [run_deriveChild_put hfirst] at hkeeps
  generalize htree : ((ofRoot leastMaster).insert first).insert leastMaster.neuter = tree at hkeeps
  have hroot : tree.key? .master = some leastMaster.neuter := by
    rw [← htree]
    exact key?_insert_self _ leastMaster.neuter
  have hkey : tree.key? first.path = some first := by
    rw [← htree, key?_insert, if_neg (by rw [hfirstPath]; decide), key?_insert_self]
  have hagain : deriveChild .master false false ⟨0⟩ tree = .ok bare (tree.insert bare) :=
    deriveChild_of_derive hroot hbare
  have hafter := hkeeps first.path first hkey
  rw [(after_deriveChild hagain).2, ← hbarePath, key?_insert_self] at hafter
  exact hdiffer (Option.some.inj hafter)

end Bitcoin.KeyTree
