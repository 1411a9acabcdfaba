import Bitcoin.Proofs.KeyTree.Run

/-!
# The next child

A counter stands at the index after the last one that was used, and moves before the child is
derived.  So no index is handed out twice (`KeyTree.handedOut_increasing`), and the price is that a
parent who has no such children at all uses up an index each time it is asked
(`KeyTree.counters_of_refused`).

The first half is about a counter in a run of requests, of whatever kind and by whichever names the
parent is called in them.  `KeyTree.firstFrom_of_deriveNextChild` is one call that succeeds: it
gives the first child from the index that is due on, and leaves the counter behind it.  With what
`Bitcoin.Proofs.KeyTree.Run` says of all other requests, namely that no counter goes back,
`KeyTree.handedOut_between` goes by induction along the run.  It says more than is wanted, since the
induction needs it: the indices do not only go up, they also lie between the two places where the
counter stands before and after the run, and so the rest of the run starts above the first of them.

That the counter has a last index is the other end of the same thing.  Once the index
`hardenedBit - 1` is handed out the counter stands at `hardenedBit`, which is no index, and it
cannot move any more.  Nothing wraps around, and the other counter of the parent goes on.

The second half is about calls that fail.  There are three kinds of failure, and `KeyTree.Refusal`
names the errors of the first two.

* The parent is not found.  No counter has moved then, because the parent is looked up first.
* The parent is found and has no children of that kind, as it is watching or too deep.  The index
  was used before that was noticed, so it is lost.  It is only the one index: no others are tried.
* Indices without a key, or no indices.  The search for a next child is about these, in
  `Bitcoin.Proofs.KeyTree.Counter`, and they are no refusals.

So a caller who is refused and comes back with the private half does not get the child that was due
at first.  Whether that matters is not for this module to say, and
`not_forall_sameCounters_of_refused` is only there to show that the loss is real.  What is certain
is what `KeyTree.counters_of_refused` says of every later call: it starts where the counter stands,
and no request in between that asks for another counter makes any difference to that.
-/

set_option autoImplicit false

namespace Bitcoin.KeyTree

open Stateful ChildNumber ExtendedKey

variable {tree after : KeyTree} {path target : KeyPath} {key : ExtendedKey}
  {relative create hardened : Bool} {e : KeyError}

/-! ## What is handed out -/

/-- A next child is the first one, from the index that is due on, that has a key, and the counter
goes on behind it. -/
theorem firstFrom_of_deriveNextChild (hfiled : tree.Filed)
    (htarget : tree.absolute path relative = target)
    (h : deriveNextChild path relative create hardened tree = .ok key after) :
    ∃ parent found index, get path relative create tree = .ok parent found ∧
      FirstFrom parent hardened (tree.nextIndex target hardened) index key ∧
      key.path = target.child (.ofParts index hardened) ∧
      after.nextIndex target hardened = index + 1 := by
  subst htarget
  cases hget : get path relative create tree with
  | error e found =>
    rw [deriveNextChild_of_get_error hardened hget] at h
    cases h
  | ok parent found =>
    have hgrown := (grown_of_get_ok hfiled hget).1
    rw [← path_of_get hfiled hget, ← hgrown.nextIndex_eq]
    rw [deriveNextChild_of_get_ok hardened hget] at h
    have hcounts := counts_deriveFirstOf parent hardened maxAttempts found
    rw [h] at hcounts
    obtain ⟨counted, index, -, hnext, hfirst, rfl⟩ := hcounts
    exact ⟨parent, found, index, rfl, hfirst, hfirst.path_eq, hnext⟩

theorem handsOut?_of_ok (htarget : tree.absolute path relative = target)
    (h : deriveNextChild path relative create hardened tree = .ok key after) :
    (Request.deriveNextChild path relative create hardened).handsOut? (target, hardened) tree =
      key.path.last? := by
  subst htarget
  rw [Request.handsOut?, if_pos rfl, h]

theorem handsOut_index (hfiled : tree.Filed) {request : Request} {child : ChildNumber}
    (h : request.handsOut? (target, hardened) tree = some child) :
    child.isHardened = hardened ∧ tree.nextIndex target hardened ≤ child.index ∧
      (request.after tree).nextIndex target hardened = child.index + 1 := by
  cases request with
  | deriveNextChild path relative create flag =>
    rw [Request.handsOut?] at h
    split at h
    · next hcounter =>
      obtain ⟨htarget, rfl⟩ := Prod.mk.inj hcounter
      split at h
      · next key after hnext =>
        obtain ⟨parent, found, index, -, hfirst, hpath, hafter⟩ :=
          firstFrom_of_deriveNextChild hfiled htarget hnext
        rw [hpath, KeyPath.last?_child] at h
        cases h
        refine ⟨isHardened_ofParts hfirst.index_lt _, ?_, ?_⟩
        · rw [index_ofParts hfirst.index_lt]
          exact hfirst.start_le
        · rw [index_ofParts hfirst.index_lt, ← hafter]
          show (left (deriveNextChild path relative create flag tree)).nextIndex target flag = _
          rw [hnext]
          rfl
      · cases h
    · cases h
  | _ => cases h

/-- What a counter hands out in a run lies between where it stands before and after it, one index
above the other. -/
theorem handedOut_between (hfiled : tree.Filed) (requests : List Request) (target : KeyPath)
    (hardened : Bool) :
    (∀ child ∈ handedOut (target, hardened) requests tree, child.isHardened = hardened ∧
        tree.nextIndex target hardened ≤ child.index ∧
        child.index < (run requests tree).nextIndex target hardened) ∧
      (handedOut (target, hardened) requests tree).Pairwise (fun a b => a.index < b.index) := by
  induction requests generalizing tree with
  | nil => exact ⟨fun child h => (by cases h), .nil⟩
  | cons request rest ih =>
    have hkept := kept_after hfiled request
    obtain ⟨ihbounds, ihpairwise⟩ := ih hkept.filed
    -- No request takes a counter back, so the bound of the rest is one of the whole run.
    have hlater : ∀ child ∈ handedOut (target, hardened) rest (request.after tree),
        child.isHardened = hardened ∧ tree.nextIndex target hardened ≤ child.index ∧
          child.index < (run (request :: rest) tree).nextIndex target hardened := by
      intro child hchild
      obtain ⟨hflag, hle, hlt⟩ := ihbounds child hchild
      exact ⟨hflag, Nat.le_trans (hkept.nextIndex_le target hardened) hle, hlt⟩
    rw [handedOut]
    cases hhands : request.handsOut? (target, hardened) tree with
    | none => exact ⟨hlater, ihpairwise⟩
    | some first =>
      obtain ⟨hflag, hle, hnext⟩ := handsOut_index hfiled hhands
      have hrun := nextIndex_le_run hkept.filed rest target hardened
      refine ⟨List.forall_mem_cons.2 ⟨⟨hflag, hle, ?_⟩, hlater⟩, .cons ?_ ihpairwise⟩
      · rw [run_cons]
        omega
      · intro child hchild
        have hbelow := (ihbounds child hchild).2.1
        omega

theorem deriveNextChild_of_usedUp (hfiled : tree.Filed)
    (hnext : tree.nextIndex (tree.absolute path relative) hardened = hardenedBit)
    (h : get path relative create tree = .ok key after) :
    deriveNextChild path relative create hardened tree =
      .error (.invalidChildIndex hardenedBit) after := by
  have hgrown := (grown_of_get_ok hfiled h).1
  rw [← path_of_get hfiled h, ← hgrown.nextIndex_eq] at hnext
  rw [deriveNextChild_of_get_ok hardened h]
  exact deriveFirstOf_of_eq _ hnext

/-- **No index is handed out twice.**  In every run of requests, from the tree of a root or from any
other tree that files its keys, what the counter of a parent hands out is hardened as asked for, and
goes up from one child to the next, however the parent was named.  Once the last index is handed out
there is no next child of that kind any more. -/
theorem handedOut_increasing :
    (∀ root, (ofRoot root).Filed) ∧
      ∀ tree : KeyTree, tree.Filed → ∀ (requests : List Request) (target : KeyPath)
        (hardened : Bool),
        (handedOut (target, hardened) requests tree).Pairwise (fun a b => a.index < b.index) ∧
          (∀ child ∈ handedOut (target, hardened) requests tree, child.isHardened = hardened) ∧
          ((∃ child ∈ handedOut (target, hardened) requests tree, child.index = 0x7FFFFFFF) →
            ∀ path relative create parent found,
              (run requests tree).absolute path relative = target →
              get path relative create (run requests tree) = .ok parent found →
              deriveNextChild path relative create hardened (run requests tree) =
                .error (.invalidChildIndex 0x80000000) found) := by
  refine ⟨filed_ofRoot, fun tree hfiled requests target hardened => ?_⟩
  obtain ⟨hbounds, hpairwise⟩ := handedOut_between hfiled requests target hardened
  refine ⟨hpairwise, fun child hchild => (hbounds child hchild).1, ?_⟩
  rintro ⟨child, hchild, hlast⟩ path relative create parent found rfl hget
  have hlt := (hbounds child hchild).2.2
  have hle := (run requests tree).nextIndex_le ((run requests tree).absolute path relative) hardened
  have husedUp : (run requests tree).nextIndex ((run requests tree).absolute path relative)
      hardened = hardenedBit := by
    rw [hlast] at hlt
    rw [hardenedBit] at hle ⊢
    omega
  exact deriveNextChild_of_usedUp (filed_run hfiled requests) husedUp hget

/-- The last hardened child of a master key, asked for by a relative path, and one more, asked for
by an absolute one. -/
theorem handedOut_increasing_last :
    let tree := (ofRoot leastMaster).setLastChild .master true ⟨0xFFFFFFFE⟩
    let requests := [Request.deriveNextChild .master true false true]
    handedOut (.master, true) requests tree = [⟨0xFFFFFFFF⟩] ∧
      deriveNextChild .master false false true (run requests tree) =
        .error (.invalidChildIndex 0x80000000) (run requests tree) := by
  intro tree requests
  have hfiled : tree.Filed := (filed_ofRoot leastMaster).setLastChild _ _ _
  have hroot : tree.key? .master = some leastMaster := by
    rw [key?_setLastChild, key?_ofRoot]
    rfl
  have htarget : tree.absolute .master true = .master := rfl
  have hlast : tree.nextIndex .master true = 0x7FFFFFFF := by
    rw [nextIndex, lastChild?_setLastChild]
    rfl
  have hdue : tree.dueChild .master true = ⟨0xFFFFFFFF⟩ := by
    rw [dueChild, hlast]
    rfl
  obtain ⟨key, hkey⟩ : ∃ key, leastMaster.derive ⟨0xFFFFFFFF⟩ = .ok key :=
    exists_derive_of_isSome (by decide +kernel)
  have hpath : key.path = KeyPath.master.child ⟨0xFFFFFFFF⟩ := (child_of_derive hkey).path_eq
  have hcall : deriveNextChild .master true false true tree =
      .ok key ((tree.useDue .master true).insert key) :=
    deriveNextChild_of_derive hfiled htarget (get_of_key? hroot)
      (by rw [hlast]; decide) (by rw [hdue]; exact hkey)
  have hrun : run requests tree = (tree.useDue .master true).insert key := by
    show left (deriveNextChild .master true false true tree) = _
    rw [hcall]
    rfl
  have hhanded : handedOut (.master, true) requests tree = [⟨0xFFFFFFFF⟩] := by
    show (Request.handsOut? _ (.deriveNextChild .master true false true) tree).toList ++ [] = _
    rw [handsOut?_of_ok htarget hcall, hpath]
    rfl
  have hget :
      get .master false false (run requests tree) = .ok leastMaster (run requests tree) := by
    refine get_of_key? ?_
    show (run requests tree).key? .master = _
    rw [hrun, key?_insert, if_neg (by rw [hpath]; decide), useDue, key?_setLastChild, hroot]
  have hspent : ∃ child ∈ handedOut (.master, true) requests tree, child.index = 0x7FFFFFFF := by
    rw [hhanded]
    exact ⟨_, List.mem_singleton_self _, rfl⟩
  exact ⟨hhanded, (handedOut_increasing.2 tree hfiled requests .master true).2.2 hspent
    .master false false leastMaster _ rfl hget⟩

/-! ## What a refusal costs -/

/-- All counters of two trees stand at the same indices. -/
def SameCounters (before after : KeyTree) : Prop :=
  after.lastHardened = before.lastHardened ∧ after.lastNormal = before.lastNormal

theorem SameCounters.lastChild?_eq {before after : KeyTree} (h : SameCounters before after)
    (path : KeyPath) (hardened : Bool) :
    after.lastChild? path hardened = before.lastChild? path hardened := by
  rw [lastChild?, lastChild?, h.1, h.2]

theorem SameCounters.nextIndex_eq {before after : KeyTree} (h : SameCounters before after)
    (path : KeyPath) (hardened : Bool) :
    after.nextIndex path hardened = before.nextIndex path hardened := by
  rw [nextIndex, nextIndex, h.lastChild?_eq]

theorem SameCounters.useDue {before after : KeyTree} (h : SameCounters before after)
    (path : KeyPath) (hardened : Bool) :
    SameCounters (before.useDue path hardened) (after.useDue path hardened) := by
  rw [KeyTree.useDue, KeyTree.useDue, dueChild_congr (h.nextIndex_eq path hardened)]
  cases hardened with
  | true =>
    refine ⟨?_, h.2⟩
    show after.lastHardened.insert path _ = before.lastHardened.insert path _
    rw [h.1]
  | false =>
    refine ⟨h.1, ?_⟩
    show after.lastNormal.insert path _ = before.lastNormal.insert path _
    rw [h.2]

theorem Grown.sameCounters {before : KeyTree} (h : Grown path before after) :
    SameCounters before after :=
  ⟨h.lastHardened_eq, h.lastNormal_eq⟩

/-- The errors of a call that does not depend on the index that is due. -/
inductive Refusal : KeyError → Prop
  | hardenedFromPublic : Refusal .hardenedFromPublic
  | maxDepthReached : Refusal .maxDepthReached
  | keyNotFound (path : KeyPath) : Refusal (.keyNotFound path)
  | noParent : Refusal .noParent

/-- A call is refused because the parent is not found, or because it has no such children; only the
second costs an index. -/
theorem refused_cases (hfiled : tree.Filed) (htarget : tree.absolute path relative = target)
    (h : deriveNextChild path relative create hardened tree = .error e after) (he : Refusal e) :
    (get path relative create tree = .error e after ∧ SameCounters tree after) ∨
      ∃ parent found, get path relative create tree = .ok parent found ∧
        parent.refusal? hardened = some e ∧
        tree.nextIndex target hardened < hardenedBit ∧
        SameCounters (tree.useDue target hardened) after := by
  subst htarget
  cases hget : get path relative create tree with
  | error e' found =>
    rw [deriveNextChild_of_get_error hardened hget] at h
    cases h
    exact .inl ⟨rfl, (grown_of_get_error hfiled hget).sameCounters⟩
  | ok parent found =>
    have hgrown := (grown_of_get_ok hfiled hget).1
    rw [deriveNextChild_of_get_ok hardened hget] at h
    obtain ⟨hrefusal, hlt, rfl⟩ | rfl | rfl := refusal_of_deriveFirstOf h
    · rw [path_of_get hfiled hget] at hlt ⊢
      rw [hgrown.nextIndex_eq] at hlt
      exact .inr ⟨parent, found, rfl, hrefusal, hlt, hgrown.sameCounters.useDue _ _⟩
    · cases he
    · cases he

/-- The index that a later call starts from is the one where the counter stood. -/
theorem firstFrom_of_later {requests : List Request} {start : Nat} (hfiled : tree.Filed)
    (hstart : tree.nextIndex target hardened = start)
    (hquiet : ∀ request ∈ requests, request.counter? tree ≠ some (target, hardened))
    (htarget : (run requests tree).absolute path relative = target)
    (h : deriveNextChild path relative create hardened (run requests tree) = .ok key after) :
    ∃ parent found index, get path relative create (run requests tree) = .ok parent found ∧
      FirstFrom parent hardened start index key ∧
      key.path = target.child (.ofParts index hardened) := by
  obtain ⟨parent, found, index, hget, hfirst, hpath, -⟩ :=
    firstFrom_of_deriveNextChild (filed_run hfiled requests) htarget h
  have hsame : (run requests tree).nextIndex target hardened = start := by
    rw [nextIndex, lastChild?_run hfiled requests hquiet]
    exact hstart
  rw [hsame] at hfirst
  exact ⟨parent, found, index, hget, hfirst, hpath⟩

/-- The master key without its private half. -/
def leastWatching : ExtendedKey := leastMaster.neuter

theorem get_leastWatching : get .master false false (ofRoot leastWatching) =
    .ok leastWatching (ofRoot leastWatching) :=
  get_of_key? ((key?_ofRoot leastWatching .master).trans rfl)

/-- A watching key is asked for a hardened child. -/
theorem deriveNextChild_leastWatching :
    deriveNextChild .master false false true (ofRoot leastWatching) =
      .error .hardenedFromPublic ((ofRoot leastWatching).useDue .master true) := by
  have hlt : (ofRoot leastWatching).nextIndex .master true < hardenedBit := by
    rw [nextIndex_ofRoot]
    decide
  exact deriveNextChild_of_refusal (filed_ofRoot _) rfl get_leastWatching hlt rfl

/-- **What a refused call costs.**  If the parent is not found, all counters stand where they stood.
If it is found and refuses all children of that kind, the index that was due is used, and all other
counters stand where they stood.  A later call for that parent starts from the index where the
counter stands, however the tree was used in between, and gives the first child from there on that
has a key. -/
theorem counters_of_refused (root : ExtendedKey) (requests : List Request)
    (h : deriveNextChild path relative create hardened (run requests (ofRoot root)) =
      .error e after) (he : Refusal e) :
    let tree := run requests (ofRoot root)
    let target := tree.absolute path relative
    ∃ start,
      (get path relative create tree = .error e after ∧ SameCounters tree after ∧
          start = tree.nextIndex target hardened ∨
        ∃ parent found, get path relative create tree = .ok parent found ∧
          (e = .hardenedFromPublic ∨ e = .maxDepthReached) ∧
          (∀ child, child.isHardened = hardened → parent.derive child = .error e) ∧
          SameCounters (tree.useDue target hardened) after ∧
          start = tree.nextIndex target hardened + 1) ∧
      ∀ (between : List Request) (path' : KeyPath) (relative' create' : Bool) (key : ExtendedKey)
        (last : KeyTree),
        (∀ request ∈ between, request.counter? after ≠ some (target, hardened)) →
        (run between after).absolute path' relative' = target →
        deriveNextChild path' relative' create' hardened (run between after) = .ok key last →
        ∃ parent found index, get path' relative' create' (run between after) = .ok parent found ∧
          FirstFrom parent hardened start index key ∧
          key.path = target.child (.ofParts index hardened) := by
  intro tree target
  have hfiled : tree.Filed := filed_run (filed_ofRoot root) requests
  have hfiledAfter : after.Filed := by
    have hkept := kept_after hfiled (.deriveNextChild path relative create hardened)
    have hleft : Request.after (.deriveNextChild path relative create hardened) tree = after := by
      show left (deriveNextChild path relative create hardened tree) = after
      rw [h]
      rfl
    exact hleft ▸ hkept.filed
  -- The later calls start where the refused one has left the counter.
  refine ⟨after.nextIndex target hardened, ?_, fun between path' relative' create' key last hquiet
    htarget hlater => firstFrom_of_later hfiledAfter rfl hquiet htarget hlater⟩
  obtain ⟨hget, hsame⟩ | ⟨parent, found, hget, hrefusal, hlt, hused⟩ :=
    refused_cases hfiled (rfl : tree.absolute path relative = target) h he
  · exact .inl ⟨hget, hsame, hsame.nextIndex_eq _ _⟩
  · refine .inr ⟨parent, found, hget, ?_, ?_, hused, ?_⟩
    · exact (eq_of_refusal hrefusal).imp And.left And.left
    · rintro child rfl
      exact derive_of_refusal hrefusal
    · rw [hused.nextIndex_eq, nextIndex_useDue hlt]

/-- The private half comes later, and the next child after a refused one is not the first. -/
theorem counters_of_refused_watching :
    ∃ key last index,
      deriveNextChild .master false false true
        (run [.put leastMaster] ((ofRoot leastWatching).useDue .master true)) = .ok key last ∧
      key.path = KeyPath.master.child (.ofParts index true) ∧ 1 ≤ index := by
  obtain ⟨start, hcost, hlater⟩ := counters_of_refused leastWatching []
    deriveNextChild_leastWatching .hardenedFromPublic
  have hstart : start = 1 := by
    obtain ⟨hget, -⟩ | ⟨-, -, -, -, -, -, rfl⟩ := hcost
    · cases get_leastWatching.symm.trans hget
    · exact congrArg (· + 1) (nextIndex_ofRoot leastWatching .master true)
  subst hstart
  generalize hafter : (ofRoot leastWatching).useDue .master true = after at hlater ⊢
  have hfiled : (after.insert leastMaster).Filed := by
    rw [← hafter]
    exact ((filed_ofRoot leastWatching).setLastChild _ _ _).insert leastMaster
  have hnext : (after.insert leastMaster).nextIndex .master true = 1 := by
    rw [nextIndex_insert, ← hafter, nextIndex_useDue, nextIndex_ofRoot]
    rw [nextIndex_ofRoot]
    decide
  obtain ⟨key, hkey⟩ : ∃ key, leastMaster.derive ⟨0x80000001⟩ = .ok key :=
    exists_derive_of_isSome (by decide +kernel)
  have hget : get .master false false (after.insert leastMaster) =
      .ok leastMaster (after.insert leastMaster) :=
    get_of_key? (key?_insert_self after leastMaster)
  have htarget : (after.insert leastMaster).absolute .master false = .master := rfl
  have hcall := deriveNextChild_of_derive hfiled htarget hget
    (by rw [hnext]; decide) (by rw [dueChild, hnext]; exact hkey)
  obtain ⟨_, _, index, -, hfirst, hpath⟩ := hlater [.put leastMaster] .master false false key _
    (by simp [Request.counter?]) rfl hcall
  exact ⟨key, _, index, hcall, hpath, hfirst.start_le⟩

/-- A refused call can cost an index, also if no index was tried that has no key. -/
theorem not_forall_sameCounters_of_refused :
    ¬∀ (root : ExtendedKey) (requests : List Request) (path : KeyPath)
      (relative create hardened : Bool) (e : KeyError) (after : KeyTree),
      deriveNextChild path relative create hardened (run requests (ofRoot root)) =
        .error e after → Refusal e →
      (∀ parent found, get path relative create (run requests (ofRoot root)) = .ok parent found →
        ∀ child, child.isHardened = hardened → parent.derive child ≠ .error .invalidDerivation) →
      SameCounters (run requests (ofRoot root)) after := by
  intro hall
  have hsame := hall leastWatching [] .master false false true _ _ deriveNextChild_leastWatching
    .hardenedFromPublic (by
      intro parent found hget child hchild hinvalid
      cases get_leastWatching.symm.trans hget
      have hrefused : leastWatching.derive child = .error .hardenedFromPublic :=
        derive_of_refusal (by rw [hchild]; rfl)
      cases hrefused.symm.trans hinvalid)
  have hlt : (ofRoot leastWatching).nextIndex .master true < hardenedBit := by
    rw [nextIndex_ofRoot]
    decide
  have hnext := hsame.nextIndex_eq .master true
  rw [run_nil, nextIndex_useDue hlt] at hnext
  omega

end Bitcoin.KeyTree
