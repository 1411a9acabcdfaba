import Bitcoin.Proofs.KeyTree.Demand

/-!
# The order of requests

Callers that share a tree do not know in which order it answers them.  They need not know: **in
whatever order the demands come, the tree ends up the same**, the keys and the children that callers
ask for by name are the same, and each counter gives the same answers one after the other.  All that
the order decides is who gets which of these.

* `KeyTree.sameAt_perform` and `KeyTree.outcome_perform_eq` say what a demand looks at: its counter,
  if it has one, and nothing else of the tree.
* `KeyTree.answers` are the answers in a run of demands, `KeyTree.given` those of one counter.
* `KeyTree.given_eq_nextDemands`: **what a counter gives depends only on how often it is asked.**
* `KeyTree.key?_afterAll_ne_none_iff` tells from the answers which keys are in the tree.
* `KeyTree.afterAll_of_perm` is the result about two orders.

Two orders differ in much: in the trees that demands find, in what is derived by whom, and in the
errors on the way.  Following one exchange of neighbours after the other would mean to follow all of
that.  Instead the result of a run is told from its demands in a way in which no order appears.

* For the keys, this is `KeyTree.key?_afterAll_ne_none_iff`: a path has a key after a run if it had
  one before, if it is on the way of some demand, or if it is that of some answer.  The first two do
  not depend on the order.
* For the answers of a counter it is `KeyTree.given_eq_nextDemands`.  A counter gives what it would
  give if nothing but demands for it had come, as many as there were; the induction takes the first
  demand off the run and compares the trees by where this one counter stands in them.
* All other answers do not look at what changes (`KeyTree.outcome_perform_eq`).

Then nothing is left to exchange: the number of demands for a counter is the same in both orders,
and so are its answers, one after the other.  What is *not* the same is who gets which of them, and
the theorem does not pretend so: `KeyTree.given` lists the answers of a counter without the demands
they belong to.

`KeyTree.SameTree` says that two trees have the same root, keys and counters.  It is not equality of
trees, since two hash maps with the same entries need not be the same.
-/

set_option autoImplicit false

namespace Bitcoin.KeyTree

open Stateful ChildNumber ExtendedKey

variable {root parent key : ExtendedKey} {tree tree' found found' : KeyTree}
  {path other : KeyPath} {hardened : Bool} {demand demand' : Demand}
  {demands first second : List Demand} {answer answer' : Except KeyError ExtendedKey}

/-! ## One counter -/

/-- The same answer, and a counter that stands at the same place afterwards. -/
structure SameAt (path : KeyPath) (hardened : Bool)
    (result result' : EStateM.Result KeyError KeyTree ExtendedKey) : Prop where
  outcome_eq : outcome result = outcome result'
  lastChild?_eq : (left result).lastChild? path hardened = (left result').lastChild? path hardened

/-- A search looks at nothing but the counter of its parent. -/
theorem sameAt_deriveFirstOf (attempts : Nat)
    (hlast : found.lastChild? parent.path hardened = found'.lastChild? parent.path hardened) :
    SameAt parent.path hardened (deriveFirstOf parent hardened attempts found)
      (deriveFirstOf parent hardened attempts found') := by
  induction attempts generalizing found found' with
  | zero => exact ⟨rfl, hlast⟩
  | succ attempts ih =>
    have hnext : found.nextIndex parent.path hardened = found'.nextIndex parent.path hardened := by
      rw [nextIndex, nextIndex, hlast]
    rcases Nat.eq_or_lt_of_le (found.nextIndex_le parent.path hardened) with heq | hlt
    · rw [deriveFirstOf_of_eq attempts heq, deriveFirstOf_of_eq attempts (hnext.symm.trans heq)]
      exact ⟨rfl, hlast⟩
    · have hdue := dueChild_congr hnext
      have hused : (found.useDue parent.path hardened).lastChild? parent.path hardened =
          (found'.useDue parent.path hardened).lastChild? parent.path hardened := by
        rw [useDue, useDue, lastChild?_setLastChild, lastChild?_setLastChild, hdue,
          if_pos ⟨rfl, rfl⟩, if_pos ⟨rfl, rfl⟩]
      rw [deriveFirstOf_succ attempts hlt, deriveFirstOf_succ attempts (hnext ▸ hlt), ← hdue]
      split
      · exact ih hused
      · exact ⟨rfl, hused⟩
      · exact ⟨rfl, hused⟩

theorem Demand.counter?_eq_some_iff :
    demand.counter? root = some (path, hardened) ↔
      demand.wish = .next hardened ∧ demand.target root = path := by
  rcases demand with ⟨_, _, _ | _ | _⟩ <;> simp [counter?, target, and_comm]

/-- **A demand for a next child looks at nothing but its counter.** -/
theorem sameAt_perform (h : Transparent root tree) (h' : Transparent root tree')
    (hcounter : demand.counter? root = some (path, hardened))
    (hcounter' : demand'.counter? root = some (path, hardened))
    (hlast : tree.lastChild? path hardened = tree'.lastChild? path hardened) :
    SameAt path hardened (demand.perform tree) (demand'.perform tree') := by
  obtain ⟨hwish, rfl⟩ := Demand.counter?_eq_some_iff.1 hcounter
  obtain ⟨hwish', htarget⟩ := Demand.counter?_eq_some_iff.1 hcounter'
  rcases hparent : fromRoot root (demand.target root) with e | parent
  · have hparent' : fromRoot root (demand'.target root) = .error e := by rw [htarget, hparent]
    rw [Demand.perform_of_error h hparent, Demand.perform_of_error h' hparent']
    refine ⟨rfl, ?_⟩
    show (left (lookup _ true tree)).lastChild? _ _ = (left (lookup _ true tree')).lastChild? _ _
    rw [lastChild?_left_lookup h, lastChild?_left_lookup h', hlast]
  · have hparent' : fromRoot root (demand'.target root) = .ok parent := by rw [htarget, hparent]
    obtain ⟨found, -, hperform, hpath, -, hgrown⟩ := Demand.perform_of_ok h hparent
    obtain ⟨found', -, hperform', -, -, hgrown'⟩ := Demand.perform_of_ok h' hparent'
    rw [hperform, hperform', hwish, hwish', ← hpath]
    refine sameAt_deriveFirstOf maxAttempts ?_
    rw [hgrown.lastChild?_eq, hgrown'.lastChild?_eq, hpath, hlast]

/-- **All other demands look at nothing that changes.** -/
theorem outcome_perform_eq (h : Transparent root tree) (h' : Transparent root tree')
    (hcounter : demand.counter? root = none) :
    outcome (demand.perform tree) = outcome (demand.perform tree') := by
  rcases hparent : fromRoot root (demand.target root) with e | parent
  · rw [Demand.perform_of_error h hparent, Demand.perform_of_error h' hparent]
    rfl
  · obtain ⟨found, -, hperform, -⟩ := Demand.perform_of_ok h hparent
    obtain ⟨found', -, hperform', -⟩ := Demand.perform_of_ok h' hparent
    rw [hperform, hperform']
    cases hwish : demand.wish with
    | itself => rfl
    | child step =>
      show outcome (deriveInto parent step found) = outcome (deriveInto parent step found')
      rcases hderive : parent.derive step with e | key
      · rw [deriveInto_of_derive_error hderive, deriveInto_of_derive_error hderive]
        rfl
      · rw [deriveInto_of_derive_ok hderive, deriveInto_of_derive_ok hderive]
        rfl
    | next hardened =>
      rw [Demand.counter?, hwish] at hcounter
      cases hcounter

/-! ## Runs of demands -/

/-- The tree after some demands. -/
def afterAll (demands : List Demand) (tree : KeyTree) : KeyTree :=
  run (demands.map Demand.request) tree

/-- The demands with their answers. -/
def answers : List Demand → KeyTree → List (Demand × Except KeyError ExtendedKey)
  | [], _ => []
  | demand :: rest, tree =>
    (demand, outcome (demand.perform tree)) :: answers rest (left (demand.perform tree))

/-- What a counter gives, the first answer first. -/
def given (root : ExtendedKey) (counter : KeyPath × Bool) (demands : List Demand)
    (tree : KeyTree) : List (Except KeyError ExtendedKey) :=
  (answers demands tree).filterMap fun (demand, answer) =>
    if demand.counter? root = some counter then some answer else none

theorem afterAll_cons (demand : Demand) (rest : List Demand) (tree : KeyTree) :
    afterAll (demand :: rest) tree = afterAll rest (left (demand.perform tree)) := by
  rw [afterAll, List.map_cons, run_cons, ← Demand.left_perform]
  rfl

theorem transparent_afterAll (h : Transparent root tree) (demands : List Demand) :
    Transparent root (afterAll demands tree) := by
  induction demands generalizing tree with
  | nil => exact h
  | cons demand rest ih =>
    rw [afterAll_cons]
    exact ih (Demand.transparent_perform h demand)

theorem map_fst_answers (demands : List Demand) (tree : KeyTree) :
    (answers demands tree).map Prod.fst = demands := by
  induction demands generalizing tree with
  | nil => rfl
  | cons demand rest ih => rw [answers, List.map_cons, ih]

/-- Each answer is what the demand is answered by some tree that grew from the root. -/
theorem exists_tree_of_mem_answers (h : Transparent root tree)
    (hanswer : (demand, answer) ∈ answers demands tree) :
    ∃ tree', Transparent root tree' ∧ answer = outcome (demand.perform tree') := by
  induction demands generalizing tree with
  | nil => cases hanswer
  | cons first rest ih =>
    rcases List.mem_cons.1 hanswer with heq | hrest
    · cases heq
      exact ⟨tree, h, rfl⟩
    · exact ih (Demand.transparent_perform h first) hrest

/-- **What is in the tree after a run**: what was in it, what was found on the way to the paths that
were asked for, and what was answered. -/
theorem key?_afterAll_ne_none_iff (h : Transparent root tree) :
    (afterAll demands tree).key? path ≠ none ↔
      tree.key? path ≠ none ∨
        (∃ demand ∈ demands, path.steps <+: (demand.target root).steps ∧
          ∃ key, fromRoot root path = .ok key) ∨
        ∃ demand key, (demand, .ok key) ∈ answers demands tree ∧ key.path = path := by
  induction demands generalizing tree with
  | nil => simp [afterAll, answers]
  | cons first rest ih =>
    have hanswers : (∃ demand key, (demand, .ok key) ∈ answers (first :: rest) tree ∧
          key.path = path) ↔
        (∃ key, outcome (first.perform tree) = .ok key ∧ key.path = path) ∨
          ∃ demand key, (demand, .ok key) ∈ answers rest (left (first.perform tree)) ∧
            key.path = path := by
      constructor
      · rintro ⟨demand, key, hanswer, hpath⟩
        rcases List.mem_cons.1 hanswer with heq | hrest
        · exact .inl ⟨key, (Prod.mk.inj heq).2.symm, hpath⟩
        · exact .inr ⟨demand, key, hrest, hpath⟩
      · rintro (⟨key, hkey, hpath⟩ | ⟨demand, key, hrest, hpath⟩)
        · exact ⟨first, key, by rw [answers, hkey]; exact List.mem_cons_self, hpath⟩
        · exact ⟨demand, key, List.mem_cons_of_mem _ hrest, hpath⟩
    rw [afterAll_cons, ih (Demand.transparent_perform h first),
      key?_left_perform_ne_none_iff h first, hanswers, or_assoc, or_or_or_comm]
    simp only [List.mem_cons, exists_eq_or_imp]

/-! ## What a counter gives -/

theorem given_cons_of_eq (hcounter : demand.counter? root = some (path, hardened))
    (rest : List Demand) (tree : KeyTree) :
    given root (path, hardened) (demand :: rest) tree =
      outcome (demand.perform tree) ::
        given root (path, hardened) rest (left (demand.perform tree)) := by
  simp [given, answers, hcounter]

theorem given_cons_of_ne (hcounter : demand.counter? root ≠ some (path, hardened))
    (rest : List Demand) (tree : KeyTree) :
    given root (path, hardened) (demand :: rest) tree =
      given root (path, hardened) rest (left (demand.perform tree)) := by
  simp [given, answers, hcounter]

/-- So many times the demand for a next child. -/
def nextDemands (path : KeyPath) (hardened : Bool) (times : Nat) : List Demand :=
  List.replicate times ⟨path, false, .next hardened⟩

/-- How often a counter is asked. -/
def timesAsked (root : ExtendedKey) (path : KeyPath) (hardened : Bool) (demands : List Demand) :
    Nat :=
  demands.countP fun demand => demand.counter? root = some (path, hardened)

/-- **What a counter gives depends only on how often it is asked**, and so does the place where it
is left.  All other demands of a run might as well not be there. -/
theorem given_eq_nextDemands (demands : List Demand) (h : Transparent root tree)
    (h' : Transparent root tree')
    (hlast : tree.lastChild? path hardened = tree'.lastChild? path hardened) :
    given root (path, hardened) demands tree =
        given root (path, hardened)
          (nextDemands path hardened (timesAsked root path hardened demands)) tree' ∧
      (afterAll demands tree).lastChild? path hardened =
        (afterAll (nextDemands path hardened (timesAsked root path hardened demands))
          tree').lastChild? path hardened := by
  induction demands generalizing tree tree' with
  | nil => exact ⟨rfl, hlast⟩
  | cons demand rest ih =>
    by_cases hcounter : demand.counter? root = some (path, hardened)
    · have hsame : SameAt path hardened (demand.perform tree)
          ((Demand.mk path false (.next hardened)).perform tree') :=
        sameAt_perform h h' hcounter rfl hlast
      have htimes : timesAsked root path hardened (demand :: rest) =
          timesAsked root path hardened rest + 1 :=
        List.countP_cons_of_pos (decide_eq_true hcounter)
      obtain ⟨hgiven, hleft⟩ := ih (Demand.transparent_perform h demand)
        (Demand.transparent_perform h' _) hsame.lastChild?_eq
      rw [htimes, nextDemands, List.replicate_succ, afterAll_cons, afterAll_cons,
        given_cons_of_eq hcounter, given_cons_of_eq rfl, hsame.outcome_eq]
      exact ⟨congrArg _ hgiven, hleft⟩
    · have htimes : timesAsked root path hardened (demand :: rest) =
          timesAsked root path hardened rest :=
        List.countP_cons_of_neg (by simpa using hcounter)
      rw [htimes, afterAll_cons, given_cons_of_ne hcounter]
      refine ih (Demand.transparent_perform h demand) h' ?_
      rw [Demand.lastChild?_perform h demand hcounter, hlast]

/-! ## Two orders -/

/-- The same root, the same keys and the same counters. -/
structure SameTree (tree tree' : KeyTree) : Prop where
  rootPath_eq : tree.rootPath = tree'.rootPath
  keys_equiv : tree.keys.Equiv tree'.keys
  lastHardened_equiv : tree.lastHardened.Equiv tree'.lastHardened
  lastNormal_equiv : tree.lastNormal.Equiv tree'.lastNormal

theorem SameTree.of_lookups (hroot : tree.rootPath = tree'.rootPath)
    (hkeys : ∀ path, tree.key? path = tree'.key? path)
    (hlast : ∀ path hardened, tree.lastChild? path hardened = tree'.lastChild? path hardened) :
    SameTree tree tree' where
  rootPath_eq := hroot
  keys_equiv := .of_forall_getElem?_eq hkeys
  lastHardened_equiv := .of_forall_getElem?_eq fun path => hlast path true
  lastNormal_equiv := .of_forall_getElem?_eq fun path => hlast path false

section Perm

variable (h : Transparent root tree) (hperm : first.Perm second)

include h hperm

/-- In two orders each counter is asked as often, so it gives the same. -/
theorem given_of_perm (path : KeyPath) (hardened : Bool) :
    given root (path, hardened) first tree = given root (path, hardened) second tree ∧
      (afterAll first tree).lastChild? path hardened =
        (afterAll second tree).lastChild? path hardened := by
  have htimes : timesAsked root path hardened first = timesAsked root path hardened second :=
    hperm.countP_eq _
  have hlast : tree.lastChild? path hardened = tree.lastChild? path hardened := rfl
  obtain ⟨hgiven, hleft⟩ := given_eq_nextDemands first h h hlast
  obtain ⟨hgiven', hleft'⟩ := given_eq_nextDemands second h h hlast
  rw [htimes] at hgiven hleft
  exact ⟨hgiven.trans hgiven'.symm, hleft.trans hleft'.symm⟩

/-- A key that is answered in one order is answered in the other. -/
theorem answered_of_perm (hanswer : (demand, .ok key) ∈ answers first tree) :
    ∃ demand', (demand', .ok key) ∈ answers second tree := by
  rcases hcounter : demand.counter? root with _ | ⟨path, hardened⟩
  · have hmem : demand ∈ second := by
      have hfirst := List.mem_map_of_mem (f := Prod.fst) hanswer
      rw [map_fst_answers] at hfirst
      exact hperm.mem_iff.1 hfirst
    rw [← map_fst_answers second tree] at hmem
    obtain ⟨⟨_, answer⟩, hother, rfl⟩ := List.mem_map.1 hmem
    obtain ⟨one, hone, hkey⟩ := exists_tree_of_mem_answers h hanswer
    obtain ⟨two, htwo, heq⟩ := exists_tree_of_mem_answers h hother
    rw [← outcome_perform_eq hone htwo hcounter, ← hkey] at heq
    exact ⟨_, heq ▸ hother⟩
  · have hgiven : Except.ok key ∈ given root (path, hardened) first tree :=
      List.mem_filterMap.2 ⟨_, hanswer, if_pos hcounter⟩
    rw [(given_of_perm h hperm path hardened).1] at hgiven
    obtain ⟨⟨demand', answer⟩, hother, heq⟩ := List.mem_filterMap.1 hgiven
    obtain ⟨-, hsame⟩ := Option.ite_none_right_eq_some.1 heq
    cases hsame
    exact ⟨demand', hother⟩

theorem key?_afterAll_of_perm (path : KeyPath) :
    (afterAll first tree).key? path = (afterAll second tree).key? path := by
  refine (transparent_afterAll h first).key?_eq (transparent_afterAll h second) ?_
  rw [key?_afterAll_ne_none_iff h, key?_afterAll_ne_none_iff h]
  refine or_congr_right (or_congr ?_ ⟨?_, ?_⟩)
  · simp only [hperm.mem_iff]
  · rintro ⟨demand, key, hanswer, hpath⟩
    obtain ⟨demand', hanswer'⟩ := answered_of_perm h hperm hanswer
    exact ⟨demand', key, hanswer', hpath⟩
  · rintro ⟨demand, key, hanswer, hpath⟩
    obtain ⟨demand', hanswer'⟩ := answered_of_perm h hperm.symm hanswer
    exact ⟨demand', key, hanswer', hpath⟩

end Perm

/-- **The order of requests does not matter.**  In whatever order the tree of a root is asked for
keys, for children and for next children, it ends up the same, with the same keys and counters.
Whoever asks for a key or for a child by its number is told the same, the key or the error.  Each
counter gives the same keys and errors, even in the same order, whoever gets them. -/
theorem afterAll_of_perm (root : ExtendedKey) (hperm : first.Perm second) :
    SameTree (afterAll first (ofRoot root)) (afterAll second (ofRoot root)) ∧
      (∀ demand answer answer', demand.counter? root = none →
        (demand, answer) ∈ answers first (ofRoot root) →
        (demand, answer') ∈ answers second (ofRoot root) → answer = answer') ∧
      ∀ counter,
        given root counter first (ofRoot root) = given root counter second (ofRoot root) := by
  have h : Transparent root (ofRoot root) := transparent_ofRoot root
  refine ⟨.of_lookups ?_ (key?_afterAll_of_perm h hperm)
    (fun path hardened => (given_of_perm h hperm path hardened).2), ?_,
    fun counter => (given_of_perm h hperm counter.1 counter.2).1⟩
  · rw [(transparent_afterAll h first).rootPath_eq, (transparent_afterAll h second).rootPath_eq]
  · intro demand answer answer' hcounter hanswer hanswer'
    obtain ⟨tree, htree, rfl⟩ := exists_tree_of_mem_answers h hanswer
    obtain ⟨tree', htree', rfl⟩ := exists_tree_of_mem_answers h hanswer'
    exact outcome_perform_eq htree htree' hcounter

/-- Two callers ask for next children, one for a child by its number and one for a key further down,
and then they do it the other way round. -/
theorem afterAll_of_perm_reverse :
    let demands : List Demand := [⟨.master, true, .next false⟩, ⟨.master, false, .child ⟨0⟩⟩,
      ⟨⟨[⟨7⟩, ⟨0x80000000⟩]⟩, false, .itself⟩, ⟨.master, false, .next false⟩]
    let tree := ofRoot leastMaster
    SameTree (afterAll demands tree) (afterAll demands.reverse tree) ∧
      given leastMaster (.master, false) demands tree =
        given leastMaster (.master, false) demands.reverse tree := by
  intro demands tree
  obtain ⟨hsame, -, hgiven⟩ := afterAll_of_perm leastMaster (List.reverse_perm demands).symm
  exact ⟨hsame, hgiven (.master, false)⟩

end Bitcoin.KeyTree
