import Bitcoin.Proofs.KeyTree.Demand

/-!
# Searching for a child

An index may have no key, and then the next one is tried, up to a hundred in a row.  A key alone
searches from the child that it is given (`ExtendedKey.deriveNext`); a tree searches from its
counter on and moves the counter with each index that it tries.  **Both come to the same.**

* `ExtendedKey.Search` is what a search may come to, told without the search: the first index that
  settles it, the last index passed, or all attempts used.  `ExtendedKey.Search.unique` says that
  only one of these is the case.
* `ExtendedKey.search_deriveFrom` is the search of a key, by induction on the attempts.
* `KeyTree.outcome_deriveFirstOf` follows the two searches side by side: where the counter stands is
  where the other search is.
* `KeyTree.searches_agree` says both of all keys and of all trees that can be reached.

The two searches are written differently.  The one of a key computes each index from the child that
it started from, and the one of a tree reads each index off its counter.  They agree because the
counter moves by one with every attempt, so the statement that goes through the induction names both
places: the counter stands at `child.index + places`, where `places` is how far the search of the
key has come.

`ExtendedKey.Search` is the specification of both.  It has a constructor for each way to end, and
the conditions of the constructors exclude each other: an index that settles the search is not
barren, and having run out of attempts and having run out of indices differ in which of the two
comes first.  So the result is determined (`ExtendedKey.Search.unique`), and to say that the
function satisfies the specification is to say that it is the only one that does
(`ExtendedKey.search_iff_deriveNext`).

That an index has no key takes a hash of a rare kind, and none is known.  The theorems do not assume
that there is none.  They hold of whatever `derive` gives, and the search would be right also if a
hundred indices in a row had no key.
-/

set_option autoImplicit false

namespace Bitcoin

open Stateful

/-! ## What a search comes to -/

namespace ExtendedKey

open ChildNumber

variable {parent key : ExtendedKey} {child : ChildNumber} {hardened : Bool}
  {start stop index places attempts : Nat} {result other : Except KeyError ExtendedKey}

/-- From one index up to another, no child of a parent has a key. -/
def Barren (parent : ExtendedKey) (hardened : Bool) (start stop : Nat) : Prop :=
  ∀ index, start ≤ index → index < stop →
    parent.derive (.ofParts index hardened) = .error .invalidDerivation

/-- What a search comes to that tries so many indices in a row, hardened or not, from one on. -/
inductive Search (parent : ExtendedKey) (hardened : Bool) (start attempts : Nat) :
    Except KeyError ExtendedKey → Prop
  /-- The first index that does not lack a key decides, with a key or with another error. -/
  | settled {index : Nat} (hstart : start ≤ index) (hattempt : index < start + attempts)
    (hindex : index < hardenedBit) (hbarren : Barren parent hardened start index)
    (hsettled : parent.derive (.ofParts index hardened) ≠ .error .invalidDerivation) :
    Search parent hardened start attempts (parent.derive (.ofParts index hardened))
  /-- There are attempts left, but no indices. -/
  | usedUp (hattempt : hardenedBit < start + attempts)
    (hbarren : Barren parent hardened start hardenedBit) :
    Search parent hardened start attempts (.error (.invalidChildIndex hardenedBit))
  /-- There may be indices left, but no attempts. -/
  | exhausted (hindex : start + attempts ≤ hardenedBit)
    (hbarren : Barren parent hardened start (start + attempts)) :
    Search parent hardened start attempts (.error .attemptsExhausted)

theorem Barren.of_succ (h : Barren parent hardened (start + 1) stop)
    (hstart : parent.derive (.ofParts start hardened) = .error .invalidDerivation) :
    Barren parent hardened start stop := by
  intro index hle hlt
  rcases Nat.eq_or_lt_of_le hle with rfl | hlater
  · exact hstart
  · exact h index hlater hlt

theorem barren_self : Barren parent hardened start start := by
  intro index hle hlt
  omega

namespace Search

/-- A search passes over an index without a key. -/
theorem of_succ (h : Search parent hardened (start + 1) attempts result)
    (hstart : parent.derive (.ofParts start hardened) = .error .invalidDerivation) :
    Search parent hardened start (attempts + 1) result := by
  cases h with
  | settled hle hattempt hindex hbarren hsettled =>
    exact .settled (by omega) (by omega) hindex (hbarren.of_succ hstart) hsettled
  | usedUp hattempt hbarren => exact .usedUp (by omega) (hbarren.of_succ hstart)
  | exhausted hindex hbarren =>
    have hend : start + 1 + attempts = start + (attempts + 1) := by omega
    rw [hend] at hindex hbarren
    exact .exhausted hindex (hbarren.of_succ hstart)

/-- **A search comes to one thing only.**  An index that settles it is none without a key, so it
stands behind all that are passed. -/
theorem unique (h : Search parent hardened start attempts result)
    (h' : Search parent hardened start attempts other) : result = other := by
  cases h with
  | @settled index hle hattempt hindex hbarren hsettled =>
    have hbehind : ∀ {stop}, Barren parent hardened start stop → stop ≤ index :=
      fun hstop => Nat.le_of_not_lt fun hlt => hsettled (hstop index hle hlt)
    cases h' with
    | @settled index' hle' _ _ hbarren' hsettled' =>
      have hbehind' : index ≤ index' :=
        Nat.le_of_not_lt fun hlt => hsettled' (hbarren index' hle' hlt)
      rw [Nat.le_antisymm hbehind' (hbehind hbarren')]
    | usedUp _ hbarren' => exact absurd (hbehind hbarren') (Nat.not_le.2 hindex)
    | exhausted _ hbarren' => exact absurd (hbehind hbarren') (Nat.not_le.2 hattempt)
  | usedUp hattempt hbarren =>
    cases h' with
    | settled hle' _ hindex' _ hsettled' => exact absurd (hbarren _ hle' hindex') hsettled'
    | usedUp _ _ => rfl
    | exhausted hindex' _ => omega
  | exhausted hindex hbarren =>
    cases h' with
    | settled hle' hattempt' _ _ hsettled' => exact absurd (hbarren _ hle' hattempt') hsettled'
    | usedUp hattempt' _ => omega
    | exhausted _ _ => rfl

end Search

/-! ## The search of a key -/

theorem offset_of_lt (h : child.index + places < hardenedBit) :
    child.offset places = .ok (.ofParts (child.index + places) child.isHardened) :=
  if_pos h

theorem offset_of_eq (h : child.index + places = hardenedBit) :
    child.offset places = .error (.invalidChildIndex hardenedBit) := by
  rw [offset, h]
  rfl

theorem deriveFrom_of_eq (attempts : Nat) (h : child.index + places = hardenedBit) :
    parent.deriveFrom child places (attempts + 1) = .error (.invalidChildIndex hardenedBit) := by
  rw [deriveFrom, offset_of_eq h]
  rfl

/-- An index without a key is passed over. -/
theorem deriveFrom_of_invalid (attempts : Nat) (h : child.index + places < hardenedBit)
    (hinvalid : parent.derive (.ofParts (child.index + places) child.isHardened) =
      .error .invalidDerivation) :
    parent.deriveFrom child places (attempts + 1) =
      parent.deriveFrom child (places + 1) attempts := by
  rw [deriveFrom, offset_of_lt h]
  simp only [bind, Except.bind, hinvalid]

/-- Any other index settles the search. -/
theorem deriveFrom_of_settled (attempts : Nat) (h : child.index + places < hardenedBit)
    (hsettled : parent.derive (.ofParts (child.index + places) child.isHardened) ≠
      .error .invalidDerivation) :
    parent.deriveFrom child places (attempts + 1) =
      parent.derive (.ofParts (child.index + places) child.isHardened) := by
  rw [deriveFrom, offset_of_lt h]
  -- The hypothesis is what rules the first case of the match out.
  simp only [bind, Except.bind]

/-- **What the search of a key comes to**, from any place within the indices. -/
theorem search_deriveFrom (h : child.index + places ≤ hardenedBit) :
    Search parent child.isHardened (child.index + places) attempts
      (parent.deriveFrom child places attempts) := by
  induction attempts generalizing places with
  | zero => exact .exhausted h barren_self
  | succ attempts ih =>
    rcases Nat.eq_or_lt_of_le h with heq | hlt
    · rw [deriveFrom_of_eq attempts heq]
      refine .usedUp (by omega) ?_
      rw [heq]
      exact barren_self
    by_cases hinvalid : parent.derive (.ofParts (child.index + places) child.isHardened) =
        .error .invalidDerivation
    · have hnext : child.index + (places + 1) ≤ hardenedBit := hlt
      rw [deriveFrom_of_invalid attempts hlt hinvalid]
      exact (ih hnext).of_succ hinvalid
    · rw [deriveFrom_of_settled attempts hlt hinvalid]
      exact .settled (Nat.le_refl _) (by omega) hlt barren_self hinvalid

theorem search_iff_deriveNext :
    Search parent child.isHardened child.index maxAttempts result ↔
      parent.deriveNext child = result := by
  have hstart : child.index + 0 ≤ hardenedBit := Nat.le_of_lt child.index_lt
  have hsearch : Search parent child.isHardened child.index maxAttempts
      (parent.deriveNext child) := search_deriveFrom hstart
  constructor
  · exact hsearch.unique
  · rintro rfl
    exact hsearch

/-- A child that has a key is the first one that is found. -/
theorem deriveNext_of_derive (h : parent.derive child = .ok key) :
    parent.deriveNext child = .ok key := by
  have hindex := child.index_lt
  have hsettled : parent.derive (.ofParts child.index child.isHardened) = .ok key := by
    rw [ofParts_parts, h]
  rw [← search_iff_deriveNext, ← hsettled]
  refine .settled (Nat.le_refl _) (Nat.lt_add_of_pos_right (by decide)) hindex barren_self ?_
  rw [hsettled]
  rintro ⟨⟩

end ExtendedKey

/-! ## The search of a tree -/

namespace KeyTree

open ExtendedKey ChildNumber

variable {tree after found : KeyTree} {path target : KeyPath} {parent key : ExtendedKey}
  {child : ChildNumber} {relative create hardened : Bool} {places attempts : Nat}

/-- **The two searches side by side**: the counter of the tree stands where the search of the key
is, and moves with it. -/
theorem outcome_deriveFirstOf
    (h : tree.nextIndex parent.path child.isHardened = child.index + places) :
    outcome (deriveFirstOf parent child.isHardened attempts tree) =
      parent.deriveFrom child places attempts := by
  induction attempts generalizing tree places with
  | zero => rfl
  | succ attempts ih =>
    rcases Nat.eq_or_lt_of_le (tree.nextIndex_le parent.path child.isHardened) with heq | hlt
    · rw [deriveFirstOf_of_eq attempts heq, deriveFrom_of_eq attempts (h.symm.trans heq)]
      rfl
    · have hdue : tree.dueChild parent.path child.isHardened =
          .ofParts (child.index + places) child.isHardened := by rw [dueChild, h]
      have hused : (tree.useDue parent.path child.isHardened).nextIndex parent.path
          child.isHardened = child.index + (places + 1) := by
        rw [nextIndex_useDue hlt, h, Nat.add_assoc]
      rw [deriveFirstOf_succ attempts hlt, hdue]
      rw [h] at hlt
      split
      · next hinvalid => rw [deriveFrom_of_invalid attempts hlt hinvalid, ih hused]
      · next hother hderive =>
        rw [deriveFrom_of_settled attempts hlt, hderive]
        · rfl
        · rw [hderive]
          rintro ⟨⟩
          exact hother rfl
      · next hderive =>
        rw [deriveFrom_of_settled attempts hlt, hderive]
        · rfl
        · rw [hderive]
          rintro ⟨⟩

/-- A search that starts where the counter stands, if there is an index left. -/
theorem outcome_deriveFirstOf_eq_deriveNext (parent : ExtendedKey) (hardened : Bool)
    (tree : KeyTree) :
    outcome (deriveFirstOf parent hardened maxAttempts tree) =
      ofIndex (tree.nextIndex parent.path hardened) hardened >>= parent.deriveNext := by
  rcases Nat.eq_or_lt_of_le (tree.nextIndex_le parent.path hardened) with heq | hlt
  · rw [maxAttempts, deriveFirstOf_of_eq 99 heq, heq]
    rfl
  · have hindex : ofIndex (tree.nextIndex parent.path hardened) hardened =
        .ok (tree.dueChild parent.path hardened) := if_pos hlt
    have hplaces : tree.nextIndex parent.path hardened =
        (tree.dueChild parent.path hardened).index + 0 := (index_ofParts hlt hardened).symm
    have hflag := isHardened_dueChild hlt
    rw [hindex]
    show _ = parent.deriveFrom (tree.dueChild parent.path hardened) 0 maxAttempts
    generalize tree.dueChild parent.path hardened = due at hplaces hflag
    subst hflag
    exact outcome_deriveFirstOf hplaces

/-- The counter is left at the child that is handed out. -/
theorem lastChild?_of_deriveFirstOf
    (h : deriveFirstOf parent hardened attempts tree = .ok key after) :
    after.lastChild? parent.path hardened = some key.childNumber := by
  induction attempts generalizing tree with
  | zero => cases h
  | succ attempts ih =>
    rcases Nat.eq_or_lt_of_le (tree.nextIndex_le parent.path hardened) with heq | hlt
    · rw [deriveFirstOf_of_eq attempts heq] at h
      cases h
    rw [deriveFirstOf_succ attempts hlt] at h
    split at h
    · exact ih h
    · cases h
    · next found hderive =>
      cases h
      have hpath := (child_of_derive hderive).path_eq
      show (tree.useDue parent.path hardened).lastChild? parent.path hardened = _
      rw [useDue, lastChild?_setLastChild, if_pos ⟨rfl, rfl⟩, childNumber, hpath,
        KeyPath.last?_child]
      rfl

/-- **The two ways to search for a child agree.**  A key that searches from a child on comes to the
first index within a hundred that does not lack a key, and to an error if the indices or the
attempts end before; hardened children are searched among hardened ones only.  And in every tree
that can be reached, a parent that is found is searched from the counter on with the same result,
and with an error if the counter has no next child; if a child is handed out, the counter is left at
it. -/
theorem searches_agree :
    (∀ (parent : ExtendedKey) (child : ChildNumber) (result : Except KeyError ExtendedKey),
      parent.Search child.isHardened child.index 100 result ↔ parent.deriveNext child = result) ∧
    ∀ (root : ExtendedKey) (requests : List Request) (path : KeyPath)
      (relative create hardened : Bool) (parent : ExtendedKey) (found : KeyTree),
      let tree := run requests (ofRoot root)
      let target := tree.absolute path relative
      get path relative create tree = .ok parent found →
        outcome (deriveNextChild path relative create hardened tree) =
            ofIndex (tree.nextIndex target hardened) hardened >>= parent.deriveNext ∧
          ∀ key after, deriveNextChild path relative create hardened tree = .ok key after →
            key.path = target.child key.childNumber ∧
              after.lastChild? target hardened = some key.childNumber := by
  refine ⟨fun parent child result => search_iff_deriveNext, ?_⟩
  intro root requests path relative create hardened parent found tree target hget
  have hfiled : tree.Filed := filed_run (filed_ofRoot root) requests
  have hpath : parent.path = target := path_of_get hfiled hget
  have hnext : found.nextIndex parent.path hardened = tree.nextIndex target hardened := by
    rw [hpath]
    exact (grown_of_get_ok hfiled hget).1.nextIndex_eq target hardened
  rw [deriveNextChild_of_get_ok hardened hget]
  refine ⟨?_, fun key after hkey => ⟨?_, ?_⟩⟩
  · rw [outcome_deriveFirstOf_eq_deriveNext, hnext]
  · have hcounts := counts_deriveFirstOf parent hardened maxAttempts found
    rw [hkey] at hcounts
    obtain ⟨_, index, -, -, hfirst, -⟩ := hcounts
    rw [childNumber, hfirst.path_eq, KeyPath.last?_child, hpath]
    rfl
  · rw [← hpath]
    exact lastChild?_of_deriveFirstOf hkey

theorem exists_of_outcome {result : EStateM.Result KeyError KeyTree ExtendedKey}
    (h : outcome result = .ok key) : ∃ after, result = .ok key after := by
  cases result with
  | ok other after =>
    cases h
    exact ⟨after, rfl⟩
  | error e after => cases h

/-- The master key with its first child, whose index is used. -/
theorem run_firstChild {first : ExtendedKey} (hfirst : leastMaster.derive ⟨0⟩ = .ok first) :
    run [.deriveNextChild .master true false false] (ofRoot leastMaster) =
      ((ofRoot leastMaster).useDue .master false).insert first := by
  have hroot : (ofRoot leastMaster).key? .master = some leastMaster :=
    (key?_ofRoot leastMaster .master).trans rfl
  have hcall : deriveNextChild .master true false false (ofRoot leastMaster) =
      .ok first (((ofRoot leastMaster).useDue .master false).insert first) :=
    deriveNextChild_of_derive (filed_ofRoot _) rfl (get_of_key? hroot)
      (by rw [nextIndex_ofRoot]; decide) (by rw [dueChild, nextIndex_ofRoot]; exact hfirst)
  show left (deriveNextChild .master true false false (ofRoot leastMaster)) = _
  rw [hcall]
  rfl

/-- The second child of a master key, the first one having been asked for by a relative path. -/
theorem searches_agree_secondChild :
    let tree := run [.deriveNextChild .master true false false] (ofRoot leastMaster)
    ∃ key after, leastMaster.deriveNext ⟨1⟩ = .ok key ∧
      deriveNextChild .master false false false tree = .ok key after ∧
      after.lastChild? .master false = some ⟨1⟩ := by
  intro tree
  obtain ⟨first, hfirst⟩ := exists_firstChild
  obtain ⟨second, hsecond⟩ : ∃ key, leastMaster.derive ⟨1⟩ = .ok key :=
    exists_derive_of_isSome (by decide +kernel)
  have htree : tree = ((ofRoot leastMaster).useDue .master false).insert first :=
    run_firstChild hfirst
  have hget : get .master false false tree = .ok leastMaster tree := by
    refine get_of_key? ?_
    show tree.key? .master = _
    have hbelow : first.path ≠ .master := by
      rw [(child_of_derive hfirst).path_eq]
      exact KeyPath.child_ne_master _ _
    rw [htree, key?_insert, if_neg hbelow, useDue, key?_setLastChild, key?_ofRoot]
    rfl
  have hnext : tree.nextIndex .master false = 1 := by
    rw [htree, nextIndex_insert, nextIndex_useDue (by rw [nextIndex_ofRoot]; decide),
      nextIndex_ofRoot]
  obtain ⟨hsame, hcounter⟩ := searches_agree.2 leastMaster
    [.deriveNextChild .master true false false] .master false false false leastMaster tree hget
  have hdue : ofIndex (tree.nextIndex .master false) false = .ok ⟨1⟩ := by
    rw [hnext]
    rfl
  have hsearch : leastMaster.deriveNext ⟨1⟩ = .ok second := deriveNext_of_derive hsecond
  obtain ⟨after, hresult⟩ : ∃ after,
      deriveNextChild .master false false false tree = .ok second after := by
    refine exists_of_outcome (hsame.trans ?_)
    show ofIndex (tree.nextIndex .master false) false >>= leastMaster.deriveNext = _
    rw [hdue, ← hsearch]
    exact pure_bind _ _
  have hlast : second.childNumber = ⟨1⟩ := by
    rw [childNumber, (child_of_derive hsecond).path_eq, KeyPath.last?_child]
    rfl
  exact ⟨second, after, hsearch, hresult, hlast ▸ (hcounter second after hresult).2⟩

end KeyTree

end Bitcoin
