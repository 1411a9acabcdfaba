import Bitcoin.CommandLine
import Bitcoin.Proofs.Key.Outcome
import Bitcoin.Proofs.KeyPath.Printed
import Bitcoin.Proofs.KeyTree.Transparent

/-!
# Showing children

A key can be shown in two ways: by its path, which is derived from the seed step by step, and as one
of the first children of its parent, which a tree hands out by counting.  **Both show the same**, as
far as the counting does not pass over an index.

* `KeyTree.deriveNextChild_extend` is one child.  The tree stays as it needs to be, so
  `CommandLine.childrenReport_of_ok` goes on to the last of them.
* `CommandLine.nextReport_eq_deriveReport` compares the two reports, with their errors.

The two commands do not share their work.  One starts from the seed for every key and goes down the
whole path; the other asks one tree for child after child, with a counter that the tree keeps.  That
they print the same rests on two facts about trees of keys: a lookup gives what deriving along the
path gives (`Bitcoin.Proofs.KeyTree.Transparent`), and the counter hands out the indices in order as
long as none of them is without a key (`Bitcoin.Proofs.KeyTree.NextChild`).

The second fact is where the assumption comes from.  The counter passes over an index that has no
key, and the list of paths would not; on such a parent the two do differ.

Errors agree as well, and it is simpler than it looks: all children of a parent are equally deep,
and a master key with its private half refuses nothing else (`exists_derivePath_child_iff`).

What is compared here are texts and errors.  That the text of a key tells which key it is, and so
that two reports which agree are about the same keys, is shown in
`Bitcoin.Proofs.CommandLine.Shown`.
-/

set_option autoImplicit false

namespace Bitcoin.CommandLine

open ExtendedKey KeyTree

variable {network : Network} {hardened : Bool} {seed text : String} {parent path : KeyPath}
  {root master : ExtendedKey} {e : KeyError}

/-! ## What is shown of a seed and a path -/

/-- The master key of a seed in hexadecimal. -/
def masterOfHex (seed : String) : Except CommandError ExtendedKey := do
  let bytes ← bytesOfHex seed
  (ofSeed bytes).mapError .key

theorem masterAndPath_of_ofText (seed : String) (h : KeyPath.ofText text = .ok path) :
    masterAndPath seed text = (masterOfHex seed).map fun master => (master, path) := by
  rw [masterAndPath, masterOfHex, h]
  cases bytesOfHex seed with
  | error e => rfl
  | ok bytes =>
    show ((ofSeed bytes).mapError CommandError.key >>= fun master => pure (master, path)) =
      ((ofSeed bytes).mapError CommandError.key).map fun master => (master, path)
    cases (ofSeed bytes).mapError CommandError.key <;> rfl

/-- A master key is made with its private half, and there is nothing above it. -/
theorem fields_of_masterOfHex (h : masterOfHex seed = .ok master) :
    master.path = .master ∧ master.depth = 0 ∧ master.isWatching = false := by
  obtain ⟨bytes, -, h⟩ := Fallible.bind_eq_ok_iff.1 h
  cases hseed : ofSeed bytes with
  | error e =>
    rw [hseed] at h
    cases h
  | ok key =>
    rw [hseed] at h
    cases h
    obtain ⟨secret, chainCode, rfl⟩ := exists_ofSecret_of_ofSeed hseed
    exact ⟨rfl, rfl, rfl⟩

theorem deriveReport_of_error {e : CommandError} (h : masterOfHex seed = .error e)
    (path : KeyPath) : deriveReport network seed path.toString = ⟨"", some e⟩ := by
  rw [deriveReport, masterAndPath_of_ofText seed path.ofText_toString, h]
  rfl

theorem deriveReport_of_master (h : masterOfHex seed = .ok master) (path : KeyPath) :
    deriveReport network seed path.toString =
      match master.derivePath path with
      | .ok key => ⟨keyText key network, none⟩
      | .error e => ⟨"", some (.key e)⟩ := by
  rw [deriveReport, masterAndPath_of_ofText seed path.ofText_toString, h]
  show Report.ofExcept ((master.derivePath path).mapError CommandError.key >>= fun key =>
    pure (keyText key network)) = _
  cases master.derivePath path <;> rfl

/-! ## What is shown of a tree -/

/-- The next child below a master key is derived along the whole path. -/
theorem deriveNextChild_of_master {tree : KeyTree} {index : Nat} (h : Transparent root tree)
    (hroot : root.path = .master) (hnext : tree.nextIndex parent hardened = index)
    (hindex : index < ChildNumber.hardenedBit)
    (hpassed : root.derivePath (parent.child (.ofParts index hardened)) ≠
      .error .invalidDerivation) :
    ∃ after, deriveNextChild parent false true hardened tree =
        Stateful.ofExcept (root.derivePath (parent.child (.ofParts index hardened))) after ∧
      ∀ key, root.derivePath (parent.child (.ofParts index hardened)) = .ok key →
        Transparent root after ∧ after.nextIndex parent hardened = index + 1 := by
  subst hnext
  have hparent : root.path.extend parent = parent := by
    rw [hroot]
    rfl
  rw [← hparent] at hindex
  have hdue : tree.dueChild (root.path.extend parent) hardened =
      .ofParts (tree.nextIndex parent hardened) hardened := by
    rw [hparent, dueChild]
  have hnext := deriveNextChild_extend h hdue hindex hpassed
  rw [hparent] at hnext
  exact hnext

/-- By induction on the children that are to come, with the tree and what is printed already
generalised: each child leaves a tree that is as good as before, and the counter one further. -/
theorem childrenReport_of_ok {texts : Nat → String} {tree : KeyTree} {index count : Nat}
    (printed : String) (h : Transparent root tree) (hroot : root.path = .master)
    (hnext : tree.nextIndex parent hardened = index)
    (hlast : index + count ≤ ChildNumber.hardenedBit)
    (hkeys : ∀ i, index ≤ i → i < index + count → ∃ key,
      root.derivePath (parent.child (.ofParts i hardened)) = .ok key ∧
        texts i = keyText key network) :
    childrenReport network parent hardened printed count tree =
      ⟨printed ++ String.join ((List.range' index count).map fun i => texts i ++ "\n"), none⟩ := by
  induction count generalizing tree index printed with
  | zero => simp [childrenReport]
  | succ count ih =>
    obtain ⟨key, hkey, htext⟩ := hkeys index (Nat.le_refl _) (by omega)
    have hpassed : root.derivePath (parent.child (.ofParts index hardened)) ≠
        .error .invalidDerivation := by
      rw [hkey]
      exact nofun
    obtain ⟨after, hcall, hgood⟩ :=
      deriveNextChild_of_master h hroot hnext (by omega) hpassed
    obtain ⟨hafter, hindex⟩ := hgood key hkey
    rw [hkey] at hcall
    have hcall : deriveNextChild parent false true hardened tree = .ok key after := hcall
    have hrest : ∀ i, index + 1 ≤ i → i < index + 1 + count → ∃ key,
        root.derivePath (parent.child (.ofParts i hardened)) = .ok key ∧
          texts i = keyText key network :=
      fun i hle hlt => hkeys i (by omega) (by omega)
    rw [childrenReport, hcall]
    dsimp only
    rw [ih _ hafter hindex (by omega) hrest, List.range'_succ, List.map_cons, String.join_cons,
      htext]
    simp only [String.append_assoc]

/-- If the first child is refused, nothing is shown. -/
theorem childrenReport_of_error {count : Nat} (hroot : root.path = .master)
    (h : root.derivePath (parent.child (.ofParts 0 hardened)) = .error e)
    (hpassed : e ≠ .invalidDerivation) :
    childrenReport network parent hardened "" (count + 1) (ofRoot root) =
      ⟨"", some (.key e)⟩ := by
  have hinvalid : root.derivePath (parent.child (.ofParts 0 hardened)) ≠
      .error .invalidDerivation := by
    rw [h]
    exact fun heq => hpassed (Except.error.inj heq)
  obtain ⟨after, hcall, -⟩ := deriveNextChild_of_master (transparent_ofRoot root) hroot
    (nextIndex_ofRoot root parent hardened) (by decide) hinvalid
  rw [h] at hcall
  have hcall : deriveNextChild parent false true hardened (ofRoot root) = .error e after := hcall
  rw [childrenReport, hcall]

/-! ## Both ways to a key -/

/-- What is shown of a child by its path. -/
def childReport (network : Network) (seed : String) (parent : KeyPath) (hardened : Bool)
    (index : Nat) : Report :=
  deriveReport network seed (parent.child (.ofParts index hardened)).toString

theorem childReport_of_master (h : masterOfHex seed = .ok master) (index : Nat) :
    childReport network seed parent hardened index =
      match master.derivePath (parent.child (.ofParts index hardened)) with
      | .ok key => ⟨keyText key network, none⟩
      | .error e => ⟨"", some (.key e)⟩ :=
  deriveReport_of_master h _

/-- No way from a master key to one of so many children comes to an index that has no key. -/
def PassableTo (seed : String) (parent : KeyPath) (hardened : Bool) (count : Nat) : Prop :=
  ∀ master, masterOfHex seed = .ok master →
    ∀ i < count, master.Passable (parent.child (.ofParts i hardened))

theorem nextReport_of_ofText (network : Network) (seed : String) (count : UInt32)
    (hardened : Bool) (h : KeyPath.ofText text = .ok parent) :
    nextReport network seed text count hardened =
      match masterOfHex seed with
      | .ok master =>
        childrenReport network parent hardened "" count.toNat (ofRoot master)
      | .error e => ⟨"", some e⟩ := by
  rw [nextReport, masterAndPath_of_ofText seed h]
  cases masterOfHex seed <;> rfl

/-- **All children are there or none is:** a master key refuses nothing but what is too deep, and
they are all equally deep. -/
theorem exists_derivePath_child_iff {count i : Nat} (hmaster : masterOfHex seed = .ok master)
    (hpassable : PassableTo seed parent hardened count) (hi : i < count) :
    (∃ key, master.derivePath (parent.child (.ofParts i hardened)) = .ok key) ↔
      parent.depth + 1 ≤ 255 := by
  obtain ⟨-, hdepth, hprivate⟩ := fields_of_masterOfHex hmaster
  have hzero : (0 : UInt8).toNat = 0 := rfl
  rw [exists_derivePath_iff (hpassable master hmaster i hi), hdepth, KeyPath.depth_child, hzero,
    Nat.zero_add]
  exact and_iff_right (.inl hprivate)

/-- Either all the children are shown, each as it is shown by its path, or none of them, for the
reason for which the first one is not shown by its path. -/
theorem nextReport_cases {count : UInt32} (network : Network)
    (hparent : KeyPath.ofText text = .ok parent) (hcount : count.toNat ≤ 2 ^ 31)
    (hpassable : PassableTo seed parent hardened count.toNat) :
    (nextReport network seed text count hardened =
        ⟨String.join ((List.range count.toNat).map fun i =>
          (childReport network seed parent hardened i).printed ++ "\n"), none⟩ ∧
        ∀ i < count.toNat, (childReport network seed parent hardened i).error = none) ∨
      ∃ e, nextReport network seed text count hardened = ⟨"", some e⟩ ∧
        childReport network seed parent hardened 0 = ⟨"", some e⟩ := by
  rw [nextReport_of_ofText network seed count hardened hparent]
  cases hmaster : masterOfHex seed with
  | error e => exact .inr ⟨e, rfl, deriveReport_of_error hmaster _⟩
  | ok master =>
    have hroot := (fields_of_masterOfHex hmaster).1
    dsimp only
    by_cases hdeep : parent.depth + 1 ≤ 255
    · have hkeys : ∀ i < count.toNat, ∃ key,
          master.derivePath (parent.child (.ofParts i hardened)) = .ok key ∧
            childReport network seed parent hardened i = ⟨keyText key network, none⟩ := by
        intro i hi
        obtain ⟨key, hkey⟩ := (exists_derivePath_child_iff hmaster hpassable hi).2 hdeep
        exact ⟨key, hkey, by rw [childReport_of_master hmaster, hkey]⟩
      refine .inl ⟨?_, fun i hi => ?_⟩
      · rw [childrenReport_of_ok "" (transparent_ofRoot master) hroot
          (nextIndex_ofRoot master parent hardened) (by rw [Nat.zero_add]; exact hcount),
          String.empty_append, List.range_eq_range']
        intro i _ hi
        obtain ⟨key, hkey, hreport⟩ := hkeys i (by rwa [Nat.zero_add] at hi)
        exact ⟨key, hkey, by rw [hreport]⟩
      · obtain ⟨key, -, hreport⟩ := hkeys i hi
        rw [hreport]
    · -- The parent is as deep as a key can be; if no child is asked for, this is never noticed.
      rcases Nat.eq_zero_or_pos count.toNat with hnone | hsome
      · rw [hnone]
        exact .inl ⟨rfl, nofun⟩
      · have hrefused := mt (exists_derivePath_child_iff hmaster hpassable hsome).1 hdeep
        obtain ⟨others, hothers⟩ := Nat.exists_eq_succ_of_ne_zero hsome.ne'
        rw [childReport_of_master hmaster, hothers]
        cases hkey : master.derivePath (parent.child (.ofParts 0 hardened)) with
        | ok key => exact absurd ⟨key, hkey⟩ hrefused
        | error e =>
          have hpassed : e ≠ .invalidDerivation := by
            rintro rfl
            exact passable_iff.1 (hpassable master hmaster 0 hsome) hkey
          exact .inr ⟨.key e, childrenReport_of_error hroot hkey hpassed, rfl⟩

/-- **The two ways to a key agree.**  Of a parent, take up to 2³¹ children such that no way to them
comes to an index that has no key.

* The i-th of them is shown as the key whose path is that of the parent and then the index i, and
  if all of them are shown, each can be shown by its path as well.
* If they are not shown, nothing is.
* If at least one is asked for, it ends with an error just if the first of them cannot be shown by
  its path, and it is the same error. -/
theorem nextReport_eq_deriveReport {count : UInt32} (network : Network)
    (hparent : KeyPath.ofText text = .ok parent) (hcount : count.toNat ≤ 2 ^ 31)
    (hpassable : PassableTo seed parent hardened count.toNat) :
    let derived := childReport network seed parent hardened
    let report := nextReport network seed text count hardened
    (report.error = none →
      report.printed =
          String.join ((List.range count.toNat).map fun i => (derived i).printed ++ "\n") ∧
        ∀ i < count.toNat, (derived i).error = none) ∧
      (∀ e, report.error = some e → report.printed = "") ∧
      (0 < count.toNat → ∀ e, report.error = some e ↔ (derived 0).error = some e) := by
  intro derived report
  rcases nextReport_cases network hparent hcount hpassable with ⟨hall, hshown⟩ | ⟨e, hnone, hfirst⟩
  · have hreport : report = _ := hall
    refine ⟨fun _ => ⟨by rw [hreport], hshown⟩, fun e he => ?_, fun hsome e => ?_⟩
    · rw [hreport] at he
      cases he
    · have hfirst : (derived 0).error = none := hshown 0 hsome
      rw [hreport, hfirst]
  · have hreport : report = ⟨"", some e⟩ := hnone
    have hderived : derived 0 = ⟨"", some e⟩ := hfirst
    refine ⟨fun he => ?_, fun _ _ => by rw [hreport], fun _ _ => by rw [hreport, hderived]⟩
    rw [hreport] at he
    cases he

/-- Neither of the first two hardened steps below the master key of nine zero bytes fails. -/
theorem isNone_error_childReport : ∀ i < 2,
    (childReport .mainnet "000000000000000000" .master true i).error.isNone = true := by
  decide +kernel

/-- Two hardened children of the master key of nine zero bytes, shown in both ways. -/
theorem nextReport_eq_deriveReport_hardened :
    (nextReport .mainnet "000000000000000000" "m" 2 true).error = none ∧
      (nextReport .mainnet "000000000000000000" "m" 2 true).printed =
        (childReport .mainnet "000000000000000000" .master true 0).printed ++ "\n" ++
          ((childReport .mainnet "000000000000000000" .master true 1).printed ++ "\n") := by
  have hparent : KeyPath.ofText "m" = .ok .master := rfl
  have hpassable : PassableTo "000000000000000000" .master true (2 : UInt32).toNat := by
    intro master hmaster i hi
    refine passable_iff.2 fun hinvalid => ?_
    have hshown := isNone_error_childReport i hi
    rw [childReport_of_master hmaster, hinvalid] at hshown
    cases hshown
  have hjoin (text : Nat → String) :
      String.join ((List.range (2 : UInt32).toNat).map text) = text 0 ++ text 1 := by
    show String.join [text 0, text 1] = _
    simp only [String.join_cons, String.join_nil, String.append_empty]
  obtain ⟨hall, -, hfails⟩ :=
    nextReport_eq_deriveReport .mainnet hparent (by decide) hpassable
  have hnone : (nextReport .mainnet "000000000000000000" "m" 2 true).error = none := by
    refine Option.eq_none_iff_forall_ne_some.2 fun e he => ?_
    have hfirst := isNone_error_childReport 0 (by decide)
    rw [(hfails (by decide) e).1 he] at hfirst
    cases hfirst
  exact ⟨hnone, (hall hnone).1.trans (hjoin _)⟩

end Bitcoin.CommandLine
