import Bitcoin.Proofs.Curve.Group
import Bitcoin.Proofs.Key.Derive

/-!
# Watching keys

A key without its private half watches: it has the same children as the key that it was made from,
as far as they are not hardened, without their private halves.

One step of a path goes two different ways.  With the private half a scalar is added to a scalar,
modulo the order of the group, and the point is computed from the sum; without it the point of the
scalar is added to a point.  The group law of the curve says that both end at the same point, and
that **one sum is at infinity where the other is zero** (`Secret.addScalar?_toPoint`), so that both
ways find the same indices without a key.

* `ExtendedKey.derive_neuter` is one step, `ExtendedKey.derivePath_neuter` a whole path.

Nothing is assumed of the group: that scalars add up as points do is proved for this curve in
`Bitcoin.Proofs.Curve.Group`, from the group of a Weierstrass curve in Mathlib and from the order of
the generator.  The equation in `Secret.addScalar?_toPoint` is one of `Option`, and its other half
is as important: a sum that is zero for one side is at infinity for the other, so neither side skips
an index that the other one uses.

The private half belongs to the public one by assumption (`ExtendedKey.Paired`), as it does in all
keys that can be obtained.  Without it the two ways have nothing to do with each other.

A watching key refuses hardened steps, which is why they are left out; on all others the two keys
refuse the same, since only the depth is left to ask for (`ExtendedKey.refusal?_neuter`), and the
hash is the same because both hash the public half (`ExtendedKey.derivationData_neuter`).
-/

set_option autoImplicit false

namespace Bitcoin

open Curve

/-- **Adding points is adding scalars**, with the same sums left out. -/
theorem Secret.addScalar?_toPoint (secret : Secret) {scalar : Nat} (h : scalar < order) :
    secret.toPoint.addScalar? scalar = (secret.add? scalar).map Secret.toPoint := by
  have hwide {n : Nat} (hn : n < order) : n < 2 ^ 256 := hn.trans (by decide)
  have hsum : (secret.value + scalar) % order < order := Nat.mod_lt _ (by decide)
  rw [Point.addScalar?, Secret.toPoint,
    ← Point.ofScalar_add (hwide h) (hwide secret.value_lt), Nat.add_comm scalar, Secret.add?]
  by_cases hzero : (secret.value + scalar) % order = 0
  · have hinfinity : Point.ofScalar ((secret.value + scalar) % order) = .infinity := by
      rw [Point.ofScalar_eq_infinity_iff (hwide hsum), Nat.mod_mod, hzero]
    rw [hinfinity, Secret.ofNat?, dif_neg (by omega)]
    rfl
  · have hfinite : Point.ofScalar ((secret.value + scalar) % order) ≠ .infinity := by
      rw [ne_eq, Point.ofScalar_eq_infinity_iff (hwide hsum), Nat.mod_mod]
      exact hzero
    rw [Secret.ofNat?, dif_pos ⟨Nat.pos_of_ne_zero hzero, hsum⟩]
    show _ = some (Point.ofScalar ((secret.value + scalar) % order))
    split
    · next heq => exact absurd heq hfinite
    · rfl

namespace ExtendedKey

variable {key : ExtendedKey} {step : ChildNumber} {path : KeyPath} {e : KeyError}

theorem refusal?_neuter (key : ExtendedKey) (hprivate : key.isWatching = false) :
    key.neuter.refusal? false = key.refusal? false := by
  rw [refusal?, refusal?, hprivate]
  rfl

theorem derivationData_neuter (key : ExtendedKey) (hstep : step.isHardened = false) :
    key.neuter.derivationData step = key.derivationData step := by
  rw [derivationData, derivationData]
  cases key.secret with
  | none => rfl
  | some secret =>
    rw [hstep]
    rfl

theorem childOfHash_neuter (hpaired : key.Paired) (hprivate : key.isWatching = false)
    (hash : FixedBytes 64) :
    key.neuter.childOfHash step hash = (key.childOfHash step hash).map neuter := by
  obtain ⟨secret, hsecret⟩ : ∃ secret, key.secret = some secret := by
    rw [isWatching, Option.isNone_eq_false_iff, Option.isSome_iff_exists] at hprivate
    exact hprivate
  have hpoint : key.neuter.point = secret.toPoint := hpaired secret hsecret
  have hneuter : key.neuter.secret = none := rfl
  rw [childOfHash, childOfHash]
  split
  · rfl
  · next hscalar =>
    rw [hneuter, hsecret, hpoint]
    dsimp only
    rw [Secret.addScalar?_toPoint secret (Nat.not_le.1 hscalar)]
    cases secret.add? (leftScalar hash) <;> rfl

/-- One step: the child of a watching key is the child of the key, watching. -/
theorem derive_neuter (hpaired : key.Paired) (hprivate : key.isWatching = false)
    (hstep : step.isHardened = false) :
    key.neuter.derive step = (key.derive step).map neuter := by
  have hrefusals := refusal?_neuter key hprivate
  rw [← hstep] at hrefusals
  cases hrefusal : key.refusal? step.isHardened with
  | some e =>
    rw [derive_of_refusal hrefusal, derive_of_refusal (hrefusals.trans hrefusal)]
    rfl
  | none =>
    rw [derive_of_no_refusal hrefusal, derive_of_no_refusal (hrefusals.trans hrefusal),
      derivationData_neuter key hstep]
    exact childOfHash_neuter hpaired hprivate _

/-- The first child of the least master key is there for those who watch. -/
theorem exists_firstChild_neuter : ∃ key, leastMaster.neuter.derive ⟨0⟩ = .ok key := by
  obtain ⟨first, hfirst⟩ := exists_firstChild
  have hpaired : leastMaster.Paired := paired_ofSecret
  refine ⟨first.neuter, ?_⟩
  rw [derive_neuter hpaired rfl (by decide), hfirst]
  rfl

theorem paired_of_derivePath (hpaired : key.Paired) {last : ExtendedKey}
    (h : key.derivePath path = .ok last) : last.Paired := by
  cases path using KeyPath.induction_child with
  | master =>
    cases h
    exact hpaired
  | child path step _ =>
    obtain ⟨above, -, hlast⟩ := derivePath_child_eq_ok_iff.1 h
    exact (child_of_derive hlast).paired

theorem isWatching_of_derivePath {last : ExtendedKey} (h : key.derivePath path = .ok last) :
    last.isWatching = key.isWatching := by
  induction path using KeyPath.induction_child generalizing last with
  | master =>
    cases h
    rfl
  | child path step ih =>
    obtain ⟨above, habove, hlast⟩ := derivePath_child_eq_ok_iff.1 h
    rw [(child_of_derive hlast).isWatching_eq, ih habove]

/-- A private key refuses only what is too deep. -/
theorem eq_maxDepthReached_of_refusal? {hardened : Bool} (hprivate : key.isWatching = false)
    (h : key.refusal? hardened = some e) : e = .maxDepthReached := by
  obtain ⟨-, -, hwatching⟩ | ⟨rfl, -⟩ := eq_of_refusal h
  · rw [hprivate] at hwatching
    cases hwatching
  · rfl

/-- **A watching key has the children of the key it was made from**, along every path that has no
hardened step: the key at the end of the path is the same but for its private half, and if there is
none, it is for the same reason.  Either the path is too long or an index on it has no key. -/
theorem derivePath_neuter (hpaired : key.Paired) (hprivate : key.isWatching = false)
    (hpath : ∀ step ∈ path.steps, step.isHardened = false) :
    key.neuter.derivePath path = (key.derivePath path).map neuter ∧
      ∀ e, key.derivePath path = .error e → e = .maxDepthReached ∨ e = .invalidDerivation := by
  induction path using KeyPath.induction_child with
  | master => exact ⟨rfl, fun _ h => by cases h⟩
  | child path step ih =>
    obtain ⟨hsteps, hstep⟩ := List.forall_mem_append.1 hpath
    have hstep : step.isHardened = false := hstep step List.mem_cons_self
    obtain ⟨ihneuter, iherror⟩ := ih hsteps
    rw [derivePath_child, derivePath_child, ihneuter]
    cases habove : key.derivePath path with
    | error e =>
      refine ⟨rfl, fun e' h => ?_⟩
      cases h
      exact iherror e habove
    | ok above =>
      have hwatching : above.isWatching = false := by
        rw [isWatching_of_derivePath habove, hprivate]
      refine ⟨derive_neuter (paired_of_derivePath hpaired habove) hwatching hstep, fun e h => ?_⟩
      obtain hrefusal | ⟨-, rfl⟩ := refusal_of_derive (show above.derive step = .error e from h)
      · exact .inl (eq_maxDepthReached_of_refusal? hwatching hrefusal)
      · exact .inr rfl

/-- Two steps below a master key, and one step too many below a key at the greatest depth. -/
theorem derivePath_neuter_two_steps :
    let secret : Secret := ⟨1, by decide, by decide⟩
    let master := ofSecret .master 0 (.zero 32) secret (.zero 4)
    let deepest := ofSecret ⟨[⟨7⟩]⟩ 255 (.zero 32) secret (.zero 4)
    master.neuter.derivePath ⟨[⟨0⟩, ⟨5⟩]⟩ = (master.derivePath ⟨[⟨0⟩, ⟨5⟩]⟩).map neuter ∧
      deepest.neuter.derivePath ⟨[⟨0⟩]⟩ = .error .maxDepthReached :=
  ⟨(derivePath_neuter paired_ofSecret rfl (by decide)).1,
    (derivePath_neuter paired_ofSecret rfl (by decide)).1⟩

end ExtendedKey

end Bitcoin
