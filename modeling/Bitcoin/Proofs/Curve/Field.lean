import Bitcoin.Proofs.Curve.Prime
import Mathlib.FieldTheory.Finite.Basic

/-!
# The field of the curve is a field

Coordinates are numbers modulo a prime, with their own inverse, which is a power.

* `FieldElement.power_eq_pow`: the loop over the bits of an exponent is the power.
* `FieldElement.mul_inverse`: **the inverse is one**, by the little theorem of Fermat.
* `FieldElement.field` makes the coordinates a field, whose inverse is the one that is computed, so
  that what is known of curves over fields can be said of this one.

`FieldElement` is `Fin fieldPrime`, which is a commutative ring without any of this.  For a field
one more thing is needed, that the computed inverse is an inverse, and with it the fact that the
modulus is prime.  The instance takes the inverse that is computed and no other, so that what
Mathlib knows of fields is said of the functions that run.

The numbers are much too large to be computed with by unfolding.  Where a definition of Mathlib asks
for an equation that holds by definition, it is given as a lemma, so that the elaborator does not
compare the two sides on its own.
-/

set_option autoImplicit false

namespace Bitcoin.Curve.FieldElement

open scoped Fin.CommRing

theorem power_eq_pow (x : FieldElement) {exponent : Nat} (h : exponent < 2 ^ 256) :
    power x exponent = x ^ exponent := by
  have hloop := stands_of_bits exponent (powerFrom x exponent)
    (fun bit acc => if bit then acc * acc * x else acc * acc) (fun k acc => acc = x ^ k)
    (fun _ => rfl) (fun _ _ => rfl) ?_ 256 (pow_zero x).symm
  · rwa [Nat.mul_zero, Nat.zero_add, Nat.mod_eq_of_lt h] at hloop
  · rintro k acc (_ | _) rfl <;>
      simp only [if_true, if_false, Bool.false_eq_true, Bool.toNat_true, Bool.toNat_false] <;>
      ring

/-- The little theorem of Fermat. -/
theorem pow_fieldPrime_sub_one {x : FieldElement} (h : x ≠ 0) : x ^ (fieldPrime - 1) = 1 := by
  let e := ZMod.finEquiv fieldPrime
  apply e.injective
  rw [map_pow, map_one]
  exact ZMod.pow_card_sub_one_eq_one ((map_ne_zero_iff e e.injective).2 h)

theorem inverse_eq_pow (x : FieldElement) : inverse x = x ^ (fieldPrime - 2) :=
  power_eq_pow x (by decide)

theorem mul_inverse {x : FieldElement} (h : x ≠ 0) : x * inverse x = 1 := by
  rw [inverse_eq_pow, ← pow_succ']
  exact pow_fieldPrime_sub_one h

theorem inverse_zero : inverse 0 = 0 := by
  rw [inverse_eq_pow, zero_pow (by decide)]

scoped instance inv : Inv FieldElement := ⟨inverse⟩

/-- Powers by negative numbers, as they are defined when nothing better is known.  Left to itself,
the comparison of both sides would unfold the prime. -/
theorem zpowRec_negSucc (n : Nat) (x : FieldElement) :
    zpowRec npowRec (Int.negSucc n) x = (zpowRec npowRec (n.succ : Nat) x)⁻¹ := by
  have hsucc : zpowRec npowRec (n.succ : Nat) x = npowRec n.succ x := rfl
  rw [hsucc]
  rfl

/-- The coordinates as a field. -/
scoped instance field : Field FieldElement :=
  { Fin.instCommRing fieldPrime with
    inv := Inv.inv
    div := fun x y => x * y⁻¹
    div_eq_mul_inv := fun _ _ => rfl
    zpow := zpowRec npowRec
    zpow_neg' := zpowRec_negSucc
    exists_pair_ne := ⟨0, 1, by decide⟩
    mul_inv_cancel := fun _ => mul_inverse
    inv_zero := inverse_zero
    nnqsmul := _
    nnqsmul_def := fun _ _ => rfl
    qsmul := _
    qsmul_def := fun _ _ => rfl }

theorem inverse_eq_inv (x : FieldElement) : inverse x = x⁻¹ := rfl

theorem two_ne_zero : (2 : FieldElement) ≠ 0 := by decide

end Bitcoin.Curve.FieldElement
