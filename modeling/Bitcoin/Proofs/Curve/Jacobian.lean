import Bitcoin.Proofs.Curve.Field
import Mathlib.Tactic.FieldSimp
import Mathlib.Tactic.LinearCombination

/-!
# Sums over a common denominator

A long run of additions is computed over a common denominator, and ends where the same additions in
plain coordinates would:

* `Jacobian.toPoint_double`: doubling is adding a point to itself, by the tangent.
* `Jacobian.toPoint_addAffine`: adding a point in plain coordinates is adding it.  Here the points
  must lie on the curve, where **two points above the same `x` are equal or opposite**.

A point over a common denominator is three numbers, and many triples are the same point.  No
relation between triples is needed: every lemma compares the points that the triples stand for,
`Jacobian.toPoint`, and is proved by clearing denominators in the field.

The formulas for a sum divide cases in the same way as plain coordinates do, but they see it in
other numbers: whether two points have the same first coordinate is asked of products of numerators
and denominators.  Where the first coordinates agree and the second ones do not, the sum is taken to
be at infinity.  That is right if the points are opposite, which they are on the curve; of two
points that lie anywhere it would be wrong, and so this lemma is about points of the curve, while
the one about doubling is not.
-/

set_option autoImplicit false

namespace Bitcoin.Curve

open FieldElement
open scoped Fin.CommRing FieldElement

namespace Point

theorem add_infinity (p : Point) : p + infinity = p := by cases p <;> rfl

theorem infinity_add (p : Point) : infinity + p = p := by cases p <;> rfl

variable {x₁ y₁ x₂ y₂ : FieldElement}

theorem add_of_opposite (hx : x₁ = x₂) (hy : y₁ + y₂ = 0) :
    affine x₁ y₁ + affine x₂ y₂ = infinity := by
  show add _ _ = _
  rw [add, if_pos hx, if_pos hy]

theorem add_of_tangent (hx : x₁ = x₂) (hy : y₁ + y₂ ≠ 0) : affine x₁ y₁ + affine x₂ y₂ =
    third ((x₁ * x₁ + x₁ * x₁ + x₁ * x₁) * (y₁ + y₁)⁻¹) x₁ x₁ y₁ := by
  show add _ _ = _
  rw [add, if_pos hx, if_neg hy, inverse_eq_inv]

theorem add_of_chord (hx : x₁ ≠ x₂) : affine x₁ y₁ + affine x₂ y₂ =
    third ((y₂ - y₁) * (x₂ - x₁)⁻¹) x₂ x₁ y₁ := by
  show add _ _ = _
  rw [add, if_neg hx, inverse_eq_inv]

end Point

namespace Jacobian

theorem toPoint_of_z_eq_zero {p : Jacobian} (h : p.z = 0) : p.toPoint = .infinity := if_pos h

theorem toPoint_of_z_ne_zero {p : Jacobian} (h : p.z ≠ 0) :
    p.toPoint = .affine (p.x * (p.z⁻¹ * p.z⁻¹)) (p.y * (p.z⁻¹ * p.z⁻¹) * p.z⁻¹) := if_neg h

theorem add_self_eq_zero {a : FieldElement} : a + a = 0 ↔ a = 0 := by
  rw [← two_mul, mul_eq_zero, or_iff_right FieldElement.two_ne_zero]

theorem toPoint_double (p : Jacobian) : p.double.toPoint = p.toPoint + p.toPoint := by
  by_cases hz : p.z = 0
  · rw [toPoint_of_z_eq_zero hz, toPoint_of_z_eq_zero (by simp [double, hz])]
    rfl
  rw [toPoint_of_z_ne_zero hz]
  by_cases hy : p.y = 0
  · rw [Point.add_of_opposite rfl (by simp [hy]), toPoint_of_z_eq_zero (by simp [double, hy])]
  · have hdouble : p.double.z ≠ 0 := by
      simp only [double, ne_eq, add_self_eq_zero, mul_eq_zero, hy, hz, or_self, not_false_eq_true]
    have hsum : p.y * (p.z⁻¹ * p.z⁻¹) * p.z⁻¹ + p.y * (p.z⁻¹ * p.z⁻¹) * p.z⁻¹ ≠ 0 := by
      simp only [ne_eq, add_self_eq_zero, mul_eq_zero, inv_eq_zero, hy, hz, or_self,
        not_false_eq_true]
    have h2 := FieldElement.two_ne_zero
    rw [Point.add_of_tangent rfl hsum, toPoint_of_z_ne_zero hdouble, Point.third]
    simp only [double, ← two_mul, Point.affine.injEq]
    constructor
    · field_simp
    · field_simp

theorem toPoint_addAffine {p : Jacobian} {x y : FieldElement} (hp : p.toPoint.OnCurve)
    (hxy : (Point.affine x y).OnCurve) : (p.addAffine x y).toPoint = p.toPoint + .affine x y := by
  by_cases hz : p.z = 0
  · rw [toPoint_of_z_eq_zero hz, addAffine, if_pos hz,
      toPoint_of_z_ne_zero (p := ⟨x, y, 1⟩) one_ne_zero, Point.infinity_add]
    simp
  obtain ⟨a, b, hpoint, hx, hy⟩ : ∃ a b, p.toPoint = .affine a b ∧ p.x = a * (p.z * p.z) ∧
      p.y = b * (p.z * p.z * p.z) :=
    ⟨_, _, toPoint_of_z_ne_zero hz, by field_simp, by field_simp⟩
  rw [hpoint] at hp ⊢
  -- The differences that are computed are those of the coordinates, times powers of `z`.
  have hxx : x * (p.z * p.z) - p.x = (x - a) * (p.z * p.z) := by rw [hx]; ring
  have hyy : y * (p.z * p.z) * p.z - p.y = (y - b) * (p.z * p.z * p.z) := by rw [hy]; ring
  rw [addAffine, if_neg hz]
  simp only [hxx, hyy, mul_eq_zero, hz, or_false, or_self, sub_eq_zero]
  by_cases hxa : x = a
  · subst hxa
    rw [if_pos rfl]
    by_cases hyb : y = b
    · rw [if_pos hyb, toPoint_double, hpoint, hyb]
    · rw [if_neg hyb, Point.add_of_opposite rfl]
      · exact toPoint_of_z_eq_zero rfl
      · -- Both points lie on the curve, so the squares of their second coordinates agree.
        have hsquares : (y - b) * (b + y) = 0 := by
          have hb : b * b = curveRight x := hp
          have hy : y * y = curveRight x := hxy
          linear_combination hy - hb
        exact (mul_eq_zero.1 hsquares).resolve_left (sub_ne_zero.2 hyb)
  · have hdiff : x - a ≠ 0 := sub_ne_zero.2 hxa
    rw [if_neg hxa, Point.add_of_chord (Ne.symm hxa), Point.third, toPoint_of_z_ne_zero]
    · simp only [hx, hy, Point.affine.injEq]
      constructor
      · field_simp
        ring
      · field_simp
        ring
    · exact mul_ne_zero hz (mul_ne_zero hdiff (mul_ne_zero hz hz))

end Jacobian

end Bitcoin.Curve
