import Bitcoin.Proofs.Curve.Jacobian
import Mathlib.AlgebraicGeometry.EllipticCurve.Affine.Point
import Mathlib.GroupTheory.OrderOfElement

/-!
# The group of the curve

The points of a curve over a field are a group, and the points that are computed with here are the
points of such a curve.

* `Point.ofGroup` reads a point of the group as a point in plain coordinates; `Point.ofGroup_add`
  and `Point.multiply_ofGroup` say that **sums and multiples are those of the group**.
* `addOrderOf_groupGenerator`: the order of the generator is `order`, the prime number of scalars.
* `Point.ofScalar_add` and `Point.ofScalar_eq_infinity_iff` are what keys rest on: the multiples of
  the generator add up like their scalars, modulo that order, and vanish where these do.

The points in plain coordinates are a type with two constructors and an addition by cases, as one
would write it down to compute.  Mathlib's group has proofs in its points, and an addition by way of
the slope.  `Point.ofGroup` forgets the proofs; it is injective, its values are the points on the
curve, and with `Point.ofGroup_add` it carries the laws over.  In particular the sum of points is
associative, which would be a long computation otherwise.

Multiples are computed in a third way, over a common denominator and bit by bit.  The two are
brought together one level at a time: `Bitcoin.Proofs.Curve.Jacobian` is about one step of the loop,
and the loop over the bits of a scalar is `stands_of_bits`, with the multiple of the point as what
an intermediate result stands for.

The order of the generator is not taken on trust.  The number is a prime, so it is enough to see
that the multiple by it vanishes, which the kernel computes, and that the generator itself does not.
-/

set_option autoImplicit false

namespace Bitcoin.Curve

open FieldElement WeierstrassCurve
open scoped Fin.CommRing FieldElement

/-- The curve `y² = x³ + 7`, as an equation of Weierstrass. -/
def curve : WeierstrassCurve.Affine FieldElement := ⟨0, 0, 0, 0, 7⟩

theorem curve_Δ_ne_zero : curve.Δ ≠ 0 := by decide +kernel

theorem nonsingular_iff_onCurve {x y : FieldElement} :
    curve.Nonsingular x y ↔ (Point.affine x y).OnCurve := by
  have h7 : FieldElement.ofNat 7 = 7 := rfl
  rw [← Affine.equation_iff_nonsingular_of_Δ_ne_zero curve_Δ_ne_zero, Affine.equation_iff]
  simp only [curve, Point.OnCurve, curveRight, h7]
  constructor <;> intro h <;> linear_combination h

namespace Point

/-! ## Sums -/

/-- A point of the group in plain coordinates. -/
def ofGroup : curve.Point → Point
  | .zero => infinity
  | .some x y _ => affine x y

@[simp] theorem ofGroup_zero : ofGroup 0 = infinity := rfl

theorem ofGroup_injective : Function.Injective ofGroup := by
  rintro (_ | ⟨x, y, _⟩) (_ | ⟨x', y', _⟩) h
  · rfl
  · cases h
  · cases h
  · cases h
    rfl

theorem onCurve_ofGroup (P : curve.Point) : (ofGroup P).OnCurve := by
  cases P with
  | zero => trivial
  | some x y h => exact nonsingular_iff_onCurve.1 h

/-- The points of the curve are the points of the group. -/
theorem exists_ofGroup {p : Point} (h : p.OnCurve) : ∃ P, ofGroup P = p := by
  cases p with
  | infinity => exact ⟨0, rfl⟩
  | affine x y => exact ⟨.some x y (nonsingular_iff_onCurve.2 h), rfl⟩

/-- The slope of the tangent is the slope that is computed. -/
theorem slope_of_tangent {x y y' : FieldElement} (hy : y ≠ curve.negY x y') (hyy : y = y') :
    curve.slope x x y y' = (x * x + x * x + x * x) * (y + y)⁻¹ := by
  subst hyy
  rw [Affine.slope_of_Y_ne rfl hy, div_eq_mul_inv]
  simp only [Affine.negY, curve]
  ring_nf

theorem slope_of_chord {x₁ x₂ y₁ y₂ : FieldElement} (hx : x₁ ≠ x₂) :
    curve.slope x₁ x₂ y₁ y₂ = (y₂ - y₁) * (x₂ - x₁)⁻¹ := by
  rw [Affine.slope_of_X_ne hx, div_eq_mul_inv, ← neg_sub y₂, ← neg_sub x₂, inv_neg, neg_mul_neg]

theorem ofGroup_add (P Q : curve.Point) : ofGroup (P + Q) = ofGroup P + ofGroup Q := by
  cases P with
  | zero => exact (infinity_add _).symm
  | some x₁ y₁ hP =>
    cases Q with
    | zero => exact (add_infinity _).symm
    | some x₂ y₂ hQ =>
      have hnegY : curve.negY x₂ y₂ = -y₂ := by simp [Affine.negY, curve]
      show ofGroup (.some x₁ y₁ hP + .some x₂ y₂ hQ) = affine x₁ y₁ + affine x₂ y₂
      by_cases hx : x₁ = x₂
      · subst hx
        by_cases hy : y₁ + y₂ = 0
        · rw [add_of_opposite rfl hy,
            Affine.Point.add_of_Y_eq rfl (by rw [hnegY]; exact eq_neg_of_add_eq_zero_left hy)]
          rfl
        · have hne : y₁ ≠ curve.negY x₁ y₂ := by
            rw [hnegY]
            exact fun h => hy (by rw [h, neg_add_cancel])
          have hyy : y₁ = y₂ := Affine.Y_eq_of_Y_ne hP.1 hQ.1 rfl hne
          rw [add_of_tangent rfl hy, Affine.Point.add_of_Y_ne hne, ofGroup,
            slope_of_tangent hne hyy, third]
          simp only [Affine.addX, Affine.addY, Affine.negAddY, Affine.negY, curve, affine.injEq]
          constructor <;> ring
      · rw [add_of_chord hx, Affine.Point.add_of_X_ne hx, ofGroup, slope_of_chord hx, third]
        simp only [Affine.addX, Affine.addY, Affine.negAddY, Affine.negY, curve, affine.injEq]
        constructor <;> ring

/-- The sum of points of the curve is one. -/
theorem OnCurve.add {p q : Point} (hp : p.OnCurve) (hq : q.OnCurve) : (p + q).OnCurve := by
  obtain ⟨P, rfl⟩ := exists_ofGroup hp
  obtain ⟨Q, rfl⟩ := exists_ofGroup hq
  rw [← ofGroup_add]
  exact onCurve_ofGroup _

/-! ## Multiples -/

theorem multiply_ofGroup {scalar : Nat} (h : scalar < 2 ^ 256) (P : curve.Point) :
    multiply scalar (ofGroup P) = ofGroup (scalar • P) := by
  cases P with
  | zero => exact (congrArg ofGroup (nsmul_zero scalar)).symm
  | some x y hxy =>
    have hP : (affine x y).OnCurve := nonsingular_iff_onCurve.1 hxy
    have hzero : Jacobian.infinity.toPoint = ofGroup (0 • .some x y hxy) := rfl
    have hloop := stands_of_bits scalar (multiplyFrom scalar x y)
      (fun bit acc => if bit then acc.double.addAffine x y else acc.double)
      (fun m acc => acc.toPoint = ofGroup (m • .some x y hxy))
      (fun _ => rfl) (fun _ _ => rfl) ?_ 256 hzero
    · rwa [Nat.mul_zero, Nat.zero_add, Nat.mod_eq_of_lt h] at hloop
    · intro m acc bit hacc
      have hdouble : acc.double.toPoint = ofGroup ((2 * m) • .some x y hxy) := by
        rw [Jacobian.toPoint_double, hacc, ← ofGroup_add, mul_comm, mul_two, add_nsmul]
      cases bit
      · exact hdouble
      · have hcurve : acc.double.toPoint.OnCurve := by
          rw [hdouble]
          exact onCurve_ofGroup _
        show (acc.double.addAffine x y).toPoint = ofGroup ((2 * m + 1) • .some x y hxy)
        rw [Jacobian.toPoint_addAffine hcurve hP, hdouble, succ_nsmul, ofGroup_add]
        rfl

end Point

/-! ## The generator -/

/-- The generator as a point of the group. -/
def groupGenerator : curve.Point :=
  .some _ _ (nonsingular_iff_onCurve.2 Point.generator_onCurve)

theorem Point.ofScalar_eq_ofGroup {scalar : Nat} (h : scalar < 2 ^ 256) :
    ofScalar scalar = ofGroup (scalar • groupGenerator) :=
  multiply_ofGroup h groupGenerator

theorem Point.onCurve_ofScalar {scalar : Nat} (h : scalar < 2 ^ 256) :
    (ofScalar scalar).OnCurve := by
  rw [ofScalar_eq_ofGroup h]
  exact onCurve_ofGroup _

theorem Point.ofScalar_order : ofScalar order = infinity := by decide +kernel

theorem order_nsmul_groupGenerator : order • groupGenerator = 0 := by
  apply Point.ofGroup_injective
  rw [← Point.ofScalar_eq_ofGroup (by decide), Point.ofScalar_order, Point.ofGroup_zero]

/-- **The order of the generator**, a prime. -/
theorem addOrderOf_groupGenerator : addOrderOf groupGenerator = order :=
  haveI : Fact order.Prime := ⟨prime_order⟩
  addOrderOf_eq_prime order_nsmul_groupGenerator (Affine.Point.some_ne_zero _)

namespace Point

theorem ofGroup_mod_order (scalar : Nat) :
    ofGroup ((scalar % order) • groupGenerator) = ofGroup (scalar • groupGenerator) := by
  rw [← addOrderOf_groupGenerator, mod_addOrderOf_nsmul]

/-- **Multiples of the generator add up like their scalars.** -/
theorem ofScalar_add {a b : Nat} (ha : a < 2 ^ 256) (hb : b < 2 ^ 256) :
    ofScalar ((a + b) % order) = ofScalar a + ofScalar b := by
  have hmod : (a + b) % order < 2 ^ 256 := (Nat.mod_lt _ (by decide)).trans (by decide)
  rw [ofScalar_eq_ofGroup hmod, ofGroup_mod_order, add_nsmul, ofGroup_add,
    ← ofScalar_eq_ofGroup ha, ← ofScalar_eq_ofGroup hb]

/-- A multiple of the generator vanishes only if its scalar does, modulo the order. -/
theorem ofScalar_eq_infinity_iff {scalar : Nat} (h : scalar < 2 ^ 256) :
    ofScalar scalar = infinity ↔ scalar % order = 0 := by
  rw [ofScalar_eq_ofGroup h, ← ofGroup_zero, ofGroup_injective.eq_iff,
    ← addOrderOf_dvd_iff_nsmul_eq_zero, addOrderOf_groupGenerator, Nat.dvd_iff_mod_eq_zero]

end Point

end Bitcoin.Curve
