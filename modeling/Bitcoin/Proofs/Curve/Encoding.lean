import Bitcoin.Curve.Encoding
import Bitcoin.Proofs.Curve.Group

/-!
# Points as bytes: one spelling for each

* `FieldElement.squareRoot_mul_self`: the power that is taken for a square root is one, of every
  number that has one.
* `curveRight_ne_zero`: no point of the curve has zero as its second coordinate, because `-7` is not
  a cube.  So the two points over a first coordinate differ in the parity of the second.
* `Point.Proper` are the points of the curve other than infinity.  They are the points that have a
  spelling, and each has one: **reading undoes writing and writing undoes reading**
  (`Point.decompress?_eq_some_iff`).

Of the two points over a first coordinate, one has an odd second coordinate and one an even one.
Taking the root by a power gives either of the two, and the reader corrects it by the mark; so which
root the power gives plays no part (`Point.lift?_eq_some_iff`).  This rests on
`FieldElement.val_neg_mod_two`, and for zero it would fail: a point with a second coordinate of zero
is its own opposite, and would be read from both marks.  `curveRight_ne_zero` is the reason that
there is none.

The first coordinate is a number of 32 bytes, and not all of these are below the prime.  Those that
are not are refused, or else a point would have a second spelling.
-/

set_option autoImplicit false

namespace Bitcoin.Curve

open FieldElement
open scoped Fin.CommRing FieldElement

/-! ## Square roots -/

theorem FieldElement.squareRoot_mul_self {x y : FieldElement} (h : y * y = x) :
    squareRoot x * squareRoot x = x := by
  rw [squareRoot, power_eq_pow x (by decide)]
  by_cases hy : y = 0
  · rw [← h, hy, mul_zero, zero_pow (by decide), mul_zero]
  · have hexponent : 2 * ((fieldPrime + 1) / 4 + (fieldPrime + 1) / 4) = (fieldPrime - 1) + 2 := by
      decide
    calc x ^ ((fieldPrime + 1) / 4) * x ^ ((fieldPrime + 1) / 4)
      _ = y ^ (2 * ((fieldPrime + 1) / 4 + (fieldPrime + 1) / 4)) := by
        rw [← pow_add, ← h, ← pow_two, ← pow_mul]
      _ = y ^ (fieldPrime - 1) * y ^ 2 := by rw [hexponent, pow_add]
      _ = x := by rw [pow_fieldPrime_sub_one hy, one_mul, pow_two, h]

/-- The prime is odd, so a number and its negative differ in parity. -/
theorem FieldElement.val_neg_mod_two {y : FieldElement} (hy : y ≠ 0) :
    (-y).val % 2 = 1 ↔ ¬y.val % 2 = 1 := by
  have hodd : fieldPrime % 2 = 1 := by decide
  have hlt : y.val < fieldPrime := y.isLt
  rw [Fin.val_neg, if_neg hy]
  omega

/-- **No point of the curve has zero as its second coordinate.**  If the cube of `x` were `-7`, the
third of the exponent in the little theorem of Fermat would take `-7` to one, and it does not. -/
theorem curveRight_ne_zero (x : FieldElement) : curveRight x ≠ 0 := by
  intro h
  have hcube : x ^ 3 = -7 := by
    have h7 : FieldElement.ofNat 7 = 7 := rfl
    rw [curveRight, h7] at h
    linear_combination h
  have hx : x ≠ 0 := by
    rintro rfl
    exact absurd hcube (by decide +kernel)
  have hthird : power (-7) ((fieldPrime - 1) / 3) ≠ 1 := by decide +kernel
  apply hthird
  calc power (-7) ((fieldPrime - 1) / 3)
    _ = (x ^ 3) ^ ((fieldPrime - 1) / 3) := by rw [power_eq_pow (-7) (by decide), hcube]
    _ = x ^ (fieldPrime - 1) := by
      rw [← pow_mul, show 3 * ((fieldPrime - 1) / 3) = fieldPrime - 1 by decide]
    _ = 1 := pow_fieldPrime_sub_one hx

namespace Point

variable {x y : FieldElement} {p : Point} {odd : Bool} {bytes : FixedBytes 33}

/-- A point that can be the public half of a key. -/
structure Proper (p : Point) : Prop where
  onCurve : p.OnCurve
  ne_infinity : p ≠ infinity

theorem OnCurve.y_ne_zero (h : (affine x y).OnCurve) : y ≠ 0 := by
  rintro rfl
  have hzero : (0 : FieldElement) * 0 = curveRight x := h
  exact curveRight_ne_zero x (hzero.symm.trans (mul_zero 0))

/-- The point over a first coordinate is the point of the curve there with the parity that was
asked for. -/
theorem lift?_eq_some_iff :
    lift? x odd = some p ↔
      ∃ y, p = affine x y ∧ (affine x y).OnCurve ∧ decide (y.val % 2 = 1) = odd := by
  simp only [lift?]
  constructor
  · intro h
    split at h
    · next hroot =>
      cases h
      split
      · next hparity => exact ⟨_, rfl, hroot, hparity⟩
      · next hparity =>
        have hne : squareRoot (curveRight x) ≠ 0 := OnCurve.y_ne_zero (x := x) hroot
        refine ⟨_, rfl, ?_, ?_⟩
        · rw [OnCurve, neg_mul_neg, hroot]
        · rw [decide_eq_decide.2 (val_neg_mod_two hne), decide_not, Bool.not_eq.2 hparity]
    · cases h
  · rintro ⟨y, rfl, hcurve, rfl⟩
    have hroot := squareRoot_mul_self (show y * y = curveRight x from hcurve)
    have hsquares : y * y = squareRoot (curveRight x) * squareRoot (curveRight x) := by
      rw [hroot]
      exact hcurve
    rw [if_pos hroot]
    -- The root that is computed is the second coordinate or its negative.
    rcases mul_self_eq_mul_self_iff.1 hsquares with hy | hy
    · rw [← hy, if_pos rfl]
    · have hneg : squareRoot (curveRight x) = -y := by rw [hy, neg_neg]
      have hparity : ¬decide ((-y).val % 2 = 1) = decide (y.val % 2 = 1) := by
        rw [decide_eq_decide, val_neg_mod_two hcurve.y_ne_zero]
        exact not_iff_self
      rw [hneg, if_neg hparity, neg_neg]

/-- The bytes of an affine point: the mark of the parity, and the first coordinate. -/
theorem compress_affine_toBytes (x y : FieldElement) :
    (compress (affine x y)).toBytes =
      (if y.val % 2 = 1 then 3 else 2) :: Bytes.bigEndian 32 x.val := by
  rcases Nat.mod_two_eq_zero_or_one y.val with h | h <;> simp [compress, h]

/-- A point that is found over 32 bytes is written with these bytes. -/
theorem compress_of_lift? {rest : Bytes} (hrest : rest.length = 32)
    (hlt : Bytes.toNatBE rest < fieldPrime) (h : lift? ⟨Bytes.toNatBE rest, hlt⟩ odd = some p) :
    p.Proper ∧ p.compress.toBytes = (if odd then 3 else 2) :: rest := by
  obtain ⟨y, rfl, hcurve, rfl⟩ := lift?_eq_some_iff.1 h
  refine ⟨⟨hcurve, nofun⟩, ?_⟩
  rw [compress_affine_toBytes, ← hrest, Bytes.bigEndian_toNatBE]
  simp only [decide_eq_true_eq]

theorem compress_of_decompress? (h : decompress? bytes = some p) :
    p.Proper ∧ p.compress = bytes := by
  rw [decompress?] at h
  split at h
  · cases h
  · next tag rest hbytes =>
    have hrest : rest.length = 32 := by
      have hall := bytes.length_eq
      rwa [hbytes, List.length_cons, Nat.add_right_cancel_iff] at hall
    rw [FixedBytes.ext_iff, hbytes]
    split at h
    · next hlt =>
      split at h
      · next htag =>
        rw [htag]
        exact compress_of_lift? hrest hlt h
      · split at h
        · next htag =>
          rw [htag]
          exact compress_of_lift? hrest hlt h
        · cases h
    · cases h

theorem decompress?_compress (h : p.Proper) : decompress? p.compress = some p := by
  obtain ⟨hcurve, hfinite⟩ := h
  rcases p with _ | ⟨x, y⟩
  · exact absurd rfl hfinite
  · have hx : Bytes.toNatBE (Bytes.bigEndian 32 x.val) = x.val := by
      rw [Bytes.toNatBE_bigEndian]
      exact Nat.mod_eq_of_lt (x.isLt.trans (by decide))
    have hlift : lift? x (decide (y.val % 2 = 1)) = some (affine x y) :=
      lift?_eq_some_iff.2 ⟨y, rfl, hcurve, rfl⟩
    rw [decompress?, compress_affine_toBytes]
    simp only [hx, x.isLt, dite_true]
    rcases Nat.mod_two_eq_zero_or_one y.val with hy | hy <;> simpa [hy] using hlift

/-- **A point has one spelling.**  What 33 bytes spell is a proper point, which is written as these
bytes and no others. -/
theorem decompress?_eq_some_iff :
    decompress? bytes = some p ↔ p.Proper ∧ p.compress = bytes := by
  refine ⟨compress_of_decompress?, ?_⟩
  rintro ⟨hproper, rfl⟩
  exact decompress?_compress hproper

end Point

end Bitcoin.Curve
