import Bitcoin.Curve.Field

/-!
# Points of the curve

The curve `y² = x³ + 7` over the field, with a point at infinity as the zero of its addition.

* `Point` is a point in plain coordinates, `Point.add` adds two of them by the chord or the tangent.
* `Jacobian` is a point whose coordinates are kept over a common denominator, so that a long run of
  additions needs one inversion, at its end.
* `Point.multiply` takes a multiple by doubling and adding, and `ofScalar` a multiple of the
  generator.
-/

set_option autoImplicit false

namespace Bitcoin.Curve

/-- The number of points, a prime. -/
def order : Nat := 0xfffffffffffffffffffffffffffffffebaaedce6af48a03bbfd25e8cd0364141

/-- A point of the curve in plain coordinates. -/
inductive Point where
  | infinity
  | affine (x y : FieldElement)
deriving DecidableEq

/-- The value of `x³ + 7`, which is `y²` for the points at `x`. -/
def curveRight (x : FieldElement) : FieldElement := x * x * x + FieldElement.ofNat 7

namespace Point

/-- Whether the coordinates satisfy the equation of the curve. -/
def OnCurve : Point → Prop
  | infinity => True
  | affine x y => y * y = curveRight x

instance (p : Point) : Decidable p.OnCurve := by
  cases p <;> unfold OnCurve <;> infer_instance

/-- The point that all others are multiples of. -/
def generator : Point := .affine
  (.ofNat 0x79be667ef9dcbbac55a06295ce870b07029bfcdb2dce28d959f2815b16f81798)
  (.ofNat 0x483ada7726a3c4655da4fbfc0e1108a8fd17b448a68554199c47d08ffb10d4b8)

theorem generator_onCurve : generator.OnCurve := by decide +kernel

/-- The third point on a line of the given slope through a point at `x` and a point `(x', y')`,
reflected. -/
def third (slope x x' y' : FieldElement) : Point :=
  let x₃ := slope * slope - x - x'
  .affine x₃ (slope * (x' - x₃) - y')

/-- The sum of two points: infinity is the zero, opposite points cancel, a point is added to itself
along the tangent and to another one along the chord. -/
def add : Point → Point → Point
  | infinity, q => q
  | p, infinity => p
  | affine x₁ y₁, affine x₂ y₂ =>
    if x₁ = x₂ then
      if y₁ + y₂ = 0 then infinity
      else third ((x₁ * x₁ + x₁ * x₁ + x₁ * x₁) * FieldElement.inverse (y₁ + y₁)) x₁ x₁ y₁
    else third ((y₂ - y₁) * FieldElement.inverse (x₂ - x₁)) x₂ x₁ y₁

instance : Add Point := ⟨add⟩

end Point

/-! ## Common denominators -/

/-- The point `(x / z², y / z³)`, at infinity when `z` is zero. -/
structure Jacobian where
  x : FieldElement
  y : FieldElement
  z : FieldElement

namespace Jacobian

/-- The point at infinity. -/
def infinity : Jacobian := ⟨1, 1, 0⟩

/-- The point in plain coordinates. -/
def toPoint (p : Jacobian) : Point :=
  if p.z = 0 then .infinity
  else
    let inv := FieldElement.inverse p.z
    let inv₂ := inv * inv
    .affine (p.x * inv₂) (p.y * inv₂ * inv)

/-- Twice a point.  A point at infinity stays there, since the new denominator is a multiple of the
old. -/
def double (p : Jacobian) : Jacobian :=
  let yy := p.y * p.y
  let xyy := p.x * yy
  let s := (xyy + xyy) + (xyy + xyy)
  let xx := p.x * p.x
  let m := xx + xx + xx
  let x := m * m - s - s
  let yyyy := yy * yy
  let y4 := (yyyy + yyyy) + (yyyy + yyyy)
  let yz := p.y * p.z
  ⟨x, m * (s - x) - (y4 + y4), yz + yz⟩

/-- The sum of a point and a point in plain coordinates. -/
def addAffine (p : Jacobian) (x y : FieldElement) : Jacobian :=
  if p.z = 0 then ⟨x, y, 1⟩
  else
    let zz := p.z * p.z
    let h := x * zz - p.x
    let r := y * zz * p.z - p.y
    if h = 0 then if r = 0 then double p else infinity
    else
      let hh := h * h
      let hhh := h * hh
      let v := p.x * hh
      let x₃ := r * r - hhh - v - v
      ⟨x₃, r * (v - x₃) - p.y * hhh, p.z * h⟩

end Jacobian

/-! ## Multiples -/

namespace Point

/-- The multiple of the point `(x, y)` by the low `count` bits of a scalar, from the top bit down:
`acc` is the multiple by the bits already read. -/
def multiplyFrom (scalar : Nat) (x y : FieldElement) : Nat → Jacobian → Jacobian
  | 0, acc => acc
  | count + 1, acc =>
    let twice := acc.double
    multiplyFrom scalar x y count (if scalar.testBit count then twice.addAffine x y else twice)

/-- The multiple of a point by a scalar of at most 256 bits. -/
def multiply (scalar : Nat) : Point → Point
  | infinity => infinity
  | affine x y => (multiplyFrom scalar x y 256 .infinity).toPoint

/-- The multiple of the generator by a scalar. -/
def ofScalar (scalar : Nat) : Point := multiply scalar generator

end Point

end Bitcoin.Curve
