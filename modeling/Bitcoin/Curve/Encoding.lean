import Bitcoin.Curve.Point

/-!
# Points as bytes

A point is written as 33 bytes: two or three for an even or odd second coordinate, then the first
coordinate.  `compress` writes and `decompress?` reads; what is read back is a point of the curve,
and only coordinates below the prime are accepted, so a point has one spelling.
-/

set_option autoImplicit false

namespace Bitcoin.Curve.Point

/-- The 33 bytes of a point.  The point at infinity, which no key holds, is given zero bytes. -/
def compress : Point → FixedBytes 33
  | infinity => .zero 33
  | affine x y =>
    ⟨(if y.val % 2 = 0 then 2 else 3) :: Bytes.bigEndian 32 x.val, by simp⟩

/-- The point of the curve over `x` whose second coordinate has the given parity, if there is one.
-/
def lift? (x : FieldElement) (odd : Bool) : Option Point :=
  let root := FieldElement.squareRoot (curveRight x)
  if root * root = curveRight x then
    some (.affine x (if decide (root.val % 2 = 1) = odd then root else -root))
  else none

/-- The point that 33 bytes spell. -/
def decompress? (bytes : FixedBytes 33) : Option Point :=
  match bytes.toBytes with
  | [] => none
  | tag :: rest =>
    if h : Bytes.toNatBE rest < fieldPrime then
      if tag = 2 then lift? ⟨Bytes.toNatBE rest, h⟩ false
      else if tag = 3 then lift? ⟨Bytes.toNatBE rest, h⟩ true
      else none
    else none

end Bitcoin.Curve.Point
