import Bitcoin.Bytes

/-!
# The field of the curve

Numbers modulo the prime `2 ^ 256 - 2 ^ 32 - 977`.  Inverses and square roots are powers: the first
by the little theorem of Fermat, the second because the prime is three modulo four.
-/

set_option autoImplicit false

namespace Bitcoin.Curve

/-- The prime of the field. -/
def fieldPrime : Nat := 0xfffffffffffffffffffffffffffffffffffffffffffffffffffffffefffffc2f

theorem fieldPrime_pos : 0 < fieldPrime := by decide

instance : @NeZero Nat Zero.ofOfNat0 fieldPrime :=
  @NeZero.mk Nat Zero.ofOfNat0 fieldPrime (Nat.ne_of_gt fieldPrime_pos)

/-- A number modulo the prime. -/
abbrev FieldElement := Fin fieldPrime

namespace FieldElement

/-- The remainder of a number. -/
def ofNat (n : Nat) : FieldElement := Fin.ofNat fieldPrime n

/-- The power by an exponent below `2 ^ count`, from the top bit down: `acc` is the power by the
bits already read. -/
def powerFrom (x : FieldElement) (exponent : Nat) : Nat → FieldElement → FieldElement
  | 0, acc => acc
  | count + 1, acc =>
    let square := acc * acc
    powerFrom x exponent count (if exponent.testBit count then square * x else square)

/-- The power by an exponent of at most 256 bits. -/
def power (x : FieldElement) (exponent : Nat) : FieldElement := powerFrom x exponent 256 (ofNat 1)

/-- The inverse, and zero for zero. -/
def inverse (x : FieldElement) : FieldElement := power x (fieldPrime - 2)

/-- A square root, of a number that has one. -/
def squareRoot (x : FieldElement) : FieldElement := power x ((fieldPrime + 1) / 4)

end FieldElement

end Bitcoin.Curve
