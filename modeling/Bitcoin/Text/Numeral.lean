/-!
# Decimal numerals

Child numbers and option values are written in decimal.  A numeral is one or more ASCII digits;
zeros may lead, signs and separators are not part of it.

* `decimal? (digits n) = some n` is `decimal?_digits`.
-/

set_option autoImplicit false

namespace Bitcoin.Text

/-- The digits of a number, without leading zeros. -/
def digits (n : Nat) : List Char := Nat.toDigits 10 n

/-- The number that the characters spell, if they are one or more digits. -/
def decimal? (cs : List Char) : Option Nat :=
  if cs ≠ [] ∧ cs.all Char.isDigit then some (Nat.ofDigitChars 10 cs 0) else none

theorem digits_ne_nil (n : Nat) : digits n ≠ [] := Nat.toDigits_ne_nil

theorem isDigit_of_mem_digits {n : Nat} {c : Char} (h : c ∈ digits n) : c.isDigit = true :=
  Nat.isDigit_of_mem_toDigits (by decide) (by decide) h

theorem decimal?_digits (n : Nat) : decimal? (digits n) = some n := by
  have hall : (digits n).all Char.isDigit = true :=
    List.all_eq_true.2 fun _ hc => isDigit_of_mem_digits hc
  rw [decimal?, if_pos ⟨digits_ne_nil n, hall⟩]
  exact congrArg some (Nat.ofDigitChars_toDigits (by decide) (by decide))

end Bitcoin.Text
