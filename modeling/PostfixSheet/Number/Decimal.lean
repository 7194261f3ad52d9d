/-!
# Decimal numbers

Stands for the printing of whole and decimal numbers in the standard library that `format_number`
and `to_a1_string` call, and for its reading of the row in `parse`.

A decimal number is a whole coefficient and a power of ten. Written positionally it has digits, and
behind a point as many places as a negative exponent asks for; no exponent is ever written.

Results:
* `valueOf_digits`: reading the digits of a whole number gives the number back.
* `length_padded`: a padded number has exactly the asked count of digits when it fits.
* `valueOf_padded`: the leading zeros of a padded number do not change its value.
-/

namespace PostfixSheet

/-- The decimal number `coefficient * 10 ^ exponent`. -/
structure Decimal where
  coefficient : Nat
  exponent : Int
  deriving Repr, DecidableEq

namespace Decimal

/-! ## Digits of whole numbers -/

/-- The decimal digits of a whole number, most significant first; `0` has one digit. -/
def digits (n : Nat) : List Char := Nat.toDigits 10 n

/-- The whole number that a list of decimal digits stands for; no digits stand for `0`. -/
def valueOf (ds : List Char) : Nat := Nat.ofDigitChars 10 ds 0

/-- The digits of `n` behind as many zeros as make `width` digits in all. -/
def padded (width n : Nat) : List Char :=
  List.replicate (width - (digits n).length) '0' ++ digits n

theorem valueOf_digits (n : Nat) : valueOf (digits n) = n :=
  Nat.ofDigitChars_toDigits (by decide) (by decide)

theorem isDigit_of_mem_digits {n : Nat} {c : Char} (h : c ∈ digits n) : c.isDigit = true :=
  Nat.isDigit_of_mem_toDigits (by decide) (by decide) h

theorem digits_ne_nil (n : Nat) : digits n ≠ [] := Nat.toDigits_ne_nil

theorem length_padded {width n : Nat} (h : (digits n).length ≤ width) :
    (padded width n).length = width := by
  simp only [padded, List.length_append, List.length_replicate]
  omega

theorem valueOf_padded (width n : Nat) : valueOf (padded width n) = n := by
  unfold valueOf padded
  rw [Nat.ofDigitChars_append, Nat.ofDigitChars_replicate_zero]
  exact valueOf_digits n

/-! ## Positional notation -/

/-- Positional notation: all the digits of a number that has no places, and else the whole part, a
point and exactly the places of the exponent. -/
def positional (d : Decimal) : List Char :=
  match d.exponent with
  | .ofNat zeros => digits (d.coefficient * Nat.pow 10 zeros)
  | .negSucc n =>
    let scale := Nat.pow 10 (n + 1)
    digits (d.coefficient / scale) ++ '.' :: padded (n + 1) (d.coefficient % scale)

/-- The number `coefficient / 10 ^ places` without needless places: zeros at the end of the
fraction are dropped. -/
def reduced : (coefficient places : Nat) → Decimal
  | c, 0 => ⟨c, 0⟩
  | c, places + 1 => if c % 10 = 0 then reduced (c / 10) places else ⟨c, .negSucc places⟩

end Decimal

end PostfixSheet
