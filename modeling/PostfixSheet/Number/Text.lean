import PostfixSheet.Number.Binary64

/-!
# The written form of a number

Model of `format_number`.

A whole number below `10 ^ 15` is written as an integer, zero without a sign. Any other finite
number is written with the fewest digits that read back as it, positionally and never with an
exponent. The texts of the infinities and of the value that is no number are no numerals.

Results:
* `text_nan`, `text_infinite`: the three texts of the values that are not finite.
-/

namespace PostfixSheet

namespace Binary64

/-- Whether the value of a rank is a whole number below `10 ^ 15`. -/
def isSmallWhole (rank : Nat) : Bool :=
  units rank % unitsPerOne = 0 && units rank / unitsPerOne < Nat.pow 10 15

/-- The digits of the value of a rank, without a sign. -/
def magnitudeText (rank : Nat) : List Char :=
  if isSmallWhole rank then Decimal.digits (units rank / unitsPerOne)
  else (shortest rank).positional

/-- The written form of a double. -/
def Shape.text : Shape → String
  | .nan => "NaN"
  | .infinite negative => if negative then "-inf" else "inf"
  | .finite negative rank =>
    let sign := if negative && rank != 0 then ['-'] else []
    String.ofList (sign ++ magnitudeText rank)

end Binary64

/-- The written form of a number. -/
def numberText (x : Float) : String := (Binary64.Shape.of x).text

theorem text_nan {x : Float} (h : Binary64.Shape.of x = .nan) : numberText x = "NaN" := by
  rw [numberText, h]; rfl

theorem text_infinite {x : Float} {negative : Bool} (h : Binary64.Shape.of x = .infinite negative) :
    numberText x = if negative then "-inf" else "inf" := by
  rw [numberText, h]; rfl

end PostfixSheet
