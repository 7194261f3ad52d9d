import PostfixSheet.Number.Binary64

/-!
# Numerals

Model of `parse_number`, with the grammar of numbers of the standard library that it calls.

A numeral is how a number is written in a cell: an optional sign, digits with an optional point
before, between or behind them (at least one digit), and an optional exponent, which is the letter
`e` in either case, an optional sign and at least one digit. All of it is ASCII, and no word such as
`inf` or `nan` is a numeral. A numeral of any length stands for the double nearest to it.

* `Numeral.parse?` reads the whole of a text as a numeral.
* `Numeral.toFloat` is the double that a numeral stands for.

Results:
* `parse?_cons_eq_none`: a text that starts with a character that is neither a digit nor a sign nor
  a point is no numeral.
-/

namespace PostfixSheet

/-- A number as it is written: a sign and a decimal number. Zero has both signs. -/
structure Numeral where
  negative : Bool
  magnitude : Decimal
  deriving Repr, DecidableEq

namespace Numeral

/-- Splits an optional sign off a text, and says whether it is a minus. -/
def splitSign : List Char → Bool × List Char
  | '-' :: rest => (true, rest)
  | '+' :: rest => (false, rest)
  | text => (false, text)

/-- Reads the exponent of a numeral, which is `0` where nothing is written. -/
def exponent? : List Char → Option Int
  | [] => some 0
  | mark :: rest =>
    let (negative, ds) := splitSign rest
    if (mark = 'e' ∨ mark = 'E') ∧ ds ≠ [] ∧ ds.all Char.isDigit then
      let size : Int := Decimal.valueOf ds
      some (if negative then -size else size)
    else none

/-- Splits off the places behind a point; there are none where no point is written. -/
def splitPlaces : List Char → List Char × List Char
  | '.' :: rest => (rest.takeWhile Char.isDigit, rest.dropWhile Char.isDigit)
  | text => ([], text)

/-- Reads a text as a numeral. -/
def parse? (text : List Char) : Option Numeral :=
  let (negative, body) := splitSign text
  let whole := body.takeWhile Char.isDigit
  let (places, tail) := splitPlaces (body.dropWhile Char.isDigit)
  if whole = [] ∧ places = [] then none
  else (exponent? tail).map fun exponent =>
    ⟨negative, ⟨Decimal.valueOf (whole ++ places), exponent - places.length⟩⟩

/-- The double that a numeral stands for. -/
def toFloat (n : Numeral) : Float := Binary64.ofRank n.negative n.magnitude.rank

theorem parse?_cons_eq_none {c : Char} {rest : List Char} (hd : c.isDigit = false) (hm : c ≠ '-')
    (hp : c ≠ '+') (ht : c ≠ '.') : parse? (c :: rest) = none := by
  have hs : splitSign (c :: rest) = (false, c :: rest) := by
    unfold splitSign
    split <;> simp_all
  have hf : splitPlaces (c :: rest) = ([], c :: rest) := by
    unfold splitPlaces
    split <;> simp_all
  simp [parse?, hs, hf, hd]

end Numeral

end PostfixSheet
