import PostfixSheet.Cell.Address
import PostfixSheet.Formula.Operator
import PostfixSheet.Number.Numeral
import PostfixSheet.Text.Blank

/-!
# Tokens

Model of `Token` and `CellContent`, each with its `classify`, of `CellReference` with its `parse`
and the test `is_reference_shape` (`Reference.parse?`), and of `tokenize`.

The words of a cell's text are its tokens. A word is a number if it is a numeral, an operator if it
is an operator's symbol, a reference if it is letters followed by digits, and invalid otherwise. A
reference keeps its text in upper case; it has no address when its row or its column is not one that
an address can have.

A cell whose text is one number or one reference is just that; a cell of two words or more is an
expression, whatever the words are; any other text is no formula.

Results:
* `classify_of_parse?`: a numeral is a number, whatever else it might be.
-/

namespace PostfixSheet

/-- A mention of a cell: its text in upper case, and the address that the text names, if any. -/
structure Reference where
  name : String
  address : Option Address
  deriving Repr, DecidableEq

/-- Reads letters followed by digits as a reference. -/
def Reference.parse? (s : String) : Option Reference :=
  let letters := s.toList.takeWhile Char.isAlpha
  let digits := s.toList.dropWhile Char.isAlpha
  if !letters.isEmpty && !digits.isEmpty && digits.all Char.isDigit then
    some ⟨String.ofList (s.toList.map Char.toUpper), (Address.parse s).toOption⟩
  else none

/-- A word of a cell's text. -/
inductive Token where
  | number (x : Float)
  | operator (op : Operator)
  | reference (r : Reference)
  | invalid (text : String)
  deriving Repr, DecidableEq

namespace Token

/-- What a word is. -/
def classify (word : String) : Token :=
  match Numeral.parse? word.toList with
  | some numeral => .number numeral.toFloat
  | none =>
    match Operator.ofSymbol? word with
    | some op => .operator op
    | none =>
      match Reference.parse? word with
      | some r => .reference r
      | none => .invalid word

theorem classify_of_parse? {word : String} {numeral : Numeral}
    (h : Numeral.parse? word.toList = some numeral) : classify word = .number numeral.toFloat := by
  simp [classify, h]

end Token

/-- The tokens of a text. -/
def tokenize (text : String) : List Token :=
  (Text.words text.toList).map fun word => Token.classify (String.ofList word)

/-- What the text of a cell is as a whole. -/
inductive Content where
  | number (x : Float)
  | reference (r : Reference)
  | expression (tokens : List Token)
  | other
  deriving Repr, DecidableEq

/-- Sorts the text of a cell by its tokens. -/
def Content.classify (raw : String) : Content :=
  match tokenize raw with
  | [.number x] => .number x
  | [.reference r] => .reference r
  | first :: second :: rest => .expression (first :: second :: rest)
  | _ => .other

end PostfixSheet
