/-!
# Operators

Model of `Operator` with its `symbol` and its `from_symbol` (`ofSymbol?`); its `apply` is in
`Formula/Postfix`.

The four arithmetic operators, each written as one character.

Results:
* `ofSymbol?_eq_some_iff`: a text is read as an operator exactly if it is the operator's symbol.
-/

namespace PostfixSheet

/-- The arithmetic operators. -/
inductive Operator where
  | add
  | subtract
  | multiply
  | divide
  deriving Repr, DecidableEq

namespace Operator

/-- The character that an operator is written as. -/
def symbol : Operator → Char
  | .add => '+'
  | .subtract => '-'
  | .multiply => '*'
  | .divide => '/'

/-- The operator that a text is, which must be its symbol alone. -/
def ofSymbol? (s : String) : Option Operator :=
  match s.toList with
  | ['+'] => some .add
  | ['-'] => some .subtract
  | ['*'] => some .multiply
  | ['/'] => some .divide
  | _ => none

/-- A text is read as an operator exactly if it is the operator's symbol. -/
theorem ofSymbol?_eq_some_iff {s : String} {op : Operator} :
    ofSymbol? s = some op ↔ s.toList = [op.symbol] := by
  constructor
  · intro h
    unfold ofSymbol? at h
    split at h
    · cases h
      assumption
    · cases h
      assumption
    · cases h
      assumption
    · cases h
      assumption
    · cases h
  · intro h
    rw [ofSymbol?, h]
    cases op <;> rfl

end Operator

end PostfixSheet
