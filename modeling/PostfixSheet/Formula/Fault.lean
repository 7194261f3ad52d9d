import PostfixSheet.Cell.Address
import PostfixSheet.Cell.Outcome
import PostfixSheet.Formula.Operator

/-!
# Faults of evaluation

Model of `FormulaError` with its wordings, and of its `cell_error` (`kind`).

Why a cell has no value. A fault concerns the cell that is evaluated and stops nothing else; each
fault has a wording and belongs to one of the kinds of errors that results hold.
-/

namespace PostfixSheet

/-- Why a cell has no value. -/
inductive Fault where
  /-- A word that is no number, no operator and no reference, or a reference where only numbers and
  operators may stand. -/
  | invalidToken (text : String)
  /-- A reference to nothing: it names no address, or a cell outside of the sheet. -/
  | invalidReference (name : String)
  /-- A reference to a cell that holds no number, no reference and no expression. -/
  | invalidContent (cell : Address) (content : String)
  /-- A reference to a cell whose value is just being looked for. -/
  | cyclicReference (cell : Address)
  /-- An operator with fewer than two values before it. -/
  | stackUnderflow (op : Operator)
  /-- An expression that leaves no value, or more than one. -/
  | malformedExpression (remaining : Nat)
  /-- A division by zero of either sign. -/
  | divisionByZero
  deriving Repr, DecidableEq

namespace Fault

/-- The wording of a fault. -/
def message : Fault → String
  | .invalidToken text => "Invalid token: " ++ text
  | .invalidReference name => "Invalid cell reference: " ++ name
  | .invalidContent cell content =>
    "Invalid cell content in " ++ cell.a1 ++ ": '" ++ content ++ "'"
  | .cyclicReference cell => "Cyclic reference detected: " ++ cell.a1
  | .stackUnderflow op => "Stack underflow at operator '" ++ op.symbol.toString ++ "'"
  | .malformedExpression remaining =>
    "Malformed expression: " ++ toString remaining ++ " values left on the stack"
  | .divisionByZero => "Division by zero"

/-- The kind of error that the results show for a fault. -/
def kind : Fault → ErrorKind
  | .invalidToken _ => .token
  | .invalidReference _ => .reference
  | .invalidContent _ _ => .value
  | .cyclicReference _ => .cycle
  | .stackUnderflow _ => .expression
  | .malformedExpression _ => .expression
  | .divisionByZero => .division

end Fault

end PostfixSheet
