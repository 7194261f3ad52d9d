import PostfixSheet.Formula.Fault
import PostfixSheet.Formula.Token

/-!
# Postfix evaluation

Model of the `apply` of `Operator` and of `reduce`.

A list of numbers and operators in postfix order is evaluated from left to right on a stack: a
number is put on it, and an operator takes the two values on top, the upper one as its right
operand, and puts its result there. The list has a value when exactly one is left.

* `Operator.apply` is the arithmetic of doubles, in which only a division by zero is a fault.
* `reduce` evaluates a list of tokens; a reference in it is a fault.

Results:
* `stackAfter_append`: evaluating two lists in a row is evaluating the first one and going on from
  the stack that it leaves.
-/

namespace PostfixSheet

/-- Applies an operator to its left and its right operand. -/
def Operator.apply (op : Operator) (a b : Float) : Except Fault Float :=
  match op with
  | .add => .ok (a + b)
  | .subtract => .ok (a - b)
  | .multiply => .ok (a * b)
  | .divide => if b == 0.0 then .error .divisionByZero else .ok (a / b)

namespace Postfix

/-- What a token does to the stack, whose top comes first. -/
def push (stack : List Float) : Token → Except Fault (List Float)
  | .number x => .ok (x :: stack)
  | .operator op =>
    match stack with
    | b :: a :: below => (op.apply a b).map (· :: below)
    | _ => .error (.stackUnderflow op)
  | .reference r => .error (.invalidToken r.name)
  | .invalid text => .error (.invalidToken text)

/-- The stack after the tokens, from the stack before them. -/
def stackAfter : List Float → List Token → Except Fault (List Float)
  | stack, [] => .ok stack
  | stack, token :: rest =>
    match push stack token with
    | .ok next => stackAfter next rest
    | .error fault => .error fault

/-- The one value that a stack holds. -/
def single : List Float → Except Fault Float
  | [x] => .ok x
  | stack => .error (.malformedExpression stack.length)

theorem stackAfter_append (stack : List Float) (first second : List Token) :
    stackAfter stack (first ++ second) =
      match stackAfter stack first with
      | .ok next => stackAfter next second
      | .error fault => .error fault := by
  induction first generalizing stack with
  | nil => rfl
  | cons token rest ih =>
    simp only [List.cons_append, stackAfter]
    cases push stack token with
    | ok next => exact ih next
    | error fault => rfl

end Postfix

/-- The value of a list of tokens in postfix order. -/
def reduce (tokens : List Token) : Except Fault Float :=
  match Postfix.stackAfter [] tokens with
  | .ok stack => Postfix.single stack
  | .error fault => .error fault

end PostfixSheet
