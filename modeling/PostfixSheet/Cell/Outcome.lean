import PostfixSheet.Text.UpperCase

/-!
# Outcomes of cells

Model of `CellOutcome`, and of `CellError` with its `as_str` (`code`) and its `from_str`
(`ofCode?`).

An evaluated cell holds a number or says what kind of error it has. Each of the six kinds has a
code, which is read back in any case.

Results:
* `ofCode?_code`: the code of a kind is read as that kind, so no two kinds share a code.
-/

namespace PostfixSheet

/-- The kinds of errors that a cell can have. -/
inductive ErrorKind where
  | token
  | reference
  | value
  | cycle
  | expression
  | division
  deriving Repr, DecidableEq

namespace ErrorKind

/-- All kinds. -/
def all : List ErrorKind := [.token, .reference, .value, .cycle, .expression, .division]

/-- The code of a kind. -/
def code : ErrorKind → String
  | .token => "#TOKEN!"
  | .reference => "#REF!"
  | .value => "#VALUE!"
  | .cycle => "#CYCLE!"
  | .expression => "#EXPR!"
  | .division => "#DIV/0!"

/-- The kind with the given code, in any case. -/
def ofCode? (s : String) : Option ErrorKind :=
  all.find? fun kind => kind.code.toList == s.toList.flatMap Text.upperAscii

theorem ofCode?_code (kind : ErrorKind) : ofCode? kind.code = some kind := by
  cases kind <;> decide

end ErrorKind

/-- What an evaluated cell holds. -/
inductive Outcome where
  | number (x : Float)
  | error (kind : ErrorKind)
  deriving Repr, DecidableEq

/-- Whether an outcome is an error. -/
def Outcome.isError : Outcome → Bool
  | .number _ => false
  | .error _ => true

end PostfixSheet
