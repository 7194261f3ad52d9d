import PostfixSheet.Evaluation.State
import PostfixSheet.Formula.Postfix
import PostfixSheet.Sheet

/-!
# Walks over a sheet

Model of `resolve`, `resolve_address` (`resolveAt`), `evaluate_content` (`contentWithin`),
`substitute_references` (`substituteWith`), `evaluate` and `evaluate_cell`.

The value of a reference is found by a walk: the text of the cell is evaluated, the references in it
are walked to in turn, from left to right, and the first fault ends the walk. A cell that is walked
to while it is on the path is a circular reference. A cell that is completed is not checked against
the path; it is read as the policy says, and if it is walked once more, what that walk learns is
forgotten.

How deep contents may nest is bounded here. A walk that would go deeper is cut off, which is an
outcome of its own and not a fault; `depthBound` is a depth at which no walk is cut off.

* `contentWithin` evaluates the text of a cell, `resolveWith` a reference, and `evaluateWith` a list
  of tokens, the last two given the evaluation of contents.
* `resolve`, `evaluate` and `evaluateCell` are the whole evaluations.

Results:
* `andThen_assoc`: three walks in a row may be taken together in either way.
-/

namespace PostfixSheet

/-- What a walk that looks for an `α` comes to. -/
inductive Walk (α : Type) where
  /-- It ends with a value or a fault, and in a state. -/
  | done (result : Except Fault α) (state : State)
  /-- It is cut off at a cell, because contents nest too deep. -/
  | cutOff (cell : Address)

namespace Walk

variable {α β : Type}

/-- Goes on from the value of a walk, in the state in which it ended. -/
def andThen (walk : Walk α) (next : α → State → Walk β) : Walk β :=
  match walk with
  | .done (.ok x) s => next x s
  | .done (.error fault) s => .done (.error fault) s
  | .cutOff cell => .cutOff cell

theorem andThen_assoc {γ : Type} (walk : Walk α) (next : α → State → Walk β)
    (last : β → State → Walk γ) :
    (walk.andThen next).andThen last = walk.andThen fun x s => (next x s).andThen last := by
  cases walk with
  | done result s => cases result <;> rfl
  | cutOff cell => rfl

/-- The result and the state of a walk from state `s`. A walk that is cut off at a cell counts as a
circular reference to it: only a cell that comes back makes contents nest without end. -/
def settle (walk : Walk α) (s : State) : Except Fault α × State :=
  match walk with
  | .done result t => (result, t)
  | .cutOff cell => (.error (.cyclicReference cell), s)

end Walk

/-! ## One step, given the evaluation of contents -/

section Steps

variable (content : Address → State → Walk Float)

/-- The value of the cell at an address. -/
def resolveAt (a : Address) (s : State) : Walk Float :=
  if s.isCompleted a then
    match s.cached? a with
    | some x => .done (.ok x) s
    | none =>
      match content a s.fresh with
      | .done result _ => .done result s
      | .cutOff cell => .cutOff cell
  else if s.isInProgress a then .done (.error (.cyclicReference a)) s
  else
    match content a (s.enter a) with
    | .done (.ok x) t => .done (.ok x) ((t.leave a).complete a x)
    | .done (.error fault) t => .done (.error fault) (t.leave a)
    | .cutOff cell => .cutOff cell

/-- The value of a reference. -/
def resolveWith (r : Reference) (s : State) : Walk Float :=
  match r.address with
  | some a => resolveAt content a s
  | none => .done (.error (.invalidReference r.name)) s

/-- The tokens with their references replaced by the numbers that they stand for. -/
def substituteWith : List Token → State → Walk (List Token)
  | [], s => .done (.ok []) s
  | .reference r :: rest, s =>
    (resolveWith content r s).andThen fun x t =>
      (substituteWith rest t).andThen fun tokens u => .done (.ok (.number x :: tokens)) u
  | token :: rest, s =>
    (substituteWith rest s).andThen fun tokens t => .done (.ok (token :: tokens)) t

/-- The value of a list of tokens: all references are followed before anything is computed. -/
def evaluateWith (tokens : List Token) (s : State) : Walk Float :=
  (substituteWith content tokens s).andThen fun numbers t => .done (reduce numbers) t

end Steps

/-! ## Contents -/

/-- The value of the text of a cell, with contents nested at most `depth` deep. -/
def contentWithin (sheet : Sheet) : (depth : Nat) → Address → State → Walk Float
  | 0, a, _ => .cutOff a
  | depth + 1, a, s =>
    match sheet.get? a with
    | none => .done (.error (.invalidReference a.a1)) s
    | some raw =>
      match Content.classify raw with
      | .number x => .done (.ok x) s
      | .reference r => resolveWith (contentWithin sheet depth) r s
      | .expression tokens => evaluateWith (contentWithin sheet depth) tokens s
      | .other => .done (.error (.invalidContent a raw)) s

/-- A depth that no walk exceeds. A walk from a new state nests at most one content more than there
are cells, and a walk from any other state may come to a completed cell and there begin one from a
new state. -/
def depthBound (sheet : Sheet) : Nat := 2 * sheet.cellCount + 2

/-! ## Whole evaluations -/

/-- The value of a reference, and the state after looking for it. -/
def resolve (sheet : Sheet) (r : Reference) (s : State) : Except Fault Float × State :=
  (resolveWith (contentWithin sheet (depthBound sheet)) r s).settle s

/-- The value of a list of tokens, and the state after looking for it. -/
def evaluate (sheet : Sheet) (tokens : List Token) (s : State) : Except Fault Float × State :=
  (evaluateWith (contentWithin sheet (depthBound sheet)) tokens s).settle s

/-- The value of a text as that of a cell of its own. A text that is no formula is evaluated as a
list of tokens, which tells what is wrong with it. -/
def evaluateCell (sheet : Sheet) (raw : String) (s : State) : Except Fault Float × State :=
  match Content.classify raw with
  | .number x => (.ok x, s)
  | .reference r => resolve sheet r s
  | .expression tokens => evaluate sheet tokens s
  | .other => evaluate sheet (tokenize raw) s

end PostfixSheet
