import PostfixSheet.Cell.Address

/-!
# The state of an evaluation

Model of `CompletionPolicy`, and of `EvaluationState` with its `with_policy` (`new`), `fresh`,
`is_in_progress`, `is_completed`, `mark_completed` (`complete`) and `cached`.

While references are followed, the state knows the **path**, which is the cells whose values are
just being looked for, and the cells that are **completed**, which is those whose values were found.
The policy says how a completed cell is read again: it is walked once more from a new state, or its
value is taken from the cache. A state is not tied to a sheet and may outlive the one it was used
on.

Results:
* `leave_enter`: leaving a cell undoes entering it.
-/

namespace PostfixSheet

/-- How a completed cell is read again. -/
inductive Policy where
  /-- Its text is evaluated anew, from a new state. -/
  | rewalk
  /-- Its value was kept. -/
  | cache
  deriving Repr, DecidableEq

/-- The policy that holds where none is asked for. -/
def Policy.default : Policy := .rewalk

/-- The name of a policy. -/
def Policy.name : Policy → String
  | .rewalk => "rewalk"
  | .cache => "cache"

/-- What is known while references are followed. -/
structure State where
  policy : Policy
  /-- The cells whose values are being looked for, the last one first. -/
  path : List Address
  /-- The cells whose values were found, the last one first. -/
  completed : List Address
  /-- The values that were kept, the last one first. -/
  values : List (Address × Float)
  deriving Repr, DecidableEq

namespace State

/-- The state that knows nothing. -/
def new (policy : Policy) : State := ⟨policy, [], [], []⟩

/-- The state that knows nothing, with the policy of another state. -/
def fresh (s : State) : State := new s.policy

/-- Whether the value of a cell is being looked for. -/
def isInProgress (s : State) (a : Address) : Bool := s.path.contains a

/-- Whether the value of a cell was found. -/
def isCompleted (s : State) (a : Address) : Bool := s.completed.contains a

/-- The value of a cell that was kept; there is none unless the policy is to keep values. -/
def cached? (s : State) (a : Address) : Option Float :=
  match s.policy with
  | .rewalk => none
  | .cache => s.values.lookup a

/-- Begins to look for the value of a cell. -/
def enter (s : State) (a : Address) : State := { s with path := a :: s.path }

/-- Ends looking for the value of a cell. -/
def leave (s : State) (a : Address) : State := { s with path := s.path.erase a }

/-- Marks a cell as completed, and keeps its value if that is the policy. -/
def complete (s : State) (a : Address) (x : Float) : State :=
  let values := match s.policy with
    | .rewalk => s.values
    | .cache => (a, x) :: s.values
  { s with completed := a :: s.completed, values := values }

theorem leave_enter (s : State) (a : Address) : (s.enter a).leave a = s := by
  simp [enter, leave]

theorem isCompleted_iff_mem {s : State} {a : Address} :
    s.isCompleted a = true ↔ a ∈ s.completed :=
  List.contains_iff_mem

theorem isInProgress_iff_mem {s : State} {a : Address} : s.isInProgress a = true ↔ a ∈ s.path :=
  List.contains_iff_mem

end State

end PostfixSheet
