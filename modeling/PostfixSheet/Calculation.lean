import PostfixSheet.Evaluation.Walk

/-!
# Calculating a sheet

Model of `calculate_cell` and of `calculate_with_options`, which goes through the sheet with
`CalculationEngine` and counts with the `record` of `CalculationStats`. `CalculationOptions` hold a
policy and nothing else, so the policy stands for them.

Every cell of a sheet is evaluated on its own, from a new state, and a fault in one cell keeps no
other cell from having a value. The results have the shape of the sheet and come with four counts.

* `calculateCell` is the value or the fault of one cell.
* `calculate` is all of them, and `Statistics` the counts. The counts are taken of the finished
  results here; `Proofs/SheetResults` shows them equal to those of a pass that counts as it goes.

Results:
* `map_length_results`: the results have the sheet's row lengths.
-/

namespace PostfixSheet

/-- The value of the cell at an address. -/
def calculateCell (sheet : Sheet) (a : Address) (policy : Policy) : Except Fault Float :=
  match sheet.get? a with
  | none => .error (.invalidReference a.a1)
  | some raw => (evaluateCell sheet raw (State.new policy)).1

/-- What the results show of a value or a fault. -/
def Outcome.ofResult : Except Fault Float → Outcome
  | .ok x => .number x
  | .error fault => .error fault.kind

/-- How many cells there are, and how they came out. -/
structure Statistics where
  cells : Nat
  numbers : Nat
  errors : Nat
  cyclic : Nat
  deriving Repr, DecidableEq

namespace Statistics

/-- The counts of no cells. -/
def zero : Statistics := ⟨0, 0, 0, 0⟩

/-- The counts with one outcome more. -/
def record (counts : Statistics) (outcome : Outcome) : Statistics :=
  match outcome with
  | .number _ => { counts with cells := counts.cells + 1, numbers := counts.numbers + 1 }
  | .error kind =>
    { counts with
      cells := counts.cells + 1
      errors := counts.errors + 1
      cyclic := if kind = .cycle then counts.cyclic + 1 else counts.cyclic }

end Statistics

/-- The results of a sheet with their counts. -/
structure Calculation where
  results : Results
  statistics : Statistics
  deriving Repr, DecidableEq

/-- Evaluates every cell of a sheet. -/
def calculate (sheet : Sheet) (policy : Policy) : Calculation :=
  let outcome (raw : String) : Outcome :=
    Outcome.ofResult (evaluateCell sheet raw (State.new policy)).1
  let rows := sheet.rows.map (·.map outcome)
  ⟨⟨rows⟩, rows.flatten.foldl Statistics.record Statistics.zero⟩

theorem map_length_results (sheet : Sheet) (policy : Policy) :
    (calculate sheet policy).results.rows.map List.length = sheet.rows.map List.length := by
  simp [calculate, Function.comp_def]

end PostfixSheet
