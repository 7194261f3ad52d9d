import PostfixSheet.Calculation

/-!
# The results of a whole sheet

All cells are evaluated in one pass, row by row, and each outcome is counted as soon as it is known. The
pass is the evaluation of each cell on its own: no cell sees what the cells before it left, the counts are
those of the results, and the results have the shape of the sheet.

* `visitCell` evaluates one cell and counts its outcome; `visit` does so for all cells, as `calculate_all`
  does.

Results:
* `foldl_record`: what counting some outcomes adds to the counts.
* `run_mapM`: a pass over a list that counts on the way.
* `visit_eq_calculate`: the pass gives the results and the counts of the sheet.
* `get?_results`: the results hold what each cell comes to on its own.
* `calculate_cell_by_cell`: all of it, with the shape.
-/

namespace PostfixSheet

/-! ## Counting -/

/-- **What counting some outcomes adds to the counts.** -/
theorem foldl_record (outcomes : List Outcome) (counts : Statistics) :
    outcomes.foldl Statistics.record counts =
      { cells := counts.cells + outcomes.length
        numbers := counts.numbers + outcomes.countP fun outcome => ¬outcome.isError
        errors := counts.errors + outcomes.countP Outcome.isError
        cyclic := counts.cyclic + outcomes.count (.error .cycle) } := by
  induction outcomes generalizing counts with
  | nil => rfl
  | cons outcome outcomes ih =>
    rw [List.foldl_cons, ih, List.length_cons, List.countP_cons, List.countP_cons, List.count_cons]
    cases outcome with
    | number x =>
      rw [Statistics.mk.injEq]
      refine ⟨?_, ?_, ?_, ?_⟩
      · show counts.cells + 1 + outcomes.length = counts.cells + (outcomes.length + 1)
        omega
      · show counts.numbers + 1 + _ = counts.numbers + (_ + 1)
        omega
      · rfl
      · rfl
    | error kind =>
      rw [Statistics.mk.injEq]
      refine ⟨?_, rfl, ?_, ?_⟩
      · show counts.cells + 1 + outcomes.length = counts.cells + (outcomes.length + 1)
        omega
      · show counts.errors + 1 + _ = counts.errors + (_ + 1)
        omega
      · show (if kind = .cycle then counts.cyclic + 1 else counts.cyclic) + _ = _
        by_cases hkind : kind = .cycle
        · rw [if_pos hkind, if_pos (by rw [hkind]; exact beq_self_eq_true _)]
          omega
        · rw [if_neg hkind, if_neg (by simpa using hkind), Nat.add_zero]

/-! ## The pass over all cells -/

section Pass

variable (sheet : Sheet) (policy : Policy)

/-- What a text comes to in a sheet, from a new state. -/
def outcomeOf (raw : String) : Outcome :=
  Outcome.ofResult (evaluateCell sheet raw (State.new policy)).1

theorem calculate_eq :
    calculate sheet policy =
      ⟨⟨sheet.rows.map (·.map (outcomeOf sheet policy))⟩,
        (sheet.rows.map (·.map (outcomeOf sheet policy))).flatten.foldl Statistics.record
          Statistics.zero⟩ := rfl

/-- Evaluates the text of a cell and counts its outcome. -/
def visitCell (raw : String) : StateM Statistics Outcome := do
  let outcome := outcomeOf sheet policy raw
  modify (·.record outcome)
  return outcome

/-- Evaluates all cells row by row, and counts their outcomes on the way. -/
def visit : StateM Statistics Results := do
  return ⟨← sheet.rows.mapM fun row => row.mapM (visitCell sheet policy)⟩

/-- **A pass over a list counts what each of its elements counts**, in their order. -/
theorem run_mapM {α β σ : Type} {f : α → StateM σ β} {g : α → β} {step : σ → α → σ}
    (h : ∀ a s, (f a).run s = (g a, step s a)) (l : List α) (s : σ) :
    (l.mapM f).run s = (l.map g, l.foldl step s) := by
  induction l generalizing s with
  | nil => rfl
  | cons a l ih =>
    rw [List.mapM_cons, StateT.run_bind, h]
    show ((l.mapM f >>= fun bs => pure (g a :: bs)).run (step s a)) = _
    rw [StateT.run_bind, ih]
    rfl

theorem run_visitCell (raw : String) (counts : Statistics) :
    (visitCell sheet policy raw).run counts =
      (outcomeOf sheet policy raw, counts.record (outcomeOf sheet policy raw)) := rfl

theorem run_visitRow (row : List String) (counts : Statistics) :
    (row.mapM (visitCell sheet policy)).run counts =
      (row.map (outcomeOf sheet policy),
        (row.map (outcomeOf sheet policy)).foldl Statistics.record counts) := by
  rw [run_mapM (run_visitCell sheet policy), List.foldl_map]

/-- **The pass gives the results and the counts of the sheet.** -/
theorem visit_eq_calculate :
    (visit sheet policy).run Statistics.zero =
      ((calculate sheet policy).results, (calculate sheet policy).statistics) := by
  have hrows := run_mapM (run_visitRow sheet policy) sheet.rows Statistics.zero
  have hcounts : sheet.rows.foldl (fun counts row =>
        (row.map (outcomeOf sheet policy)).foldl Statistics.record counts) Statistics.zero =
      (calculate sheet policy).statistics := by
    rw [calculate_eq, List.foldl_flatten, List.foldl_map]
  rw [visit, StateT.run_bind, hrows, hcounts]
  rfl

/-- There are as many results as cells. -/
theorem length_results :
    (calculate sheet policy).results.rows.flatten.length = sheet.cellCount := by
  rw [calculate_eq, ← List.map_flatten, List.length_map, Sheet.cellCount]

/-- **The counts of a sheet are those of its results.** -/
theorem statistics_calculate :
    (calculate sheet policy).statistics =
      { cells := sheet.cellCount
        numbers := (calculate sheet policy).results.rows.flatten.countP fun outcome => ¬outcome.isError
        errors := (calculate sheet policy).results.errorCount
        cyclic := (calculate sheet policy).results.rows.flatten.count (.error .cycle) } := by
  have hrecord := foldl_record (calculate sheet policy).results.rows.flatten Statistics.zero
  simp only [Statistics.zero, Nat.zero_add] at hrecord
  rw [← length_results sheet policy]
  exact hrecord

end Pass

/-! ## Cells -/

section Cells

variable {sheet : Sheet} {policy : Policy} {a : Address} {raw : String}

/-- An outcome is a number exactly if it is that of a value. -/
theorem ofResult_eq_number_iff {result : Except Fault Float} {x : Float} :
    Outcome.ofResult result = .number x ↔ result = .ok x := by
  cases result with
  | ok y => rw [Outcome.ofResult, Outcome.number.injEq, Except.ok.injEq]
  | error fault => constructor <;> intro h <;> cases h

/-- An outcome is an error exactly if it is that of a fault of this kind. -/
theorem ofResult_eq_error_iff {result : Except Fault Float} {kind : ErrorKind} :
    Outcome.ofResult result = .error kind ↔ ∃ fault, result = .error fault ∧ fault.kind = kind := by
  constructor
  · intro h
    cases result with
    | ok y => cases h
    | error fault => exact ⟨fault, rfl, Outcome.error.inj h⟩
  · rintro ⟨fault, rfl, rfl⟩
    rfl

/-- The results hold what the texts of the sheet come to, each at its address. -/
theorem get?_results_outcomeOf (sheet : Sheet) (policy : Policy) (a : Address) :
    (calculate sheet policy).results.get? a = (sheet.get? a).map (outcomeOf sheet policy) := by
  rw [calculate_eq, Results.get?, Sheet.get?, List.getElem?_map]
  cases sheet.rows[a.row]? with
  | none => rfl
  | some row => exact List.getElem?_map

/-- **The results hold what each cell comes to on its own**, and nothing outside the sheet. -/
theorem get?_results (sheet : Sheet) (policy : Policy) (a : Address) :
    (calculate sheet policy).results.get? a =
      (sheet.get? a).map fun _ => Outcome.ofResult (calculateCell sheet a policy) := by
  rw [get?_results_outcomeOf]
  cases hraw : sheet.get? a with
  | none => rfl
  | some raw => rw [Option.map_some, Option.map_some, calculateCell, hraw, outcomeOf]

/-- An address is that of a cell exactly if its column is below the length of its row. -/
theorem isSome_get?_iff : (sheet.get? a).isSome = true ↔ a.col < sheet.rowLength a.row := by
  rw [Sheet.get?, Sheet.rowLength]
  cases sheet.rows[a.row]? with
  | none => simp
  | some row => simp

end Cells

/-! ## The whole sheet -/

/-- **The results of a sheet are those of its cells one by one, with exact counts and the shape of the
sheet.** One pass over all cells, each counted on the way, gives the results and the counts. The results
have the shape of the sheet. Each cell holds a number exactly if this is its value, and an error exactly if
it has a fault of that kind. The cells are counted, the errors and the cycles among them too, and whatever
is no error is a number. And results have the shape of a sheet exactly if their rows have the same
lengths. -/
theorem calculate_cell_by_cell (sheet : Sheet) (policy : Policy) :
    (visit sheet policy).run Statistics.zero =
      ((calculate sheet policy).results, (calculate sheet policy).statistics) ∧
    (calculate sheet policy).results.hasShapeOf sheet = true ∧
    (∀ r c : Nat, c < sheet.rowLength r →
      (∀ x, (calculate sheet policy).results.get? ⟨r, c⟩ = some (.number x) ↔
        calculateCell sheet ⟨r, c⟩ policy = .ok x) ∧
      (∀ kind, (calculate sheet policy).results.get? ⟨r, c⟩ = some (.error kind) ↔
        ∃ fault, calculateCell sheet ⟨r, c⟩ policy = .error fault ∧ fault.kind = kind)) ∧
    (calculate sheet policy).statistics.cells = sheet.cellCount ∧
    (calculate sheet policy).statistics.cells =
      (calculate sheet policy).statistics.numbers + (calculate sheet policy).statistics.errors ∧
    (calculate sheet policy).statistics.errors = (calculate sheet policy).results.errorCount ∧
    (calculate sheet policy).statistics.cyclic =
      (calculate sheet policy).results.rows.flatten.count (.error .cycle) ∧
    (∀ results : Results, results.hasShapeOf sheet = true ↔
      results.rows.map List.length = sheet.rows.map List.length) := by
  refine ⟨visit_eq_calculate sheet policy,
    (Results.hasShapeOf_iff _ _).mpr (map_length_results sheet policy), fun r c hc => ?_, ?_⟩
  · obtain ⟨raw, hraw⟩ := Option.isSome_iff_exists.mp (isSome_get?_iff (a := ⟨r, c⟩) |>.mpr hc)
    rw [get?_results, hraw]
    exact ⟨fun x => by rw [Option.map_some, Option.some.injEq, ofResult_eq_number_iff],
      fun kind => by rw [Option.map_some, Option.some.injEq, ofResult_eq_error_iff]⟩
  · rw [statistics_calculate]
    refine ⟨rfl, ?_, rfl, rfl, fun results => Results.hasShapeOf_iff results sheet⟩
    show sheet.cellCount = _
    rw [← length_results sheet policy, Nat.add_comm]
    exact List.length_eq_countP_add_countP Outcome.isError

/-- An empty row between rows of different lengths, with a division by zero and a cycle. -/
theorem calculate_cell_by_cell_of_ragged_rows :
    1 < (Sheet.mk [["5", "A1 0 /"], [], ["A3"]]).rowLength 0 ∧
    (∃ fault, calculateCell ⟨[["5", "A1 0 /"], [], ["A3"]]⟩ ⟨0, 1⟩ .rewalk = .error fault ∧
      fault.kind = .division) ∧
    (calculate ⟨[["5", "A1 0 /"], [], ["A3"]]⟩ .rewalk).statistics.cyclic = 1 := by
  obtain ⟨-, -, hcells, -, -, -, hcyclic, -⟩ :=
    calculate_cell_by_cell ⟨[["5", "A1 0 /"], [], ["A3"]]⟩ .rewalk
  refine ⟨by decide, ?_, hcyclic.trans (by decide +kernel)⟩
  exact ((hcells 0 1 (by decide)).2 .division).mp (by decide +kernel)

end PostfixSheet
