import PostfixSheet.Proofs.LeastValues

/-!
# Two sheets side by side

Two sheets may be evaluated side by side. Where a cell has like formulas in both, the naive evaluations
go to the same cells in turn, and the cell comes to like results as soon as all that it looks up does.
Which cells are compared, and on which paths, depends on how the sheets differ: it is a property of the
path and the cell that is handed on from a cell to those that it looks up.

* `Compares` says that a property is handed on, or that the results are known to be alike.

Results:
* `Compares.alike`: cells with such a property come to like naive values.
* `calculateCell_of_get?`: what a cell evaluates to is the naive value of its tokens.
* `calculateCell_alike`: so two cells with the same tokens evaluate to like results if all that they
  look up has like naive values.
* `calculate_congr`: two sheets of one shape whose cells show the same have the same results and counts.
-/

namespace PostfixSheet

variable {same : Fault → Fault → Prop} {sheet other : Sheet} {a : Address} {raw : String}

/-! ## Comparing naive values -/

/-- A cell with the same text in both sheets has the same formula. -/
theorem formula_alike_of_get? (hsame : ∀ e, same e e) (h : other.get? a = sheet.get? a) :
    Alike same (other.formula a) (sheet.formula a) := by
  rw [Sheet.formula, Sheet.formula, h]
  exact .refl hsame _

/-- **A property of paths and cells compares the sheets**: a cell off the path that has it comes to like
results in both, or has like formulas in both and hands the property on to all that it looks up. -/
def Compares (same : Fault → Fault → Prop) (sheet other : Sheet)
    (property : List Address → Address → Prop) : Prop :=
  ∀ path a, property path a → a ∉ path →
    Alike same (pathValue other path a) (pathValue sheet path a) ∨
      Alike same (other.formula a) (sheet.formula a) ∧
        ∀ b, Scans (pathValue sheet (a :: path)) sheet a b → property (a :: path) b

/-- **What is compared has like naive values.** -/
theorem Compares.alike {property : List Address → Address → Prop} (hsame : ∀ e, same e e)
    (h : Compares same sheet other property) {path : List Address} {a : Address}
    (ha : property path a) : Alike same (pathValue other path a) (pathValue sheet path a) := by
  by_cases hmem : a ∈ path
  · rw [pathValue_of_mem hmem, pathValue_of_mem hmem]
    exact .refl hsame _
  · rcases h path a ha hmem with halike | ⟨hformula, hnext⟩
    · exact halike
    · rw [pathValue_of_not_mem hmem, pathValue_of_not_mem hmem]
      refine cellBy_alike_of_formula hsame hformula fun b hb => ?_
      -- the walk through the first sheet decides how far the comparison goes
      have : sheet.unvisited (a :: path) < sheet.unvisited path := by
        obtain ⟨raw, hraw⟩ := hb.inside
        exact Sheet.unvisited_cons_lt hraw hmem
      exact h.alike hsame (hnext b hb)
termination_by sheet.unvisited path

/-! ## Evaluation of one cell -/

/-- What a cell evaluates to is the naive value of its tokens. -/
theorem calculateCell_of_get? (h : sheet.get? a = some raw) (policy : Policy) :
    calculateCell sheet a policy = tokensBy (pathValue sheet []) (tokenize raw) := by
  rw [calculateCell_eq_naive, h]
  exact (Call.evaluateCell raw).valueBy_eq _

theorem calculateCell_of_get?_none (h : sheet.get? a = none) (policy : Policy) :
    calculateCell sheet a policy = .error (.invalidReference a.a1) := by
  rw [calculateCell, h]

/-- **Cells with the same tokens evaluate to like results** if all that they look up has like naive
values. -/
theorem calculateCell_alike (hsame : ∀ e, same e e)
    (htokens : (other.get? a).map tokenize = (sheet.get? a).map tokenize)
    (h : ∀ raw b, sheet.get? a = some raw → Scanned (pathValue sheet []) (tokenize raw) b →
      Alike same (pathValue other [] b) (pathValue sheet [] b)) (policy : Policy) :
    Alike same (calculateCell other a policy) (calculateCell sheet a policy) := by
  cases hraw : sheet.get? a with
  | none =>
    rw [hraw, Option.map_none, Option.map_eq_none_iff] at htokens
    rw [calculateCell_of_get?_none hraw, calculateCell_of_get?_none htokens]
    exact .refl hsame _
  | some raw =>
    rw [hraw, Option.map_some, Option.map_eq_some_iff] at htokens
    obtain ⟨raw', hraw', ht⟩ := htokens
    rw [calculateCell_of_get? hraw, calculateCell_of_get? hraw', ht]
    exact tokensBy_alike hsame fun b hb => h raw b hraw hb

/-! ## Evaluation of all cells -/

/-- What the results hold for a cell is what the cell shows when it is evaluated on its own. -/
theorem ofResult_calculateCell (h : sheet.get? a = some raw) (policy : Policy) :
    Outcome.ofResult (calculateCell sheet a policy) =
      Outcome.ofResult (evaluateCell sheet raw (State.new policy)).1 := by
  rw [calculateCell, h]

/-- **Two sheets of one shape whose cells show the same have the same results and counts.** -/
theorem calculate_congr (hshape : other.rows.map List.length = sheet.rows.map List.length)
    (policy : Policy)
    (h : ∀ a, Outcome.ofResult (calculateCell other a policy) =
      Outcome.ofResult (calculateCell sheet a policy)) :
    calculate other policy = calculate sheet policy := by
  have hlength : other.rows.length = sheet.rows.length := by
    simpa using congrArg List.length hshape
  have hrow : ∀ r (hr : r < other.rows.length) (hr' : r < sheet.rows.length),
      other.rows[r].length = sheet.rows[r].length := by
    intro r hr hr'
    have := List.getElem_of_eq hshape (i := r) (by simpa using hr)
    simpa using this
  have hrows : (other.rows.map (·.map fun raw =>
        Outcome.ofResult (evaluateCell other raw (State.new policy)).1)) =
      sheet.rows.map (·.map fun raw =>
        Outcome.ofResult (evaluateCell sheet raw (State.new policy)).1) := by
    refine List.ext_getElem (by simpa using hlength) fun r hr hr' => ?_
    rw [List.length_map] at hr hr'
    rw [List.getElem_map, List.getElem_map]
    refine List.ext_getElem (by simpa using hrow r hr hr') fun c hc hc' => ?_
    rw [List.length_map] at hc hc'
    rw [List.getElem_map, List.getElem_map]
    have hget : sheet.get? ⟨r, c⟩ = some sheet.rows[r][c] := by simp [Sheet.get?, hr', hc']
    have hget' : other.get? ⟨r, c⟩ = some other.rows[r][c] := by simp [Sheet.get?, hr, hc]
    rw [← ofResult_calculateCell hget, ← ofResult_calculateCell hget', h]
  simp only [calculate, hrows]

end PostfixSheet
