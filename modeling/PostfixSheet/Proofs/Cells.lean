import PostfixSheet.Sheet

/-!
# The cells of a sheet

A sheet has finitely many cells. A path through the sheet that never comes to one cell twice
therefore ends, and `unvisited` counts the cells that it has yet to come to.

Results:
* `mem_cells_iff`: the list of cells agrees with the lookup.
* `length_cells`: the list is as long as the number of cells says.
* `unvisited_cons_lt`: a path that goes on to a new cell leaves fewer of them.
-/

namespace PostfixSheet

namespace Sheet

/-- **The list of cells holds an address with a text exactly when the text is found there.** -/
theorem mem_cells_iff (sheet : Sheet) (a : Address) (text : String) :
    (a, text) ∈ sheet.cells ↔ sheet.get? a = some text := by
  simp only [cells, get?, List.mem_flatMap, List.mem_map, Prod.exists, Prod.mk.injEq,
    List.mem_zipIdx_iff_getElem?, Option.bind_eq_some_iff]
  constructor
  · rintro ⟨row, r, hrow, t, c, hcol, rfl, rfl⟩
    exact ⟨row, hrow, hcol⟩
  · rintro ⟨row, hrow, hcol⟩
    exact ⟨row, a.row, hrow, text, a.col, hcol, rfl, rfl⟩

/-- The list of cells is as long as the number of cells says. -/
theorem length_cells (sheet : Sheet) : sheet.cells.length = sheet.cellCount := by
  have h : ∀ (rows : List (List String)) (first : Nat),
      ((rows.zipIdx first).flatMap fun row => row.1.zipIdx.map fun text =>
        ((⟨row.2, text.2⟩ : Address), text.1)).length = rows.flatten.length := by
    intro rows
    induction rows with
    | nil => exact fun _ => rfl
    | cons row rest ih =>
      intro first
      simp only [List.zipIdx_cons, List.flatMap_cons, List.flatten_cons, List.length_append,
        List.length_map, List.length_zipIdx, ih]
  exact h sheet.rows 0

/-! ## Cells that a path has not come to -/

/-- How many cells are not on a path. -/
def unvisited (sheet : Sheet) (path : List Address) : Nat :=
  sheet.cells.countP fun cell => !path.contains cell.1

theorem unvisited_nil (sheet : Sheet) : sheet.unvisited [] = sheet.cellCount := by
  rw [← length_cells, unvisited, List.countP_eq_length]
  exact fun _ _ => rfl

/-- **Each new cell on a path leaves fewer to come to.** -/
theorem unvisited_cons_lt {sheet : Sheet} {path : List Address} {a : Address} {text : String}
    (ha : sheet.get? a = some text) (hpath : a ∉ path) :
    sheet.unvisited (a :: path) < sheet.unvisited path := by
  obtain ⟨before, after, hcells⟩ := List.append_of_mem ((mem_cells_iff sheet a text).mpr ha)
  have hle : ∀ cells : List (Address × String),
      cells.countP (fun cell => !(a :: path).contains cell.1) ≤
        cells.countP (fun cell => !path.contains cell.1) := by
    refine fun cells => List.countP_mono_left fun cell _ h => ?_
    rw [List.contains_cons, Bool.not_or, Bool.and_eq_true] at h
    exact h.2
  have h₁ := hle before
  have h₂ := hle after
  simp only [unvisited, hcells, List.countP_append]
  rw [List.countP_cons_of_neg (by simp), List.countP_cons_of_pos (by simpa using hpath)]
  omega

end Sheet

end PostfixSheet
