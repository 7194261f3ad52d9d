import PostfixSheet.Cell.Address
import PostfixSheet.Cell.Outcome

/-!
# Sheets

Model of `Grid` with its `get`, `row_len`, `row_count`, `max_row_len` (`width`), `cell_count`,
`is_empty` and `cells`, and of `EvaluatedGrid` with its `get`, `row_len`, `row_count`, `error_count`
and `has_shape_of`. The addresses of `cells` are whole here, where the program cuts them down to
words of 32 bits; `Proofs/CellOrder` says for which sheets that is the same.

A sheet holds the raw text of its cells row by row; its rows may differ in length. The results of a
sheet hold an outcome per cell in the same shape.

* `Sheet.get?` looks a cell up, and `Sheet.cells` lists all of them row by row.
* `Results.hasShapeOf` compares the shapes of results and sheet.

Results:
* `hasShapeOf_iff`: the shapes agree exactly when the lists of row lengths are equal.
-/

namespace PostfixSheet

/-- The raw texts of the cells, row by row. -/
structure Sheet where
  rows : List (List String)
  deriving Repr, DecidableEq

namespace Sheet

/-- The text of the cell at an address, if there is one. -/
def get? (sheet : Sheet) (a : Address) : Option String :=
  sheet.rows[a.row]?.bind fun row => row[a.col]?

/-- The number of cells in a row; `0` past the last row. -/
def rowLength (sheet : Sheet) (row : Nat) : Nat := (sheet.rows[row]?.map List.length).getD 0

/-- The number of rows. -/
def rowCount (sheet : Sheet) : Nat := sheet.rows.length

/-- The length of the widest row. -/
def width (sheet : Sheet) : Nat := (sheet.rows.map List.length).foldl max 0

/-- The number of cells. -/
def cellCount (sheet : Sheet) : Nat := sheet.rows.flatten.length

/-- Whether there is no cell. -/
def isEmpty (sheet : Sheet) : Bool := sheet.cellCount == 0

/-- All cells with their addresses, row by row. -/
def cells (sheet : Sheet) : List (Address × String) :=
  sheet.rows.zipIdx.flatMap fun (row, r) => row.zipIdx.map fun (text, c) => (⟨r, c⟩, text)

end Sheet

/-- The outcomes of the cells, row by row. -/
structure Results where
  rows : List (List Outcome)
  deriving Repr, DecidableEq

namespace Results

/-- The outcome at an address, if there is one. -/
def get? (results : Results) (a : Address) : Option Outcome :=
  results.rows[a.row]?.bind fun row => row[a.col]?

/-- The number of outcomes in a row; `0` past the last row. -/
def rowLength (results : Results) (row : Nat) : Nat := (results.rows[row]?.map List.length).getD 0

/-- The number of rows. -/
def rowCount (results : Results) : Nat := results.rows.length

/-- The number of outcomes that are errors. -/
def errorCount (results : Results) : Nat := results.rows.flatten.countP Outcome.isError

/-- Whether the results have as many rows as the sheet, and each of them its length. -/
def hasShapeOf (results : Results) (sheet : Sheet) : Bool :=
  results.rows.length == sheet.rowCount &&
    results.rows.zipIdx.all fun (row, r) => row.length == sheet.rowLength r

/-- **Equal shapes are equal lists of row lengths.** -/
theorem hasShapeOf_iff (results : Results) (sheet : Sheet) :
    results.hasShapeOf sheet = true ↔
      results.rows.map List.length = sheet.rows.map List.length := by
  simp only [hasShapeOf, Sheet.rowCount, Bool.and_eq_true, beq_iff_eq, List.all_eq_true]
  constructor
  · rintro ⟨hlen, hrows⟩
    refine List.ext_getElem (by simpa using hlen) fun i hi hj => ?_
    simp only [List.length_map] at hi hj
    have := hrows (results.rows[i], i) (by
      rw [List.mem_zipIdx_iff_getElem?]
      exact List.getElem?_eq_getElem hi)
    simpa [Sheet.rowLength, List.getElem?_eq_getElem hj] using this
  · intro h
    have hlen : results.rows.length = sheet.rows.length := by
      simpa using congrArg List.length h
    refine ⟨hlen, ?_⟩
    rintro ⟨row, i⟩ hmem
    rw [List.mem_zipIdx_iff_getElem?] at hmem
    have hi := (List.getElem?_eq_some_iff.1 hmem).1
    have hrow := congrArg (fun l => l[i]?) h
    simp only [List.getElem?_map, hmem, List.getElem?_eq_getElem (hlen ▸ hi)] at hrow
    simpa [Sheet.rowLength, List.getElem?_eq_getElem (hlen ▸ hi)] using hrow

end Results

end PostfixSheet
