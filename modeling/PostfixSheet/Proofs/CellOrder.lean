import Mathlib.Algebra.Group.Nat.Defs
import PostfixSheet.Proofs.Cells
import PostfixSheet.Proofs.SheetResults

/-!
# The cells of a sheet in order

The cells are listed row by row. Their addresses come from counting rows and cells, so each one is behind the
one before it, and no cell is listed twice; the list and the lookup agree, whatever lengths the rows have.

The program keeps an address in two words of 32 bits. So the counts are cut down to these, and the list is the
same exactly if no count is past the words.

* `Address.Before` is the strict order of addresses.
* `Sheet.cellsInWords` lists the cells with their addresses cut down to words, as the `cells` of `Grid` does.
* `Sheet.FitsWords` says that there are no more rows than words, and no more cells in any of them.

Results:
* `before_iff`: an address is before another by its row, and in one row by its column.
* `pairwise_sortDistinct`, `mem_sortDistinct`: sorting a list leaves each of its addresses once, in order.
* `pairwise_cells`: the cells are listed in order.
* `cellsInWords_eq_iff`: words are enough exactly if each address fits.
* `cells_in_order`: the list of cells is the lookup in order.
-/

namespace PostfixSheet

namespace Address

/-! ## The strict order -/

/-- An address comes before another one. -/
def Before (a b : Address) : Prop := a.le b = true ∧ a ≠ b

/-- **Addresses are ordered by the row first, and in one row by the column.** -/
theorem before_iff {a b : Address} : Before a b ↔ a.row < b.row ∨ a.row = b.row ∧ a.col < b.col := by
  obtain ⟨row, col⟩ := a
  obtain ⟨row', col'⟩ := b
  simp only [Before, le, Bool.or_eq_true, Bool.and_eq_true, decide_eq_true_eq, ne_eq, mk.injEq]
  omega

theorem Before.trans {a b c : Address} (hab : Before a b) (hbc : Before b c) : Before a c :=
  ⟨le_trans hab.1 hbc.1, fun hac => hab.2 (le_antisymm hab.1 (hac ▸ hbc.1))⟩

/-! ## Sorted addresses -/

section Sorted

variable {a b : Address} {rest gathered : List Address}

theorem mem_eraseReps_loop :
    b ∈ List.eraseRepsBy.loop (· == ·) a rest gathered ↔ b ∈ gathered ∨ b ∈ a :: rest := by
  induction rest generalizing a gathered with
  | nil => simp [List.eraseRepsBy.loop, or_comm]
  | cons c rest ih =>
    rw [List.eraseRepsBy.loop]
    split
    · next h =>
      rw [beq_iff_eq.mp h, ih]
      simp
    · rw [ih]
      simp [or_assoc, or_left_comm]

/-- If what was gathered is in strict order up to the address at hand, it stays so with the next one: that
one is not before the address at hand, and it is gathered only if it is another. -/
theorem pairwise_eraseReps_loop (hsorted : (a :: rest).Pairwise fun a b => a.le b = true)
    (hgathered : (a :: gathered).reverse.Pairwise Before) :
    (List.eraseRepsBy.loop (· == ·) a rest gathered).Pairwise Before := by
  induction rest generalizing a gathered with
  | nil => exact hgathered
  | cons b rest ih =>
    obtain ⟨hle, hrest⟩ := List.pairwise_cons.mp hsorted
    rw [List.eraseRepsBy.loop]
    split
    · next h =>
      obtain rfl := beq_iff_eq.mp h
      exact ih hrest hgathered
    · next h =>
      have hab : Before a b := ⟨hle b List.mem_cons_self, by simpa using h⟩
      refine ih hrest ?_
      rw [List.reverse_cons, List.pairwise_append]
      refine ⟨hgathered, List.pairwise_singleton _ _, fun c hc d hd => ?_⟩
      obtain rfl := List.mem_singleton.mp hd
      rw [List.reverse_cons, List.pairwise_append] at hgathered
      obtain ⟨-, -, hbefore⟩ := hgathered
      rcases List.mem_cons.mp (List.mem_reverse.mp hc) with rfl | hc
      · exact hab
      · exact (hbefore c (List.mem_reverse.mpr hc) a List.mem_cons_self).trans hab

theorem mem_sortDistinct {addresses : List Address} : a ∈ sortDistinct addresses ↔ a ∈ addresses := by
  have hsorted : a ∈ addresses.mergeSort le ↔ a ∈ addresses := List.mem_mergeSort
  rw [sortDistinct, ← hsorted]
  cases addresses.mergeSort le with
  | nil => rfl
  | cons b rest =>
    rw [List.eraseReps, List.eraseRepsBy, mem_eraseReps_loop]
    simp

/-- **Sorting leaves each address once, in strict order.** -/
theorem pairwise_sortDistinct (addresses : List Address) :
    (sortDistinct addresses).Pairwise Before := by
  have hsorted : (addresses.mergeSort le).Pairwise fun a b => le a b = true :=
    @List.pairwise_mergeSort _ le (fun _ _ _ => le_trans) le_total addresses
  rw [sortDistinct]
  generalize addresses.mergeSort le = sorted at hsorted
  cases sorted with
  | nil => exact .nil
  | cons a rest => exact pairwise_eraseReps_loop hsorted (List.pairwise_singleton _ _)

end Sorted

/-! ## Words -/

/-- The address whose row and column are what words of 32 bits keep of two counts. -/
def inWords (row col : Nat) : Address := ⟨(UInt32.ofNat row).toNat, (UInt32.ofNat col).toNat⟩

theorem inWords_eq_iff (a : Address) :
    inWords a.row a.col = a ↔ a.row < 2 ^ 32 ∧ a.col < 2 ^ 32 := by
  obtain ⟨row, col⟩ := a
  rw [inWords, mk.injEq, UInt32.toNat_ofNat', UInt32.toNat_ofNat', Nat.mod_eq_iff_lt (by decide),
    Nat.mod_eq_iff_lt (by decide)]

end Address

namespace Sheet

/-! ## The order of the list -/

/-- What is listed with its count is listed in the order of the counts. -/
theorem pairwise_zipIdx {α : Type} (l : List α) : l.zipIdx.Pairwise fun x y => x.2 < y.2 := by
  have h : (l.zipIdx.map Prod.snd).Pairwise (· < ·) := by
    rw [List.zipIdx_map_snd]
    exact List.pairwise_lt_range' 1
  exact List.pairwise_map.mp h

/-- **The cells are listed in the order of their addresses**: within a row by the column, and all cells of a
row before those of the rows behind it. -/
theorem pairwise_cells (sheet : Sheet) : (sheet.cells.map Prod.fst).Pairwise Address.Before := by
  rw [List.pairwise_map, cells, List.pairwise_flatMap]
  constructor
  · rintro ⟨row, r⟩ -
    rw [List.pairwise_map]
    refine (pairwise_zipIdx row).imp fun {x y} hcol => ?_
    exact Address.before_iff.mpr (.inr ⟨rfl, hcol⟩)
  · refine (pairwise_zipIdx sheet.rows).imp fun {x y} hrow => ?_
    intro cell hcell cell' hcell'
    obtain ⟨place, -, rfl⟩ := List.mem_map.mp hcell
    obtain ⟨place', -, rfl⟩ := List.mem_map.mp hcell'
    exact Address.before_iff.mpr (.inl hrow)

theorem isEmpty_iff (sheet : Sheet) : sheet.isEmpty = true ↔ sheet.cells = [] := by
  rw [isEmpty, beq_iff_eq, ← length_cells, List.length_eq_zero_iff]

/-! ## The list in words -/

/-- `cells` with the counts of rows and cells cut down to words of 32 bits. -/
def cellsInWords (sheet : Sheet) : List (Address × String) :=
  sheet.rows.zipIdx.flatMap fun (row, r) =>
    row.zipIdx.map fun (text, c) => (Address.inWords r c, text)

/-- There are no more rows than words of 32 bits, and no more cells in any row. -/
structure FitsWords (sheet : Sheet) : Prop where
  rowCount_le : sheet.rowCount ≤ 2 ^ 32
  length_le : ∀ row ∈ sheet.rows, row.length ≤ 2 ^ 32

theorem cellsInWords_eq_map (sheet : Sheet) :
    sheet.cellsInWords = sheet.cells.map fun cell =>
      (Address.inWords cell.1.row cell.1.col, cell.2) := by
  simp only [cellsInWords, cells, List.map_flatMap, List.map_map, Function.comp_def]

/-- **The list in words is the list of cells exactly if each address fits into words.** -/
theorem cellsInWords_eq_iff (sheet : Sheet) :
    sheet.cellsInWords = sheet.cells ↔
      ∀ a text, sheet.get? a = some text → a.row < 2 ^ 32 ∧ a.col < 2 ^ 32 := by
  have hkept : sheet.cellsInWords = sheet.cells ↔ ∀ cell ∈ sheet.cells,
      (Address.inWords cell.1.row cell.1.col, cell.2) = id cell := by
    rw [cellsInWords_eq_map, ← List.map_inj_left, List.map_id]
  rw [hkept]
  constructor
  · intro h a text ha
    have hcell := h (a, text) ((mem_cells_iff sheet a text).mpr ha)
    exact (Address.inWords_eq_iff a).mp (congrArg Prod.fst hcell)
  · rintro h ⟨a, text⟩ hcell
    have ha := h a text ((mem_cells_iff sheet a text).mp hcell)
    show (Address.inWords a.row a.col, text) = (a, text)
    rw [(Address.inWords_eq_iff a).mpr ha]

/-- In a sheet that fits into words, so does the address of each cell. -/
theorem FitsWords.address_lt {sheet : Sheet} (h : sheet.FitsWords) {a : Address} {text : String}
    (ha : sheet.get? a = some text) : a.row < 2 ^ 32 ∧ a.col < 2 ^ 32 := by
  obtain ⟨row, hrow, hcol⟩ := Option.bind_eq_some_iff.mp ha
  obtain ⟨hr, rfl⟩ := List.getElem?_eq_some_iff.mp hrow
  obtain ⟨hc, -⟩ := List.getElem?_eq_some_iff.mp hcol
  exact ⟨Nat.lt_of_lt_of_le hr h.rowCount_le,
    Nat.lt_of_lt_of_le hc (h.length_le _ (List.getElem_mem hr))⟩

/-! ## List and lookup -/

/-- **The list of cells is the lookup in order.** It holds an address with a text exactly if the text is found
there, each address is before all addresses behind it, there are as many as the number of cells says, and
none exactly if the sheet is empty; an address is found exactly if its column is below the length of its row.
And a sheet that fits into words has the same list in words. -/
theorem cells_in_order (sheet : Sheet) :
    (∀ a text, (a, text) ∈ sheet.cells ↔ sheet.get? a = some text) ∧
    (sheet.cells.map Prod.fst).Pairwise Address.Before ∧
    sheet.cells.length = sheet.cellCount ∧
    (sheet.isEmpty = true ↔ sheet.cells = []) ∧
    (∀ a, (sheet.get? a).isSome = true ↔ a.col < sheet.rowLength a.row) ∧
    (sheet.FitsWords → sheet.cellsInWords = sheet.cells) := by
  refine ⟨mem_cells_iff sheet, pairwise_cells sheet, length_cells sheet, isEmpty_iff sheet,
    fun _ => isSome_get?_iff, fun hfits => ?_⟩
  exact (cellsInWords_eq_iff sheet).mpr fun _ _ => hfits.address_lt

/-- An empty row between rows of different lengths. -/
theorem cells_in_order_of_ragged_rows :
    (Sheet.mk [["1", "2", "3"], [], ["A1"]]).FitsWords ∧
    (Sheet.mk [["1", "2", "3"], [], ["A1"]]).cellsInWords =
      [(⟨0, 0⟩, "1"), (⟨0, 1⟩, "2"), (⟨0, 2⟩, "3"), (⟨2, 0⟩, "A1")] := by
  have hfits : (Sheet.mk [["1", "2", "3"], [], ["A1"]]).FitsWords :=
    ⟨by decide, by simp⟩
  obtain ⟨-, -, -, -, -, hwords⟩ := cells_in_order ⟨[["1", "2", "3"], [], ["A1"]]⟩
  exact ⟨hfits, (hwords hfits).trans rfl⟩

end Sheet

end PostfixSheet
