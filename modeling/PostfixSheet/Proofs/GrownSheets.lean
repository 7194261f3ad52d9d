import PostfixSheet.Proofs.TwoSheets

/-!
# Growing a sheet

A sheet grows when rows are added below it or cells at the ends of its rows: it keeps all its cells with
their texts. What was a reference to a missing cell may then come to a value, and what looked that cell up
with it. Nothing else changes. A fault is never passed over, so an evaluation that does not tell of a
missing cell has not looked for one, and it goes the same way in the larger sheet.

* `Sheet.GrowsTo` compares the cells of two sheets, and can be decided.
* `Located` says that a result tells of no missing cell.

Results:
* `growsTo_iff_prefix`: a sheet grows exactly when all its rows do, each of them at its end.
* `compares_of_growsTo`: a cell with a located naive value looks up cells with such values only, and is
  one of the sheet.
* `calculateCell_of_growsTo`: so growing a sheet changes no result but missing references.
-/

namespace PostfixSheet

variable {sheet larger : Sheet} {a b : Address}

namespace Sheet

/-- All cells of the sheet are cells of the larger one, with the same texts. -/
def GrowsTo (sheet larger : Sheet) : Prop :=
  ∀ a raw, sheet.get? a = some raw → larger.get? a = some raw

/-- Each row grows at its end, and rows past the last one count as empty. -/
theorem growsTo_iff_prefix :
    sheet.GrowsTo larger ↔ ∀ r, sheet.rows.getD r [] <+: larger.rows.getD r [] := by
  have hget : ∀ (s : Sheet) (a : Address), s.get? a = (s.rows.getD a.row [])[a.col]? := by
    intro s a
    rw [get?, List.getD_eq_getElem?_getD]
    cases s.rows[a.row]? <;> rfl
  simp only [GrowsTo, hget, List.prefix_iff_getElem?]
  constructor
  · exact fun h r c hc => h ⟨r, c⟩ _ (List.getElem?_eq_getElem hc)
  · intro h a raw hraw
    obtain ⟨hc, rfl⟩ := List.getElem?_eq_some_iff.mp hraw
    exact h a.row a.col hc

theorem growsTo_iff_cells :
    sheet.GrowsTo larger ↔ ∀ cell ∈ sheet.cells, larger.get? cell.1 = some cell.2 := by
  constructor
  · exact fun h cell hcell => h cell.1 cell.2 ((mem_cells_iff sheet _ _).mp hcell)
  · exact fun h a raw hraw => h (a, raw) ((mem_cells_iff sheet a raw).mpr hraw)

instance (sheet larger : Sheet) : Decidable (sheet.GrowsTo larger) :=
  decidable_of_iff' _ growsTo_iff_cells

end Sheet

/-- A result that tells of no missing cell. -/
def Located {α : Type} (r : Except Fault α) : Prop := ∀ name, r ≠ .error (.invalidReference name)

/-- What comes to a located result is a cell of the sheet. -/
theorem exists_text_of_located {value : Address → Except Fault Float}
    (h : Located (cellBy value sheet a)) : ∃ raw, sheet.get? a = some raw := by
  cases hraw : sheet.get? a with
  | none => exact absurd (by rw [cellBy, hraw]) (h a.a1)
  | some raw => exact ⟨raw, rfl⟩

/-- A located cell looks up located cells only. -/
theorem located_of_scans {value : Address → Except Fault Float} (hb : Scans value sheet a b)
    (h : Located (cellBy value sheet a)) : Located (value b) :=
  fun name hname => h name (cellBy_of_scans_error hb hname)

/-- **Located naive values compare a sheet with a larger one.** -/
theorem compares_of_growsTo (hgrows : sheet.GrowsTo larger) :
    Compares (· = ·) sheet larger fun path a => Located (pathValue sheet path a) := by
  intro path a hlocated hmem
  rw [pathValue_of_not_mem hmem] at hlocated
  obtain ⟨raw, hraw⟩ := exists_text_of_located hlocated
  refine Or.inr ⟨?_, fun b hb => located_of_scans hb hlocated⟩
  exact formula_alike_of_get? (fun _ => rfl) ((hgrows a raw hraw).trans hraw.symm)

/-- **Growing a sheet changes no result but missing references**: a cell that does not tell of one has the
same value, or the same fault with all that it tells, in every larger sheet and under both policies. -/
theorem calculateCell_of_growsTo (hgrows : sheet.GrowsTo larger) (policy : Policy)
    (hlocated : ∀ name, calculateCell sheet a policy ≠ .error (.invalidReference name)) :
    calculateCell larger a policy = calculateCell sheet a policy := by
  cases hraw : sheet.get? a with
  | none => exact absurd (calculateCell_of_get?_none hraw policy) (hlocated a.a1)
  | some raw =>
    have htokens : (larger.get? a).map tokenize = (sheet.get? a).map tokenize := by
      rw [hraw, hgrows a raw hraw]
    refine (calculateCell_alike (fun _ => rfl) htokens (fun raw' b hraw' hb => ?_) policy).eq
    rw [calculateCell_of_get? hraw'] at hlocated
    refine (compares_of_growsTo hgrows).alike (fun _ => rfl) fun name hname => ?_
    exact hlocated name (tokensBy_of_scanned_error hb hname)

/-- The reference to `A2` is not looked at behind the division by zero, so that the row below, which gives
it a value, makes no difference. -/
theorem calculateCell_of_growsTo_new_row :
    Sheet.GrowsTo ⟨[["B1 A2 +", "4 0 /"]]⟩ ⟨[["B1 A2 +", "4 0 /", "A1"], ["7"]]⟩ ∧
      (∀ name, calculateCell ⟨[["B1 A2 +", "4 0 /"]]⟩ ⟨0, 0⟩ .cache ≠
        .error (.invalidReference name)) ∧
      calculateCell ⟨[["B1 A2 +", "4 0 /", "A1"], ["7"]]⟩ ⟨0, 0⟩ .cache =
        .error .divisionByZero := by
  have hgrows : Sheet.GrowsTo ⟨[["B1 A2 +", "4 0 /"]]⟩ ⟨[["B1 A2 +", "4 0 /", "A1"], ["7"]]⟩ := by
    decide
  have hbefore : calculateCell ⟨[["B1 A2 +", "4 0 /"]]⟩ ⟨0, 0⟩ .cache = .error .divisionByZero :=
    rfl
  have hlocated : ∀ name, calculateCell ⟨[["B1 A2 +", "4 0 /"]]⟩ ⟨0, 0⟩ .cache ≠
      .error (.invalidReference name) := fun name h => nomatch hbefore.symm.trans h
  exact ⟨hgrows, hlocated, (calculateCell_of_growsTo hgrows .cache hlocated).trans hbefore⟩

end PostfixSheet
