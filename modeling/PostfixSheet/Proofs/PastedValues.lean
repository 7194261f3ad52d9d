import Mathlib.Control.Monad.Basic
import PostfixSheet.Proofs.TwoSheets

/-!
# Pasting values over cells

The text of a cell may be replaced by the number that the cell evaluates to. This cuts all references
from it and shows nowhere, neither in what any cell comes to nor in which cell is blamed for a cycle. A
cell with a value leads to no cycle, so on every path of references to it the old text comes to the value
that the new text is; and no path goes on behind it.

* `Sheet.paste` puts a text into a cell.

Results:
* `get?_paste`, `map_length_paste`: pasting changes the text of one cell, and no shape.
* `compares_of_paste`: naive values off that cell are compared on all paths of references.
* `paste_value_eq`: so every cell has the same result as before, and the whole sheet the same results and
  counts.
-/

namespace PostfixSheet

variable {sheet : Sheet} {a b : Address} {text : String} {x : Float}

namespace Sheet

/-- The sheet with the text in the cell at the address, if there is such a cell. -/
def paste (sheet : Sheet) (a : Address) (text : String) : Sheet :=
  ⟨sheet.rows.modify a.row fun row => row.set a.col text⟩

/-- The cell holds the text, if there is such a cell, and all others what they held. -/
theorem get?_paste (sheet : Sheet) (a b : Address) (text : String) :
    (sheet.paste a text).get? b =
      if b = a then (sheet.get? a).map fun _ => text else sheet.get? b := by
  obtain ⟨r, c⟩ := a
  obtain ⟨r', c'⟩ := b
  simp only [paste, get?, List.getElem?_modify, Address.mk.injEq]
  by_cases hr : r = r'
  · subst hr
    cases sheet.rows[r]? with
    | none => simp
    | some row =>
      by_cases hc : c = c'
      · subst hc
        by_cases hlt : c < row.length
        · simp [hlt]
        · simp [hlt]
      · simp [hc, Ne.symm hc]
  · simp [hr, Ne.symm hr]

theorem get?_paste_self {raw : String} (hraw : sheet.get? a = some raw) (text : String) :
    (sheet.paste a text).get? a = some text := by
  rw [get?_paste, if_pos rfl, hraw, Option.map_some]

theorem get?_paste_of_ne (h : b ≠ a) (text : String) :
    (sheet.paste a text).get? b = sheet.get? b := by
  rw [get?_paste, if_neg h]

theorem map_length_paste (sheet : Sheet) (a : Address) (text : String) :
    (sheet.paste a text).rows.map List.length = sheet.rows.map List.length := by
  refine List.ext_getElem? fun r => ?_
  simp only [paste, List.getElem?_map, List.getElem?_modify]
  by_cases hr : a.row = r
  · cases sheet.rows[r]? <;> simp [hr]
  · simp [hr]

end Sheet

/-! ## The pasted cell -/

theorem tokenize_of_number (h : Content.classify text = .number x) :
    tokenize text = [.number x] := by
  rcases classify_cases text with ⟨y, ht, hc⟩ | ⟨r, -, hc⟩ | hc | ⟨hc, -⟩
  · rw [hc] at h
    cases h
    exact ht
  · cases hc.symm.trans h
  · cases hc.symm.trans h
  · cases hc.symm.trans h

/-- The cell comes to the pasted number on every path that it is not on. -/
theorem pathValue_paste_self {raw : String} {path : List Address} (hraw : sheet.get? a = some raw)
    (htext : Content.classify text = .number x) (hmem : a ∉ path) :
    pathValue (sheet.paste a text) path a = .ok x := by
  rw [pathValue_of_not_mem hmem, cellBy, Sheet.get?_paste_self hraw]
  simp only [textBy, htext]

/-! ## All cells -/

/-- **Naive values off the pasted cell are compared** on all paths of references, until the cell is looked
up. -/
theorem compares_of_paste {raw : String} (hraw : sheet.get? a = some raw)
    (hx : pathValue sheet [] a = .ok x) (htext : Content.classify text = .number x) :
    Compares (· = ·) sheet (sheet.paste a text) fun path b =>
      a ∉ path ∧ ∀ p ∈ path, Needs sheet p b := by
  rintro path b ⟨ha, hpath⟩ hb
  by_cases hba : b = a
  · subst hba
    -- a value is the same on every path that needs it, so no cycle can come in between
    rw [pathValue_of_nil hpath hx, pathValue_paste_self hraw htext hb]
    exact Or.inl (.ok x)
  · refine Or.inr ⟨?_, fun c hc => ⟨?_, ?_⟩⟩
    · exact formula_alike_of_get? (fun _ => rfl) (Sheet.get?_paste_of_ne hba text)
    · exact List.not_mem_cons_of_ne_of_not_mem (Ne.symm hba) ha
    · exact needs_cons hpath (needs_of_scans (fun _ _ => exists_depthValue_of_pathValue) hc)

/-- A cell evaluates to what it did before. -/
theorem calculateCell_paste {policy₀ : Policy} (hx : calculateCell sheet a policy₀ = .ok x)
    (htext : Content.classify text = .number x) (b : Address) (policy : Policy) :
    calculateCell (sheet.paste a text) b policy = calculateCell sheet b policy := by
  rw [calculateCell_eq_ok_iff] at hx
  obtain ⟨raw, hraw⟩ : ∃ raw, sheet.get? a = some raw := by
    cases hraw : sheet.get? a with
    | none =>
      rw [pathValue_of_not_mem List.not_mem_nil, cellBy, hraw] at hx
      cases hx
    | some raw => exact ⟨raw, rfl⟩
  by_cases hba : b = a
  · subst hba
    rw [(calculateCell_eq_ok_iff sheet b policy x).mpr hx,
      calculateCell_of_get? (Sheet.get?_paste_self hraw text), tokenize_of_number htext,
      tokensBy_number]
  · refine (calculateCell_alike (fun _ => rfl) ?_ (fun _ c _ _ => ?_) policy).eq
    · rw [Sheet.get?_paste_of_ne hba]
    · exact (compares_of_paste hraw hx htext).alike (fun _ => rfl)
        ⟨List.not_mem_nil, List.forall_mem_nil _⟩

/-- **Pasting a computed value over its cell changes nothing**: every cell comes to the same value, or the
same fault with all that it tells, and the whole sheet to the same results and counts, under both
policies. -/
theorem paste_value_eq (sheet : Sheet) (a : Address) (text : String) (x : Float) (policy₀ : Policy)
    (hx : calculateCell sheet a policy₀ = .ok x) (htext : Content.classify text = .number x) :
    (∀ b policy, calculateCell (sheet.paste a text) b policy = calculateCell sheet b policy) ∧
      ∀ policy, calculate (sheet.paste a text) policy = calculate sheet policy := by
  refine ⟨calculateCell_paste hx htext, fun policy => ?_⟩
  refine calculate_congr (Sheet.map_length_paste sheet a text) policy fun b => ?_
  rw [calculateCell_paste hx htext]

/-- The cell in the middle refers to the first one and is referred to by a cycle; its value in another
spelling cuts the reference, and the cycle is found as before. -/
theorem paste_value_eq_before_cycle :
    calculateCell ⟨[["2", "A1 3 *", "B1 D1 +", "C1"]]⟩ ⟨0, 1⟩ .cache = .ok 6 ∧
      Content.classify " +0.6E1" = .number 6 ∧
      calculate ⟨[["2", " +0.6E1", "B1 D1 +", "C1"]]⟩ .rewalk =
        calculate ⟨[["2", "A1 3 *", "B1 D1 +", "C1"]]⟩ .rewalk := by
  have hx : calculateCell ⟨[["2", "A1 3 *", "B1 D1 +", "C1"]]⟩ ⟨0, 1⟩ .cache = .ok 6 := by
    decide +kernel
  have htext : Content.classify " +0.6E1" = .number 6 := by decide +kernel
  exact ⟨hx, htext, (paste_value_eq _ ⟨0, 1⟩ " +0.6E1" 6 .cache hx htext).2 .rewalk⟩

end PostfixSheet
