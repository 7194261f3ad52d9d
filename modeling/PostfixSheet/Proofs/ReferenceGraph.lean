import Mathlib.Logic.Relation
import PostfixSheet.Proofs.Values

/-!
# The reference graph

A cell refers to the cells that its text mentions, whether an evaluation comes to look them up or not.
Only a cell of the sheet refers to anything, so a cycle never leaves the sheet.

* `Sheet.Refers` is one step of the graph, `Sheet.Reaches` any number of them, and `Sheet.OnCycle` says
  that some steps lead back.
* `Sheet.LeadsToCycle` says that a cell on a cycle is reached.

Results:
* `refers_iff_formula`: the references of a cell are those of its formula.
* `Scans.refers`: a cell refers to all that it looks up.
* `LeadsToCycle.exists_refers`: what leads to a cycle refers to a cell that does.
-/

namespace PostfixSheet

namespace Sheet

/-- The cell at an address mentions the other address in its text. -/
def Refers (sheet : Sheet) (a b : Address) : Prop :=
  ∃ raw r, sheet.get? a = some raw ∧ Token.reference r ∈ tokenize raw ∧ r.address = some b

/-- References lead from one address to the other, or the two are the same. -/
def Reaches (sheet : Sheet) : Address → Address → Prop := Relation.ReflTransGen sheet.Refers

/-- References lead from the address back to it. -/
def OnCycle (sheet : Sheet) (a : Address) : Prop := Relation.TransGen sheet.Refers a a

/-- References lead from the address to a cycle. -/
def LeadsToCycle (sheet : Sheet) (a : Address) : Prop := ∃ b, sheet.Reaches a b ∧ sheet.OnCycle b

end Sheet

variable {sheet : Sheet} {a b : Address}

/-! ## References in tokens -/

theorem target?_eq_some_iff {token : Token} :
    token.target? = some a ↔ ∃ r, token = .reference r ∧ r.address = some a := by
  cases token <;> simp [Token.target?]

/-- A text that is no formula mentions nothing. -/
theorem reference_not_mem_of_other {raw : String} (h : Content.classify raw = .other)
    (r : Reference) : Token.reference r ∉ tokenize raw := by
  rcases classify_eq_other_iff.mp h with ht | ⟨op, ht⟩ | ⟨text, ht⟩ <;> simp [ht]

/-- **The references of a cell are those of its formula.** -/
theorem refers_iff_formula :
    sheet.Refers a b ↔
      ∃ tokens, sheet.formula a = .ok tokens ∧ ∃ token ∈ tokens, token.target? = some b := by
  constructor
  · rintro ⟨raw, r, hraw, hr, hb⟩
    have hc : Content.classify raw ≠ .other := fun hc => reference_not_mem_of_other hc r hr
    exact ⟨tokenize raw, formula_eq_ok_iff.mpr ⟨raw, hraw, hc, rfl⟩, .reference r, hr, hb⟩
  · rintro ⟨tokens, hformula, token, htoken, htarget⟩
    obtain ⟨raw, hraw, -, rfl⟩ := formula_eq_ok_iff.mp hformula
    obtain ⟨r, rfl, hr⟩ := target?_eq_some_iff.mp htarget
    exact ⟨raw, r, hraw, htoken, hr⟩

/-! ## References that are looked up -/

theorem Scanned.exists_mem {value : Address → Except Fault Float} {tokens : List Token}
    (h : Scanned value tokens a) : ∃ token ∈ tokens, token.target? = some a := by
  induction tokens with
  | nil => exact h.elim
  | cons token rest ih =>
    rcases h with ht | ⟨-, hrest⟩
    · exact ⟨token, List.mem_cons_self, ht⟩
    · obtain ⟨token', hmem, ht⟩ := ih hrest
      exact ⟨token', List.mem_cons_of_mem _ hmem, ht⟩

/-- A cell refers to all that it looks up. -/
theorem Scans.refers {value : Address → Except Fault Float} (h : Scans value sheet a b) :
    sheet.Refers a b := by
  obtain ⟨tokens, hformula, hb⟩ := h
  exact refers_iff_formula.mpr ⟨tokens, hformula, hb.exists_mem⟩

/-! ## Cycles -/

namespace Sheet

/-- **What leads to a cycle refers to a cell that does.** -/
theorem LeadsToCycle.exists_refers (h : sheet.LeadsToCycle a) :
    ∃ b, sheet.Refers a b ∧ sheet.LeadsToCycle b := by
  obtain ⟨c, hac, hc⟩ := h
  rcases hac.cases_head with rfl | ⟨b, hab, hbc⟩
  · -- the cell is on a cycle itself, and so is the next cell on it
    obtain ⟨b, hab, hba⟩ := Relation.TransGen.head'_iff.mp hc
    exact ⟨b, hab, b, .refl, .tail' hba hab⟩
  · exact ⟨b, hab, c, hbc, hc⟩

end Sheet

end PostfixSheet
