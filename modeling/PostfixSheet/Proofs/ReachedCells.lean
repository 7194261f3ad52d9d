import PostfixSheet.Proofs.ReferenceGraph
import PostfixSheet.Proofs.TwoSheets

/-!
# A result depends on the reached cells alone

Two sheets that agree on the cells that are reached from a cell, whether those are cells of the sheets
or lie outside of them, give that cell one result. The naive evaluation goes from a cell to cells that
it refers to, so it never comes to one where the sheets may differ; and the evaluation with a state is
the naive one under both policies.

Results:
* `compares_of_agree`: a cell from which the sheets agree looks up such cells only.
* `pathValue_of_agree`: so the naive value is the same on every path.
* `calculateCell_of_agree`: so is what an evaluation comes to, a value or a fault with all that it tells.
-/

namespace PostfixSheet

variable {sheet other : Sheet} {a b : Address}

namespace Sheet

/-- The two sheets hold the same at all addresses that are reached in the first one: the same text, or
both none. -/
def AgreesFrom (sheet other : Sheet) (a : Address) : Prop :=
  ∀ b, sheet.Reaches a b → other.get? b = sheet.get? b

theorem AgreesFrom.get?_eq (h : sheet.AgreesFrom other a) : other.get? a = sheet.get? a :=
  h a .refl

theorem AgreesFrom.of_refers (h : sheet.AgreesFrom other a) (hab : sheet.Refers a b) :
    sheet.AgreesFrom other b :=
  fun c hbc => h c (hbc.head hab)

end Sheet

/-- **Cells from which the sheets agree are compared**, whatever the path is. -/
theorem compares_of_agree : Compares (· = ·) sheet other fun _ a => sheet.AgreesFrom other a :=
  fun _ _ h _ =>
    Or.inr ⟨formula_alike_of_get? (fun _ => rfl) h.get?_eq, fun _ hb => h.of_refers hb.refers⟩

/-- **The naive value depends on the reached cells alone**, on every path. -/
theorem pathValue_of_agree {path : List Address} {a : Address} (h : sheet.AgreesFrom other a) :
    pathValue other path a = pathValue sheet path a :=
  (compares_of_agree.alike (fun _ => rfl) h).eq

/-- What the tokens of a cell are worth depends on the reached cells alone. -/
theorem tokensBy_pathValue_of_agree {raw : String} (h : sheet.AgreesFrom other a)
    (hraw : sheet.get? a = some raw) :
    tokensBy (pathValue other []) (tokenize raw) = tokensBy (pathValue sheet []) (tokenize raw) := by
  refine (tokensBy_alike (fun _ => rfl) fun b hb => ?_).eq
  obtain ⟨token, htoken, htarget⟩ := hb.exists_mem
  obtain ⟨r, rfl, hr⟩ := target?_eq_some_iff.mp htarget
  rw [pathValue_of_agree (h.of_refers ⟨raw, r, hraw, htoken, hr⟩)]
  exact .refl (fun _ => rfl) _

/-- **A cell's result depends only on the cells that it reaches**: two sheets of any shapes that agree on
these give it the same value, or the same fault with all that it tells, under both policies. -/
theorem calculateCell_of_agree (sheet other : Sheet) (a : Address)
    (h : ∀ b, sheet.Reaches a b → other.get? b = sheet.get? b) (policy : Policy) :
    calculateCell other a policy = calculateCell sheet a policy := by
  have hagree : sheet.AgreesFrom other a := h
  rw [calculateCell_eq_naive, calculateCell_eq_naive, hagree.get?_eq]
  cases hraw : sheet.get? a with
  | none => rfl
  | some raw =>
    simp only [Call.naive, Call.valueBy_eq, Call.tokens]
    exact tokensBy_pathValue_of_agree hagree hraw

/-- The first cell reaches `B1` and the missing `Z9`; that the second sheet has neither the row below nor
the same cell `C1` makes no difference to it. -/
theorem calculateCell_of_agree_two_sheets :
    calculateCell ⟨[["B1 Z9 +", "3", "5"]]⟩ ⟨0, 0⟩ .cache =
      calculateCell ⟨[["B1 Z9 +", "3", "A1"], ["7"]]⟩ ⟨0, 0⟩ .cache := by
  refine calculateCell_of_agree ⟨[["B1 Z9 +", "3", "A1"], ["7"]]⟩ ⟨[["B1 Z9 +", "3", "5"]]⟩ ⟨0, 0⟩
    (fun b hb => ?_) .cache
  have hreached : b = ⟨0, 0⟩ ∨ b = ⟨0, 1⟩ ∨ b = ⟨8, 25⟩ := by
    induction hb with
    | refl => exact Or.inl rfl
    | tail _ hstep ih =>
      obtain ⟨raw, r, hraw, hr, hb⟩ := hstep
      rcases ih with rfl | rfl | rfl
      · cases hraw
        have ht : tokenize "B1 Z9 +" = [.reference ⟨"B1", some ⟨0, 1⟩⟩,
            .reference ⟨"Z9", some ⟨8, 25⟩⟩, .operator .add] := rfl
        rw [ht] at hr
        simp only [List.mem_cons, Token.reference.injEq, List.not_mem_nil, reduceCtorEq,
          or_false] at hr
        rcases hr with rfl | rfl
        · cases hb
          exact Or.inr (Or.inl rfl)
        · cases hb
          exact Or.inr (Or.inr rfl)
      · cases hraw
        exact absurd hr (List.not_mem_cons_of_ne_of_not_mem nofun List.not_mem_nil)
      · cases hraw
  rcases hreached with rfl | rfl | rfl <;> rfl

end PostfixSheet
