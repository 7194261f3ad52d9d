import PostfixSheet.Calculation
import PostfixSheet.Proofs.Sessions

/-!
# Evaluation succeeds on the least values

Which cells have a value can be said without any evaluation: `HasValue` is the least relation that
gives a number its value, a reference that of its cell, and an expression what its tokens reduce to
once all its references have been replaced by values. A cell on a cycle, or behind one, gets none,
since a derivation is finite.

Results:
* `hasValue_iff_pathValue`: the least values are the naive values that are no faults.
* `calculateCell_eq_ok_iff_hasValue`: so they are what an evaluation succeeds with, under both
  policies.
-/

namespace PostfixSheet

/-- A token with the number of the cell that it refers to in its place. -/
def Token.fill (number : Address → Float) : Token → Token
  | .reference r =>
    match r.address with
    | some a => .number (number a)
    | none => .reference r
  | token => token

/-- **The least values of a sheet.** -/
inductive HasValue (sheet : Sheet) : Address → Float → Prop
  | number {a : Address} {raw : String} {x : Float} (hraw : sheet.get? a = some raw)
      (hclass : Content.classify raw = .number x) : HasValue sheet a x
  | reference {a b : Address} {raw : String} {r : Reference} {x : Float}
      (hraw : sheet.get? a = some raw) (hclass : Content.classify raw = .reference r)
      (hr : r.address = some b) (hb : HasValue sheet b x) : HasValue sheet a x
  | expression {a : Address} {raw : String} {tokens : List Token} {x : Float}
      (number : Address → Float) (hraw : sheet.get? a = some raw)
      (hclass : Content.classify raw = .expression tokens)
      (haddr : ∀ r, Token.reference r ∈ tokens → ∃ b, r.address = some b)
      (hvalue : ∀ r b, Token.reference r ∈ tokens → r.address = some b →
        HasValue sheet b (number b))
      (hreduce : reduce (tokens.map (Token.fill number)) = .ok x) : HasValue sheet a x

/-! ## Tokens without faults -/

section Tokens

variable {value : Address → Except Fault Float} {number : Address → Float} {tokens : List Token}
  {x : Float}

theorem valueBy_eq_ok_iff {r : Reference} :
    r.valueBy value = .ok x ↔ ∃ b, r.address = some b ∧ value b = .ok x := by
  unfold Reference.valueBy
  cases r.address with
  | none => simp
  | some b => simp

/-- References with values are replaced by them. -/
theorem substituteBy_eq_fill
    (h : ∀ r, Token.reference r ∈ tokens → ∃ b, r.address = some b ∧ value b = .ok (number b)) :
    substituteBy value tokens = .ok (tokens.map (Token.fill number)) := by
  induction tokens with
  | nil => rfl
  | cons token rest ih =>
    have hfill : token.fillBy value = .ok (token.fill number) := by
      cases token with
      | reference r =>
        obtain ⟨b, hr, hb⟩ := h r List.mem_cons_self
        rw [Token.fillBy, valueBy_eq_ok_iff.mpr ⟨b, hr, hb⟩, Token.fill, hr]
        rfl
      | number x => rfl
      | operator op => rfl
      | invalid text => rfl
    rw [substituteBy, hfill, ih fun r hr => h r (List.mem_cons_of_mem _ hr)]
    rfl

/-- All references have values if the tokens have no fault. -/
theorem exists_value_of_substituteBy {numbers : List Token}
    (h : substituteBy value tokens = .ok numbers) {r : Reference}
    (hr : Token.reference r ∈ tokens) : ∃ b x, r.address = some b ∧ value b = .ok x := by
  induction tokens generalizing numbers with
  | nil => exact absurd hr List.not_mem_nil
  | cons token rest ih =>
    rw [substituteBy] at h
    obtain ⟨filled, hfill, h⟩ := exists_of_bind_eq_ok h
    obtain ⟨numbers', hrest, -⟩ := exists_of_bind_eq_ok h
    rcases List.mem_cons.mp hr with rfl | hr
    · rw [Token.fillBy] at hfill
      obtain ⟨x, hv, -⟩ := exists_of_bind_eq_ok hfill
      obtain ⟨b, hb, hx⟩ := valueBy_eq_ok_iff.mp hv
      exact ⟨b, x, hb, hx⟩
    · exact ih hrest hr

end Tokens

/-! ## The least values are the naive ones -/

variable {sheet : Sheet} {a : Address} {x : Float}

/-- A cell that has a value from values is worth it naively. -/
theorem pathValue_nil_of_cellBy (h : cellBy (pathValue sheet []) sheet a = .ok x) :
    pathValue sheet [] a = .ok x := by
  rw [pathValue_of_settled_cellBy (h ▸ settled_ok x), h]

theorem pathValue_of_hasValue (h : HasValue sheet a x) : pathValue sheet [] a = .ok x := by
  induction h with
  | number hraw hclass =>
    apply pathValue_nil_of_cellBy
    simp only [cellBy, hraw, textBy, hclass]
  | reference hraw hclass hr _ ih =>
    apply pathValue_nil_of_cellBy
    simp only [cellBy, hraw, textBy, hclass]
    exact valueBy_eq_ok_iff.mpr ⟨_, hr, ih⟩
  | expression number hraw hclass haddr _ hreduce ih =>
    apply pathValue_nil_of_cellBy
    simp only [cellBy, hraw, textBy, hclass, tokensBy]
    rw [substituteBy_eq_fill fun r hr => ?_]
    · exact hreduce
    · obtain ⟨b, hb⟩ := haddr r hr
      exact ⟨b, hb, ih r b hr hb⟩

theorem hasValue_of_depthValue (depth : Nat) : ∀ {a : Address} {x : Float},
    depthValue sheet depth a = .ok x → HasValue sheet a x := by
  induction depth with
  | zero => nofun
  | succ depth ih =>
    intro a x h
    rw [depthValue, cellBy] at h
    cases hraw : sheet.get? a with
    | none =>
      rw [hraw] at h
      cases h
    | some raw =>
      simp only [hraw, textBy] at h
      cases hclass : Content.classify raw with
      | number y =>
        rw [hclass] at h
        cases h
        exact .number hraw hclass
      | reference r =>
        rw [hclass] at h
        obtain ⟨b, hr, hb⟩ := valueBy_eq_ok_iff.mp h
        exact .reference hraw hclass hr (ih hb)
      | expression tokens =>
        simp only [hclass, tokensBy] at h
        obtain ⟨numbers, hs, -⟩ := exists_of_bind_eq_ok h
        -- each reference is worth what the depth below says, so that is the choice of numbers
        let number : Address → Float := fun b => (depthValue sheet depth b).toOption.getD 0
        have hvalue : ∀ r, Token.reference r ∈ tokens →
            ∃ b, r.address = some b ∧ depthValue sheet depth b = .ok (number b) := by
          intro r hr
          obtain ⟨b, y, hb, hy⟩ := exists_value_of_substituteBy hs hr
          refine ⟨b, hb, ?_⟩
          simp only [number, hy]
          rfl
        rw [substituteBy_eq_fill hvalue] at h
        refine .expression number hraw hclass (fun r hr => ?_) (fun r b hr hb => ?_) h
        · obtain ⟨b, hb, -⟩ := hvalue r hr
          exact ⟨b, hb⟩
        · obtain ⟨c, hc, hy⟩ := hvalue r hr
          rw [hb] at hc
          cases hc
          exact ih hy
      | other =>
        rw [hclass] at h
        cases h

/-- **The least values are the naive values that are no faults.** -/
theorem hasValue_iff_pathValue : HasValue sheet a x ↔ pathValue sheet [] a = .ok x := by
  refine ⟨pathValue_of_hasValue, fun h => ?_⟩
  obtain ⟨depth, hdepth⟩ := exists_depthValue_of_pathValue h
  exact hasValue_of_depthValue depth hdepth

/-! ## Evaluation -/

/-- What a cell evaluates to on its own is the naive value of its tokens. -/
theorem calculateCell_eq_naive (sheet : Sheet) (a : Address) (policy : Policy) :
    calculateCell sheet a policy =
      match sheet.get? a with
      | none => .error (.invalidReference a.a1)
      | some raw => (Call.evaluateCell raw).naive sheet := by
  unfold calculateCell
  cases sheet.get? a with
  | none => rfl
  | some raw => exact (Call.evaluateCell raw).run_new sheet policy

theorem calculateCell_eq_ok_iff (sheet : Sheet) (a : Address) (policy : Policy) (x : Float) :
    calculateCell sheet a policy = .ok x ↔ pathValue sheet [] a = .ok x := by
  have hcell : calculateCell sheet a policy = .ok x ↔
      cellBy (pathValue sheet []) sheet a = .ok x := by
    rw [calculateCell_eq_naive, cellBy]
    cases sheet.get? a with
    | none => exact Iff.rfl
    | some raw =>
      simp only [Call.naive, Call.valueBy, textBy]
      rcases classify_cases raw with ⟨y, ht, hc⟩ | ⟨r, ht, hc⟩ | hc | ⟨hc, ht⟩
      · rw [hc]
      · rw [hc]
      · rw [hc]
      · -- a text that is no formula has a fault either way, if not the same one
        rw [hc]
        refine iff_of_false (fun h => ?_) (fun h => by cases h)
        rcases ht with ht | ⟨op, ht⟩ | ⟨text, ht⟩ <;> rw [ht] at h <;> cases h
  rw [hcell]
  refine ⟨pathValue_nil_of_cellBy, fun h => ?_⟩
  rw [cellBy_of_settled (h ▸ settled_ok x), h]

/-- **Evaluation succeeds exactly on the least values**, under both policies: of a cell on its own, and
of a reference to it from a new state. -/
theorem calculateCell_eq_ok_iff_hasValue (sheet : Sheet) (a : Address) (policy : Policy)
    (x : Float) :
    (calculateCell sheet a policy = .ok x ↔ HasValue sheet a x) ∧
      ∀ name, (resolve sheet ⟨name, some a⟩ (State.new policy)).1 = .ok x ↔ HasValue sheet a x := by
  refine ⟨?_, fun name => ?_⟩
  · rw [calculateCell_eq_ok_iff, hasValue_iff_pathValue]
  · have hcall := (Call.resolve ⟨name, some a⟩).run_new sheet policy
    rw [show (resolve sheet ⟨name, some a⟩ (State.new policy)).1 = _ from hcall,
      hasValue_iff_pathValue]
    exact Iff.rfl

end PostfixSheet
