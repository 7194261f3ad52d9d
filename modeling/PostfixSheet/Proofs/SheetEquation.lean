import PostfixSheet.Proofs.LeastValues
import PostfixSheet.Proofs.SheetResults
import PostfixSheet.Proofs.StaleStates

/-!
# The results solve the sheet

What the results hold for a cell can be told from its text and from the results for the other cells.
Each of these was evaluated on its own, and a cell on a cycle was walked through once more than by the
cell that refers to it, so that the two may blame the cycle on different cells. The results do not show
which cell is blamed, and all else that a reference comes to is what the cell itself came to.

* `Reference.errorIn` is the error of a reference, given the results, and `Sheet.equation` the outcome
  of a text: the error of its leftmost reference with one, or else what its tokens reduce to.

Results:
* `ofResult_tokensBy`: a list of tokens shows the leftmost error among its references, or else what it
  reduces to.
* `get?_calculate_of_formula`: the results show the naive value of every cell with a formula.
* `errorIn_calculate`: the error of a reference, by the results, is what its naive value shows.
* `calculate_solves`: so the results hold for every cell the outcome of its text.
-/

namespace PostfixSheet

/-! ## The equation -/

/-- The number that the results hold at an address; `0` where they hold none. -/
def Results.numberAt (results : Results) (a : Address) : Float :=
  match results.get? a with
  | some (.number x) => x
  | _ => 0

/-- The error of a reference: it names no cell, its cell holds no formula, or its cell has an error. -/
def Reference.errorIn (sheet : Sheet) (results : Results) (r : Reference) : Option ErrorKind :=
  match r.address with
  | none => some .reference
  | some a =>
    match sheet.get? a with
    | none => some .reference
    | some raw =>
      match tokenize raw with
      | [] | [.operator _] | [.invalid _] => some .value
      | _ =>
        match results.get? a with
        | some (.error kind) => some kind
        | _ => none

/-- The error of a token, which only a reference has before anything is computed. -/
def Token.errorIn (sheet : Sheet) (results : Results) : Token → Option ErrorKind
  | .reference r => r.errorIn sheet results
  | _ => none

/-- **The outcome of a text**, given the results for all cells. -/
def Sheet.equation (sheet : Sheet) (results : Results) (raw : String) : Outcome :=
  match tokenize raw with
  | [.number x] => .number x
  | [] | [.operator _] => .error .expression
  | [.invalid _] => .error .token
  | tokens =>
    match tokens.findSome? (Token.errorIn sheet results) with
    | some kind => .error kind
    | none => Outcome.ofResult (reduce (tokens.map (Token.fill results.numberAt)))

/-! ## What tokens show -/

/-- The error that the results show of a value or a fault. -/
def errorShown {α : Type} : Except Fault α → Option ErrorKind
  | .ok _ => none
  | .error fault => some fault.kind

/-- Results that differ at most in the cell that is blamed for a cycle show the same. -/
theorem ofResult_eq_of_alike {r t : Except Fault Float} (h : Alike Fault.SameUpToCycle r t) :
    Outcome.ofResult r = Outcome.ofResult t := by
  cases h with
  | ok x => rfl
  | error h =>
    rcases h with rfl | ⟨⟨b, rfl⟩, c, rfl⟩
    · rfl
    · rfl

section Tokens

variable {value : Address → Except Fault Float} {number : Address → Float}

/-- The first error of a list of tokens is that of its leftmost token with one. -/
theorem errorShown_substituteBy (tokens : List Token) :
    errorShown (substituteBy value tokens) =
      tokens.findSome? fun token => errorShown (token.fillBy value) := by
  induction tokens with
  | nil => rfl
  | cons token rest ih =>
    rw [List.findSome?_cons, substituteBy, ← ih]
    cases token.fillBy value with
    | error e => rfl
    | ok filled => cases substituteBy value rest <;> rfl

/-- **A list of tokens shows the leftmost error among its tokens**, or else what it reduces to. -/
theorem ofResult_tokensBy (hnumber : ∀ b x, value b = .ok x → number b = x) (tokens : List Token) :
    Outcome.ofResult (tokensBy value tokens) =
      match tokens.findSome? fun token => errorShown (token.fillBy value) with
      | some kind => .error kind
      | none => Outcome.ofResult (reduce (tokens.map (Token.fill number))) := by
  rw [← errorShown_substituteBy, tokensBy]
  cases hs : substituteBy value tokens with
  | error e => rfl
  | ok numbers =>
    have hfill : substituteBy value tokens = .ok (tokens.map (Token.fill number)) := by
      refine substituteBy_eq_fill fun r hr => ?_
      obtain ⟨b, x, hb, hx⟩ := exists_value_of_substituteBy hs hr
      exact ⟨b, hb, by rw [hnumber b x hx, hx]⟩
    rw [hs] at hfill
    cases hfill
    rfl

end Tokens

/-! ## What the results show -/

variable {sheet : Sheet} {policy : Policy} {a : Address} {x : Float}

/-- A cell without a formula has the fault of one. -/
theorem pathValue_nil_of_formula_error {e : Fault} (h : sheet.formula a = .error e) :
    pathValue sheet [] a = .error e := by
  rw [pathValue_of_not_mem List.not_mem_nil, cellBy_eq_bind, h]
  rfl

/-- What a text comes to in a sheet is what it is worth naively, with either policy. -/
theorem outcomeOf_eq_naive (sheet : Sheet) (policy : Policy) (raw : String) :
    outcomeOf sheet policy raw =
      Outcome.ofResult (tokensBy (pathValue sheet []) (tokenize raw)) :=
  congrArg Outcome.ofResult
    (((Call.evaluateCell raw).run_new sheet policy).trans (Call.valueBy_eq _ _))

/-- The results show what each text is worth naively. -/
theorem get?_calculate (sheet : Sheet) (policy : Policy) (a : Address) :
    (calculate sheet policy).results.get? a =
      (sheet.get? a).map fun raw =>
        Outcome.ofResult (tokensBy (pathValue sheet []) (tokenize raw)) := by
  rw [get?_results_outcomeOf, funext (outcomeOf_eq_naive sheet policy)]

/-- **Keeping values changes neither the results nor the counts of a sheet.** -/
theorem calculate_policy (sheet : Sheet) (policy other : Policy) :
    calculate sheet policy = calculate sheet other := by
  have houtcome : outcomeOf sheet policy = outcomeOf sheet other := by
    funext raw
    rw [outcomeOf_eq_naive, outcomeOf_eq_naive]
  rw [calculate_eq, calculate_eq, houtcome]

/-- **The results show the naive value of every cell with a formula.** -/
theorem get?_calculate_of_formula {tokens : List Token} (h : sheet.formula a = .ok tokens) :
    (calculate sheet policy).results.get? a = some (Outcome.ofResult (pathValue sheet [] a)) := by
  have hcell : cellBy (pathValue sheet []) sheet a = tokensBy (pathValue sheet []) tokens := by
    rw [cellBy_eq_bind, h]
    rfl
  obtain ⟨raw, hraw, -, rfl⟩ := formula_eq_ok_iff.mp h
  rw [get?_calculate, hraw, Option.map_some, ← hcell,
    ofResult_eq_of_alike (cellBy_alike_pathValue sheet a)]

/-- The number that the results hold for a cell with a value is that value. -/
theorem numberAt_calculate (h : pathValue sheet [] a = .ok x) :
    (calculate sheet policy).results.numberAt a = x := by
  cases hformula : sheet.formula a with
  | error e =>
    rw [pathValue_nil_of_formula_error hformula] at h
    cases h
  | ok tokens =>
    rw [Results.numberAt, get?_calculate_of_formula hformula, h]
    rfl

/-- **The error of a reference, by the results, is what its naive value shows.** -/
theorem errorIn_calculate (r : Reference) :
    r.errorIn sheet (calculate sheet policy).results =
      errorShown (r.valueBy (pathValue sheet [])) := by
  unfold Reference.errorIn Reference.valueBy
  cases r.address with
  | none => rfl
  | some a =>
    cases hraw : sheet.get? a with
    | none =>
      simp only [hraw, pathValue_nil_of_formula_error
        (show sheet.formula a = .error (.invalidReference a.a1) by rw [Sheet.formula, hraw])]
      rfl
    | some raw =>
      simp only [hraw]
      by_cases hc : Content.classify raw = .other
      · simp only [pathValue_nil_of_formula_error
          (show sheet.formula a = .error (.invalidContent a raw) by simp [Sheet.formula, hraw, hc])]
        rcases classify_eq_other_iff.mp hc with ht | ⟨op, ht⟩ | ⟨text, ht⟩ <;> rw [ht] <;> rfl
      · rw [get?_calculate_of_formula (formula_eq_ok_iff.mpr ⟨raw, hraw, hc, rfl⟩)]
        rw [classify_eq_other_iff] at hc
        split <;> rename_i ht
        · exact absurd (Or.inl ht) hc
        · exact absurd (Or.inr (Or.inl ⟨_, ht⟩)) hc
        · exact absurd (Or.inr (Or.inr ⟨_, ht⟩)) hc
        · cases pathValue sheet [] a <;> rfl

/-- **The results solve the sheet**: for every cell, on a cycle or not, they hold the outcome of its
text, given the results for all cells. -/
theorem calculate_solves (sheet : Sheet) (policy : Policy) (a : Address) :
    (calculate sheet policy).results.get? a =
      (sheet.get? a).map (sheet.equation (calculate sheet policy).results) := by
  have herror : Token.errorIn sheet (calculate sheet policy).results =
      fun token => errorShown (token.fillBy (pathValue sheet [])) := by
    funext token
    cases token with
    | reference r =>
      rw [Token.errorIn, errorIn_calculate, Token.fillBy]
      cases r.valueBy (pathValue sheet []) <;> rfl
    | number x => rfl
    | operator op => rfl
    | invalid text => rfl
  rw [get?_calculate]
  cases sheet.get? a with
  | none => rfl
  | some raw =>
    simp only [Option.map_some, Sheet.equation, herror]
    split <;> rename_i ht
    · rw [ht, tokensBy_number]
      rfl
    · rw [ht]
      rfl
    · rw [ht]
      rfl
    · rw [ht]
      rfl
    · exact congrArg some (ofResult_tokensBy (fun b x => numberAt_calculate) (tokenize raw))

/-- Cells on a cycle and behind it show the cycle, unless another error stands to the left of it. -/
example : (calculate ⟨[["B1", "A1 Z9 +", "Z9 A1 +"]]⟩ .rewalk).results =
    ⟨[[.error .cycle, .error .cycle, .error .reference]]⟩ := rfl

end PostfixSheet
