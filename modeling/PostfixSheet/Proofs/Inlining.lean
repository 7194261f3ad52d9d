import Mathlib.Control.Monad.Basic
import PostfixSheet.Proofs.Sessions

/-!
# Inlining references

A reference that has a value may be replaced by the tokens of the cell that it names, wherever it stands
among others. Tokens that come to one value act as that value: whatever the stack is before them, they only
put the value on top of it, and what comes after them goes on from there, to a value or a fault. And the
tokens of a cell come to the value of every reference to it, since a cell with a value leads to no cycle and
has that value on every path.

Results:
* `push_append`, `stackAfter_append_below`: what lies below on the stack is left alone.
* `reduce_context`, `tokensBy_context`: tokens that come to one value act as that value.
* `exists_tokens_of_resolve`: a reference with a value names a cell whose tokens have that value.
* `evaluate_inline`: so a reference with a value may be replaced by the tokens of its cell.
-/

namespace PostfixSheet

open Postfix

variable {stack next : List Float} {token : Token} {tokens : List Token} {x : Float}

/-! ## Below on the stack -/

/-- **A token leaves alone what lies below** the part of the stack that it needs. -/
theorem push_append (h : push stack token = .ok next) (below : List Float) :
    push (stack ++ below) token = .ok (next ++ below) := by
  cases token with
  | number y =>
    cases h
    rfl
  | operator op =>
    match stack with
    | [] => cases h
    | [b] => cases h
    | b :: a :: rest =>
      cases hop : op.apply a b with
      | error e =>
        rw [push, hop] at h
        cases h
      | ok y =>
        rw [push, hop] at h
        cases h
        rw [List.cons_append, List.cons_append, push, hop]
        rfl
  | reference r => cases h
  | invalid text => cases h

/-- **So do tokens in a row.** -/
theorem stackAfter_append_below (h : stackAfter stack tokens = .ok next) (below : List Float) :
    stackAfter (stack ++ below) tokens = .ok (next ++ below) := by
  induction tokens generalizing stack with
  | nil =>
    cases h
    rfl
  | cons token rest ih =>
    rw [stackAfter] at h ⊢
    cases hpush : push stack token with
    | error e =>
      rw [hpush] at h
      cases h
    | ok between =>
      rw [hpush] at h
      rw [push_append hpush]
      exact ih h

/-! ## Tokens that come to one value -/

/-- What comes to one value leaves that value alone on the stack. -/
theorem stackAfter_of_reduce (h : reduce tokens = .ok x) : stackAfter [] tokens = .ok [x] := by
  unfold reduce at h
  split at h
  · rename_i stack hstack
    unfold single at h
    split at h
    · cases h
      exact hstack
    · cases h
  · cases h

/-- **Tokens that come to one value act as that value**, above any stack and in front of any others. -/
theorem reduce_context (h : reduce tokens = .ok x) (before after : List Token) :
    reduce (before ++ tokens ++ after) = reduce (before ++ [.number x] ++ after) := by
  have hstack : ∀ below, stackAfter below tokens = stackAfter below [.number x] := fun below =>
    stackAfter_append_below (stackAfter_of_reduce h) below
  have hbefore : ∀ stack, stackAfter stack (before ++ tokens) =
      stackAfter stack (before ++ [.number x]) := by
    intro stack
    rw [stackAfter_append, stackAfter_append]
    cases stackAfter stack before with
    | ok below => exact hstack below
    | error e => rfl
  have hall : stackAfter [] (before ++ tokens ++ after) =
      stackAfter [] (before ++ [.number x] ++ after) := by
    rw [stackAfter_append, hbefore, ← stackAfter_append]
  rw [reduce, reduce, hall]

section Given

variable {value : Address → Except Fault Float}

/-- References are looked up from left to right. -/
theorem substituteBy_append (first second : List Token) :
    substituteBy value (first ++ second) =
      (substituteBy value first >>= fun xs =>
        substituteBy value second >>= fun ys => .ok (xs ++ ys)) := by
  induction first with
  | nil =>
    rw [List.nil_append]
    cases substituteBy value second <;> rfl
  | cons token rest ih =>
    rw [List.cons_append, substituteBy, substituteBy, ih]
    cases token.fillBy value with
    | error e => rfl
    | ok filled =>
      cases substituteBy value rest with
      | error e => rfl
      | ok xs => cases substituteBy value second <;> rfl

/-- **Tokens that have a value act as that value**, whatever references stand before and after them. -/
theorem tokensBy_context (h : tokensBy value tokens = .ok x) (before after : List Token) :
    tokensBy value (before ++ tokens ++ after) =
      tokensBy value (before ++ [.number x] ++ after) := by
  obtain ⟨numbers, hnumbers, hreduce⟩ := exists_of_bind_eq_ok h
  have hnumber : substituteBy value [.number x] = .ok [.number x] := rfl
  rw [tokensBy, tokensBy]
  simp only [substituteBy_append, hnumbers, hnumber]
  -- the references of the tokens are no faults, so the first fault stands outside of them in both lists
  cases substituteBy value before with
  | error e => rfl
  | ok xs =>
    cases substituteBy value after with
    | error e => rfl
    | ok ys => exact reduce_context hreduce xs ys

end Given

/-! ## References to cells -/

variable {sheet : Sheet} {policy : Policy} {r : Reference}

/-- **A reference with a value names a cell whose tokens have that value.** -/
theorem exists_tokens_of_resolve (h : (resolve sheet r (State.new policy)).1 = .ok x) :
    ∃ a raw, r.address = some a ∧ sheet.get? a = some raw ∧
      r.valueBy (pathValue sheet []) = .ok x ∧
      tokensBy (pathValue sheet []) (tokenize raw) = .ok x := by
  have hr : r.valueBy (pathValue sheet []) = .ok x :=
    (Call.run_new sheet (.resolve r) policy).symm.trans h
  cases haddress : r.address with
  | none =>
    rw [Reference.valueBy, haddress] at hr
    cases hr
  | some a =>
    have hvalue : pathValue sheet [] a = .ok x := by
      rw [← hr, Reference.valueBy, haddress]
    have hcell : cellBy (pathValue sheet []) sheet a = .ok x := by
      rw [cellBy_of_settled (hvalue ▸ settled_ok x), hvalue]
    rw [cellBy_eq_bind] at hcell
    obtain ⟨tokens, hformula, htokens⟩ := exists_of_bind_eq_ok hcell
    obtain ⟨raw, hraw, -, rfl⟩ := formula_eq_ok_iff.mp hformula
    exact ⟨a, raw, rfl, hraw, hr, htokens⟩

/-- **A reference can be inlined**: where it has a value, the tokens of the cell that it names may stand in
its place among any others, and the whole comes to the same value, or to the same fault with all that it
tells. -/
theorem evaluate_inline (sheet : Sheet) (policy : Policy) (before after : List Token) (r : Reference)
    (x : Float) (h : (resolve sheet r (State.new policy)).1 = .ok x) :
    ∃ a raw, r.address = some a ∧ sheet.get? a = some raw ∧
      (evaluate sheet (before ++ [.reference r] ++ after) (State.new policy)).1 =
        (evaluate sheet (before ++ tokenize raw ++ after) (State.new policy)).1 := by
  obtain ⟨a, raw, haddress, hraw, hr, htokens⟩ := exists_tokens_of_resolve h
  refine ⟨a, raw, haddress, hraw, ?_⟩
  have hnaive : ∀ tokens, (evaluate sheet tokens (State.new policy)).1 =
      tokensBy (pathValue sheet []) tokens := fun tokens =>
    Call.run_new sheet (.evaluate tokens) policy
  rw [← tokensBy_reference] at hr
  rw [hnaive, hnaive, tokensBy_context hr, tokensBy_context htokens]

/-- The reference in the middle has a value, and its text refers to another cell. The cell behind it is on a
cycle, which is found whether the text is inlined or not. -/
theorem evaluate_inline_before_cycle :
    (resolve ⟨[["2", "A1 3 *", "D1", "C1"]]⟩ ⟨"B1", some ⟨0, 1⟩⟩ (State.new .cache)).1 = .ok 6 ∧
      (evaluate ⟨[["2", "A1 3 *", "D1", "C1"]]⟩ (tokenize "1 A1 3 * D1 / -") (State.new .cache)).1 =
        (evaluate ⟨[["2", "A1 3 *", "D1", "C1"]]⟩ (tokenize "1 B1 D1 / -") (State.new .cache)).1 := by
  have hr : (resolve ⟨[["2", "A1 3 *", "D1", "C1"]]⟩ ⟨"B1", some ⟨0, 1⟩⟩ (State.new .cache)).1 =
      .ok 6 := by decide +kernel
  refine ⟨hr, ?_⟩
  obtain ⟨a, raw, ha, hraw, hsame⟩ := evaluate_inline _ .cache (tokenize "1") (tokenize "D1 / -")
    ⟨"B1", some ⟨0, 1⟩⟩ 6 hr
  cases ha
  cases hraw
  have hinlined : tokenize "1" ++ tokenize "A1 3 *" ++ tokenize "D1 / -" =
      tokenize "1 A1 3 * D1 / -" := by decide +kernel
  have hreferred : tokenize "1" ++ [.reference ⟨"B1", some ⟨0, 1⟩⟩] ++ tokenize "D1 / -" =
      tokenize "1 B1 D1 / -" := by decide +kernel
  rw [← hinlined, ← hreferred]
  exact hsame.symm

end PostfixSheet
