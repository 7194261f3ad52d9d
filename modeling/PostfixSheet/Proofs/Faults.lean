import PostfixSheet.Proofs.Values

/-!
# Where faults come from

A cell that has no value has a fault of its own, or the fault of a cell that it looks up. Its own
faults are that it is no formula, that a reference in it has no address, and those of the arithmetic,
which a token of the list is to blame for unless the number of values left over is wrong.

* `Token.Blamed` says that a token is to blame for a fault of the arithmetic.

Results:
* `reduce_eq_error`: a fault of the arithmetic is blamed on a token, or not exactly one value is left.
* `tokensBy_eq_error`: a fault of a list of tokens is looked up, a reference without an address, or one
  of the arithmetic.
* `exists_scans_of_cyclic`: a circular reference is always looked up.
-/

namespace PostfixSheet

variable {α β : Type} {value : Address → Except Fault Float} {tokens : List Token} {e : Fault}
  {sheet : Sheet} {a c : Address}

/-- A fault has come up first, or after a value. -/
theorem exists_of_bind_eq_error {r : Except Fault α} {next : α → Except Fault β}
    (h : r >>= next = .error e) : r = .error e ∨ ∃ x, r = .ok x ∧ next x = .error e := by
  cases r with
  | ok x => exact Or.inr ⟨x, rfl, h⟩
  | error f =>
    cases h
    exact Or.inl rfl

/-! ## Arithmetic -/

/-- A token is to blame for a fault of the arithmetic. -/
inductive Token.Blamed : Token → Fault → Prop
  | invalid (text : String) : Blamed (.invalid text) (.invalidToken text)
  | reference (r : Reference) : Blamed (.reference r) (.invalidToken r.name)
  | operator (op : Operator) : Blamed (.operator op) (.stackUnderflow op)
  | division : Blamed (.operator .divide) .divisionByZero

theorem apply_eq_error {op : Operator} {x y : Float} (h : op.apply x y = .error e) :
    op = .divide ∧ e = .divisionByZero := by
  cases op with
  | add => cases h
  | subtract => cases h
  | multiply => cases h
  | divide =>
    simp only [Operator.apply] at h
    split at h
    · cases h
      exact ⟨rfl, rfl⟩
    · cases h

theorem push_eq_error {stack : List Float} {token : Token}
    (h : Postfix.push stack token = .error e) : token.Blamed e := by
  cases token with
  | number x => cases h
  | operator op =>
    simp only [Postfix.push] at h
    split at h
    · rename_i y x below
      cases hop : op.apply x y with
      | ok z =>
        rw [hop] at h
        cases h
      | error f =>
        rw [hop] at h
        cases h
        obtain ⟨rfl, rfl⟩ := apply_eq_error hop
        exact .division
    · cases h
      exact .operator op
  | reference r =>
    cases h
    exact .reference r
  | invalid text =>
    cases h
    exact .invalid text

theorem stackAfter_eq_error {stack : List Float} (h : Postfix.stackAfter stack tokens = .error e) :
    ∃ token ∈ tokens, token.Blamed e := by
  induction tokens generalizing stack with
  | nil => cases h
  | cons token rest ih =>
    rw [Postfix.stackAfter] at h
    split at h
    · obtain ⟨blamed, hmem, hb⟩ := ih h
      exact ⟨blamed, List.mem_cons_of_mem _ hmem, hb⟩
    · rename_i f hpush
      cases h
      exact ⟨token, List.mem_cons_self, push_eq_error hpush⟩

theorem single_eq_error {stack : List Float} (h : Postfix.single stack = .error e) :
    ∃ remaining, remaining ≠ 1 ∧ e = .malformedExpression remaining := by
  unfold Postfix.single at h
  split at h
  · cases h
  · rename_i hne
    cases h
    refine ⟨stack.length, fun hlen => ?_, rfl⟩
    obtain ⟨x, rfl⟩ := List.length_eq_one_iff.mp hlen
    exact hne x rfl

/-- **A fault of the arithmetic** is blamed on a token, or not exactly one value is left. -/
theorem reduce_eq_error (h : reduce tokens = .error e) :
    (∃ token ∈ tokens, token.Blamed e) ∨
      ∃ remaining, remaining ≠ 1 ∧ e = .malformedExpression remaining := by
  unfold reduce at h
  split at h
  · exact Or.inr (single_eq_error h)
  · rename_i f hstack
    cases h
    exact Or.inl (stackAfter_eq_error hstack)

/-- The arithmetic knows of no cycles. -/
theorem settled_reduce (tokens : List Token) : Settled (reduce tokens) := by
  intro c h
  rcases reduce_eq_error h with ⟨token, -, hb⟩ | ⟨remaining, -, he⟩
  · cases hb
  · cases he

/-! ## Tokens and cells -/

theorem fillBy_eq_error {token : Token} (h : token.fillBy value = .error e) :
    (∃ b, token.target? = some b ∧ value b = .error e) ∨
      ∃ r, token = .reference r ∧ r.address = none ∧ e = .invalidReference r.name := by
  cases token with
  | number x => cases h
  | operator op => cases h
  | invalid text => cases h
  | reference r =>
    have hr : r.valueBy value = .error e := by
      rcases exists_of_bind_eq_error h with hr | ⟨x, -, hx⟩
      · exact hr
      · cases hx
    unfold Reference.valueBy at hr
    cases haddr : r.address with
    | none =>
      rw [haddr] at hr
      cases hr
      exact Or.inr ⟨r, rfl, haddr, rfl⟩
    | some b =>
      rw [haddr] at hr
      exact Or.inl ⟨b, haddr, hr⟩

theorem substituteBy_eq_error (h : substituteBy value tokens = .error e) :
    (∃ b, Scanned value tokens b ∧ value b = .error e) ∨
      ∃ r, Token.reference r ∈ tokens ∧ r.address = none ∧ e = .invalidReference r.name := by
  induction tokens with
  | nil => cases h
  | cons token rest ih =>
    rw [substituteBy] at h
    rcases exists_of_bind_eq_error h with hfill | ⟨filled, hfill, h⟩
    · rcases fillBy_eq_error hfill with ⟨b, hb, he⟩ | ⟨r, rfl, hr, he⟩
      · exact Or.inl ⟨b, Or.inl hb, he⟩
      · exact Or.inr ⟨r, List.mem_cons_self, hr, he⟩
    · rcases exists_of_bind_eq_error h with hrest | ⟨numbers, -, h⟩
      · rcases ih hrest with ⟨b, hb, he⟩ | ⟨r, hmem, hr, he⟩
        · exact Or.inl ⟨b, Or.inr ⟨⟨filled, hfill⟩, hb⟩, he⟩
        · exact Or.inr ⟨r, List.mem_cons_of_mem _ hmem, hr, he⟩
      · cases h

/-- **A fault of a list of tokens** is looked up, a reference without an address, or one of the
arithmetic. -/
theorem tokensBy_eq_error (h : tokensBy value tokens = .error e) :
    (∃ b, Scanned value tokens b ∧ value b = .error e) ∨
      (∃ r, Token.reference r ∈ tokens ∧ r.address = none ∧ e = .invalidReference r.name) ∨
        ∃ numbers, substituteBy value tokens = .ok numbers ∧ reduce numbers = .error e := by
  rcases exists_of_bind_eq_error h with hs | hreduce
  · exact (substituteBy_eq_error hs).imp_right Or.inl
  · exact Or.inr (Or.inr hreduce)

theorem exists_scanned_of_cyclic (h : tokensBy value tokens = .error (.cyclicReference c)) :
    ∃ b, Scanned value tokens b ∧ value b = .error (.cyclicReference c) := by
  rcases tokensBy_eq_error h with hb | ⟨r, -, -, he⟩ | ⟨numbers, -, hreduce⟩
  · exact hb
  · cases he
  · exact absurd hreduce (settled_reduce numbers c)

/-- **A circular reference is always looked up.** -/
theorem exists_scans_of_cyclic (h : cellBy value sheet a = .error (.cyclicReference c)) :
    ∃ b, Scans value sheet a b ∧ value b = .error (.cyclicReference c) := by
  rw [cellBy_eq_bind] at h
  rcases exists_of_bind_eq_error h with hformula | ⟨tokens, hformula, h⟩
  · unfold Sheet.formula at hformula
    split at hformula
    · cases hformula
    · split at hformula <;> cases hformula
  · obtain ⟨b, hb, hv⟩ := exists_scanned_of_cyclic h
    exact ⟨b, ⟨tokens, hformula, hb⟩, hv⟩

end PostfixSheet
