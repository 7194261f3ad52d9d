import PostfixSheet.Formula.Postfix
import PostfixSheet.Sheet

/-!
# Values from values

The value of a cell, when the values of all cells are given. References are looked up from the left
and the first fault among them is the cell's, before anything is computed. No state is involved: an
evaluation of a sheet is a way to come by the given values.

* `Reference.valueBy`, `tokensBy` and `cellBy` are the values of a reference, of a list of tokens and
  of a cell. `Sheet.formula` is what a cell's value is computed from.
* `Scans` says which cells a cell really looks up: those with no fault to the left of them.
* `Alike` compares results up to a relation of faults, and `Settled` says that a result tells of no
  cycle.

Results:
* `cellBy_alike`: the value of a cell depends on the cells that it looks up alone, and where these
  are alike, it is.
* `settled_of_scans`: a cell is settled only if all that it looks up is.
* `Scans.transfer`: which cells are looked up does not change from given values to others that are
  less often settled.
-/

namespace PostfixSheet

/-! ## Comparing results -/

/-- The same value, or faults that count as the same. -/
inductive Alike (same : Fault → Fault → Prop) {α : Type} : Except Fault α → Except Fault α → Prop
  | ok (x : α) : Alike same (.ok x) (.ok x)
  | error {e f : Fault} (h : same e f) : Alike same (.error e) (.error f)

namespace Alike

variable {α β : Type} {same : Fault → Fault → Prop}

protected theorem refl (hsame : ∀ e, same e e) : ∀ r : Except Fault α, Alike same r r
  | .ok x => .ok x
  | .error e => .error (hsame e)

protected theorem trans (hsame : ∀ e f g, same e f → same f g → same e g) {r t u : Except Fault α}
    (hrt : Alike same r t) (htu : Alike same t u) : Alike same r u := by
  cases hrt with
  | ok x => exact htu
  | error h =>
    cases htu with
    | error h' => exact .error (hsame _ _ _ h h')

theorem eq {r t : Except Fault α} (h : Alike (· = ·) r t) : r = t := by
  cases h with
  | ok x => rfl
  | error h => rw [h]

/-- Going on from alike results leads to alike results. -/
theorem bind {r t : Except Fault α} {next next' : α → Except Fault β} (h : Alike same r t)
    (hnext : ∀ x, t = .ok x → Alike same (next x) (next' x)) :
    Alike same (r >>= next) (t >>= next') := by
  cases h with
  | ok x => exact hnext x rfl
  | error h => exact .error h

end Alike

/-- What has a value has gone through values on the way. -/
theorem exists_of_bind_eq_ok {α β : Type} {r : Except Fault α} {next : α → Except Fault β} {y : β}
    (h : r >>= next = .ok y) : ∃ x, r = .ok x ∧ next x = .ok y := by
  cases r with
  | ok x => exact ⟨x, rfl, h⟩
  | error e => cases h

/-- A result that tells of no cycle. -/
def Settled {α : Type} (r : Except Fault α) : Prop := ∀ a, r ≠ .error (.cyclicReference a)

theorem settled_ok {α : Type} (x : α) : Settled (.ok x : Except Fault α) := fun _ => nofun

/-- What is settled was settled on the way. -/
theorem Settled.of_bind {α β : Type} {r : Except Fault α} {next : α → Except Fault β}
    (h : Settled (r >>= next)) : Settled r := by
  rintro a rfl
  exact h a rfl

/-! ## References, tokens, cells -/

section Given

variable (value : Address → Except Fault Float)

/-- The value of a reference. -/
def Reference.valueBy (r : Reference) : Except Fault Float :=
  match r.address with
  | some a => value a
  | none => .error (.invalidReference r.name)

/-- A token with its value in place of a reference. -/
def Token.fillBy : Token → Except Fault Token
  | .reference r => do
    let x ← r.valueBy value
    .ok (.number x)
  | token => .ok token

/-- The tokens with values in place of their references. -/
def substituteBy : List Token → Except Fault (List Token)
  | [] => .ok []
  | token :: rest => do
    let filled ← token.fillBy value
    let numbers ← substituteBy rest
    .ok (filled :: numbers)

/-- The value of a list of tokens. -/
def tokensBy (tokens : List Token) : Except Fault Float := do
  let numbers ← substituteBy value tokens
  reduce numbers

/-- The value of the text of the cell at an address. -/
def textBy (a : Address) (raw : String) : Except Fault Float :=
  match Content.classify raw with
  | .number x => .ok x
  | .reference r => r.valueBy value
  | .expression tokens => tokensBy value tokens
  | .other => .error (.invalidContent a raw)

/-- The value of the cell at an address. -/
def cellBy (sheet : Sheet) (a : Address) : Except Fault Float :=
  match sheet.get? a with
  | none => .error (.invalidReference a.a1)
  | some raw => textBy value a raw

/-- A single reference is worth what it refers to, and a single number itself. -/
theorem tokensBy_reference (r : Reference) : tokensBy value [.reference r] = r.valueBy value := by
  simp only [tokensBy, substituteBy, Token.fillBy]
  cases r.valueBy value <;> rfl

theorem tokensBy_number (x : Float) : tokensBy value [.number x] = .ok x := rfl

end Given

/-! ## Formulas -/

/-- The tokens that the value of a cell is computed from, or the fault of a cell without any. -/
def Sheet.formula (sheet : Sheet) (a : Address) : Except Fault (List Token) :=
  match sheet.get? a with
  | none => .error (.invalidReference a.a1)
  | some raw =>
    if Content.classify raw = .other then .error (.invalidContent a raw) else .ok (tokenize raw)

theorem get?_of_formula {sheet : Sheet} {a : Address} {tokens : List Token}
    (h : sheet.formula a = .ok tokens) : ∃ raw, sheet.get? a = some raw := by
  unfold Sheet.formula at h
  cases hget : sheet.get? a with
  | none => simp [hget] at h
  | some raw => exact ⟨raw, rfl⟩

theorem formula_eq_ok_iff {sheet : Sheet} {a : Address} {tokens : List Token} :
    sheet.formula a = .ok tokens ↔
      ∃ raw, sheet.get? a = some raw ∧ Content.classify raw ≠ .other ∧ tokenize raw = tokens := by
  unfold Sheet.formula
  cases sheet.get? a with
  | none => simp
  | some raw =>
    by_cases hc : Content.classify raw = .other
    · simp [hc]
    · simp [hc]

/-- What the text of a cell is, by its tokens. -/
theorem classify_cases (raw : String) :
    (∃ x, tokenize raw = [.number x] ∧ Content.classify raw = .number x) ∨
    (∃ r, tokenize raw = [.reference r] ∧ Content.classify raw = .reference r) ∨
    Content.classify raw = .expression (tokenize raw) ∨
    (Content.classify raw = .other ∧
      (tokenize raw = [] ∨ (∃ op, tokenize raw = [.operator op]) ∨
        ∃ text, tokenize raw = [.invalid text])) := by
  match h : tokenize raw with
  | [] => simp [Content.classify, h]
  | [.number x] => simp [Content.classify, h]
  | [.reference r] => simp [Content.classify, h]
  | [.operator op] => simp [Content.classify, h]
  | [.invalid text] => simp [Content.classify, h]
  | first :: second :: rest => simp [Content.classify, h]

/-- A text is no formula if it has no tokens, or a single one that is no value. -/
theorem classify_eq_other_iff {raw : String} :
    Content.classify raw = .other ↔
      tokenize raw = [] ∨ (∃ op, tokenize raw = [.operator op]) ∨
        ∃ text, tokenize raw = [.invalid text] := by
  constructor
  · intro h
    rcases classify_cases raw with ⟨x, -, hc⟩ | ⟨r, -, hc⟩ | hc | ⟨-, ht⟩
    · cases hc ▸ h
    · cases hc ▸ h
    · cases hc ▸ h
    · exact ht
  · rintro (ht | ⟨op, ht⟩ | ⟨text, ht⟩) <;> simp [Content.classify, ht]

/-- **The value of a cell is that of its formula.** -/
theorem cellBy_eq_bind (value : Address → Except Fault Float) (sheet : Sheet) (a : Address) :
    cellBy value sheet a = sheet.formula a >>= tokensBy value := by
  unfold cellBy Sheet.formula textBy
  cases sheet.get? a with
  | none => rfl
  | some raw =>
    rcases classify_cases raw with ⟨x, ht, hc⟩ | ⟨r, ht, hc⟩ | hc | ⟨hc, -⟩
    · simp only [hc, ht]
      rfl
    · simp only [hc, ht]
      exact (tokensBy_reference value r).symm
    · simp only [hc]
      rfl
    · simp only [hc]
      rfl

/-! ## Looking up -/

/-- The address that a token refers to. -/
def Token.target? : Token → Option Address
  | .reference r => r.address
  | _ => none

/-- The tokens look up the cell at an address: none of the references to the left of one to it has a
fault. -/
def Scanned (value : Address → Except Fault Float) : List Token → Address → Prop
  | [], _ => False
  | token :: rest, a =>
    token.target? = some a ∨ (∃ filled, token.fillBy value = .ok filled) ∧ Scanned value rest a

/-- The cell at an address looks up the one at another. -/
def Scans (value : Address → Except Fault Float) (sheet : Sheet) (a b : Address) : Prop :=
  ∃ tokens, sheet.formula a = .ok tokens ∧ Scanned value tokens b

section Compare

variable {value value' : Address → Except Fault Float} {same : Fault → Fault → Prop}
  {sheet : Sheet} {a b : Address} {e : Fault}

theorem Scans.inside (h : Scans value sheet a b) : ∃ raw, sheet.get? a = some raw :=
  get?_of_formula h.choose_spec.1

theorem fillBy_alike (hsame : ∀ e, same e e) {token : Token}
    (h : ∀ a, token.target? = some a → Alike same (value' a) (value a)) :
    Alike same (token.fillBy value') (token.fillBy value) := by
  cases token with
  | reference r =>
    have hr : Alike same (r.valueBy value') (r.valueBy value) := by
      unfold Reference.valueBy
      cases haddr : r.address with
      | none => exact .refl hsame _
      | some a => exact h a haddr
    exact hr.bind fun _ _ => .ok _
  | number x => exact .ok _
  | operator op => exact .ok _
  | invalid text => exact .ok _

theorem substituteBy_alike (hsame : ∀ e, same e e) {tokens : List Token}
    (h : ∀ a, Scanned value tokens a → Alike same (value' a) (value a)) :
    Alike same (substituteBy value' tokens) (substituteBy value tokens) := by
  induction tokens with
  | nil => exact .ok []
  | cons token rest ih =>
    refine (fillBy_alike hsame fun a ha => h a (Or.inl ha)).bind fun filled hf => ?_
    exact (ih fun a ha => h a (Or.inr ⟨⟨filled, hf⟩, ha⟩)).bind fun _ _ => .ok _

theorem tokensBy_alike (hsame : ∀ e, same e e) {tokens : List Token}
    (h : ∀ a, Scanned value tokens a → Alike same (value' a) (value a)) :
    Alike same (tokensBy value' tokens) (tokensBy value tokens) :=
  (substituteBy_alike hsame h).bind fun _ _ => .refl hsame _

/-- A cell with like formulas in two sheets that looks up alike values has like values. -/
theorem cellBy_alike_of_formula {other : Sheet} (hsame : ∀ e, same e e)
    (hformula : Alike same (other.formula a) (sheet.formula a))
    (h : ∀ b, Scans value sheet a b → Alike same (value' b) (value b)) :
    Alike same (cellBy value' other a) (cellBy value sheet a) := by
  rw [cellBy_eq_bind, cellBy_eq_bind]
  exact hformula.bind fun tokens ht => tokensBy_alike hsame fun b hb => h b ⟨tokens, ht, hb⟩

/-- **A cell that looks up alike values has a like value.** -/
theorem cellBy_alike (hsame : ∀ e, same e e)
    (h : ∀ b, Scans value sheet a b → Alike same (value' b) (value b)) :
    Alike same (cellBy value' sheet a) (cellBy value sheet a) :=
  cellBy_alike_of_formula hsame (.refl hsame _) h

/-- A cell that looks up equal values has an equal value. -/
theorem cellBy_congr (h : ∀ b, Scans value sheet a b → value' b = value b) :
    cellBy value' sheet a = cellBy value sheet a :=
  (cellBy_alike (fun _ => rfl) fun b hb => h b hb ▸ .refl (fun _ => rfl) _).eq

/-! ## Faults that are looked up -/

theorem fillBy_of_target_error {token : Token} (ht : token.target? = some a)
    (he : value a = .error e) : token.fillBy value = .error e := by
  cases token with
  | reference r =>
    have hr : r.valueBy value = .error e := by
      unfold Reference.valueBy
      rw [show r.address = some a from ht]
      exact he
    rw [Token.fillBy, hr]
    rfl
  | number x => cases ht
  | operator op => cases ht
  | invalid text => cases ht

/-- The fault of a cell that the tokens look up is theirs. -/
theorem substituteBy_of_scanned_error {tokens : List Token} (h : Scanned value tokens a)
    (he : value a = .error e) : substituteBy value tokens = .error e := by
  induction tokens with
  | nil => exact h.elim
  | cons token rest ih =>
    rw [substituteBy]
    rcases h with ht | ⟨⟨filled, hf⟩, hrest⟩
    · rw [fillBy_of_target_error ht he]
      rfl
    · rw [hf, ih hrest]
      rfl

theorem tokensBy_of_scanned_error {tokens : List Token} (h : Scanned value tokens a)
    (he : value a = .error e) : tokensBy value tokens = .error e := by
  rw [tokensBy, substituteBy_of_scanned_error h he]
  rfl

/-- **The fault of a cell that is looked up is the fault of the one that looks it up.** -/
theorem cellBy_of_scans_error (h : Scans value sheet a b) (he : value b = .error e) :
    cellBy value sheet a = .error e := by
  obtain ⟨tokens, ht, hb⟩ := h
  rw [cellBy_eq_bind, ht]
  exact tokensBy_of_scanned_error hb he

/-- A settled cell looks up settled cells only. -/
theorem settled_of_scans (h : Scans value sheet a b) (hs : Settled (cellBy value sheet a)) :
    Settled (value b) :=
  fun c hc => hs c (cellBy_of_scans_error h hc)

/-- **What is looked up stays so** when the values change to ones that are the same where they are
settled, provided that the tokens are settled then. -/
theorem Scanned.transfer {tokens : List Token}
    (hvalue : ∀ c x, value c = .ok x → Settled (value' c) → value' c = .ok x)
    (hs : Settled (substituteBy value' tokens)) (h : Scanned value tokens a) :
    Scanned value' tokens a := by
  induction tokens with
  | nil => exact h
  | cons token rest ih =>
    refine h.imp id fun ⟨⟨filled, hf⟩, hrest⟩ => ?_
    have hf' : token.fillBy value' = .ok filled := by
      rw [← hf]
      refine (fillBy_alike (fun _ => rfl) fun c hc => ?_).eq
      have hc' : Settled (value' c) := fun d hd => hs.of_bind d (fillBy_of_target_error hc hd)
      cases hv : value c with
      | ok x =>
        rw [hvalue c x hv hc']
        exact .ok x
      | error e =>
        rw [fillBy_of_target_error hc hv] at hf
        cases hf
    rw [substituteBy, hf'] at hs
    have hs' : Settled (substituteBy value' rest >>= fun numbers => .ok (filled :: numbers)) := hs
    exact ⟨⟨filled, hf'⟩, ih hs'.of_bind hrest⟩

theorem Scans.transfer (hvalue : ∀ c x, value c = .ok x → Settled (value' c) → value' c = .ok x)
    (hs : Settled (cellBy value' sheet a)) (h : Scans value sheet a b) :
    Scans value' sheet a b := by
  obtain ⟨tokens, ht, hb⟩ := h
  rw [cellBy_eq_bind, ht] at hs
  have hs' : Settled (substituteBy value' tokens >>= reduce) := hs
  exact ⟨tokens, ht, hb.transfer hvalue hs'.of_bind⟩

end Compare

end PostfixSheet
