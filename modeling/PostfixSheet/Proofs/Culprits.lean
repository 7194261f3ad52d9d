import PostfixSheet.Proofs.Faults
import PostfixSheet.Proofs.ReferenceGraph
import PostfixSheet.Proofs.TokenWords
import PostfixSheet.Proofs.TwoSheets

/-!
# Culprits of faults

What a fault tells is found in the sheet, in the text of the evaluated cell or of one that is reached from
it. The fault may have come through any number of cells, but it is never changed on the way. It comes up in
one cell, from a word of its text or from the number of values that are left over there, or else at a
reference to a cell that is no formula or that the sheet does not have.

* `Sheet.ReachesCell` says that a cell of the sheet is reached, and `Sheet.Holds` that a cell holds a word
  that is a certain token.
* `Fault.HasCulprit` says of each fault what in the sheet is to blame.

Results:
* `hasCulprit_of_reduce`: a fault of the arithmetic is to blame on a word of the cell that is computed.
* `exists_refers_or_hasCulprit`: a fault of a cell comes up in the cell, or it is the fault of a cell that
  it refers to.
* `hasCulprit_of_pathValue`: so a fault on any path has a culprit.
* `calculateCell_hasCulprit`: and so does every fault that a cell evaluates to.
-/

namespace PostfixSheet

namespace Sheet

/-- A cell of the sheet is reached from the address, or is the one there. -/
def ReachesCell (sheet : Sheet) (a b : Address) : Prop :=
  sheet.Reaches a b ∧ ∃ raw, sheet.get? b = some raw

/-- The text of the cell at the address holds the word, which is the token. -/
def Holds (sheet : Sheet) (a : Address) (word : String) (token : Token) : Prop :=
  ∃ raw, sheet.get? a = some raw ∧ word.toList ∈ Text.words raw.toList ∧ Token.classify word = token

end Sheet

/-- **What is to blame for a fault of the cell at the address**, itself or among the cells that are reached
from it:

* an invalid word, which is never the name of a reference;
* a reference without an address, named by its word in capitals, or one to an address outside;
* a cell that is referred to and is no formula;
* a reached cell, for a cycle;
* an operator, for the values that it lacks;
* any number of values but one;
* a division. -/
def Fault.HasCulprit (sheet : Sheet) (a : Address) : Fault → Prop
  | .invalidToken text =>
    (∃ b, sheet.ReachesCell a b ∧ sheet.Holds b text (.invalid text)) ∧
      ∀ word r, Token.classify word = .reference r → r.name ≠ text
  | .invalidReference name =>
    ∃ b word r, sheet.ReachesCell a b ∧ sheet.Holds b word (.reference r) ∧
      (r.address = none ∧ name = Text.capitals word ∨
        ∃ c, r.address = some c ∧ sheet.get? c = none ∧ name = c.a1)
  | .invalidContent c content =>
    (∃ b, sheet.ReachesCell a b ∧ sheet.Refers b c) ∧ sheet.ReachesCell a c ∧
      sheet.get? c = some content ∧ Content.classify content = .other
  | .cyclicReference c => sheet.ReachesCell a c
  | .stackUnderflow op =>
    ∃ b, sheet.ReachesCell a b ∧ sheet.Holds b op.symbol.toString (.operator op)
  | .malformedExpression remaining => remaining ≠ 1
  | .divisionByZero => ∃ b, sheet.ReachesCell a b ∧ sheet.Holds b "/" (.operator .divide)

variable {sheet : Sheet} {a b c : Address} {raw : String} {e : Fault} {token : Token}
  {tokens numbers : List Token} {value : Address → Except Fault Float}

/-! ## Words -/

theorem Sheet.Holds.classify_eq {word : String} (h : sheet.Holds a word token) :
    Token.classify word = token := by
  obtain ⟨-, -, -, hclass⟩ := h
  exact hclass

theorem exists_word_of_mem_tokenize (hraw : sheet.get? a = some raw) (h : token ∈ tokenize raw) :
    ∃ word, sheet.Holds a word token := by
  obtain ⟨word, hword, rfl⟩ := List.mem_map.mp h
  exact ⟨String.ofList word, raw, hraw, by rwa [String.toList_ofList], rfl⟩

theorem holds_symbol {op : Operator} (hraw : sheet.get? a = some raw)
    (h : Token.operator op ∈ tokenize raw) : sheet.Holds a op.symbol.toString (.operator op) := by
  obtain ⟨word, hword⟩ := exists_word_of_mem_tokenize hraw h
  have hsymbol : word = op.symbol.toString :=
    String.toList_injective ((Token.toList_of_classify_operator hword.classify_eq).trans (by simp))
  exact hsymbol ▸ hword

theorem holds_invalid {text : String} (hraw : sheet.get? a = some raw)
    (h : Token.invalid text ∈ tokenize raw) : sheet.Holds a text (.invalid text) := by
  obtain ⟨word, hword⟩ := exists_word_of_mem_tokenize hraw h
  exact Token.eq_of_classify_invalid hword.classify_eq ▸ hword

/-! ## Faults of a cell of its own -/

/-- Behind the substitution there are numbers, and tokens of before that are no references. -/
theorem mem_of_substituteBy (h : substituteBy value tokens = .ok numbers) (hmem : token ∈ numbers) :
    (∃ x, token = .number x) ∨ token ∈ tokens ∧ ∀ r, token ≠ .reference r := by
  induction tokens generalizing numbers with
  | nil =>
    cases h
    exact absurd hmem List.not_mem_nil
  | cons first rest ih =>
    rw [substituteBy] at h
    obtain ⟨filled, hfill, h⟩ := exists_of_bind_eq_ok h
    obtain ⟨others, hrest, h⟩ := exists_of_bind_eq_ok h
    cases h
    rcases List.mem_cons.mp hmem with rfl | hmem
    · cases first with
      | reference r =>
        obtain ⟨x, -, hx⟩ := exists_of_bind_eq_ok hfill
        cases hx
        exact Or.inl ⟨x, rfl⟩
      | number x =>
        cases hfill
        exact Or.inl ⟨x, rfl⟩
      | operator op =>
        cases hfill
        exact Or.inr ⟨List.mem_cons_self, by simp⟩
      | invalid text =>
        cases hfill
        exact Or.inr ⟨List.mem_cons_self, by simp⟩
    · exact (ih hrest hmem).imp_right (And.imp_left (List.mem_cons_of_mem _))

/-- **A fault of the arithmetic is to blame on a word of the cell**, or on what is left over. -/
theorem hasCulprit_of_reduce (hb : sheet.ReachesCell a b) (hraw : sheet.get? b = some raw)
    (hs : substituteBy value (tokenize raw) = .ok numbers) (h : reduce numbers = .error e) :
    e.HasCulprit sheet a := by
  rcases reduce_eq_error h with ⟨token, hmem, hblamed⟩ | ⟨remaining, hne, rfl⟩
  · rcases mem_of_substituteBy hs hmem with ⟨x, rfl⟩ | ⟨hold, hr⟩
    · cases hblamed
    · cases hblamed with
      | invalid text =>
        have hholds := holds_invalid hraw hold
        exact ⟨⟨b, hb, hholds⟩, fun word r hword =>
          Token.name_ne_of_invalid hword hholds.classify_eq⟩
      | reference r => exact absurd rfl (hr r)
      | operator op => exact ⟨b, hb, holds_symbol hraw hold⟩
      | division =>
        have hslash : Operator.divide.symbol.toString = "/" := Char.toString_eq_singleton
        exact ⟨b, hb, hslash ▸ holds_symbol hraw hold⟩
  · exact hne

/-- **A fault of a cell comes up in the cell**, or it is the fault of a cell that it refers to. -/
theorem exists_refers_or_hasCulprit (hb : sheet.ReachesCell a b) (hraw : sheet.get? b = some raw)
    (h : tokensBy value (tokenize raw) = .error e) :
    (∃ c, sheet.Refers b c ∧ value c = .error e) ∨ e.HasCulprit sheet a := by
  rcases tokensBy_eq_error h with ⟨c, hc, he⟩ | ⟨r, hr, haddr, rfl⟩ | ⟨numbers, hs, hreduce⟩
  · obtain ⟨token, htoken, htarget⟩ := hc.exists_mem
    obtain ⟨r, rfl, haddr⟩ := target?_eq_some_iff.mp htarget
    exact Or.inl ⟨c, ⟨raw, r, hraw, htoken, haddr⟩, he⟩
  · obtain ⟨word, hword⟩ := exists_word_of_mem_tokenize hraw hr
    have hname :=
      Reference.name_of_parse? (Token.classify_eq_reference_iff.mp hword.classify_eq)
    exact Or.inr ⟨b, word, r, hb, hword, Or.inl ⟨haddr, hname⟩⟩
  · exact Or.inr (hasCulprit_of_reduce hb hraw hs hreduce)

/-! ## Faults on a path -/

theorem Sheet.ReachesCell.refers (hb : sheet.ReachesCell a b) (hbc : sheet.Refers b c)
    (hraw : sheet.get? c = some raw) : sheet.ReachesCell a c :=
  ⟨hb.1.tail hbc, raw, hraw⟩

/-- A reference to an address outside of the sheet is to blame for what it comes to. -/
theorem hasCulprit_of_outside (hb : sheet.ReachesCell a b) (hbc : sheet.Refers b c)
    (hraw : sheet.get? c = none) : (Fault.invalidReference c.a1).HasCulprit sheet a := by
  obtain ⟨raw, r, hraw', hr, haddr⟩ := hbc
  obtain ⟨word, hword⟩ := exists_word_of_mem_tokenize hraw' hr
  exact ⟨b, word, r, hb, hword, Or.inr ⟨c, haddr, hraw, rfl⟩⟩

/-- **A fault on a path has a culprit**, if the path is one of reached cells and a reached cell refers to the
cell that is looked up. -/
theorem hasCulprit_of_pathValue {path : List Address} {b c : Address}
    (hpath : ∀ p ∈ path, sheet.ReachesCell a p) (hb : sheet.ReachesCell a b)
    (hbc : sheet.Refers b c) (h : pathValue sheet path c = .error e) : e.HasCulprit sheet a := by
  by_cases hmem : c ∈ path
  · rw [pathValue_of_mem hmem] at h
    cases h
    exact hpath c hmem
  · rw [pathValue_of_not_mem hmem, cellBy_eq_bind] at h
    cases hraw : sheet.get? c with
    | none =>
      rw [Sheet.formula, hraw] at h
      cases h
      exact hasCulprit_of_outside hb hbc hraw
    | some raw =>
      have hc : sheet.ReachesCell a c := hb.refers hbc hraw
      by_cases hother : Content.classify raw = .other
      · simp only [Sheet.formula, hraw, hother, if_true] at h
        cases h
        exact ⟨⟨b, hb, hbc⟩, hc, hraw, hother⟩
      · rw [formula_eq_ok_iff.mpr ⟨raw, hraw, hother, rfl⟩] at h
        rcases exists_refers_or_hasCulprit hc hraw h with ⟨d, hcd, hd⟩ | hculprit
        · have : sheet.unvisited (c :: path) < sheet.unvisited path :=
            Sheet.unvisited_cons_lt hraw hmem
          have hpath' : ∀ p ∈ c :: path, sheet.ReachesCell a p := by
            intro p hp
            rcases List.mem_cons.mp hp with rfl | hp
            · exact hc
            · exact hpath p hp
          exact hasCulprit_of_pathValue hpath' hc hcd hd
        · exact hculprit
termination_by sheet.unvisited path

/-! ## Evaluation -/

/-- **Every fault has a culprit**, under both policies: what it tells is found in the evaluated cell or in
one that is reached from it. -/
theorem calculateCell_hasCulprit (sheet : Sheet) (a : Address) (policy : Policy) (e : Fault)
    (hinside : ∃ raw, sheet.get? a = some raw) (h : calculateCell sheet a policy = .error e) :
    e.HasCulprit sheet a := by
  obtain ⟨raw, hraw⟩ := hinside
  have ha : sheet.ReachesCell a a := ⟨.refl, raw, hraw⟩
  rw [calculateCell_of_get? hraw] at h
  rcases exists_refers_or_hasCulprit ha hraw h with ⟨b, hab, hb⟩ | hculprit
  · exact hasCulprit_of_pathValue (List.forall_mem_nil _) ha hab hb
  · exact hculprit

/-- The word `oops` is two references away, and the reference to no address stands behind the one that leads
there. -/
theorem calculateCell_hasCulprit_invalid_word :
    calculateCell ⟨[["B1 2 *", "A2 a0 +"], ["1 oops /"]]⟩ ⟨0, 0⟩ .rewalk =
        .error (.invalidToken "oops") ∧
      (Fault.invalidToken "oops").HasCulprit ⟨[["B1 2 *", "A2 a0 +"], ["1 oops /"]]⟩ ⟨0, 0⟩ :=
  ⟨rfl, calculateCell_hasCulprit ⟨[["B1 2 *", "A2 a0 +"], ["1 oops /"]]⟩ ⟨0, 0⟩ .rewalk _
    ⟨"B1 2 *", rfl⟩ rfl⟩

end PostfixSheet
