import Mathlib.Data.List.Forall2
import Mathlib.Logic.Relation
import PostfixSheet.Proofs.NumberTexts
import PostfixSheet.Proofs.TokenWords
import PostfixSheet.Proofs.TwoSheets

/-!
# Spellings of a sheet

The text of a cell counts for its tokens only. How many blanks stand between two words and which ones, and
whether any stand at the ends of the text, makes no token another one; nor do the cases of the letters of a
reference. A fault that quotes the text of a cell quotes it as it is spelled, and this alone tells two
spellings of a sheet apart.

* `Sheet.tokens` are the tokens of all cells.
* `Fault.SameButContent` compares faults but for the text that they quote.
* `Text.Respells` is one change of spelling, and `Sheet.Respelled` any number of them in any cells.

Results:
* `calculateCell_alike_of_tokens`, `calculate_of_tokens`: sheets with the same tokens have the same results
  and counts, and each cell the same value or fault but for the text that is quoted.
* `words_append_gap`, `words_append_word`: a text is cut into its words at a gap of blanks, and around a
  word.
* `Respells.tokenize_eq`: one change keeps the tokens of a text, and `tokens_of_respelled`: so any number
  of them keep those of a sheet.
* `calculate_of_respelled`: so the spelling of a sheet does not matter.
-/

namespace PostfixSheet

variable {sheet other : Sheet} {a : Address}

/-! ## Sheets with the same tokens -/

/-- The tokens of the cells, row by row. -/
def Sheet.tokens (sheet : Sheet) : List (List (List Token)) := sheet.rows.map (·.map tokenize)

/-- The same fault, but for the text of a cell that it may quote. -/
inductive Fault.SameButContent : Fault → Fault → Prop
  | refl (e : Fault) : SameButContent e e
  | content (cell : Address) (content content' : String) :
      SameButContent (.invalidContent cell content) (.invalidContent cell content')

/-- Whether a text is a formula is told by its tokens. -/
theorem classify_eq_other_of_tokenize {raw raw' : String} (h : tokenize raw' = tokenize raw) :
    Content.classify raw' = .other ↔ Content.classify raw = .other := by
  rw [classify_eq_other_iff, classify_eq_other_iff, h]

namespace Sheet

/-- The tokens of a cell are found where its text is. -/
theorem map_tokenize_get? (sheet : Sheet) (a : Address) :
    (sheet.get? a).map tokenize = sheet.tokens[a.row]?.bind fun row => row[a.col]? := by
  rw [get?, tokens, List.getElem?_map]
  cases sheet.rows[a.row]? with
  | none => rfl
  | some row => exact (List.getElem?_map).symm

theorem map_length_of_tokens (h : other.tokens = sheet.tokens) :
    other.rows.map List.length = sheet.rows.map List.length := by
  have hlength : ∀ s : Sheet, s.rows.map List.length = s.tokens.map List.length := fun s => by
    rw [tokens, List.map_map]
    exact List.map_congr_left fun row _ => (List.length_map _).symm
  rw [hlength, hlength, h]

/-- The formulas of a cell are alike: if one has none, its text is what a fault quotes. -/
theorem formula_alike_of_tokens (h : other.tokens = sheet.tokens) (a : Address) :
    Alike Fault.SameButContent (other.formula a) (sheet.formula a) := by
  have hget : (other.get? a).map tokenize = (sheet.get? a).map tokenize := by
    rw [map_tokenize_get?, map_tokenize_get?, h]
  unfold formula
  cases hraw : sheet.get? a with
  | none =>
    rw [hraw, Option.map_none, Option.map_eq_none_iff] at hget
    rw [hget]
    exact .refl .refl _
  | some raw =>
    rw [hraw, Option.map_some, Option.map_eq_some_iff] at hget
    obtain ⟨raw', hraw', ht⟩ := hget
    rw [hraw']
    by_cases hc : Content.classify raw = .other
    · simp only [hc, (classify_eq_other_of_tokenize ht).mpr hc, if_true]
      exact .error (.content a raw' raw)
    · simp only [hc, mt (classify_eq_other_of_tokenize ht).mp hc, if_false, ht]
      exact .ok _

end Sheet

/-- **All cells are compared** if the sheets have the same tokens. -/
theorem compares_of_tokens (h : other.tokens = sheet.tokens) :
    Compares Fault.SameButContent sheet other fun _ _ => True :=
  fun _ a _ _ => Or.inr ⟨Sheet.formula_alike_of_tokens h a, fun _ _ => trivial⟩

/-- **Cells of sheets with the same tokens come to the same value or fault**, but for the text that is
quoted. -/
theorem calculateCell_alike_of_tokens (h : other.tokens = sheet.tokens) (a : Address)
    (policy : Policy) :
    Alike Fault.SameButContent (calculateCell other a policy) (calculateCell sheet a policy) := by
  refine calculateCell_alike .refl ?_ (fun _ b _ _ => ?_) policy
  · rw [Sheet.map_tokenize_get?, Sheet.map_tokenize_get?, h]
  · exact (compares_of_tokens h).alike .refl trivial

/-- The results do not show what text is quoted. -/
theorem ofResult_of_alike {r t : Except Fault Float} (h : Alike Fault.SameButContent r t) :
    Outcome.ofResult r = Outcome.ofResult t := by
  cases h with
  | ok x => rfl
  | error hsame => cases hsame <;> rfl

/-- **Sheets with the same tokens have the same results and counts.** -/
theorem calculate_of_tokens (h : other.tokens = sheet.tokens) (policy : Policy) :
    calculate other policy = calculate sheet policy :=
  calculate_congr (Sheet.map_length_of_tokens h) policy fun a =>
    ofResult_of_alike (calculateCell_alike_of_tokens h a policy)

/-! ## Words and blanks -/

namespace Text

variable {before gap after word : List Char}

/-- A blank cuts a text. -/
theorem words_append_blank {c : Char} (hc : isBlank c = true) (before after : List Char) :
    words (before ++ c :: after) = words before ++ words after := by
  rw [words, List.splitOnP_append_cons _ _ hc, List.filter_append]
  rfl

theorem words_gap_append (hgap : ∀ c ∈ gap, isBlank c = true) (after : List Char) :
    words (gap ++ after) = words after := by
  induction gap with
  | nil => rfl
  | cons c gap ih =>
    rw [List.forall_mem_cons] at hgap
    exact (words_append_blank hgap.1 [] (gap ++ after)).trans (ih hgap.2)

/-- **A gap of blanks cuts a text.** -/
theorem words_append_gap (hne : gap ≠ []) (hgap : ∀ c ∈ gap, isBlank c = true)
    (before after : List Char) :
    words (before ++ (gap ++ after)) = words before ++ words after := by
  obtain ⟨c, gap, rfl⟩ := List.exists_cons_of_ne_nil hne
  rw [List.forall_mem_cons] at hgap
  rw [List.cons_append, words_append_blank hgap.1, words_gap_append hgap.2]

/-- Blanks at the end of a text add no words to it. -/
theorem words_append_end (hgap : ∀ c ∈ gap, isBlank c = true) (before : List Char) :
    words (before ++ gap) = words before := by
  by_cases hne : gap = []
  · rw [hne, List.append_nil]
  · have hcut := words_append_gap hne hgap before []
    rwa [List.append_nil, show words [] = [] from rfl, List.append_nil] at hcut

/-- **A word with nothing but blanks next to it** is one of the words of the text, between those before and
those after it. -/
theorem words_append_word (hne : word ≠ []) (hword : ∀ c ∈ word, isBlank c = false)
    (hbefore : ∀ c ∈ before.getLast?, isBlank c = true)
    (hafter : ∀ c ∈ after.head?, isBlank c = true) :
    words (before ++ (word ++ after)) = words before ++ word :: words after := by
  have hrest : words (word ++ after) = word :: words after := by
    cases after with
    | nil => rw [List.append_nil, words_eq_singleton hne hword]; rfl
    | cons c after =>
      have hc : isBlank c = true := hafter c rfl
      rw [words_append_blank hc, words_eq_singleton hne hword]
      exact congrArg (word :: ·) (words_append_blank hc [] after).symm
  rw [← hrest]
  rcases List.eq_nil_or_concat before with rfl | ⟨init, c, rfl⟩
  · rfl
  · have hc : isBlank c = true := hbefore c (by simp)
    have hend : words (init ++ [c]) = words init := by
      rw [words_append_blank hc]
      exact List.append_nil _
    rw [List.concat_eq_append, List.append_assoc, List.singleton_append, words_append_blank hc,
      hend]

theorem isBlank_of_isAlpha {c : Char} (h : c.isAlpha = true) : isBlank c = false := by
  rw [Text.isAlpha_iff] at h
  simp only [isBlank, blankRanges, List.any_cons, List.any_nil, Bool.or_eq_false_iff,
    Bool.and_eq_false_iff, decide_eq_false_iff_not, and_true]
  omega

/-- A word in the shape of a reference has no blanks. -/
theorem isBlank_of_shape {letters digits : List Char} (h : Reference.Shape letters digits) :
    ∀ c ∈ letters ++ digits, isBlank c = false := by
  rintro c hc
  rcases List.mem_append.mp hc with hc | hc
  · exact isBlank_of_isAlpha (h.isAlpha c hc)
  · exact (isPlain_of_isDigit (h.isDigit c hc)).2

/-! ## Changes of spelling -/

/-- **One change of the spelling of a text.** -/
inductive Respells : List Char → List Char → Prop
  /-- A run of blanks between words becomes another one, which is not empty. -/
  | between (before gap gap' after : List Char) (hne : gap ≠ [])
      (hgap : ∀ c ∈ gap, isBlank c = true) (hne' : gap' ≠ [])
      (hgap' : ∀ c ∈ gap', isBlank c = true) :
      Respells (before ++ (gap ++ after)) (before ++ (gap' ++ after))
  /-- The blanks at the two ends become others, or none; there may have been none before. -/
  | ends (front front' text back back' : List Char) (hfront : ∀ c ∈ front, isBlank c = true)
      (hfront' : ∀ c ∈ front', isBlank c = true) (hback : ∀ c ∈ back, isBlank c = true)
      (hback' : ∀ c ∈ back', isBlank c = true) :
      Respells (front ++ (text ++ back)) (front' ++ (text ++ back'))
  /-- The letters of a word that is letters followed by digits get other cases. -/
  | letters (before letters letters' digits after : List Char)
      (hshape : Reference.Shape letters digits)
      (hcase : letters'.map Char.toUpper = letters.map Char.toUpper)
      (hbefore : ∀ c ∈ before.getLast?, isBlank c = true)
      (hafter : ∀ c ∈ after.head?, isBlank c = true) :
      Respells (before ++ ((letters ++ digits) ++ after))
        (before ++ ((letters' ++ digits) ++ after))

/-- **One change of the spelling keeps the tokens of a text.** -/
theorem Respells.tokenize_eq {text text' : List Char} (h : Respells text text') :
    tokenize (String.ofList text') = tokenize (String.ofList text) := by
  rw [tokenize, tokenize, String.toList_ofList, String.toList_ofList]
  cases h with
  | between before gap gap' after hne hgap hne' hgap' =>
    rw [words_append_gap hne hgap, words_append_gap hne' hgap']
  | ends front front' text back back' hfront hfront' hback hback' =>
    rw [words_gap_append hfront, words_append_end hback, words_gap_append hfront',
      words_append_end hback']
  | letters before letters letters' digits after hshape hcase hbefore hafter =>
    have hshape' := hshape.of_capitals hcase
    have hne : letters ++ digits ≠ [] := List.append_ne_nil_of_left_ne_nil hshape.letters_ne _
    have hne' : letters' ++ digits ≠ [] := List.append_ne_nil_of_left_ne_nil hshape'.letters_ne _
    rw [words_append_word hne (isBlank_of_shape hshape) hbefore hafter,
      words_append_word hne' (isBlank_of_shape hshape') hbefore hafter, List.map_append,
      List.map_append, List.map_cons, List.map_cons, Token.classify_of_capitals hshape hcase]

/-- **Any number of changes keep the tokens of a text.** -/
theorem tokenize_of_respells {text text' : List Char}
    (h : Relation.ReflTransGen Respells text text') :
    tokenize (String.ofList text') = tokenize (String.ofList text) := by
  induction h with
  | refl => rfl
  | tail _ hstep ih => exact hstep.tokenize_eq.trans ih

end Text

/-- Sheets of one shape whose texts differ by changes of their spelling, any number of them in any cells. -/
def Sheet.Respelled (sheet other : Sheet) : Prop :=
  List.Forall₂ (List.Forall₂ fun raw raw' =>
    Relation.ReflTransGen Text.Respells raw.toList raw'.toList) sheet.rows other.rows

/-- What a function takes to the same values in pairs, it maps to the same list. -/
theorem map_eq_of_forall₂ {α β : Type} {f : α → β} {l l' : List α}
    (h : List.Forall₂ (fun x x' => f x' = f x) l l') : l'.map f = l.map f := by
  induction h with
  | nil => rfl
  | cons hx _ ih => rw [List.map_cons, List.map_cons, hx, ih]

/-- **Changes of the spelling keep the tokens of a sheet.** -/
theorem Sheet.tokens_of_respelled (h : sheet.Respelled other) : other.tokens = sheet.tokens := by
  have hcell : ∀ raw raw' : String,
      Relation.ReflTransGen Text.Respells raw.toList raw'.toList →
        tokenize raw' = tokenize raw := by
    intro raw raw' hraw
    simpa using Text.tokenize_of_respells hraw
  exact map_eq_of_forall₂ (h.imp fun _ _ hrow => map_eq_of_forall₂ (hrow.imp hcell))

/-- **The spelling of a sheet does not matter**: neither the blanks between the words and at the ends of
its texts nor the cases of the letters of references make a difference to the results and counts, under
both policies, or to what any cell comes to, but for the text that a fault quotes. -/
theorem calculate_of_respelled (h : sheet.Respelled other) :
    (∀ policy, calculate other policy = calculate sheet policy) ∧
      ∀ a policy,
        Alike Fault.SameButContent (calculateCell other a policy) (calculateCell sheet a policy) :=
  have htokens := Sheet.tokens_of_respelled h
  ⟨calculate_of_tokens htokens, calculateCell_alike_of_tokens htokens⟩

/-- A reference in capitals, a gap of two tabs and a blank in front change nothing but the text that the
fault of `D1` quotes. -/
theorem calculate_of_respelled_tabs :
    Sheet.Respelled ⟨[["b1 2 *", "3", "hi", "C1"]]⟩ ⟨[["B1\t\t2 *", "3", " hi", "C1"]]⟩ ∧
      calculate ⟨[["B1\t\t2 *", "3", " hi", "C1"]]⟩ .cache =
        calculate ⟨[["b1 2 *", "3", "hi", "C1"]]⟩ .cache ∧
      calculateCell ⟨[["b1 2 *", "3", "hi", "C1"]]⟩ ⟨0, 3⟩ .rewalk =
        .error (.invalidContent ⟨0, 2⟩ "hi") ∧
      Alike Fault.SameButContent
        (calculateCell ⟨[["B1\t\t2 *", "3", " hi", "C1"]]⟩ ⟨0, 3⟩ .rewalk)
        (.error (.invalidContent ⟨0, 2⟩ "hi")) := by
  have hspace : Text.isBlank ' ' = true := rfl
  have htab : Text.isBlank '\t' = true := rfl
  have hletters := Text.Respells.letters [] ['b'] ['B'] ['1'] [' ', '2', ' ', '*']
    ⟨by simp, by simp, by simp, by simp⟩ rfl (by simp) (by simp [hspace])
  have hgap := Text.Respells.between ['B', '1'] [' '] ['\t', '\t'] ['2', ' ', '*']
    (by simp) (by simp [hspace]) (by simp) (by simp [htab])
  have hfront := Text.Respells.ends [] [' '] ['h', 'i'] [] []
    (by simp) (by simp [hspace]) (by simp) (by simp)
  have h : Sheet.Respelled ⟨[["b1 2 *", "3", "hi", "C1"]]⟩
      ⟨[["B1\t\t2 *", "3", " hi", "C1"]]⟩ :=
    .cons (.cons (.head hletters (.single hgap)) (.cons .refl (.cons (.single hfront)
      (.cons .refl .nil)))) .nil
  have hfault : calculateCell ⟨[["b1 2 *", "3", "hi", "C1"]]⟩ ⟨0, 3⟩ .rewalk =
      .error (.invalidContent ⟨0, 2⟩ "hi") := rfl
  refine ⟨h, (calculate_of_respelled h).1 .cache, hfault, ?_⟩
  rw [← hfault]
  exact (calculate_of_respelled h).2 ⟨0, 3⟩ .rewalk

end PostfixSheet
