import Mathlib.Data.Option.Basic
import PostfixSheet.Formula.Token

/-!
# Words as tokens

A token tells its word, but for what is lost when the word is read. An operator and an invalid token tell it
exactly. A reference tells it in upper case: a word that is letters followed by digits is a reference and
nothing else, since it begins with a letter, as no number and no operator does, and a column has the same
number in either case.

* `Text.capitals` is a text with its ASCII letters in upper case.
* `Reference.Shape` says that there are letters and digits.

Results:
* `isUpper_toUpper`: a letter in upper case is a capital.
* `parse_capitals`: an address is read from the text and from its capitals alike.
* `parse?_capitals`: so is a reference, and its name is the capitals.
* `exists_parse?`: letters followed by digits are a reference.
* `classify_eq_reference_iff`: a word is a reference exactly when it is read as one.
* `toList_of_classify_operator`, `eq_of_classify_invalid`: an operator is its symbol, and an invalid token
  its word.
* `classify_capitals`: the capitals of a reference are the same reference, and `name_ne_of_invalid`: so its
  name is no invalid word.
* `classify_of_capitals`: so are letters followed by digits with the letters in any other case.
-/

namespace PostfixSheet

/-! ## Letters and digits -/

namespace Text

section Characters

variable {c : Char}

theorem isUpper_iff : c.isUpper = true ↔ 65 ≤ c.toNat ∧ c.toNat ≤ 90 := decide_eq_true_iff

theorem isLower_iff : c.isLower = true ↔ 97 ≤ c.toNat ∧ c.toNat ≤ 122 :=
  Bool.and_eq_true_iff.trans (and_congr decide_eq_true_iff decide_eq_true_iff)

theorem isAlpha_iff :
    c.isAlpha = true ↔ 65 ≤ c.toNat ∧ c.toNat ≤ 90 ∨ 97 ≤ c.toNat ∧ c.toNat ≤ 122 :=
  Bool.or_eq_true_iff.trans (or_congr isUpper_iff isLower_iff)

theorem isDigit_of_isAlpha (h : c.isAlpha = true) : c.isDigit = false := by
  rw [isAlpha_iff] at h
  rw [Bool.eq_false_iff, Ne, Char.isDigit_iff_toNat]
  simp only [Char.reduceToNat]
  omega

theorem isAlpha_of_isDigit (h : c.isDigit = true) : c.isAlpha = false := by
  rw [Bool.eq_false_iff]
  exact fun halpha => Bool.eq_false_iff.mp (isDigit_of_isAlpha halpha) h

/-- Only a small letter has another upper case. -/
theorem toUpper_of_not_isLower (h : c.isLower = false) : c.toUpper = c := by
  rw [Bool.eq_false_iff, Ne, isLower_iff] at h
  exact dif_neg h

theorem toNat_toUpper (h : c.isLower = true) : c.toUpper.toNat = c.toNat - 32 := by
  have hrange : 'a'.val ≤ c.val ∧ c.val ≤ 'z'.val := isLower_iff.mp h
  have hval : c.toUpper.val = c.val + ('A'.val - 'a'.val) := by
    delta Char.toUpper
    rw [dif_pos hrange]
  -- the letters go back by 32, which is a step forward in words
  have hback : ('A'.val - 'a'.val).toNat = 2 ^ 32 - 32 := by decide
  have hnat : c.toUpper.toNat = (c.toNat + (2 ^ 32 - 32)) % 2 ^ 32 := by
    rw [← hback]
    exact (congrArg UInt32.toNat hval).trans (UInt32.toNat_add _ _)
  have := isLower_iff.mp h
  omega

/-- A letter in upper case is a capital, and nothing else is. -/
theorem isUpper_toUpper (c : Char) : c.toUpper.isUpper = c.isAlpha := by
  rw [Bool.eq_iff_iff, isUpper_iff, isAlpha_iff]
  cases h : c.isLower with
  | true =>
    rw [toNat_toUpper h]
    have := isLower_iff.mp h
    omega
  | false =>
    rw [toUpper_of_not_isLower h]
    rw [Bool.eq_false_iff, Ne, isLower_iff] at h
    omega

theorem isLower_toUpper (c : Char) : c.toUpper.isLower = false := by
  cases h : c.isLower with
  | true =>
    rw [Bool.eq_false_iff, Ne, isLower_iff, toNat_toUpper h]
    have := isLower_iff.mp h
    omega
  | false => rw [toUpper_of_not_isLower h, h]

theorem isAlpha_toUpper (c : Char) : c.toUpper.isAlpha = c.isAlpha := by
  show (c.toUpper.isUpper || c.toUpper.isLower) = c.isAlpha
  rw [isUpper_toUpper, isLower_toUpper, Bool.or_false]

theorem toUpper_toUpper (c : Char) : c.toUpper.toUpper = c.toUpper :=
  toUpper_of_not_isLower (isLower_toUpper c)

theorem isLower_of_isAlpha_eq_false (h : c.isAlpha = false) : c.isLower = false :=
  (Bool.or_eq_false_iff.mp h).2

/-- A digit has no other case. -/
theorem toUpper_of_isDigit (h : c.isDigit = true) : c.toUpper = c :=
  toUpper_of_not_isLower (isLower_of_isAlpha_eq_false (isAlpha_of_isDigit h))

theorem isDigit_toUpper (c : Char) : c.toUpper.isDigit = c.isDigit := by
  cases h : c.isAlpha with
  | true => rw [isDigit_of_isAlpha h, isDigit_of_isAlpha ((isAlpha_toUpper c).trans h)]
  | false => rw [toUpper_of_not_isLower (isLower_of_isAlpha_eq_false h)]

end Characters

/-! ## Capitals -/

/-- A text with its ASCII letters in upper case. -/
def capitals (s : String) : String := String.ofList (s.toList.map Char.toUpper)

theorem toList_capitals (s : String) : (capitals s).toList = s.toList.map Char.toUpper :=
  String.toList_ofList

theorem capitals_capitals (s : String) : capitals (capitals s) = capitals s := by
  rw [capitals, toList_capitals, List.map_map, capitals]
  exact congrArg String.ofList (List.map_congr_left fun c _ => toUpper_toUpper c)

theorem takeWhile_isAlpha_capitals (l : List Char) :
    (l.map Char.toUpper).takeWhile Char.isAlpha = (l.takeWhile Char.isAlpha).map Char.toUpper := by
  rw [List.takeWhile_map]
  simp only [Function.comp_def, isAlpha_toUpper]

theorem dropWhile_isAlpha_capitals (l : List Char) :
    (l.map Char.toUpper).dropWhile Char.isAlpha = (l.dropWhile Char.isAlpha).map Char.toUpper := by
  rw [List.dropWhile_map]
  simp only [Function.comp_def, isAlpha_toUpper]

theorem all_isDigit_capitals (l : List Char) :
    (l.map Char.toUpper).all Char.isDigit = l.all Char.isDigit := by
  rw [List.all_map]
  simp only [Function.comp_def, isDigit_toUpper]

theorem map_toUpper_of_digits {l : List Char} (h : l.all Char.isDigit = true) :
    l.map Char.toUpper = l := by
  rw [List.all_eq_true] at h
  exact (List.map_congr_left fun c hc => toUpper_of_isDigit (h c hc)).trans (List.map_id l)

end Text

/-! ## Addresses -/

namespace Column

theorem letterValue_toUpper (c : Char) : letterValue c.toUpper = letterValue c := by
  rw [letterValue, letterValue, Text.toUpper_toUpper]

/-- A number is read from letters in either case; only a fault tells which text it was. -/
theorem numberFrom_capitals (whole whole' : String) (letters : List Char) : ∀ n,
    (numberFrom whole' n (letters.map Char.toUpper)).toOption =
      (numberFrom whole n letters).toOption := by
  induction letters with
  | nil => exact fun _ => rfl
  | cons c rest ih =>
    intro n
    simp only [List.map_cons, numberFrom, Text.isAlpha_toUpper, letterValue_toUpper]
    split
    · split
      · rfl
      · exact ih _
    · rfl

theorem ofLetters_capitals (letters : List Char) :
    (ofLetters (letters.map Char.toUpper)).toOption = (ofLetters letters).toOption := by
  have hmap : ∀ r : Except Fault Nat, (r.map (· - 1)).toOption = r.toOption.map (· - 1) := by
    intro r
    cases r <;> rfl
  simp only [ofLetters, List.isEmpty_map]
  split
  · rfl
  · rw [hmap, hmap, numberFrom_capitals]

end Column

namespace Address

/-- The address that letters and digits name, if any. -/
theorem toOption_parse (s : String) :
    (parse s).toOption =
      if s.toList.takeWhile Char.isAlpha ≠ [] ∧ s.toList.dropWhile Char.isAlpha ≠ [] ∧
          (s.toList.dropWhile Char.isAlpha).all Char.isDigit then
        (Column.ofLetters (s.toList.takeWhile Char.isAlpha)).toOption.bind fun col =>
          let row := Decimal.valueOf (s.toList.dropWhile Char.isAlpha)
          if Column.lastNumber < row ∨ row = 0 then none else some ⟨row - 1, col⟩
      else none := by
  simp only [parse]
  split
  · rename_i h
    rw [List.isEmpty_iff] at h
    rw [h, if_neg fun hshape => hshape.1 rfl]
    rfl
  split
  · rename_i h
    rw [if_neg fun hshape => hshape.1 (List.isEmpty_iff.mp h)]
    rfl
  split
  · rename_i h
    rw [if_neg fun hshape => hshape.2.1 (List.isEmpty_iff.mp h)]
    rfl
  split
  · rename_i h
    rw [if_neg fun hshape => by simp [hshape.2.2] at h]
    rfl
  · rename_i hletters hdigits hall
    rw [List.isEmpty_iff] at hletters hdigits
    rw [if_pos ⟨hletters, hdigits, by simpa using hall⟩]
    cases Column.ofLetters (s.toList.takeWhile Char.isAlpha) with
    | error e => rfl
    | ok col =>
      by_cases hrow : Column.lastNumber < Decimal.valueOf (s.toList.dropWhile Char.isAlpha)
      · simp only [hrow, if_true, true_or]
        rfl
      by_cases hzero : Decimal.valueOf (s.toList.dropWhile Char.isAlpha) = 0
      · simp only [hzero, if_true, or_true]
        rfl
      · simp only [hrow, hzero, if_false, or_self]
        rfl

/-- **An address is read from a text and from its capitals alike**; only a fault tells the two apart. -/
theorem parse_capitals (s : String) :
    (parse (Text.capitals s)).toOption = (parse s).toOption := by
  rw [toOption_parse, toOption_parse]
  simp only [Text.toList_capitals, Text.takeWhile_isAlpha_capitals,
    Text.dropWhile_isAlpha_capitals, Text.all_isDigit_capitals, ne_eq, List.map_eq_nil_iff,
    Column.ofLetters_capitals]
  split
  · rename_i h
    rw [Text.map_toUpper_of_digits h.2.2]
  · rfl

end Address

/-! ## References -/

variable {word : String} {r : Reference}

/-- **A reference is read from a word and from its capitals alike.** -/
theorem Reference.parse?_capitals (word : String) :
    Reference.parse? (Text.capitals word) = Reference.parse? word := by
  have hname := congrArg String.toList (Text.capitals_capitals word)
  rw [Text.toList_capitals, Text.toList_capitals] at hname
  simp only [Reference.parse?, Text.toList_capitals, List.isEmpty_map,
    Text.takeWhile_isAlpha_capitals, Text.dropWhile_isAlpha_capitals, Text.all_isDigit_capitals,
    Address.parse_capitals, hname]

/-- The name of a reference is its word in capitals. -/
theorem Reference.name_of_parse? (h : Reference.parse? word = some r) :
    r.name = Text.capitals word := by
  simp only [Reference.parse?] at h
  split at h
  · cases h
    rfl
  · cases h

/-- A reference begins with a letter. -/
theorem Reference.exists_cons_of_parse? (h : Reference.parse? word = some r) :
    ∃ c rest, word.toList = c :: rest ∧ c.isAlpha = true := by
  simp only [Reference.parse?] at h
  split at h
  · rename_i hshape
    cases hword : word.toList with
    | nil => simp [hword] at hshape
    | cons c rest =>
      refine ⟨c, rest, rfl, ?_⟩
      by_contra hc
      simp [hword, hc] at hshape
  · cases h

/-- Letters and digits, at least one of each: a word of the one followed by the other is a reference. -/
structure Reference.Shape (letters digits : List Char) : Prop where
  letters_ne : letters ≠ []
  isAlpha : ∀ c ∈ letters, c.isAlpha = true
  digits_ne : digits ≠ []
  isDigit : ∀ c ∈ digits, c.isDigit = true

/-- Other cases of the letters make no difference to the shape. -/
theorem Reference.Shape.of_capitals {letters letters' digits : List Char}
    (h : Shape letters digits) (hcase : letters'.map Char.toUpper = letters.map Char.toUpper) :
    Shape letters' digits where
  letters_ne := by
    rintro rfl
    exact h.letters_ne (List.map_eq_nil_iff.mp hcase.symm)
  isAlpha c hc := by
    have hmem : c.toUpper ∈ letters.map Char.toUpper := hcase ▸ List.mem_map_of_mem hc
    obtain ⟨d, hd, hupper⟩ := List.mem_map.mp hmem
    rw [← Text.isAlpha_toUpper, ← hupper, Text.isAlpha_toUpper]
    exact h.isAlpha d hd
  digits_ne := h.digits_ne
  isDigit := h.isDigit

/-- The letters end where the digits begin. -/
theorem Reference.Shape.takeWhile_append {letters digits : List Char} (h : Shape letters digits) :
    (letters ++ digits).takeWhile Char.isAlpha = letters := by
  obtain ⟨d, ds, rfl⟩ := List.exists_cons_of_ne_nil h.digits_ne
  rw [List.takeWhile_append_of_pos h.isAlpha, List.takeWhile_cons,
    Text.isAlpha_of_isDigit (h.isDigit d List.mem_cons_self)]
  exact List.append_nil letters

theorem Reference.Shape.dropWhile_append {letters digits : List Char} (h : Shape letters digits) :
    (letters ++ digits).dropWhile Char.isAlpha = digits := by
  obtain ⟨d, ds, rfl⟩ := List.exists_cons_of_ne_nil h.digits_ne
  rw [List.dropWhile_append_of_pos h.isAlpha, List.dropWhile_cons,
    Text.isAlpha_of_isDigit (h.isDigit d List.mem_cons_self)]
  rfl

/-- **Letters followed by digits are a reference.** -/
theorem Reference.Shape.exists_parse? {letters digits : List Char} (h : Shape letters digits) :
    ∃ r, Reference.parse? (String.ofList (letters ++ digits)) = some r := by
  have hall : digits.all Char.isDigit = true := List.all_eq_true.mpr h.isDigit
  simp only [Reference.parse?, String.toList_ofList, h.takeWhile_append, h.dropWhile_append, hall]
  exact ⟨_, if_pos (by simpa using ⟨h.letters_ne, h.digits_ne⟩)⟩

/-- A text that begins with a letter is no number. -/
theorem Numeral.parse?_of_isAlpha {c : Char} {rest : List Char} (h : c.isAlpha = true) :
    Numeral.parse? (c :: rest) = none := by
  have hne : ∀ d : Char, d.isAlpha = false → c ≠ d := by
    rintro d hd rfl
    exact Bool.eq_false_iff.mp hd h
  exact Numeral.parse?_cons_eq_none (Text.isDigit_of_isAlpha h) (hne _ rfl) (hne _ rfl) (hne _ rfl)

namespace Token

variable {text : String} {op : Operator}

/-- A reference is no number and no operator: it begins with a letter. -/
theorem of_reference (h : Reference.parse? word = some r) :
    Numeral.parse? word.toList = none ∧ Operator.ofSymbol? word = none := by
  obtain ⟨c, rest, hword, hc⟩ := Reference.exists_cons_of_parse? h
  refine ⟨by rw [hword, Numeral.parse?_of_isAlpha hc], ?_⟩
  by_contra hop
  obtain ⟨op, hop⟩ := Option.ne_none_iff_exists'.mp hop
  have hsymbol := Operator.ofSymbol?_eq_some_iff.mp hop
  rw [hword] at hsymbol
  rw [(List.cons.inj hsymbol).1] at hc
  cases op <;> cases hc

/-- **A word that is read as a reference is one**, and no number and no operator. -/
theorem classify_of_reference (h : Reference.parse? word = some r) :
    classify word = .reference r := by
  obtain ⟨hnumber, hoperator⟩ := of_reference h
  simp only [classify, hnumber, hoperator, h]

/-- What a word was read as, by the token that it is. -/
theorem of_classify (word : String) :
    match classify word with
    | .number x => ∃ numeral, Numeral.parse? word.toList = some numeral ∧ x = numeral.toFloat
    | .operator op => Operator.ofSymbol? word = some op
    | .reference r => Reference.parse? word = some r
    | .invalid text => text = word := by
  unfold classify
  cases hnumber : Numeral.parse? word.toList with
  | some numeral => exact ⟨numeral, rfl, rfl⟩
  | none =>
    cases hoperator : Operator.ofSymbol? word with
    | some op => rfl
    | none =>
      cases hreference : Reference.parse? word with
      | some r => rfl
      | none => rfl

theorem classify_eq_reference_iff :
    classify word = .reference r ↔ Reference.parse? word = some r := by
  refine ⟨fun h => ?_, classify_of_reference⟩
  have hof := of_classify word
  rwa [h] at hof

/-- An operator is its symbol. -/
theorem toList_of_classify_operator (h : classify word = .operator op) :
    word.toList = [op.symbol] := by
  have hof := of_classify word
  rw [h] at hof
  exact Operator.ofSymbol?_eq_some_iff.mp hof

/-- An invalid token is its word. -/
theorem eq_of_classify_invalid (h : classify word = .invalid text) : text = word := by
  have hof := of_classify word
  rwa [h] at hof

/-- **The capitals of a reference are the same reference.** -/
theorem classify_capitals (h : classify word = .reference r) :
    classify (Text.capitals word) = .reference r := by
  rw [classify_eq_reference_iff] at h ⊢
  rw [Reference.parse?_capitals, h]

/-- **The name of a reference is no invalid word.** -/
theorem name_ne_of_invalid (hr : classify word = .reference r)
    (hinvalid : classify text = .invalid text) : r.name ≠ text := by
  rintro rfl
  rw [Reference.name_of_parse? (classify_eq_reference_iff.mp hr), classify_capitals hr] at hinvalid
  cases hinvalid

/-- **Letters followed by digits are the same reference whatever the cases of the letters are.** -/
theorem classify_of_capitals {letters letters' digits : List Char}
    (h : Reference.Shape letters digits)
    (hcase : letters'.map Char.toUpper = letters.map Char.toUpper) :
    classify (String.ofList (letters' ++ digits)) =
      classify (String.ofList (letters ++ digits)) := by
  obtain ⟨r, hr⟩ := h.exists_parse?
  have hcapitals : Text.capitals (String.ofList (letters' ++ digits)) =
      Text.capitals (String.ofList (letters ++ digits)) := by
    simp only [Text.capitals, String.toList_ofList, List.map_append, hcase]
  have hr' : Reference.parse? (String.ofList (letters' ++ digits)) = some r := by
    rw [← Reference.parse?_capitals, hcapitals, Reference.parse?_capitals, hr]
  rw [classify_of_reference hr, classify_of_reference hr']

end Token

end PostfixSheet
