import Mathlib.Data.List.TakeWhile
import PostfixSheet.Proofs.ColumnNames

/-!
# Texts of addresses

An address is spelled by letters and the digits behind them, and by nothing else: where the letters end, the
digits begin, so a text spells its letters and digits in one way only. The address is what the two numbers
say, each less one; a text of that shape with a number that is too great or with the row zero is refused, and
the column is looked at first.

Digits are read with any zeros in front and written without. This and the case of the letters is all that is
lost when an address is read.

* `Address.Spells` says of which letters and digits a text is made.
* `Address.Fault.isInvalid` tells the faults of texts that name no address at all from those of texts that
  name one out of range.

Results:
* `digits_valueOf`: a number that is read from digits is written as these without the zeros in front.
* `parse_of_spells`, `parse_of_not_spells`: what is read of a text that is letters and digits, and of any
  other.
* `parse_iff_spells`: which texts are read, and which fault the others are refused with.
* `parse_a1`: what is read of the text of an address.
* `parse_a1_and_back`: an address is read from its own text up to the last row and column, and a text that is
  read is the address's own text in capitals and without the zeros in front.
-/

namespace PostfixSheet

/-! ## Digits -/

namespace Decimal

variable {c : Char} {ds : List Char} {n : Nat}

/-- The value of a digit is below ten, and the digit is written for it. -/
theorem digitChar_of_isDigit (h : c.isDigit = true) :
    c.toNat - '0'.toNat < 10 ∧ Nat.digitChar (c.toNat - '0'.toNat) = c := by
  have hzero : '0'.toNat = 48 := rfl
  have hbounds : 48 ≤ c.toNat ∧ c.toNat ≤ 57 := Char.isDigit_iff_toNat.mp h
  have hlt : c.toNat - '0'.toNat < 10 := by omega
  refine ⟨hlt, Char.toNat_inj.mp ?_⟩
  rw [Nat.toNat_digitChar_of_lt_ten hlt]
  omega

/-- **Digits that are read behind a number are written behind it**, unless the number is zero, which has no
digits in front of others. -/
theorem digits_ofDigitChars (hn : 0 < n) (h : ∀ c ∈ ds, c.isDigit = true) :
    digits (Nat.ofDigitChars 10 ds n) = digits n ++ ds := by
  induction ds generalizing n with
  | nil => rw [Nat.ofDigitChars_nil, List.append_nil]
  | cons c rest ih =>
    obtain ⟨hc, hrest⟩ := List.forall_mem_cons.mp h
    obtain ⟨hlt, hchar⟩ := digitChar_of_isDigit hc
    have hone : digits (10 * n + (c.toNat - '0'.toNat)) = digits n ++ [c] := by
      rw [digits, ← Nat.toDigits_append_toDigits (by decide) hn hlt, Nat.toDigits_of_lt_base hlt,
        hchar, digits]
    rw [Nat.ofDigitChars_cons, ih (by omega) hrest, hone, List.append_assoc, List.singleton_append]

/-- **A number that is read from digits is written as these without the zeros in front.** -/
theorem digits_valueOf (h : ∀ c ∈ ds, c.isDigit = true) (hvalue : valueOf ds ≠ 0) :
    digits (valueOf ds) = ds.dropWhile (· == '0') := by
  induction ds with
  | nil => exact absurd rfl hvalue
  | cons c rest ih =>
    obtain ⟨hc, hrest⟩ := List.forall_mem_cons.mp h
    by_cases hzero : c = '0'
    · subst hzero
      exact ih hrest hvalue
    · obtain ⟨hlt, hchar⟩ := digitChar_of_isDigit hc
      have hpos : 0 < c.toNat - '0'.toNat := by
        refine Nat.pos_of_ne_zero fun h0 => hzero ?_
        rw [← hchar, h0]
        rfl
      have hcons : valueOf (c :: rest) = Nat.ofDigitChars 10 rest (c.toNat - '0'.toNat) := by
        rw [valueOf, Nat.ofDigitChars_cons, Nat.mul_zero, Nat.zero_add]
      rw [hcons, digits_ofDigitChars hpos hrest, digits, Nat.toDigits_of_lt_base hlt, hchar,
        List.dropWhile_cons_of_neg (by simpa using hzero), List.singleton_append]

end Decimal

namespace Address

/-! ## Spelling -/

/-- A text is letters followed by digits, at least one of each. -/
structure Spells (s : String) (letters digits : List Char) : Prop where
  text : s.toList = letters ++ digits
  shape : Reference.Shape letters digits

/-- Whether a fault is of a text that names no address, and not of one out of range. -/
def Fault.isInvalid : Fault → Bool
  | .columnOutOfRange _ => false
  | .rowOutOfRange _ => false
  | _ => true

variable {s : String} {letters digits : List Char} {a : Address}

theorem Spells.takeWhile_eq (h : Spells s letters digits) :
    s.toList.takeWhile Char.isAlpha = letters := by
  rw [h.text, h.shape.takeWhile_append]

theorem Spells.dropWhile_eq (h : Spells s letters digits) :
    s.toList.dropWhile Char.isAlpha = digits := by
  rw [h.text, h.shape.dropWhile_append]

/-- A text is spelled in one way only. -/
theorem Spells.unique {letters' digits' : List Char} (h : Spells s letters digits)
    (h' : Spells s letters' digits') : letters' = letters ∧ digits' = digits :=
  ⟨h'.takeWhile_eq.symm.trans h.takeWhile_eq, h'.dropWhile_eq.symm.trans h.dropWhile_eq⟩

theorem Spells.exists_iff {P : List Char → List Char → Prop} (h : Spells s letters digits) :
    (∃ letters digits, Spells s letters digits ∧ P letters digits) ↔ P letters digits := by
  refine ⟨?_, fun hP => ⟨letters, digits, h, hP⟩⟩
  rintro ⟨letters', digits', h', hP⟩
  obtain ⟨rfl, rfl⟩ := h.unique h'
  exact hP

theorem Spells.forall_iff {P : List Char → List Char → Prop} (h : Spells s letters digits) :
    (∀ letters digits, Spells s letters digits → P letters digits) ↔ P letters digits := by
  refine ⟨fun hP => hP letters digits h, fun hP letters' digits' h' => ?_⟩
  obtain ⟨rfl, rfl⟩ := h.unique h'
  exact hP

/-! ## Reading -/

/-- **What is read of letters and digits**: the column is looked at before the row. -/
theorem parse_of_spells (h : Spells s letters digits) :
    parse s =
      if Column.lastNumber < Column.number letters then .error (.columnOutOfRange s)
      else if Column.lastNumber < Decimal.valueOf digits then .error (.rowOutOfRange s)
      else if Decimal.valueOf digits = 0 then .error (.zeroRow s)
      else .ok ⟨Decimal.valueOf digits - 1, Column.number letters - 1⟩ := by
  have hempty : s.toList ≠ [] := by
    rw [h.text]
    exact List.append_ne_nil_of_left_ne_nil h.shape.letters_ne _
  have hall : digits.all Char.isDigit = true := List.all_eq_true.mpr h.shape.isDigit
  unfold parse
  simp only [h.takeWhile_eq, h.dropWhile_eq, List.isEmpty_iff, hempty, h.shape.letters_ne,
    h.shape.digits_ne, hall, Bool.not_true, Bool.false_eq_true, if_false,
    Column.ofLetters_eq h.shape.letters_ne h.shape.isAlpha]
  by_cases hcol : Column.lastNumber < Column.number letters
  · simp only [hcol, if_true]
  · simp only [hcol, if_false]

/-- **Any other text names no address.** -/
theorem parse_of_not_spells (h : ∀ letters digits, ¬ Spells s letters digits) :
    ∃ e, parse s = .error e ∧ e.isInvalid = true := by
  unfold parse
  by_cases hempty : s.toList.isEmpty = true
  · exact ⟨_, if_pos hempty, rfl⟩
  by_cases hletters : (s.toList.takeWhile Char.isAlpha).isEmpty = true
  · simp only [hempty, hletters, if_true]
    exact ⟨_, rfl, rfl⟩
  by_cases hdigits : (s.toList.dropWhile Char.isAlpha).isEmpty = true
  · simp only [hempty, hletters, hdigits, if_true]
    exact ⟨_, rfl, rfl⟩
  by_cases hall : (s.toList.dropWhile Char.isAlpha).all Char.isDigit = true
  · refine absurd ⟨List.takeWhile_append_dropWhile.symm, ?_, ?_, ?_, ?_⟩
      (h (s.toList.takeWhile Char.isAlpha) (s.toList.dropWhile Char.isAlpha))
    · simpa only [List.isEmpty_iff] using hletters
    · exact fun c hc => List.mem_takeWhile_imp hc
    · simpa only [List.isEmpty_iff] using hdigits
    · exact List.all_eq_true.mp hall
  · simp only [hempty, hletters, hdigits, hall]
    exact ⟨_, rfl, rfl⟩

/-- Of the faults that letters and digits have, the one of the row zero is the only one not of the range. -/
theorem Spells.exists_isInvalid_iff (h : Spells s letters digits) :
    (∃ e, parse s = .error e ∧ e.isInvalid = true) ↔
      Column.number letters ≤ Column.lastNumber ∧ Decimal.valueOf digits = 0 := by
  have hread := parse_of_spells h
  constructor
  · rintro ⟨e, he, hinvalid⟩
    rw [hread] at he
    split_ifs at he with hcol hrow hzero
    · cases he
      cases hinvalid
    · cases he
      cases hinvalid
    · exact ⟨Nat.le_of_not_lt hcol, hzero⟩
  · rintro ⟨hcol, hzero⟩
    rw [hzero, if_neg (Nat.not_lt.mpr hcol), if_neg (Nat.not_lt_zero _), if_pos rfl] at hread
    exact ⟨.zeroRow s, hread, rfl⟩

theorem exists_spells_of_parse (h : parse s = .ok a) :
    ∃ letters digits, Spells s letters digits := by
  by_contra hs
  obtain ⟨e, he, -⟩ := parse_of_not_spells (s := s) (by simpa using hs)
  rw [he] at h
  cases h

/-- **The texts that are read are those of the grammar, and the others are refused with the fault of the first
thing that is wrong**: the shape, then the column, then the row. The words in which the letters are counted
never overflow. -/
theorem parse_iff_spells (s : String) :
    (∀ a, parse s = .ok a ↔ ∃ letters digits, Spells s letters digits ∧
      Column.number letters ≤ 2 ^ 32 - 1 ∧
      1 ≤ Decimal.valueOf digits ∧ Decimal.valueOf digits ≤ 2 ^ 32 - 1 ∧
      a = ⟨Decimal.valueOf digits - 1, Column.number letters - 1⟩) ∧
    (parse s = .error (.columnOutOfRange s) ↔ ∃ letters digits, Spells s letters digits ∧
      2 ^ 32 - 1 < Column.number letters) ∧
    (parse s = .error (.rowOutOfRange s) ↔ ∃ letters digits, Spells s letters digits ∧
      Column.number letters ≤ 2 ^ 32 - 1 ∧ 2 ^ 32 - 1 < Decimal.valueOf digits) ∧
    ((∃ e, parse s = .error e ∧ e.isInvalid = true) ↔ ∀ letters digits, Spells s letters digits →
      Column.number letters ≤ 2 ^ 32 - 1 ∧ Decimal.valueOf digits = 0) ∧
    ∀ letters, ∃ r, Column.wordOfLetters letters = some r ∧
      r.map UInt32.toNat = Column.ofLetters letters := by
  by_cases hs : ∃ letters digits, Spells s letters digits
  · obtain ⟨letters, digits, h⟩ := hs
    have hread := parse_of_spells h
    rw [Column.lastNumber_eq] at hread
    simp only [h.exists_iff, h.forall_iff]
    refine ⟨fun a => ?_, ?_, ?_, ?_, Column.exists_wordOfLetters⟩
    · rw [hread]
      split_ifs <;> grind
    · rw [hread]
      split_ifs <;> grind
    · rw [hread]
      split_ifs <;> grind
    · exact h.exists_isInvalid_iff
  · have hnone : ∀ letters digits, ¬ Spells s letters digits := by simpa using hs
    obtain ⟨e, he, hinvalid⟩ := parse_of_not_spells hnone
    have hrange : e ≠ .columnOutOfRange s ∧ e ≠ .rowOutOfRange s := by
      constructor <;> (rintro rfl; cases hinvalid)
    refine ⟨fun a => ?_, ?_, ?_, ?_, Column.exists_wordOfLetters⟩
    · simp only [he, hnone, false_and, exists_false, reduceCtorEq]
    · simp only [he, hnone, false_and, exists_false, Except.error.injEq, hrange.1]
    · simp only [he, hnone, false_and, exists_false, Except.error.injEq, hrange.2]
    · exact iff_of_true ⟨e, he, hinvalid⟩ fun letters digits h => absurd h (hnone letters digits)

/-- Behind the last column the row is not looked at: zero, for one, is no fault of its own there. -/
theorem parse_iff_spells_next_column :
    Spells "MWLQKWV0" "MWLQKWV".toList ['0'] ∧
      parse "MWLQKWV0" = .error (.columnOutOfRange "MWLQKWV0") := by
  have hspells : Spells "MWLQKWV0" "MWLQKWV".toList ['0'] :=
    ⟨by decide, by decide, List.all_eq_true.mp (by decide), by decide,
      List.all_eq_true.mp (by decide)⟩
  exact ⟨hspells, (parse_iff_spells "MWLQKWV0").2.1.mpr ⟨_, _, hspells, by decide⟩⟩

/-! ## Writing -/

theorem spells_a1 (a : Address) :
    Spells a.a1 (Column.letters a.col) (Decimal.digits (a.row + 1)) where
  text := String.toList_ofList
  shape :=
    { letters_ne := Column.letters_ne_nil a.col
      isAlpha := fun _ => Column.isAlpha_of_mem_letters
      digits_ne := Decimal.digits_ne_nil _
      isDigit := fun _ => Decimal.isDigit_of_mem_digits }

/-- **An address is read from its own text**, unless its column or its row is past the last one. -/
theorem parse_a1 (a : Address) :
    parse a.a1 =
      if Column.lastNumber ≤ a.col then .error (.columnOutOfRange a.a1)
      else if Column.lastNumber ≤ a.row then .error (.rowOutOfRange a.a1)
      else .ok a := by
  rw [parse_of_spells (spells_a1 a), Column.number_letters, Decimal.valueOf_digits,
    if_neg (Nat.succ_ne_zero a.row)]
  simp only [Nat.lt_add_one_iff, Nat.add_sub_cancel]

/-- **A text that is read is the text of its address** in capitals and without the zeros in front. -/
theorem Spells.a1_of_parse (h : Spells s letters digits) (hread : parse s = .ok a) :
    a.a1 = String.ofList (letters.map Char.toUpper ++ digits.dropWhile (· == '0')) := by
  rw [parse_of_spells h] at hread
  split_ifs at hread with hcol hrow hzero
  cases hread
  have hletters : Column.ofLetters letters = .ok (Column.number letters - 1) := by
    rw [Column.ofLetters_eq h.shape.letters_ne h.shape.isAlpha, if_neg hcol]
  have hdigits : Decimal.valueOf digits - 1 + 1 = Decimal.valueOf digits := by omega
  rw [a1, Column.letters_of_ofLetters hletters, hdigits,
    Decimal.digits_valueOf h.shape.isDigit hzero]

/-- **Reading undoes writing up to the last row and column, and writing undoes reading** but for the case of
the letters and the zeros in front of the row. -/
theorem parse_a1_and_back :
    (∀ a : Address,
      (parse a.a1 = .ok a ↔ a.row < 2 ^ 32 - 1 ∧ a.col < 2 ^ 32 - 1) ∧
      (2 ^ 32 - 1 ≤ a.col → parse a.a1 = .error (.columnOutOfRange a.a1)) ∧
      (a.col < 2 ^ 32 - 1 → 2 ^ 32 - 1 ≤ a.row → parse a.a1 = .error (.rowOutOfRange a.a1))) ∧
    (∀ s a, parse s = .ok a → ∃ letters digits, Spells s letters digits ∧
      a.a1 = String.ofList (letters.map Char.toUpper ++ digits.dropWhile (· == '0'))) ∧
    ∀ s col, Column.ofName s = .ok col → Column.name col = Text.capitals s := by
  refine ⟨fun a => ?_, fun s a hread => ?_, fun s col hread => ?_⟩
  · rw [parse_a1, Column.lastNumber_eq]
    refine ⟨?_, fun hcol => if_pos hcol, fun hcol hrow => ?_⟩
    · split_ifs <;> grind
    · rw [if_neg (Nat.not_le.mpr hcol), if_pos hrow]
  · obtain ⟨letters, digits, h⟩ := exists_spells_of_parse hread
    exact ⟨letters, digits, h, h.a1_of_parse hread⟩
  · rw [Column.name, Text.capitals, Column.letters_of_ofLetters hread]

/-- What is written for `aB007` is `AB7`, and from that the same address is read. -/
theorem parse_a1_and_back_zeros :
    parse "aB007" = .ok ⟨6, 27⟩ ∧
      (∃ letters digits, Spells "aB007" letters digits ∧ (⟨6, 27⟩ : Address).a1 =
        String.ofList (letters.map Char.toUpper ++ digits.dropWhile (· == '0'))) ∧
      parse (⟨6, 27⟩ : Address).a1 = .ok ⟨6, 27⟩ := by
  have hread : parse "aB007" = .ok ⟨6, 27⟩ := by decide
  exact ⟨hread, parse_a1_and_back.2.1 _ _ hread,
    (parse_a1_and_back.1 ⟨6, 27⟩).1.mpr ⟨by decide, by decide⟩⟩

end Address

end PostfixSheet
