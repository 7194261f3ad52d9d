import Mathlib.Data.Char
import Mathlib.Data.List.Shortlex
import PostfixSheet.Proofs.AddressTexts

/-!
# Columns in the order of their names

Names are ordered as in a list that has the short ones first: a shorter name comes before a longer one, and
of two names of one length that one which the alphabet puts first. This is the order of the columns. No
letter stands for zero, so that one letter more outweighs whatever the other letters say; and of two names of
one length the first letter in which they differ outweighs all letters behind it.

Every word in capitals is therefore the name of one column, and no two cells have the same text.

* `IsName` says which texts are words in capitals.

Results:
* `number_lt_of_length_lt`: more letters stand for a greater number.
* `number_lt_of_lex`: of as many capitals, those that the alphabet puts first stand for the smaller number.
* `shortlex_iff_number_lt`: so words in capitals are ordered like their numbers.
* `letters_of_number`: and they are the letters of the column with that number.
* `a1_injective`: different addresses have different texts.
* `names_in_order`: all of it for the names of columns.
-/

namespace PostfixSheet

namespace Column

variable {s t : List Char} {c d : Char}

/-! ## Capitals -/

theorem isAlpha_of_isUpper (h : c.isUpper = true) : c.isAlpha = true :=
  Bool.or_eq_true_iff.mpr (.inl h)

theorem forall_isAlpha (h : ∀ c ∈ s, c.isUpper = true) : ∀ c ∈ s, c.isAlpha = true :=
  fun c hc => isAlpha_of_isUpper (h c hc)

theorem toUpper_of_isUpper (h : c.isUpper = true) : c.toUpper = c := by
  refine Text.toUpper_of_not_isLower (Bool.eq_false_iff.mpr fun hlower => ?_)
  have := Text.isUpper_iff.mp h
  have := Text.isLower_iff.mp hlower
  omega

/-- Capitals have the order of their values. -/
theorem letterValue_lt (hc : c.isUpper = true) (hd : d.isUpper = true) (h : c < d) :
    letterValue c < letterValue d := by
  have hlt : c.toNat < d.toNat := h
  have hpos := letterValue_pos (isAlpha_of_isUpper hc)
  unfold letterValue at *
  rw [toUpper_of_isUpper hc] at *
  rw [toUpper_of_isUpper hd]
  omega

/-! ## Words in order -/

/-- **More letters stand for a greater number.** The last letters add at most 26 on one side and at least 1 on
the other, and the letters before them differ by 1 at least, which counts 26 times. -/
theorem number_lt_of_length_lt (hs : ∀ c ∈ s, c.isAlpha = true) (ht : ∀ c ∈ t, c.isAlpha = true)
    (h : s.length < t.length) : number s < number t := by
  induction t using List.reverseRecOn generalizing s with
  | nil => exact absurd h (Nat.not_lt_zero _)
  | append_singleton t d ih =>
    have hd := letterValue_pos (ht d (List.mem_append_right _ List.mem_cons_self))
    rw [number_append_singleton]
    rcases List.eq_nil_or_concat' s with rfl | ⟨s, c, rfl⟩
    · rw [number_nil]
      omega
    · have hc := letterValue_le (hs c (List.mem_append_right _ List.mem_cons_self))
      have hlt : s.length < t.length := by simpa using h
      have hrest := ih (fun x hx => hs x (List.mem_append_left _ hx))
        (fun x hx => ht x (List.mem_append_left _ hx)) hlt
      rw [number_append_singleton]
      omega

/-- One letter more in front outweighs any difference of the letters behind it. -/
theorem number_lt_add (hs : ∀ c ∈ s, c.isAlpha = true) (ht : ∀ c ∈ t, c.isAlpha = true)
    (h : s.length = t.length) : number s < 26 ^ t.length + number t := by
  induction s generalizing t with
  | nil =>
    obtain rfl := List.eq_nil_of_length_eq_zero h.symm
    decide
  | cons c s ih =>
    cases t with
    | nil => cases h
    | cons d t =>
      obtain ⟨hc, hs⟩ := List.forall_mem_cons.mp hs
      obtain ⟨hd, ht⟩ := List.forall_mem_cons.mp ht
      have hlen : s.length = t.length := by simpa using h
      have hrest := ih hs ht hlen
      have hle := Nat.mul_le_mul_right (26 ^ t.length) (letterValue_le hc)
      have hpos := Nat.mul_le_mul_right (26 ^ t.length) (letterValue_pos hd)
      rw [number_cons, number_cons, List.length_cons, Nat.pow_succ, hlen]
      omega

/-- **Of as many capitals, those that the alphabet puts first stand for the smaller number.** -/
theorem number_lt_of_lex (hs : ∀ c ∈ s, c.isUpper = true) (ht : ∀ c ∈ t, c.isUpper = true)
    (hlen : s.length = t.length) (h : List.Lex (· < ·) s t) : number s < number t := by
  induction h with
  | nil => cases hlen
  | @cons c s t h ih =>
    obtain ⟨-, hs⟩ := List.forall_mem_cons.mp hs
    obtain ⟨-, ht⟩ := List.forall_mem_cons.mp ht
    have hlen : s.length = t.length := Nat.succ.inj hlen
    have hrest := ih hs ht hlen
    rw [number_cons, number_cons, hlen]
    omega
  | @rel c s d t h =>
    obtain ⟨hc, hs⟩ := List.forall_mem_cons.mp hs
    obtain ⟨hd, ht⟩ := List.forall_mem_cons.mp ht
    have hlen : s.length = t.length := Nat.succ.inj hlen
    -- the first letters differ by one at least, which is more than all that stands behind them
    have hrest := number_lt_add (forall_isAlpha hs) (forall_isAlpha ht) hlen
    have hvalue := Nat.mul_le_mul_right (26 ^ t.length) (letterValue_lt hc hd h)
    rw [Nat.succ_mul] at hvalue
    rw [number_cons, number_cons, hlen]
    omega

theorem number_lt_of_shortlex (hs : ∀ c ∈ s, c.isUpper = true) (ht : ∀ c ∈ t, c.isUpper = true)
    (h : List.Shortlex (· < ·) s t) : number s < number t := by
  rcases List.shortlex_def.mp h with hlen | ⟨hlen, hlex⟩
  · exact number_lt_of_length_lt (forall_isAlpha hs) (forall_isAlpha ht) hlen
  · exact number_lt_of_lex hs ht hlen hlex

/-- **Words in capitals are ordered like their numbers.** -/
theorem shortlex_iff_number_lt (hs : ∀ c ∈ s, c.isUpper = true)
    (ht : ∀ c ∈ t, c.isUpper = true) :
    List.Shortlex (· < ·) s t ↔ number s < number t := by
  constructor
  · exact number_lt_of_shortlex hs ht
  · intro h
    rcases trichotomous_of (List.Shortlex (· < ·)) s t with hst | rfl | hts
    · exact hst
    · exact absurd h (Nat.lt_irrefl _)
    · exact absurd h (Nat.lt_asymm (number_lt_of_shortlex ht hs hts))

/-! ## Names -/

/-- **Letters in capitals are those of the column with their number.** -/
theorem letters_of_number (hne : s ≠ []) (hs : ∀ c ∈ s, c.isUpper = true) :
    Column.letters (number s - 1) = s := by
  have hpos := number_pos hne (forall_isAlpha hs)
  have hcapitals : s.map Char.toUpper = s := by
    refine (List.map_congr_left fun c hc => ?_).trans (List.map_id s)
    exact toUpper_of_isUpper (hs c hc)
  rw [Column.letters, Nat.sub_add_cancel hpos,
    lettersFrom_number (forall_isAlpha hs) (Nat.le_refl _), hcapitals]

/-- What is written for a column is written in capitals. -/
theorem isUpper_of_mem_letters {col : Nat} (h : c ∈ Column.letters col) : c.isUpper = true := by
  -- the letters of a column are those written for the number that they stand for
  have hcapitals : Column.letters col = (Column.letters col).map Char.toUpper := by
    have halpha : ∀ c ∈ Column.letters col, c.isAlpha = true := fun _ => isAlpha_of_mem_letters
    have hwritten := lettersFrom_number halpha (Nat.le_refl _)
    rwa [number_letters, ← Column.letters] at hwritten
  rw [hcapitals] at h
  obtain ⟨d, hd, rfl⟩ := List.mem_map.mp h
  rw [Text.isUpper_toUpper]
  exact isAlpha_of_mem_letters hd

/-- A text is a word in capitals `A` to `Z`, with one letter at least. -/
structure IsName (text : String) : Prop where
  ne_empty : text ≠ ""
  isUpper : ∀ c ∈ text.toList, c.isUpper = true

section Names

variable {text : String} {col : Nat}

theorem IsName.toList_ne_nil (h : IsName text) : text.toList ≠ [] :=
  fun hnil => h.ne_empty (String.toList_eq_nil_iff.mp hnil)

theorem IsName.number_pos (h : IsName text) : 1 ≤ number text.toList :=
  Column.number_pos h.toList_ne_nil (forall_isAlpha h.isUpper)

theorem toList_name (col : Nat) : (name col).toList = Column.letters col := String.toList_ofList

theorem isName_name (col : Nat) : IsName (name col) where
  ne_empty h := letters_ne_nil col (by rw [← toList_name, h]; rfl)
  isUpper _ h := isUpper_of_mem_letters (toList_name col ▸ h)

/-- **A word in capitals is the name of the column with its number**, and of no other. -/
theorem name_eq_iff (h : IsName text) : name col = text ↔ col + 1 = number text.toList := by
  constructor
  · rintro rfl
    rw [toList_name, number_letters]
  · intro hnumber
    have hcol : col = number text.toList - 1 := by omega
    rw [name, hcol, letters_of_number h.toList_ne_nil h.isUpper, String.ofList_toList]

/-- **The names of the columns of 32 bits are the words in capitals with a number of at most `2 ^ 32`.** -/
theorem existsUnique_name_iff (text : String) :
    (∃! col, col < 2 ^ 32 ∧ name col = text) ↔ IsName text ∧ number text.toList ≤ 2 ^ 32 := by
  constructor
  · rintro ⟨col, ⟨hlt, rfl⟩, -⟩
    refine ⟨isName_name col, ?_⟩
    rw [toList_name, number_letters]
    exact hlt
  · rintro ⟨h, hle⟩
    have hpos := h.number_pos
    refine ⟨number text.toList - 1, ⟨by omega, (name_eq_iff h).mpr (by omega)⟩, ?_⟩
    rintro col ⟨-, hcol⟩
    have := (name_eq_iff h).mp hcol
    omega

end Names

end Column

/-! ## Texts of addresses -/

namespace Address

/-- **Different addresses have different texts.** -/
theorem a1_injective : Function.Injective a1 := by
  rintro ⟨row, col⟩ ⟨row', col'⟩ h
  obtain ⟨hletters, hdigits⟩ := (spells_a1 ⟨row, col⟩).unique (h ▸ spells_a1 ⟨row', col'⟩)
  have hcol := congrArg Column.number hletters
  have hrow := congrArg Decimal.valueOf hdigits
  rw [Column.number_letters, Column.number_letters] at hcol
  rw [Decimal.valueOf_digits, Decimal.valueOf_digits] at hrow
  rw [mk.injEq]
  exact ⟨(Nat.succ.inj hrow).symm, (Nat.succ.inj hcol).symm⟩

end Address

namespace Column

/-! ## The order of names -/

/-- **The names of columns are in the order of the columns, and no two cells have one text.** The letters that
are written in words are those of the column. One column comes before another exactly if its name comes first
where short names stand before long ones. Each name is a word in capitals, and a word in capitals is the name
of exactly one column of 32 bits if its number is at most `2 ^ 32`. And the text of an address tells its row
and its column. -/
theorem names_in_order :
    (∀ col : UInt32, wordLetters col = some (Column.letters col.toNat)) ∧
    (∀ c d : Nat, List.Shortlex (· < ·) (name c).toList (name d).toList ↔ c < d) ∧
    (∀ col : Nat, IsName (name col)) ∧
    (∀ text : String,
      (∃! col, col < 2 ^ 32 ∧ name col = text) ↔ IsName text ∧ number text.toList ≤ 2 ^ 32) ∧
    Function.Injective Address.a1 := by
  refine ⟨wordLetters_eq, fun c d => ?_, isName_name, existsUnique_name_iff, Address.a1_injective⟩
  rw [shortlex_iff_number_lt (isName_name c).isUpper (isName_name d).isUpper, toList_name,
    toList_name, number_letters, number_letters]
  exact Nat.add_lt_add_iff_right

/-- The last column of 32 bits is `MWLQKWV`. It comes behind `ZZ`, the word behind it names none, and the last
rows and columns have texts of their own. -/
theorem names_in_order_last_column :
    (∃! col, col < 2 ^ 32 ∧ name col = "MWLQKWV") ∧ name (2 ^ 32 - 1) = "MWLQKWV" ∧
      List.Shortlex (· < ·) (name 701).toList (name (2 ^ 32 - 1)).toList ∧
      ¬ (∃! col, col < 2 ^ 32 ∧ name col = "MWLQKWW") ∧
      (⟨2 ^ 32 - 1, 2 ^ 32 - 2⟩ : Address).a1 ≠ (⟨2 ^ 32 - 2, 2 ^ 32 - 1⟩ : Address).a1 := by
  obtain ⟨-, horder, -, hnames, hinjective⟩ := names_in_order
  have hname : IsName "MWLQKWV" := ⟨by decide, List.all_eq_true.mp (by decide)⟩
  have hlast : 2 ^ 32 - 1 + 1 = number "MWLQKWV".toList := by decide
  have hpast : ¬ number "MWLQKWW".toList ≤ 2 ^ 32 := by decide
  refine ⟨(hnames "MWLQKWV").mpr ⟨hname, by decide⟩, (name_eq_iff hname).mpr hlast,
    (horder 701 (2 ^ 32 - 1)).mpr (by decide), fun h => ?_, ?_⟩
  · exact hpast ((hnames "MWLQKWW").mp h).2
  · exact hinjective.ne (by decide)

end Column

end PostfixSheet
