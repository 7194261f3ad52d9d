import Mathlib.Data.List.TakeWhile
import PostfixSheet.Proofs.AddressTexts
import PostfixSheet.Proofs.Utf8Texts

/-!
# The grammar of words

A word is a number, an operator or a reference by three tests, and no word passes two of them. The letter
`e` may stand in a number and in a reference, and a sign in a number and for an operator; but a number
begins with a sign, a digit or a point and has a digit, a reference begins with a letter, and an operator
is a sign or another symbol and nothing else. So it makes no difference in which order a word is tested.

Numbers are read by a grammar that knows neither infinity nor the value that is no number. A reader that
knows the words for these accepts the same numbers when it is only asked about texts made of the bytes that
numbers are made of. In the same way letters and digits may be looked for among the bytes of a word instead
of its characters: no byte of a character outside ASCII is one of them.

* `Numeral.Spells` says of which sign, digits and exponent a number is made, and which number it is.
* `Numeral.Readable` adds the words for the values that are not finite.
* `Reference.isShaped` looks for letters and digits among bytes.
* `Token.tests` are the three tests, and `Token.firstOf` is the token by the first test that a word passes.

Results:
* `parse?_eq_some_iff`: what is read as a number is exactly what the grammar spells.
* `isSome_parse?_iff_readable`: so is what a reader that knows more words accepts among the texts made of the
  bytes of numbers.
* `isSome_parse?_iff_spells`, `isShaped_encode`: a reference is letters followed by digits, in characters and
  in bytes.
* `firstOf_of_perm`: the order of the tests makes no difference.
* `classify_grammar`: the three grammars are disjoint, and an address is read of exactly the references that
  have one.
-/

namespace PostfixSheet

/-! ## Cutting a list in two -/

section Cut

variable {α : Type} {p : α → Bool} {l m : List α}

theorem takeWhile_append_stop (hl : ∀ a ∈ l, p a = true) (hm : ∀ a ∈ m.head?, p a = false) :
    (l ++ m).takeWhile p = l := by
  rw [List.takeWhile_append_of_pos hl]
  cases m with
  | nil => exact List.append_nil l
  | cons a m => rw [List.takeWhile_cons_of_neg (by simp [hm a rfl]), List.append_nil]

theorem dropWhile_append_stop (hl : ∀ a ∈ l, p a = true) (hm : ∀ a ∈ m.head?, p a = false) :
    (l ++ m).dropWhile p = m := by
  rw [List.dropWhile_append_of_pos hl]
  cases m with
  | nil => rfl
  | cons a m => rw [List.dropWhile_cons_of_neg (by simp [hm a rfl])]

end Cut

/-! ## Numbers -/

namespace Numeral

/-- A sign, which may be missing, and whether it is a minus. -/
inductive Sign : List Char → Bool → Prop where
  | absent : Sign [] false
  | plus : Sign ['+'] false
  | minus : Sign ['-'] true

/-- A point, which may be missing, and the places behind it. -/
inductive Places : List Char → List Char → Prop where
  | absent : Places [] []
  | present {places : List Char} (hplaces : ∀ c ∈ places, c.isDigit = true) :
    Places ('.' :: places) places

/-- An exponent, which may be missing: the letter in either case, a sign and digits. -/
inductive Exponent : List Char → Int → Prop where
  | absent : Exponent [] 0
  | present {mark : Char} {sign digits : List Char} {negative : Bool}
    (hmark : mark = 'e' ∨ mark = 'E') (hsign : Sign sign negative) (hne : digits ≠ [])
    (hdigits : ∀ c ∈ digits, c.isDigit = true) :
    Exponent (mark :: (sign ++ digits))
      (if negative then -(Decimal.valueOf digits : Int) else Decimal.valueOf digits)

/-- **The grammar of numbers**: a sign, digits with a point before, between or behind them, at least one
digit in all, and an exponent, which is lowered by the number of places. -/
inductive Spells : List Char → Numeral → Prop where
  | mk {sign whole fraction places tail : List Char} {negative : Bool} {exponent : Int}
    (hsign : Sign sign negative) (hwhole : ∀ c ∈ whole, c.isDigit = true)
    (hfraction : Places fraction places) (hne : whole ++ places ≠ [])
    (htail : Exponent tail exponent) :
    Spells (sign ++ (whole ++ (fraction ++ tail)))
      ⟨negative, ⟨Decimal.valueOf (whole ++ places), exponent - places.length⟩⟩

variable {text body sign fraction places tail : List Char} {negative : Bool} {exponent : Int}
  {n : Numeral}

/-! ### What is split off -/

/-- What is split off is a sign. -/
theorem exists_sign_of_splitSign (text : List Char) :
    ∃ sign, Sign sign (splitSign text).1 ∧ text = sign ++ (splitSign text).2 := by
  unfold splitSign
  split
  · exact ⟨_, .minus, rfl⟩
  · exact ⟨_, .plus, rfl⟩
  · exact ⟨_, .absent, rfl⟩

/-- A sign is split off as a whole, since no other follows it. -/
theorem splitSign_append (hsign : Sign sign negative) (hbody : ∀ c ∈ body.head?, c ≠ '-' ∧ c ≠ '+') :
    splitSign (sign ++ body) = (negative, body) := by
  cases hsign with
  | plus => rfl
  | minus => rfl
  | absent =>
    rw [List.nil_append]
    unfold splitSign
    split
    · exact absurd rfl (hbody _ rfl).1
    · exact absurd rfl (hbody _ rfl).2
    · rfl

/-- What is split off behind the digits is a point with its places. -/
theorem exists_places_of_splitPlaces (text : List Char) :
    ∃ fraction, Places fraction (splitPlaces text).1 ∧ text = fraction ++ (splitPlaces text).2 := by
  unfold splitPlaces
  split
  · refine ⟨_, .present fun c hc => List.mem_takeWhile_imp hc, ?_⟩
    rw [List.cons_append, List.takeWhile_append_dropWhile]
  · exact ⟨_, .absent, rfl⟩

/-- An exponent begins with its letter, which is no digit and no point. -/
theorem Exponent.of_mem_head? (htail : Exponent tail exponent) :
    ∀ c ∈ tail.head?, c.isDigit = false ∧ c ≠ '.' := by
  cases htail with
  | absent => exact nofun
  | present hmark hsign hne hdigits =>
    intro c hc
    rw [← Option.mem_some_iff.mp hc]
    rcases hmark with rfl | rfl <;> decide

/-- What follows the digits before a point begins with no digit. -/
theorem Places.of_mem_head? (hfraction : Places fraction places) (htail : Exponent tail exponent) :
    ∀ c ∈ (fraction ++ tail).head?, c.isDigit = false := by
  cases hfraction with
  | absent => exact fun c hc => (htail.of_mem_head? c hc).1
  | present hplaces =>
    intro c hc
    rw [← Option.mem_some_iff.mp hc]
    rfl

/-- A point is split off with all its places. -/
theorem splitPlaces_append (hfraction : Places fraction places) (htail : Exponent tail exponent) :
    splitPlaces (fraction ++ tail) = (places, tail) := by
  cases hfraction with
  | absent =>
    rw [List.nil_append]
    unfold splitPlaces
    split
    · exact absurd rfl (htail.of_mem_head? _ rfl).2
    · rfl
  | present hplaces =>
    have hstop : ∀ c ∈ tail.head?, c.isDigit = false := fun c hc => (htail.of_mem_head? c hc).1
    rw [List.cons_append, splitPlaces, takeWhile_append_stop hplaces hstop,
      dropWhile_append_stop hplaces hstop]

/-- **An exponent is read exactly as it is spelled.** -/
theorem exponent?_eq_some_iff : exponent? text = some exponent ↔ Exponent text exponent := by
  constructor
  · intro h
    cases text with
    | nil =>
      cases h
      exact .absent
    | cons mark rest =>
      obtain ⟨sign, hsign, hrest⟩ := exists_sign_of_splitSign rest
      simp only [exponent?] at h
      split_ifs at h with hshape hnegative
      all_goals
        obtain ⟨hmark, hne, hall⟩ := hshape
        rw [← Option.some.inj h]
        have hpresent := Exponent.present hmark hsign hne (List.all_eq_true.mp hall)
        rw [← hrest] at hpresent
        simpa only [hnegative, if_true, if_false, Bool.false_eq_true] using hpresent
  · intro h
    cases h with
    | absent => rfl
    | present hmark hsign hne hdigits =>
      rename_i mark sign digits negative
      have hbody : ∀ c ∈ digits.head?, c ≠ '-' ∧ c ≠ '+' := by
        intro c hc
        have hdigit := hdigits c (List.mem_of_mem_head? hc)
        constructor <;> (rintro rfl; cases hdigit)
      simp only [exponent?, splitSign_append hsign hbody]
      rw [if_pos ⟨hmark, hne, List.all_eq_true.mpr hdigits⟩]

/-! ### Whole numbers -/

/-- What is read is spelled. -/
theorem spells_of_parse? (h : parse? text = some n) : Spells text n := by
  obtain ⟨sign, hsign, htext⟩ := exists_sign_of_splitSign text
  obtain ⟨fraction, hfraction, hrest⟩ :=
    exists_places_of_splitPlaces ((splitSign text).2.dropWhile Char.isDigit)
  simp only [parse?] at h
  split_ifs at h with hnone
  obtain ⟨exponent, hexponent, rfl⟩ := Option.map_eq_some_iff.mp h
  have hspells := Spells.mk hsign (fun c hc => List.mem_takeWhile_imp hc) hfraction
    (fun hnil => hnone (List.append_eq_nil_iff.mp hnil)) (exponent?_eq_some_iff.mp hexponent)
  rwa [← hrest, List.takeWhile_append_dropWhile, ← htext] at hspells

/-- What is spelled is read. -/
theorem parse?_of_spells (h : Spells text n) : parse? text = some n := by
  cases h with
  | mk hsign hwhole hfraction hne htail =>
    rename_i sign whole fraction places tail negative exponent
    have hbody : ∀ c ∈ (whole ++ (fraction ++ tail)).head?, c ≠ '-' ∧ c ≠ '+' := by
      intro c hc
      cases whole with
      | cons d whole =>
        have hdigit := hwhole d List.mem_cons_self
        rw [← Option.mem_some_iff.mp hc]
        constructor <;> (rintro rfl; cases hdigit)
      | nil =>
        cases hfraction with
        | absent => exact absurd rfl hne
        | present hplaces =>
          rw [← Option.mem_some_iff.mp hc]
          decide
    have hstop := hfraction.of_mem_head? htail
    have hdigits : ¬ (whole = [] ∧ places = []) := fun hnil => hne (List.append_eq_nil_iff.mpr hnil)
    simp only [parse?, splitSign_append hsign hbody, takeWhile_append_stop hwhole hstop,
      dropWhile_append_stop hwhole hstop, splitPlaces_append hfraction htail, if_neg hdigits,
      exponent?_eq_some_iff.mpr htail, Option.map_some]

/-- **What is read as a number is exactly what the grammar spells**, with the number that it spells. -/
theorem parse?_eq_some_iff : parse? text = some n ↔ Spells text n :=
  ⟨spells_of_parse?, parse?_of_spells⟩

end Numeral

/-! ## Bytes and characters -/

namespace Utf8

variable {p : UInt8 → Bool} {q : Char → Bool}

/-- Whether a test on bytes and one on characters agree: a character passes if its bytes do, and fails if
any of them does. -/
def Agree (p : UInt8 → Bool) (q : Char → Bool) : Prop :=
  ∀ c, ∀ b ∈ String.utf8EncodeChar c, p b = q c

/-- **Tests that nothing outside ASCII passes agree if they agree in ASCII.** -/
theorem agree_of_ascii (hascii : ∀ n < 0x80, p (UInt8.ofNat n) = q (Char.ofNat n))
    (hp : ∀ b, p b = true → b.toNat < 0x80) (hq : ∀ c, q c = true → c.toNat < 0x80) :
    Agree p q := by
  intro c b hb
  rcases encodeChar_cases c with ⟨d, hd, rfl, hchar⟩ | hhigh
  · rw [hchar, List.mem_singleton] at hb
    rw [hb, ← hascii d.toNat hd, UInt8.ofNat_toNat]
  · have hpb : p b = false := by
      rw [Bool.eq_false_iff]
      exact fun h => Nat.not_le.mpr (hp b h) (hhigh b hb)
    have hqc : q c = false := by
      rw [Bool.eq_false_iff]
      intro h
      obtain ⟨d, hd, hchar⟩ := encodeChar_of_lt (hq c h)
      exact Nat.not_le.mpr hd (hhigh d (hchar ▸ List.mem_singleton_self d))
    rw [hpb, hqc]

theorem Agree.all_encode (h : Agree p q) (text : List Char) : (encode text).all p = text.all q := by
  induction text with
  | nil => rfl
  | cons c text ih =>
    obtain ⟨b, bytes, hchar⟩ := List.exists_cons_of_ne_nil (String.utf8EncodeChar_ne_nil (c := c))
    have hall : (String.utf8EncodeChar c).all p = q c := by
      rw [Bool.eq_iff_iff, List.all_eq_true]
      constructor
      · intro hbytes
        rw [← h c b (hchar ▸ List.mem_cons_self)]
        exact hbytes b (hchar ▸ List.mem_cons_self)
      · exact fun hc b hb => (h c b hb).trans hc
    rw [encode_cons, List.all_append, List.all_cons, hall, ih]

theorem Agree.dropWhile_encode (h : Agree p q) (text : List Char) :
    (encode text).dropWhile p = encode (text.dropWhile q) :=
  Text.dropWhile_flatMap (fun _ => String.utf8EncodeChar_ne_nil) h text

theorem Agree.takeWhile_encode (h : Agree p q) (text : List Char) :
    (encode text).takeWhile p = encode (text.takeWhile q) := by
  have hparts : (encode text).takeWhile p ++ (encode text).dropWhile p =
      encode (text.takeWhile q) ++ (encode text).dropWhile p := by
    rw [List.takeWhile_append_dropWhile, h.dropWhile_encode, ← encode_append,
      List.takeWhile_append_dropWhile]
  exact List.append_cancel_right hparts

theorem isEmpty_encode (text : List Char) : (encode text).isEmpty = text.isEmpty := by
  cases text with
  | nil => rfl
  | cons c text => simp [encode_cons, String.utf8EncodeChar_ne_nil]

end Utf8

/-! ## Numbers among more words -/

namespace Numeral

/-- Whether a byte may stand in a number. -/
def isPartByte (b : UInt8) : Bool :=
  (0x30 ≤ b && b ≤ 0x39) || [0x2B, 0x2D, 0x2E, 0x65, 0x45].contains b

/-- Whether a character may stand in a number. -/
def isPart (c : Char) : Bool := c.isDigit || ['+', '-', '.', 'e', 'E'].contains c

/-- The words for infinity and for the value that is no number, in lower case. -/
def words : List (List Char) := ["inf".toList, "infinity".toList, "nan".toList]

/-- The texts that a reader of all doubles accepts: numbers, and the words in any case with a sign. -/
inductive Readable : List Char → Prop where
  | number {text : List Char} {n : Numeral} (h : Spells text n) : Readable text
  | word {sign word : List Char} {negative : Bool} (hsign : Sign sign negative)
    (hword : word.map Char.toLower ∈ words) : Readable (sign ++ word)

variable {text sign fraction places tail : List Char} {negative : Bool} {exponent : Int}
  {n : Numeral} {c : Char}

theorem agree_isPart : Utf8.Agree isPartByte isPart := by
  refine Utf8.agree_of_ascii (by decide) (fun b h => ?_) fun c h => ?_
  · simp only [isPartByte, Bool.or_eq_true, Bool.and_eq_true, decide_eq_true_eq,
      UInt8.le_iff_toNat_le, List.contains_iff_mem, List.mem_cons, List.not_mem_nil, or_false,
      ← UInt8.toNat_inj, UInt8.reduceToNat] at h
    omega
  · simp only [isPart, Bool.or_eq_true, Char.isDigit_iff_toNat, List.contains_iff_mem,
      List.mem_cons, List.not_mem_nil, or_false, ← Char.toNat_inj, Char.reduceToNat] at h
    omega

theorem isPart_of_isDigit (h : c.isDigit = true) : isPart c = true := by rw [isPart, h, Bool.true_or]

theorem Sign.forall_isPart (h : Sign sign negative) : ∀ c ∈ sign, isPart c = true := by
  cases h with
  | absent => exact List.forall_mem_nil _
  | plus => exact List.forall_mem_singleton.mpr rfl
  | minus => exact List.forall_mem_singleton.mpr rfl

theorem Places.forall_isPart (h : Places fraction places) : ∀ c ∈ fraction, isPart c = true := by
  cases h with
  | absent => exact List.forall_mem_nil _
  | present hplaces =>
    exact List.forall_mem_cons.mpr ⟨rfl, fun c hc => isPart_of_isDigit (hplaces c hc)⟩

theorem Exponent.forall_isPart (h : Exponent tail exponent) : ∀ c ∈ tail, isPart c = true := by
  cases h with
  | absent => exact List.forall_mem_nil _
  | present hmark hsign hne hdigits =>
    refine List.forall_mem_cons.mpr ⟨?_, List.forall_mem_append.mpr ⟨hsign.forall_isPart, fun c hc => ?_⟩⟩
    · rcases hmark with rfl | rfl <;> rfl
    · exact isPart_of_isDigit (hdigits c hc)

/-- All characters of a number may stand in one. -/
theorem Spells.forall_isPart (h : Spells text n) : ∀ c ∈ text, isPart c = true := by
  cases h with
  | mk hsign hwhole hfraction hne htail =>
    simp only [List.forall_mem_append]
    exact ⟨hsign.forall_isPart, fun c hc => isPart_of_isDigit (hwhole c hc), hfraction.forall_isPart, htail.forall_isPart⟩

/-- The first letters of the words stand in no number. -/
theorem toLower_of_isPart (h : isPart c = true) : c.toLower ≠ 'i' ∧ c.toLower ≠ 'n' := by
  simp only [Numeral.isPart, Bool.or_eq_true, List.contains_iff_mem, List.mem_cons,
    List.not_mem_nil, or_false] at h
  rcases h with h | rfl | rfl | rfl | rfl | rfl
  · have hsame : c.toLower = c := dif_neg fun hupper => by
      have halpha : c.isAlpha = true := Bool.or_eq_true_iff.mpr (.inl (decide_eq_true hupper))
      exact Bool.eq_false_iff.mp (Text.isDigit_of_isAlpha halpha) h
    rw [hsame]
    constructor <;> (rintro rfl; cases h)
  all_goals decide

/-- Each of the words has a character that stands in no number. -/
theorem exists_not_isPart_of_word {word : List Char} (hword : word.map Char.toLower ∈ words) :
    ∃ c ∈ word, isPart c = false := by
  cases word with
  | nil =>
    revert hword
    decide
  | cons c word =>
    refine ⟨c, List.mem_cons_self, Bool.eq_false_iff.mpr fun hpart => ?_⟩
    simp only [words, List.map_cons, List.mem_cons, List.not_mem_nil, or_false] at hword
    rcases hword with hword | hword | hword
    · exact (toLower_of_isPart hpart).1 (List.cons.inj hword).1
    · exact (toLower_of_isPart hpart).1 (List.cons.inj hword).1
    · exact (toLower_of_isPart hpart).2 (List.cons.inj hword).1

/-- None of the words is a number, with a sign or without. -/
theorem parse?_of_word {word : List Char} (sign : List Char) (hword : word.map Char.toLower ∈ words) :
    parse? (sign ++ word) = none := by
  obtain ⟨c, hc, hpart⟩ := exists_not_isPart_of_word hword
  by_contra h
  obtain ⟨n, hn⟩ := Option.ne_none_iff_exists'.mp h
  have := (spells_of_parse? hn).forall_isPart c (List.mem_append_right _ hc)
  exact Bool.eq_false_iff.mp hpart this

/-- **A reader of all doubles accepts no more than the numbers** among the texts whose bytes may stand in a
number. -/
theorem isSome_parse?_iff_readable : (parse? text).isSome = true ↔
    (Utf8.encode text).all isPartByte = true ∧ Readable text := by
  rw [agree_isPart.all_encode, List.all_eq_true, Option.isSome_iff_exists]
  constructor
  · rintro ⟨n, hn⟩
    have hspells := parse?_eq_some_iff.mp hn
    exact ⟨hspells.forall_isPart, .number hspells⟩
  · rintro ⟨hall, h⟩
    cases h with
    | number hspells => exact ⟨_, parse?_eq_some_iff.mpr hspells⟩
    | word hsign hword =>
      obtain ⟨c, hc, hpart⟩ := exists_not_isPart_of_word hword
      exact absurd (hall c (List.mem_append_right _ hc)) (Bool.eq_false_iff.mp hpart)

end Numeral

/-! ## References -/

namespace Reference

/-- Whether a byte is a letter. -/
def isLetterByte (b : UInt8) : Bool := (0x41 ≤ b && b ≤ 0x5A) || (0x61 ≤ b && b ≤ 0x7A)

/-- Whether a byte is a digit. -/
def isDigitByte (b : UInt8) : Bool := 0x30 ≤ b && b ≤ 0x39

/-- Whether bytes are letters followed by digits, at least one of each: the letters are counted, and what is
behind them must be digits. -/
def isShaped (bytes : List UInt8) : Bool :=
  let letters := (bytes.takeWhile isLetterByte).length
  let rest := bytes.drop letters
  0 < letters && !rest.isEmpty && rest.all isDigitByte

theorem agree_isAlpha : Utf8.Agree isLetterByte Char.isAlpha := by
  refine Utf8.agree_of_ascii (by decide) (fun b h => ?_) fun c h => ?_
  · simp only [isLetterByte, Bool.or_eq_true, Bool.and_eq_true, decide_eq_true_eq,
      UInt8.le_iff_toNat_le, UInt8.reduceToNat] at h
    omega
  · rw [Text.isAlpha_iff] at h
    omega

theorem agree_isDigit : Utf8.Agree isDigitByte Char.isDigit := by
  refine Utf8.agree_of_ascii (by decide) (fun b h => ?_) fun c h => ?_
  · simp only [isDigitByte, Bool.and_eq_true, decide_eq_true_eq, UInt8.le_iff_toNat_le,
      UInt8.reduceToNat] at h
    omega
  · simp only [Char.isDigit_iff_toNat, Char.reduceToNat] at h
    omega

variable {s : String}

theorem isSome_parse? (s : String) : (parse? s).isSome =
    (!(s.toList.takeWhile Char.isAlpha).isEmpty && !(s.toList.dropWhile Char.isAlpha).isEmpty &&
      (s.toList.dropWhile Char.isAlpha).all Char.isDigit) := by
  simp only [parse?]
  split
  · rename_i h
    exact h.symm
  · rename_i h
    exact (Bool.eq_false_iff.mpr h).symm

/-- **Letters followed by digits are found in the bytes of a text as in its characters.** -/
theorem isShaped_encode (s : String) : isShaped (Utf8.encode s.toList) = (parse? s).isSome := by
  have hrest : (Utf8.encode s.toList).drop
      ((Utf8.encode s.toList).takeWhile isLetterByte).length =
        (Utf8.encode s.toList).dropWhile isLetterByte := by
    conv =>
      lhs
      arg 2
      rw [← List.takeWhile_append_dropWhile (p := isLetterByte) (l := Utf8.encode s.toList)]
    exact List.drop_left
  have hcount : ∀ bytes : List UInt8, decide (0 < bytes.length) = !bytes.isEmpty := by
    intro bytes
    cases bytes <;> rfl
  simp only [isShaped]
  rw [hrest, hcount, agree_isAlpha.takeWhile_encode, agree_isAlpha.dropWhile_encode,
    agree_isDigit.all_encode, Utf8.isEmpty_encode, Utf8.isEmpty_encode, isSome_parse?]

/-- **A reference is letters followed by digits**, and nothing else. -/
theorem isSome_parse?_iff_spells :
    (parse? s).isSome = true ↔ ∃ letters digits, Address.Spells s letters digits := by
  rw [isSome_parse?]
  simp only [Bool.and_eq_true, Bool.not_eq_true', Bool.eq_false_iff, ne_eq, List.isEmpty_iff,
    List.all_eq_true]
  constructor
  · rintro ⟨⟨hletters, hdigits⟩, hall⟩
    exact ⟨_, _, List.takeWhile_append_dropWhile.symm, hletters,
      fun c hc => List.mem_takeWhile_imp hc, hdigits, hall⟩
  · rintro ⟨letters, digits, h⟩
    rw [h.takeWhile_eq, h.dropWhile_eq]
    exact ⟨⟨h.shape.letters_ne, h.shape.digits_ne⟩, h.shape.isDigit⟩

/-- The address of a reference is what is read of its word. -/
theorem address_of_parse? {r : Reference} (h : parse? s = some r) (a : Address) :
    r.address = some a ↔ Address.parse s = .ok a := by
  simp only [parse?] at h
  split_ifs at h
  rw [← Option.some.inj h]
  cases Address.parse s with
  | error e => constructor <;> intro hnone <;> cases hnone
  | ok b => simp [Except.toOption]

end Reference

/-! ## The three tests -/

namespace Token

/-- The three tests on a word, each with the token that a word is which passes it. -/
def tests : List (String → Option Token) :=
  [fun word => (Numeral.parse? word.toList).map fun numeral => .number numeral.toFloat,
    fun word => (Operator.ofSymbol? word).map .operator,
    fun word => (Reference.parse? word).map .reference]

/-- What a word is by the first test that it passes. -/
def firstOf (order : List (String → Option Token)) (word : String) : Token :=
  (order.findSome? fun test => test word).getD (.invalid word)

variable {word : String} {order : List (String → Option Token)} {r : Reference} {op : Operator}

theorem firstOf_tests (word : String) : firstOf tests word = classify word := by
  simp only [firstOf, tests, classify, List.findSome?_cons, List.findSome?_nil]
  cases Numeral.parse? word.toList with
  | some numeral => rfl
  | none =>
    cases Operator.ofSymbol? word with
    | some op => rfl
    | none => cases Reference.parse? word <;> rfl

/-- A number is no operator: it has a digit. -/
theorem parse?_of_operator (h : Operator.ofSymbol? word = some op) :
    Numeral.parse? word.toList = none := by
  rw [Operator.ofSymbol?_eq_some_iff.mp h]
  cases op <;> rfl

/-- **No word passes two tests.** -/
theorem count_tests (word : String) :
    [(Numeral.parse? word.toList).isSome, (Operator.ofSymbol? word).isSome,
      (Reference.parse? word).isSome].count true ≤ 1 := by
  cases hreference : Reference.parse? word with
  | some r =>
    rw [(of_reference hreference).1, (of_reference hreference).2]
    exact Nat.le_refl 1
  | none =>
    cases hoperator : Operator.ofSymbol? word with
    | some op =>
      rw [parse?_of_operator hoperator]
      exact Nat.le_refl 1
    | none =>
      cases Numeral.parse? word.toList with
      | some numeral => exact Nat.le_refl 1
      | none => exact Nat.zero_le 1

/-- A word that passes a test is what that test says. -/
theorem classify_of_mem_tests {test : String → Option Token} (htest : test ∈ tests) {token : Token}
    (h : test word = some token) : classify word = token := by
  simp only [tests, List.mem_cons, List.not_mem_nil, or_false] at htest
  rcases htest with rfl | rfl | rfl
  · obtain ⟨numeral, hnumeral, rfl⟩ := Option.map_eq_some_iff.mp h
    exact classify_of_parse? hnumeral
  · obtain ⟨op, hop, rfl⟩ := Option.map_eq_some_iff.mp h
    simp only [classify, parse?_of_operator hop, hop]
  · obtain ⟨r, hr, rfl⟩ := Option.map_eq_some_iff.mp h
    exact classify_of_reference hr

/-- **It makes no difference in which order a word is tested.** -/
theorem firstOf_of_perm (horder : order.Perm tests) (word : String) :
    firstOf order word = classify word := by
  unfold firstOf
  cases hfirst : order.findSome? fun test => test word with
  | some token =>
    obtain ⟨test, htest, h⟩ := List.exists_of_findSome?_eq_some hfirst
    exact (classify_of_mem_tests (horder.mem_iff.mp htest) h).symm
  | none =>
    have hnone : tests.findSome? (fun test => test word) = none := by
      rw [List.findSome?_eq_none_iff] at hfirst ⊢
      exact fun test htest => hfirst test (horder.mem_iff.mpr htest)
    rw [← firstOf_tests, firstOf, hnone]

/-- **The classes of words are disjoint grammars.** No word passes two of the tests, so their order makes no
difference; a number is what the grammar of numbers spells, which none of the words for the other values are
and nothing that begins with a letter; a reference is letters followed by digits, in characters and in bytes;
and an address is read of a word exactly if it is a reference that has this address, where letters and digits
only fail for the row zero or the range. -/
theorem classify_grammar (s : String) :
    ([(Numeral.parse? s.toList).isSome, (Operator.ofSymbol? s).isSome,
        (Reference.parse? s).isSome].count true ≤ 1 ∧
      ∀ order, order.Perm tests → firstOf order s = classify s) ∧
    ((∀ n, Numeral.parse? s.toList = some n ↔ Numeral.Spells s.toList n) ∧
      ((Numeral.parse? s.toList).isSome = true ↔
        (Utf8.encode s.toList).all Numeral.isPartByte = true ∧ Numeral.Readable s.toList) ∧
      (∀ sign word, s.toList = sign ++ word → word.map Char.toLower ∈ Numeral.words →
        Numeral.parse? s.toList = none) ∧
      ∀ c rest, s.toList = c :: rest → c.isAlpha = true → Numeral.parse? s.toList = none) ∧
    (((Reference.parse? s).isSome = true ↔ ∃ letters digits, Address.Spells s letters digits) ∧
      Reference.isShaped (Utf8.encode s.toList) = (Reference.parse? s).isSome) ∧
    (∀ r, Reference.parse? s = some r → ∀ a, r.address = some a ↔ Address.parse s = .ok a) ∧
    (∀ a, Address.parse s = .ok a → (Reference.parse? s).isSome = true) ∧
    ∀ letters digits, Address.Spells s letters digits → ∀ e, Address.parse s = .error e →
      e = .zeroRow s ∨ e = .columnOutOfRange s ∨ e = .rowOutOfRange s := by
  refine ⟨⟨count_tests s, fun order horder => firstOf_of_perm horder s⟩,
    ⟨fun n => Numeral.parse?_eq_some_iff, Numeral.isSome_parse?_iff_readable,
      fun sign word hs hword => ?_, fun c rest hs hc => ?_⟩,
    ⟨Reference.isSome_parse?_iff_spells, Reference.isShaped_encode s⟩,
    fun r hr => Reference.address_of_parse? hr, fun a ha => ?_, fun letters digits h e he => ?_⟩
  · rw [hs, Numeral.parse?_of_word sign hword]
  · rw [hs, Numeral.parse?_of_isAlpha hc]
  · exact Reference.isSome_parse?_iff_spells.mpr (Address.exists_spells_of_parse ha)
  · rw [Address.parse_of_spells h] at he
    split_ifs at he
    · exact Or.inr (Or.inl (Except.error.inj he).symm)
    · exact Or.inr (Or.inr (Except.error.inj he).symm)
    · exact Or.inl (Except.error.inj he).symm

/-- In `e05` the letter is that of a reference, in whatever order it is tested; in `1e05` it is that of an
exponent; and `e0` is a reference that has no address. -/
theorem classify_grammar_letter_e :
    (tests.reverse.Perm tests ∧ firstOf tests.reverse "e05" = classify "e05") ∧
      Numeral.Spells "1e05".toList ⟨false, ⟨1, 5⟩⟩ ∧
      (Reference.parse? "e0" = some ⟨"E0", none⟩ ∧
        ∀ a, (none : Option Address) = some a ↔ Address.parse "e0" = .ok a) := by
  have hread : Reference.parse? "e0" = some ⟨"E0", none⟩ := by decide
  refine ⟨⟨List.reverse_perm tests, ?_⟩, ?_, hread, ?_⟩
  · exact (classify_grammar "e05").1.2 _ (List.reverse_perm tests)
  · exact ((classify_grammar "1e05").2.1.1 _).mp (by decide)
  · exact (classify_grammar "e0").2.2.2.1 _ hread

end Token

end PostfixSheet
