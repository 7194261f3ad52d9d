/-!
# Blank characters

Stands for `split_whitespace` of the standard library, by which `tokenize` cuts a text, and for the
two tests by which the library `csv` takes blanks off a field.

The 25 characters with the Unicode property `White_Space` separate the words of a text. Five of
them are the blanks of ASCII text; the vertical tab is not one of those.

* `words` cuts a text at its blank characters, and `strip` takes what a test accepts off both ends.

Results:
* `isBlank_of_isBlankByte`: a blank byte is blank as a character.
* `isBlank_of_mem_words`: a word holds no blank character; `ne_nil_of_mem_words`: no word is empty.
-/

namespace PostfixSheet

namespace Text

/-- The code points with the property `White_Space`, as ranges from the first to the last. -/
def blankRanges : List (Nat × Nat) :=
  [(0x09, 0x0D), (0x20, 0x20), (0x85, 0x85), (0xA0, 0xA0), (0x1680, 0x1680), (0x2000, 0x200A),
    (0x2028, 0x2029), (0x202F, 0x202F), (0x205F, 0x205F), (0x3000, 0x3000)]

/-- Whether a character has the property `White_Space`. -/
def isBlank (c : Char) : Bool :=
  blankRanges.any fun (first, last) => first ≤ c.toNat && c.toNat ≤ last

/-- Whether a byte is a blank of ASCII text: a space, a tab, or one that ends a line or a page. -/
def isBlankByte (b : UInt8) : Bool :=
  b == 0x20 || b == 0x09 || b == 0x0A || b == 0x0C || b == 0x0D

theorem isBlank_of_isBlankByte {b : UInt8} (h : isBlankByte b = true) :
    isBlank (Char.ofNat b.toNat) = true := by
  simp only [isBlankByte, Bool.or_eq_true, beq_iff_eq] at h
  rcases h with (((rfl | rfl) | rfl) | rfl) | rfl <;> decide

/-! ## Words -/

/-- The words of a text: its longest runs of characters that are not blank. -/
def words (text : List Char) : List (List Char) :=
  (text.splitOnP isBlank).filter fun word => !word.isEmpty

/-- The pieces of a list hold no element at which it is cut. -/
theorem not_cut_of_mem_splitOnP {p : Char → Bool} {text : List Char} :
    ∀ word ∈ text.splitOnP p, ∀ c ∈ word, p c = false := by
  induction text with
  | nil => simp
  | cons d text ih =>
    rw [List.splitOnP_cons_eq_if_modifyHead]
    split
    · intro word hw c hc
      rcases List.mem_cons.1 hw with rfl | hw
      · cases hc
      · exact ih word hw c hc
    · rename_i hd
      intro word hw c hc
      cases hs : text.splitOnP p with
      | nil => exact absurd hs (List.splitOnP_ne_nil p text)
      | cons first others =>
        rw [hs, List.modifyHead_cons] at hw
        rw [hs] at ih
        rcases List.mem_cons.1 hw with rfl | hw
        · rcases List.mem_cons.1 hc with rfl | hc
          · simpa using hd
          · exact ih first List.mem_cons_self c hc
        · exact ih word (List.mem_cons_of_mem _ hw) c hc

theorem isBlank_of_mem_words {text word : List Char} (h : word ∈ words text) :
    ∀ c ∈ word, isBlank c = false :=
  not_cut_of_mem_splitOnP word (List.mem_filter.1 h).1

theorem ne_nil_of_mem_words {text word : List Char} (h : word ∈ words text) : word ≠ [] := by
  simp only [words, List.mem_filter] at h
  rintro rfl
  simp at h

/-! ## Ends of a list -/

/-- A list without the elements at its two ends that pass a test. -/
def strip {α : Type} (p : α → Bool) (l : List α) : List α :=
  ((l.dropWhile p).reverse.dropWhile p).reverse

end Text

end PostfixSheet
