import Mathlib.Data.List.Induction
import Mathlib.Data.Nat.Digits.Defs
import Mathlib.Tactic.Linarith
import Mathlib.Tactic.Ring
import PostfixSheet.Proofs.TokenWords

/-!
# Columns and their names

The letters of a column are the digits of its number in a numeral system of base 26 that has no zero: their
values go from 1 to 26. So every number has one name in capitals: the last letter is what is left of the
number modulo 26, where 26 takes the place of 0, and the letters before it name the quotient.

A name is read letter by letter, and reading ends as soon as the number is past the last one that is allowed.
What is read up to there is small, so the loop may as well count in 64-bit words: `wordOfLetters` is that
loop, as `letters_to_column` has it, and an operation that does not fit into a word has no result. A name is
written for a column of 32 bits, whose number may need one bit more: `wordLetters` is this loop in words, as
`column_to_letters` has it, and each letter is added up in a byte.

* `number` is the number that letters stand for.
* `Word64.mul?`, `Word64.add?` and `Word64.sub?` are the operations of words, where they are exact.

Results:
* `numberFrom_eq`: reading stops early exactly where the whole number is past the last one.
* `ofLetters_eq`: so letters are read exactly if their number is not.
* `lettersFrom_number`, `number_lettersFrom`: the letters that are written for a number are those that stand
  for it, in capitals.
* `letters_of_ofLetters`: what is read is written again in capitals.
* `exists_wordOfLetters`: the loop that counts in words always has a result, and it is the same.
* `wordLetters_eq`: so has the loop that writes in words.
-/

namespace PostfixSheet

namespace Column

variable {letters : List Char} {c : Char} {n : Nat}

/-- The last number is the greatest of 32 bits. -/
theorem lastNumber_eq : lastNumber = 2 ^ 32 - 1 := rfl

/-! ## The values of letters -/

/-- A letter in upper case is one of `A` to `Z`. -/
theorem toNat_toUpper (h : c.isAlpha = true) : 65 ≤ c.toUpper.toNat ∧ c.toUpper.toNat ≤ 90 := by
  rwa [← Text.isUpper_toUpper, Text.isUpper_iff] at h

theorem letterValue_pos (h : c.isAlpha = true) : 1 ≤ letterValue c := by
  have := toNat_toUpper h
  unfold letterValue
  omega

theorem letterValue_le (h : c.isAlpha = true) : letterValue c ≤ 26 := by
  have := toNat_toUpper h
  unfold letterValue
  omega

/-- The letter for the value of a letter is that letter in upper case. -/
theorem letter_letterValue (h : c.isAlpha = true) : letter (letterValue c - 1) = c.toUpper := by
  have := toNat_toUpper h
  have hvalue : 65 + (letterValue c - 1) = c.toUpper.toNat := by
    unfold letterValue
    omega
  rw [letter, hvalue, Char.ofNat_toNat]

/-! ## The number of letters -/

/-- **The number that letters stand for**: each one counts 26 times as much as the next, and the last one
once. -/
def number (letters : List Char) : Nat := Nat.ofDigits 26 (letters.reverse.map letterValue)

theorem number_nil : number [] = 0 := rfl

theorem number_append_singleton (letters : List Char) (c : Char) :
    number (letters ++ [c]) = number letters * 26 + letterValue c := by
  rw [number, List.reverse_append, List.reverse_singleton, List.singleton_append, List.map_cons,
    Nat.ofDigits_cons, number]
  omega

theorem number_cons (c : Char) (letters : List Char) :
    number (c :: letters) = letterValue c * 26 ^ letters.length + number letters := by
  rw [number, List.reverse_cons, List.map_append, Nat.ofDigits_append, List.length_map,
    List.length_reverse, List.map_singleton, Nat.ofDigits_singleton, number]
  ring

theorem number_pos (hne : letters ≠ []) (h : ∀ c ∈ letters, c.isAlpha = true) :
    1 ≤ number letters := by
  obtain ⟨c, rest, rfl⟩ := List.exists_cons_of_ne_nil hne
  have hvalue := letterValue_pos (h c List.mem_cons_self)
  have hpow : 1 ≤ 26 ^ rest.length := Nat.one_le_pow _ _ (by decide)
  rw [number_cons]
  nlinarith

/-! ## Reading -/

/-- **Reading stops early exactly where the whole number is past the last one**, since the number only grows
with more letters. -/
theorem numberFrom_eq (whole : String) (h : ∀ c ∈ letters, c.isAlpha = true)
    (hn : n ≤ lastNumber) :
    numberFrom whole n letters =
      if lastNumber < n * 26 ^ letters.length + number letters then .error (.outOfRange whole)
      else .ok (n * 26 ^ letters.length + number letters) := by
  induction letters generalizing n with
  | nil =>
    rw [numberFrom, number_nil, List.length_nil, pow_zero, Nat.mul_one, Nat.add_zero,
      if_neg (Nat.not_lt.mpr hn)]
  | cons c rest ih =>
    have htotal : n * 26 ^ (c :: rest).length + number (c :: rest) =
        (n * 26 + letterValue c) * 26 ^ rest.length + number rest := by
      rw [number_cons, List.length_cons]
      ring
    rw [htotal, numberFrom, if_pos (h c List.mem_cons_self)]
    by_cases hlast : lastNumber < n * 26 + letterValue c
    · have hpow : 1 ≤ 26 ^ rest.length := Nat.one_le_pow _ _ (by decide)
      have hmore := Nat.le_mul_of_pos_right (n * 26 + letterValue c) hpow
      simp only [hlast, if_true]
      rw [if_pos (by omega)]
    · simp only [hlast, if_false]
      exact ih (fun d hd => h d (List.mem_cons_of_mem _ hd)) (Nat.le_of_not_lt hlast)

/-- What is read is made of letters only. -/
theorem isAlpha_of_numberFrom {whole : String} {m : Nat} (h : numberFrom whole n letters = .ok m) :
    ∀ c ∈ letters, c.isAlpha = true := by
  induction letters generalizing n with
  | nil => exact List.forall_mem_nil _
  | cons c rest ih =>
    rw [numberFrom] at h
    split at h
    · rename_i hc
      simp only at h
      split at h
      · cases h
      · exact List.forall_mem_cons.mpr ⟨hc, ih h⟩
    · cases h

/-- **Letters are read exactly if their number is not past the last one.** -/
theorem ofLetters_eq (hne : letters ≠ []) (h : ∀ c ∈ letters, c.isAlpha = true) :
    ofLetters letters =
      if lastNumber < number letters then .error (.outOfRange (String.ofList letters))
      else .ok (number letters - 1) := by
  rw [ofLetters, if_neg (by simpa using hne), numberFrom_eq _ h (Nat.zero_le _), Nat.zero_mul,
    Nat.zero_add]
  split <;> rfl

/-- The letters of a column that is read, and their number. -/
theorem of_ofLetters {col : Nat} (h : ofLetters letters = .ok col) :
    letters ≠ [] ∧ (∀ c ∈ letters, c.isAlpha = true) ∧ number letters = col + 1 := by
  have hne : letters ≠ [] := by
    rintro rfl
    cases h
  have halpha : ∀ c ∈ letters, c.isAlpha = true := by
    rw [ofLetters, if_neg (by simpa using hne)] at h
    cases hread : numberFrom (String.ofList letters) 0 letters with
    | error e =>
      rw [hread] at h
      cases h
    | ok m => exact isAlpha_of_numberFrom hread
  refine ⟨hne, halpha, ?_⟩
  have hpos := number_pos hne halpha
  rw [ofLetters_eq hne halpha] at h
  split at h
  · cases h
  · cases h
    omega

/-! ## Writing -/

/-- **The letters of the number that letters stand for are these in capitals.** -/
theorem lettersFrom_number {fuel : Nat} (h : ∀ c ∈ letters, c.isAlpha = true)
    (hfuel : number letters ≤ fuel) :
    lettersFrom fuel (number letters) [] = letters.map Char.toUpper := by
  induction letters using List.reverseRecOn generalizing fuel with
  | nil => cases fuel <;> rfl
  | append_singleton rest c ih =>
    have hc : c.isAlpha = true := h c (List.mem_append_right _ List.mem_cons_self)
    have hpos := letterValue_pos hc
    have hle := letterValue_le hc
    rw [number_append_singleton] at hfuel ⊢
    obtain ⟨fuel, rfl⟩ : ∃ more, fuel = more + 1 := Nat.exists_eq_succ_of_ne_zero (by omega)
    have hdiv : (number rest * 26 + letterValue c - 1) / 26 = number rest := by omega
    have hmod : (number rest * 26 + letterValue c - 1) % 26 = letterValue c - 1 := by omega
    rw [lettersFrom, if_neg (by omega), hdiv, hmod, letter_letterValue hc, lettersFrom_eq_append,
      ih (fun d hd => h d (List.mem_append_left _ hd)) (by omega), List.map_append,
      List.map_singleton]

/-- **The letters of a number are letters, and stand for it.** -/
theorem number_lettersFrom (fuel n : Nat) (hfuel : n ≤ fuel) :
    (∀ c ∈ lettersFrom fuel n [], c.isAlpha = true) ∧ number (lettersFrom fuel n []) = n := by
  induction fuel generalizing n with
  | zero =>
    obtain rfl := Nat.le_zero.mp hfuel
    exact ⟨List.forall_mem_nil _, rfl⟩
  | succ fuel ih =>
    rw [lettersFrom]
    by_cases hn : n = 0
    · rw [if_pos hn, hn]
      exact ⟨List.forall_mem_nil _, rfl⟩
    · have hdigit : (n - 1) % 26 < 26 := Nat.mod_lt _ (by decide)
      obtain ⟨halpha, hnumber⟩ := ih ((n - 1) / 26) (by omega)
      rw [if_neg hn, lettersFrom_eq_append]
      refine ⟨fun c hc => ?_, ?_⟩
      · rcases List.mem_append.mp hc with hc | hc
        · exact halpha c hc
        · rw [List.mem_singleton.mp hc]
          exact isAlpha_letter _ hdigit
      · rw [number_append_singleton, hnumber, letterValue_letter _ hdigit]
        omega

theorem isAlpha_of_mem_letters {col : Nat} (h : c ∈ Column.letters col) : c.isAlpha = true :=
  (number_lettersFrom (col + 1) (col + 1) (Nat.le_refl _)).1 c h

theorem number_letters (col : Nat) : number (Column.letters col) = col + 1 :=
  (number_lettersFrom (col + 1) (col + 1) (Nat.le_refl _)).2

theorem letters_ne_nil (col : Nat) : Column.letters col ≠ [] := by
  intro h
  have hnumber := number_letters col
  rw [h] at hnumber
  cases hnumber

/-- **Letters that are read are written again in capitals.** -/
theorem letters_of_ofLetters {col : Nat} (h : ofLetters letters = .ok col) :
    Column.letters col = letters.map Char.toUpper := by
  obtain ⟨-, halpha, hnumber⟩ := of_ofLetters h
  rw [Column.letters, ← hnumber]
  exact lettersFrom_number halpha (Nat.le_refl _)

end Column

/-! ## Counting in words -/

namespace Word64

/-- A number as a word, if it fits into one. -/
def fit? (n : Nat) : Option UInt64 := if n < 2 ^ 64 then some (UInt64.ofNat n) else none

/-- The product of two words, if it fits into one. -/
def mul? (a b : UInt64) : Option UInt64 := fit? (a.toNat * b.toNat)

/-- The sum of two words, if it fits into one. -/
def add? (a b : UInt64) : Option UInt64 := fit? (a.toNat + b.toNat)

/-- The difference of two words, if it is not below zero. -/
def sub? (a b : UInt64) : Option UInt64 := if b ≤ a then some (a - b) else none

variable {a b : UInt64}

theorem exists_fit? {n : Nat} (h : n < 2 ^ 64) : ∃ w, fit? n = some w ∧ w.toNat = n := by
  refine ⟨UInt64.ofNat n, if_pos h, ?_⟩
  rw [UInt64.toNat_ofNat']
  exact Nat.mod_eq_of_lt h

theorem exists_mul? (h : a.toNat * b.toNat < 2 ^ 64) :
    ∃ w, mul? a b = some w ∧ w.toNat = a.toNat * b.toNat := exists_fit? h

theorem exists_add? (h : a.toNat + b.toNat < 2 ^ 64) :
    ∃ w, add? a b = some w ∧ w.toNat = a.toNat + b.toNat := exists_fit? h

theorem exists_sub? (h : b.toNat ≤ a.toNat) :
    ∃ w, sub? a b = some w ∧ w.toNat = a.toNat - b.toNat := by
  have hle : b ≤ a := UInt64.le_iff_toNat_le.mpr h
  exact ⟨a - b, if_pos hle, UInt64.toNat_sub_of_le a b hle⟩

end Word64

namespace Column

/-- The value of a letter as a word. -/
def letterWord (c : Char) : Option UInt64 :=
  (Word64.sub? c.toUpper.val.toUInt64 65).bind fun digit => Word64.add? digit 1

/-- `numberFrom` in words. -/
def wordFrom (whole : String) : (n : UInt64) → List Char → Option (Except Fault UInt64)
  | n, [] => some (.ok n)
  | n, c :: rest =>
    if c.isAlpha then do
      let shifted ← Word64.mul? n 26
      let value ← letterWord c
      let next ← Word64.add? shifted value
      if lastNumber < next.toNat then some (.error (.outOfRange whole)) else wordFrom whole next rest
    else some (.error (.notALetter c))

/-- `ofLetters` in words: a column has 32 bits. -/
def wordOfLetters (letters : List Char) : Option (Except Fault UInt32) :=
  if letters.isEmpty then some (.error .empty)
  else do
    match ← wordFrom (String.ofList letters) 0 letters with
    | .error e => some (.error e)
    | .ok n =>
      let col ← Word64.sub? n 1
      some (.ok col.toUInt32)

variable {letters : List Char} {c : Char}

theorem exists_letterWord (h : c.isAlpha = true) :
    ∃ w, letterWord c = some w ∧ w.toNat = letterValue c := by
  have hupper := toNat_toUpper h
  have hword : c.toUpper.val.toUInt64.toNat = c.toUpper.toNat := UInt32.toNat_toUInt64 _
  obtain ⟨digit, hdigit, hdigit'⟩ : ∃ w, Word64.sub? c.toUpper.val.toUInt64 65 = some w ∧
      w.toNat = c.toUpper.val.toUInt64.toNat - 65 := Word64.exists_sub? (by
    rw [hword]
    exact hupper.1)
  obtain ⟨w, hw, hw'⟩ : ∃ w, Word64.add? digit 1 = some w ∧ w.toNat = digit.toNat + 1 :=
    Word64.exists_add? (by
      rw [hdigit', hword]
      exact Nat.lt_of_le_of_lt (Nat.add_le_add_right (Nat.sub_le _ _) 1)
        (Nat.lt_of_le_of_lt (Nat.add_le_add_right hupper.2 1) (by decide)))
  refine ⟨w, by rw [letterWord, hdigit, Option.bind_some, hw], ?_⟩
  rw [hw', hdigit', hword, letterValue]
  omega

/-- **No step of the loop leaves the words** while the number is not past the last one, and the loop ends as
soon as it is. -/
theorem exists_wordFrom (whole : String) {n : UInt64} (hn : n.toNat ≤ lastNumber)
    (letters : List Char) :
    ∃ r, wordFrom whole n letters = some r ∧
      r.map UInt64.toNat = numberFrom whole n.toNat letters := by
  induction letters generalizing n with
  | nil => exact ⟨.ok n, rfl, rfl⟩
  | cons c rest ih =>
    rw [wordFrom, numberFrom]
    by_cases hc : c.isAlpha = true
    · have hsmall : lastNumber * 26 + 26 < 2 ^ 64 := by decide
      obtain ⟨value, hvalue, hvalue'⟩ := exists_letterWord hc
      have hle := letterValue_le hc
      obtain ⟨shifted, hshifted, hshifted'⟩ : ∃ w, Word64.mul? n 26 = some w ∧
          w.toNat = n.toNat * 26 := Word64.exists_mul? (show n.toNat * 26 < 2 ^ 64 by omega)
      obtain ⟨next, hnext, hnext'⟩ := Word64.exists_add? (a := shifted) (b := value) (by omega)
      rw [hshifted', hvalue'] at hnext'
      rw [if_pos hc, if_pos hc, hshifted, hvalue]
      simp only [Option.bind_eq_bind, Option.bind_some, hnext, hnext']
      by_cases hlast : lastNumber < n.toNat * 26 + letterValue c
      · simp only [hlast, if_true]
        exact ⟨_, rfl, rfl⟩
      · simp only [hlast, if_false]
        rw [← hnext'] at hlast ⊢
        exact ih (Nat.le_of_not_lt hlast)
    · rw [if_neg hc, if_neg hc]
      exact ⟨_, rfl, rfl⟩

/-- A number that is read is neither zero nor past the last one. -/
theorem bounds_of_numberFrom {whole : String} {m : Nat} (hne : letters ≠ [])
    (h : numberFrom whole 0 letters = .ok m) : 1 ≤ m ∧ m ≤ lastNumber := by
  have halpha := isAlpha_of_numberFrom h
  have hpos := number_pos hne halpha
  rw [numberFrom_eq whole halpha (Nat.zero_le _), Nat.zero_mul, Nat.zero_add] at h
  split at h
  · cases h
  · cases h
    omega

/-- **The loop that counts in words always has a result**, however many letters there are, and it is that of
the loop that counts without bounds. -/
theorem exists_wordOfLetters (letters : List Char) :
    ∃ r, wordOfLetters letters = some r ∧ r.map UInt32.toNat = ofLetters letters := by
  rw [wordOfLetters, ofLetters]
  by_cases hempty : letters.isEmpty = true
  · rw [if_pos hempty, if_pos hempty]
    exact ⟨_, rfl, rfl⟩
  · obtain ⟨r, hr, hr'⟩ := exists_wordFrom (String.ofList letters) (n := 0) (Nat.zero_le _) letters
    rw [if_neg hempty, if_neg hempty, hr, Option.bind_eq_bind, Option.bind_some]
    cases r with
    | error e =>
      refine ⟨.error e, rfl, ?_⟩
      rw [← show _ = numberFrom (String.ofList letters) 0 letters from hr']
      rfl
    | ok n =>
      have hread : numberFrom (String.ofList letters) 0 letters = .ok n.toNat := hr'.symm
      obtain ⟨hpos, hlast⟩ := bounds_of_numberFrom (by simpa using hempty) hread
      obtain ⟨col, hcol, hcol'⟩ : ∃ w, Word64.sub? n 1 = some w ∧ w.toNat = n.toNat - 1 :=
        Word64.exists_sub? hpos
      refine ⟨.ok col.toUInt32, by simp only [hcol, Option.bind_eq_bind, Option.bind_some], ?_⟩
      have hfits : col.toNat < 2 ^ 32 := by
        have : lastNumber < 2 ^ 32 := by decide
        omega
      rw [hread]
      simp only [Except.map]
      rw [UInt64.toNat_toUInt32, Nat.mod_eq_of_lt hfits, hcol']

/-- The letter for the value `k + 1`, added up in a byte. -/
def letterByte (k : UInt64) : Option Char :=
  let code := k.toUInt8.toNat + 65
  if code < 2 ^ 8 then some (Char.ofNat code) else none

/-- `lettersFrom` in words; without a result if it takes more than `rounds` rounds. -/
def wordLettersFrom : (rounds : Nat) → (n : UInt64) → (tail : List Char) → Option (List Char)
  | 0, _, _ => none
  | rounds + 1, n, tail =>
    if n = 0 then some tail
    else do
      let before ← Word64.sub? n 1
      let letter ← letterByte (before % 26)
      wordLettersFrom rounds (before / 26) (letter :: tail)

/-- `letters` in words: the number of a column of 32 bits has 33. -/
def wordLetters (col : UInt32) : Option (List Char) := do
  let n ← Word64.add? col.toUInt64 1
  wordLettersFrom (col.toNat + 2) n []

theorem letterByte_eq {k : UInt64} (h : k.toNat < 26) : letterByte k = some (letter k.toNat) := by
  have hbyte : k.toUInt8.toNat = k.toNat := by
    rw [UInt64.toNat_toUInt8]
    exact Nat.mod_eq_of_lt (by omega)
  unfold letterByte letter
  rw [hbyte, Nat.add_comm]
  exact if_pos (by omega)

/-- **No round of the writing loop leaves the words**, and there are as many rounds as letters. -/
theorem wordLettersFrom_eq {fuel : Nat} {n : UInt64} (hfuel : n.toNat ≤ fuel) (tail : List Char) :
    wordLettersFrom (fuel + 1) n tail = some (lettersFrom fuel n.toNat tail) := by
  induction fuel generalizing n tail with
  | zero =>
    have hn : n = 0 := UInt64.toNat_inj.mp (Nat.le_zero.mp hfuel)
    rw [wordLettersFrom, if_pos hn, lettersFrom]
  | succ fuel ih =>
    by_cases hn : n = 0
    · rw [wordLettersFrom, if_pos hn, lettersFrom, if_pos (by rw [hn]; rfl)]
    · have hpos : n.toNat ≠ 0 := fun h => hn (UInt64.toNat_inj.mp h)
      obtain ⟨before, hbefore, hbefore'⟩ : ∃ w, Word64.sub? n 1 = some w ∧ w.toNat = n.toNat - 1 :=
        Word64.exists_sub? (Nat.one_le_iff_ne_zero.mpr hpos)
      have hdigit : (before % 26).toNat = (n.toNat - 1) % 26 := by
        rw [UInt64.toNat_mod, hbefore']
        rfl
      have hrest : (before / 26).toNat = (n.toNat - 1) / 26 := by
        rw [UInt64.toNat_div, hbefore']
        rfl
      have hletter := letterByte_eq (k := before % 26) (by omega)
      rw [wordLettersFrom, if_neg hn, lettersFrom, if_neg hpos, ← hdigit, ← hrest, hbefore]
      simp only [Option.bind_eq_bind, Option.bind_some, hletter]
      exact ih (by omega) _

/-- **The loop that writes in words always has a result**, and it is the letters of the column. -/
theorem wordLetters_eq (col : UInt32) : wordLetters col = some (Column.letters col.toNat) := by
  have hcol : col.toUInt64.toNat = col.toNat := UInt32.toNat_toUInt64 col
  have hlt := col.toNat_lt
  obtain ⟨n, hn, hn'⟩ : ∃ w, Word64.add? col.toUInt64 1 = some w ∧ w.toNat = col.toUInt64.toNat + 1 :=
    Word64.exists_add? (show col.toUInt64.toNat + 1 < 2 ^ 64 by omega)
  rw [hcol] at hn'
  rw [wordLetters, hn, Option.bind_eq_bind, Option.bind_some,
    wordLettersFrom_eq (Nat.le_of_eq hn'), hn', Column.letters]

end Column

end PostfixSheet
