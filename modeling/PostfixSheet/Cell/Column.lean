/-!
# Column names

Model of `column_to_letters` and `letters_to_column`. Both count in words of 64 bits, and numbers
have no bound here: `Proofs/ColumnNames` has the two loops in words as well and shows that none of
their steps overflows.

Columns are numbered from `0` and named by letters: `A` to `Z`, then `AA`, and so on. A name is the
column's number plus one in a numeral system with the digits `A` = 1 to `Z` = 26 and no zero. Every
column has a name; only a name whose number is at most `lastNumber` is read.

* `letters` and `name` write a column, `ofLetters` reads one, in either case.

Results:
* `letterValue_letter`: writing a digit of the system and reading it back gives its value.
* `isAlpha_letter`: such a digit is a letter.
* `lettersFrom_eq_append`: the letters already written stay behind those of the rest.
-/

namespace PostfixSheet

namespace Column

/-- The greatest number, counted from one, that a row or a column may have in the text of an
address. -/
def lastNumber : Nat := Nat.pow 2 32 - 1

/-- Why a text names no column. -/
inductive Fault where
  | empty
  | notALetter (c : Char)
  | outOfRange (letters : String)
  deriving Repr, DecidableEq

/-- The wording of a fault. -/
def Fault.message : Fault → String
  | .empty => "Invalid cell address: empty column letters"
  | .notALetter c => "Invalid cell address: invalid column letter '" ++ c.toString ++ "'"
  | .outOfRange letters => "Column out of range in '" ++ letters ++ "'"

/-! ## Letters -/

/-- The letter for the value `k + 1`, where `k < 26`. -/
def letter (k : Nat) : Char := Char.ofNat (65 + k)

/-- The value of a letter in either case, from 1 to 26. -/
def letterValue (c : Char) : Nat := c.toUpper.toNat - 64

theorem letterValue_letter : ∀ k < 26, letterValue (letter k) = k + 1 := by decide

theorem isAlpha_letter : ∀ k < 26, (letter k).isAlpha = true := by decide

/-! ## Writing -/

/-- Writes the letters of the number `n` before `tail`; `fuel` bounds how many there may be. -/
def lettersFrom : (fuel n : Nat) → (tail : List Char) → List Char
  | 0, _, tail => tail
  | fuel + 1, n, tail =>
    if n = 0 then tail else lettersFrom fuel ((n - 1) / 26) (letter ((n - 1) % 26) :: tail)

/-- The letters of a column; a number has no more letters than its value. -/
def letters (col : Nat) : List Char := lettersFrom (col + 1) (col + 1) []

/-- The name of a column. -/
def name (col : Nat) : String := String.ofList (letters col)

theorem lettersFrom_eq_append (fuel n : Nat) (tail : List Char) :
    lettersFrom fuel n tail = lettersFrom fuel n [] ++ tail := by
  induction fuel generalizing n tail with
  | zero => simp [lettersFrom]
  | succ fuel ih =>
    simp only [lettersFrom]
    split
    · rfl
    · rw [ih, ih ((n - 1) / 26) [letter ((n - 1) % 26)]]
      simp

/-! ## Reading -/

/-- Reads letters behind those whose number is `n`. It stops at the first character that is no
letter, and at the first letter that takes the number past `lastNumber`. -/
def numberFrom (whole : String) : (n : Nat) → List Char → Except Fault Nat
  | n, [] => .ok n
  | n, c :: rest =>
    if c.isAlpha then
      let next := n * 26 + letterValue c
      if lastNumber < next then .error (.outOfRange whole) else numberFrom whole next rest
    else .error (.notALetter c)

/-- The column that the letters name. -/
def ofLetters (letters : List Char) : Except Fault Nat :=
  if letters.isEmpty then .error .empty
  else (numberFrom (String.ofList letters) 0 letters).map (· - 1)

/-- The column of the given name. -/
def ofName (s : String) : Except Fault Nat := ofLetters s.toList

end Column

end PostfixSheet
