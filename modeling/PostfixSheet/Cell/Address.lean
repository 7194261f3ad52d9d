import PostfixSheet.Cell.Column
import PostfixSheet.Number.Decimal

/-!
# Cell addresses

Model of `CellAddress` with its derived order, its `parse` and its `to_a1_string`, and of the faults
of `Error` that `parse` gives, with their wordings.

An address is a row and a column, both counted from `0`. In text it is the column's name and the
row's number counted from one, such as `B12` for row 11 and column 1. Letters are read in either
case and leading zeros of the row are allowed. Addresses are ordered by row and then by column.

* `Address.a1` writes an address and `Address.parse` reads one.
* `Address.Fault` says why a text is no address, `Fault.message` in words.

Results:
* `le_total`, `le_trans`, `le_antisymm`: the order of addresses is linear.
-/

namespace PostfixSheet

/-- The place of a cell: its row and its column, both counted from `0`. -/
structure Address where
  row : Nat
  col : Nat
  deriving Repr, DecidableEq

namespace Address

/-! ## Order -/

/-- Whether an address comes before another or is the same: by row, then by column. -/
def le (a b : Address) : Bool := a.row < b.row || (a.row = b.row && a.col ≤ b.col)

theorem le_total (a b : Address) : (le a b || le b a) = true := by
  simp only [le, Bool.or_eq_true, Bool.and_eq_true, decide_eq_true_eq]
  omega

theorem le_trans {a b c : Address} (hab : le a b = true) (hbc : le b c = true) :
    le a c = true := by
  simp only [le, Bool.or_eq_true, Bool.and_eq_true, decide_eq_true_eq] at *
  omega

theorem le_antisymm {a b : Address} (hab : le a b = true) (hba : le b a = true) : a = b := by
  cases a
  cases b
  simp only [le, Bool.or_eq_true, Bool.and_eq_true, decide_eq_true_eq, mk.injEq] at *
  omega

/-- The different addresses of a list in order. -/
def sortDistinct (addresses : List Address) : List Address := (addresses.mergeSort le).eraseReps

/-! ## Text -/

/-- The text of an address. -/
def a1 (a : Address) : String :=
  String.ofList (Column.letters a.col ++ Decimal.digits (a.row + 1))

/-- Why a text is no address. -/
inductive Fault where
  | empty
  | noLetters (text : String)
  | noDigits (text : String)
  | badDigits (text : String)
  | zeroRow (text : String)
  | columnOutOfRange (text : String)
  | rowOutOfRange (text : String)
  deriving Repr, DecidableEq

/-- The wording of a fault. -/
def Fault.message : Fault → String
  | .empty => "Invalid cell address: empty address"
  | .noLetters text => "Invalid cell address: no column letters in '" ++ text ++ "'"
  | .noDigits text => "Invalid cell address: no row number in '" ++ text ++ "'"
  | .badDigits text => "Invalid cell address: invalid row number in '" ++ text ++ "'"
  | .zeroRow text => "Invalid cell address: row number must be >= 1 in '" ++ text ++ "'"
  | .columnOutOfRange text => "Column out of range in '" ++ text ++ "'"
  | .rowOutOfRange text => "Row number out of range in '" ++ text ++ "'"

/-- Reads the text of an address: letters and then digits. The column is looked at before the row,
and a row number past the range before the row number zero. -/
def parse (s : String) : Except Fault Address :=
  let letters := s.toList.takeWhile Char.isAlpha
  let digits := s.toList.dropWhile Char.isAlpha
  if s.toList.isEmpty then .error .empty
  else if letters.isEmpty then .error (.noLetters s)
  else if digits.isEmpty then .error (.noDigits s)
  else if !digits.all Char.isDigit then .error (.badDigits s)
  else
    match Column.ofLetters letters with
    | .error _ => .error (.columnOutOfRange s)
    | .ok col =>
      let row := Decimal.valueOf digits
      if Column.lastNumber < row then .error (.rowOutOfRange s)
      else if row = 0 then .error (.zeroRow s)
      else .ok ⟨row - 1, col⟩

end Address

end PostfixSheet
