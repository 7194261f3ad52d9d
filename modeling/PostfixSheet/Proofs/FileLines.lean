import Mathlib.Data.List.DropRight
import PostfixSheet.Csv.Dialect
import PostfixSheet.Proofs.Utf8Texts

/-!
# The lines and the cells of a file

What the rows of a file are can be said without records and byte positions. The file is cut at every
line break that stands outside of quotes, CR LF being one. The empty lines at the end are dropped. Every
line is cut at the delimiters outside of quotes, and the quotes are taken off its cells.

Quotes open at the front of a cell only, and close with the next quote that is not doubled; a quote
elsewhere has no meaning. `Place` is where a byte stands with regard to that.

* `lines`, `cells` and `unquoted` are the three steps, `fileRows` is all of them.
* `Spans` says that bytes lead from one place to another and are cut nowhere.

Results:
* `Spans.lines`, `Spans.cells`: bytes that are cut nowhere belong to one line and to one cell.
* `lines_isText`, `cells_isText`, `unquoted_isText`: where delimiter and quote are ASCII, the lines and
  cells of a text are texts.
-/

namespace PostfixSheet

namespace Csv

/-- The delimiter, the quote and the line breaks are different bytes. -/
structure Dialect.Proper (d : Dialect) : Prop where
  delimiter_ne_quote : d.delimiter ≠ d.quote
  delimiter_not_break : isLineBreak d.delimiter = false
  quote_not_break : isLineBreak d.quote = false

/-- The delimiter and the quote are ASCII. -/
structure Dialect.Ascii (d : Dialect) : Prop where
  delimiter_lt : d.delimiter.toNat < 0x80
  quote_lt : d.quote.toNat < 0x80

theorem Dialect.proper_comma : Dialect.comma.Proper := ⟨by decide, by decide, by decide⟩

theorem Dialect.ascii_comma : Dialect.comma.Ascii := ⟨by decide, by decide⟩

/-! ## Places -/

/-- Where a byte stands with regard to quotes. -/
inductive Place where
  /-- At the front of a cell. -/
  | start
  /-- At the front of a line and behind a carriage return, which a line feed completes. -/
  | afterReturn
  /-- In a cell, outside of quotes. -/
  | plain
  /-- Inside of quotes. -/
  | quoted
  /-- Behind a quote inside of quotes, which ends them unless a second one follows. -/
  | closing
  deriving DecidableEq

/-- The place behind a byte at which nothing is cut. -/
def Place.next (d : Dialect) (b : UInt8) : Place → Place
  | .start | .afterReturn =>
    if b = d.quote then .quoted else if b = d.delimiter then .start else .plain
  | .plain => if b = d.delimiter then .start else .plain
  | .quoted => if b = d.quote then .closing else .quoted
  | .closing => if b = d.quote then .quoted else if b = d.delimiter then .start else .plain

/-- The front of a line. -/
def lineStart (afterReturn : Bool) : Place := if afterReturn then .afterReturn else .start

theorem lineStart_ne_quoted (afterReturn : Bool) : lineStart afterReturn ≠ .quoted := by
  cases afterReturn <;> decide

/-! ## Rows -/

/-- **The lines** of the bytes from a place on: they are cut at the line breaks outside of quotes. -/
def lines (d : Dialect) : Place → List UInt8 → List (List UInt8)
  | _, [] => [[]]
  | place, b :: rest =>
    if place = .afterReturn ∧ b = lineFeed then lines d .start rest
    else if place ≠ .quoted ∧ isLineBreak b = true then
      [] :: lines d (lineStart (b == carriageReturn)) rest
    else (lines d (place.next d b) rest).modifyHead (b :: ·)

/-- **The cells** of a line from a place on, with their quotes: it is cut at the delimiters outside of
quotes. -/
def cells (d : Dialect) : Place → List UInt8 → List (List UInt8)
  | _, [] => [[]]
  | place, b :: rest =>
    if place ≠ .quoted ∧ b = d.delimiter then [] :: cells d .start rest
    else (cells d (place.next d b) rest).modifyHead (b :: ·)

/-- Whether a byte of a cell opens quotes, or closes them unless it is doubled. -/
def Place.isMark (d : Dialect) (b : UInt8) (place : Place) : Bool :=
  b == d.quote && (place == .start || place == .afterReturn || place == .quoted)

/-- **A cell without its quotes**, from a place on: those that open and close are dropped, and of two in
a row inside of them one. -/
def unquoted (d : Dialect) : Place → List UInt8 → List UInt8
  | _, [] => []
  | place, b :: rest =>
    if place.isMark d b then unquoted d (place.next d b) rest
    else b :: unquoted d (place.next d b) rest

/-- The row of a line; an empty line is one empty cell. -/
def lineRow (d : Dialect) (line : List UInt8) : List (List UInt8) :=
  (cells d .start line).map (unquoted d .start)

/-- **The rows of a file**: those of its lines, without the empty lines at the end. -/
def fileRows (d : Dialect) (bytes : List UInt8) : List (List (List UInt8)) :=
  ((lines d .start bytes).rdropWhile List.isEmpty).map (lineRow d)

theorem lineRow_nil (d : Dialect) : lineRow d [] = [[]] := rfl

/-- A quoted line break is part of a cell, and empty lines are rows unless they stand at the end. -/
example : fileRows .comma (Utf8.encode "\r\n1,\"a\"\"\n\"b\r\n\n\r2 \"\n\n".toList) =
    [[""], ["1", "a\"\nb"], [""], [""], ["2 \""]].map (·.map fun cell => Utf8.encode cell.toList) := by
  decide

/-! ## Cutting -/

variable {d : Dialect} {p q r : Place} {b : UInt8} {bytes rest : List UInt8}

/-- Nothing is cut at a byte: it is quoted, or neither the delimiter nor a line break. -/
def Uncut (d : Dialect) (p : Place) (b : UInt8) : Prop :=
  p = .quoted ∨ isLineBreak b = false ∧ b ≠ d.delimiter

theorem uncut_quote (hd : d.Proper) (p : Place) : Uncut d p d.quote :=
  Or.inr ⟨hd.quote_not_break, hd.delimiter_ne_quote.symm⟩

theorem Uncut.lines_cons (h : Uncut d p b) :
    lines d p (b :: rest) = (lines d (p.next d b) rest).modifyHead (b :: ·) := by
  rw [lines, if_neg, if_neg]
  · rintro ⟨hp, hb⟩
    rcases h with rfl | ⟨hb', -⟩
    · exact hp rfl
    · rw [hb] at hb'
      cases hb'
  · rintro ⟨rfl, rfl⟩
    rcases h with h | ⟨hb', -⟩
    · cases h
    · cases hb'

theorem Uncut.cells_cons (h : Uncut d p b) :
    cells d p (b :: rest) = (cells d (p.next d b) rest).modifyHead (b :: ·) := by
  rw [cells, if_neg]
  rintro ⟨hp, hb⟩
  rcases h with rfl | ⟨-, hb'⟩
  · exact hp rfl
  · exact hb' hb

/-- A line is cut at a line break outside of quotes. -/
theorem lines_cons_break (hp : p ≠ .quoted) (hp' : p ≠ .afterReturn) (hb : isLineBreak b = true) :
    lines d p (b :: rest) = [] :: lines d (lineStart (b == carriageReturn)) rest := by
  rw [lines, if_neg fun h => hp' h.1, if_pos ⟨hp, hb⟩]

/-- A cell is cut at a delimiter outside of quotes. -/
theorem cells_cons_delimiter (hp : p ≠ .quoted) :
    cells d p (d.delimiter :: rest) = [] :: cells d .start rest := by
  rw [cells, if_pos ⟨hp, rfl⟩]

/-- Lines are not cut at a delimiter. -/
theorem lines_cons_delimiter (hd : d.Proper) (hp : p ≠ .quoted) :
    lines d p (d.delimiter :: rest) = (lines d .start rest).modifyHead (d.delimiter :: ·) := by
  have hnext : p.next d d.delimiter = .start := by
    cases p <;> simp [Place.next, hd.delimiter_ne_quote] at hp ⊢
  rw [lines, if_neg, if_neg, hnext]
  · rintro ⟨-, hb⟩
    rw [hd.delimiter_not_break] at hb
    cases hb
  · rintro ⟨-, hb⟩
    have hbreak := hd.delimiter_not_break
    rw [hb] at hbreak
    cases hbreak

/-! ## Bytes that are cut nowhere -/

/-- The bytes lead from one place to another and are cut nowhere. -/
inductive Spans (d : Dialect) : Place → List UInt8 → Place → Prop
  | nil (p : Place) : Spans d p [] p
  | cons {p q : Place} {b : UInt8} {bytes : List UInt8} (hb : Uncut d p b)
      (h : Spans d (p.next d b) bytes q) : Spans d p (b :: bytes) q

namespace Spans

theorem append {more : List UInt8} (h : Spans d p bytes q) (hmore : Spans d q more r) :
    Spans d p (bytes ++ more) r := by
  induction h with
  | nil p => exact hmore
  | cons hb _ ih => exact .cons hb (ih hmore)

/-- **Bytes that are cut nowhere belong to one line.** -/
theorem lines (h : Spans d p bytes q) (rest : List UInt8) :
    lines d p (bytes ++ rest) = (Csv.lines d q rest).modifyHead (bytes ++ ·) := by
  induction h with
  | nil p => exact (congrFun List.modifyHead_id _).symm
  | cons hb _ ih =>
    rw [List.cons_append, hb.lines_cons, ih, List.modifyHead_modifyHead]
    rfl

/-- **Bytes that are cut nowhere belong to one cell.** -/
theorem cells (h : Spans d p bytes q) (rest : List UInt8) :
    cells d p (bytes ++ rest) = (Csv.cells d q rest).modifyHead (bytes ++ ·) := by
  induction h with
  | nil p => exact (congrFun List.modifyHead_id _).symm
  | cons hb _ ih =>
    rw [List.cons_append, hb.cells_cons, ih, List.modifyHead_modifyHead]
    rfl

end Spans

/-! ## Texts -/

section Ascii

variable (hd : d.Ascii)
include hd

/-- A high byte has no role. -/
theorem Dialect.Ascii.of_high {b : UInt8} (hb : 0x80 ≤ b.toNat) :
    isLineBreak b = false ∧ b ≠ d.delimiter ∧ b ≠ d.quote := by
  have hne : ∀ n : UInt8, n.toNat < 0x80 → b ≠ n := by
    rintro n hn rfl
    omega
  refine ⟨?_, hne _ hd.delimiter_lt, hne _ hd.quote_lt⟩
  rw [isLineBreak, Bool.or_eq_false_iff, beq_eq_false_iff_ne, beq_eq_false_iff_ne]
  exact ⟨hne _ (by decide), hne _ (by decide)⟩

/-- High bytes are cut nowhere, and all of them are kept. -/
theorem Dialect.Ascii.spans_high {bytes : List UInt8} (p : Place)
    (hhigh : ∀ b ∈ bytes, 0x80 ≤ b.toNat) :
    ∃ q, Spans d p bytes q ∧ ∀ rest, unquoted d p (bytes ++ rest) = bytes ++ unquoted d q rest := by
  induction bytes generalizing p with
  | nil => exact ⟨p, .nil p, fun _ => rfl⟩
  | cons b bytes ih =>
    obtain ⟨hbreak, hdelimiter, hquote⟩ := hd.of_high (hhigh b List.mem_cons_self)
    obtain ⟨q, hspans, hunquoted⟩ := ih (p.next d b) fun c hc => hhigh c (List.mem_cons_of_mem _ hc)
    refine ⟨q, .cons (Or.inr ⟨hbreak, hdelimiter⟩) hspans, fun rest => ?_⟩
    have hmark : p.isMark d b = false := by
      rw [Place.isMark, beq_eq_false_iff_ne.mpr hquote, Bool.false_and]
    rw [List.cons_append, unquoted, hmark, hunquoted]
    rfl

omit hd in
/-- A character is put before the first of texts. -/
theorem isText_of_mem_modifyHead {c : Char} {pieces : List (List UInt8)}
    (h : ∀ piece ∈ pieces, Utf8.IsText piece) :
    ∀ piece ∈ pieces.modifyHead (String.utf8EncodeChar c ++ ·), Utf8.IsText piece := by
  cases pieces with
  | nil => exact h
  | cons first others =>
    intro piece hpiece
    rcases List.mem_cons.mp hpiece with rfl | hpiece
    · exact (h first List.mem_cons_self).encodeChar_append c
    · exact h piece (List.mem_cons_of_mem _ hpiece)

omit hd in
/-- An ASCII character is put before the first of texts. -/
theorem isText_of_mem_modifyHead_cons {c : Char} {b : UInt8} (hb : String.utf8EncodeChar c = [b])
    {pieces : List (List UInt8)} (h : ∀ piece ∈ pieces, Utf8.IsText piece) :
    ∀ piece ∈ pieces.modifyHead (b :: ·), Utf8.IsText piece := by
  have hput := isText_of_mem_modifyHead (c := c) h
  rwa [hb] at hput

/-- **The lines of a text are texts.** -/
theorem lines_isText (text : List Char) (p : Place) :
    ∀ line ∈ lines d p (Utf8.encode text), Utf8.IsText line := by
  induction text generalizing p with
  | nil => simpa [Utf8.encode, lines] using Utf8.isText_nil
  | cons c text ih =>
    rw [Utf8.encode_cons]
    rcases Utf8.encodeChar_cases c with ⟨b, -, -, hb⟩ | hhigh
    · rw [hb, List.singleton_append, lines]
      split_ifs
      · exact ih .start
      · exact List.forall_mem_cons.mpr ⟨Utf8.isText_nil, ih _⟩
      · exact isText_of_mem_modifyHead_cons hb (ih _)
    · obtain ⟨q, hspans, -⟩ := hd.spans_high p hhigh
      rw [hspans.lines]
      exact isText_of_mem_modifyHead (ih q)

/-- **The cells of a text are texts.** -/
theorem cells_isText (text : List Char) (p : Place) :
    ∀ cell ∈ cells d p (Utf8.encode text), Utf8.IsText cell := by
  induction text generalizing p with
  | nil => simpa [Utf8.encode, cells] using Utf8.isText_nil
  | cons c text ih =>
    rw [Utf8.encode_cons]
    rcases Utf8.encodeChar_cases c with ⟨b, -, -, hb⟩ | hhigh
    · rw [hb, List.singleton_append, cells]
      split_ifs
      · exact List.forall_mem_cons.mpr ⟨Utf8.isText_nil, ih _⟩
      · exact isText_of_mem_modifyHead_cons hb (ih _)
    · obtain ⟨q, hspans, -⟩ := hd.spans_high p hhigh
      rw [hspans.cells]
      exact isText_of_mem_modifyHead (ih q)

/-- **A text without its quotes is a text.** -/
theorem unquoted_isText (text : List Char) (p : Place) :
    Utf8.IsText (unquoted d p (Utf8.encode text)) := by
  induction text generalizing p with
  | nil => exact Utf8.isText_nil
  | cons c text ih =>
    rw [Utf8.encode_cons]
    rcases Utf8.encodeChar_cases c with ⟨b, -, -, hb⟩ | hhigh
    · have hput := (ih (p.next d b)).encodeChar_append c
      rw [hb] at hput ⊢
      rw [List.singleton_append, unquoted]
      split_ifs
      · exact ih _
      · exact hput
    · obtain ⟨q, -, hunquoted⟩ := hd.spans_high p hhigh
      rw [hunquoted]
      exact (ih q).encodeChar_append c

/-- The cells of the rows of a text are texts. -/
theorem fileRows_isText (text : List Char) :
    ∀ row ∈ fileRows d (Utf8.encode text), ∀ cell ∈ row, Utf8.IsText cell := by
  intro row hrow cell hcell
  obtain ⟨line, hline, rfl⟩ := List.mem_map.mp hrow
  obtain ⟨raw, hraw, rfl⟩ := List.mem_map.mp hcell
  obtain ⟨lineText, rfl⟩ :=
    lines_isText hd text .start line ((List.rdropWhile_prefix _ _).mem hline)
  obtain ⟨rawText, rfl⟩ := cells_isText hd lineText .start raw hraw
  exact unquoted_isText hd rawText .start

end Ascii

end Csv

end PostfixSheet
