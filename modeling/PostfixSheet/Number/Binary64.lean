import PostfixSheet.Number.Decimal

/-!
# Double precision numbers as whole numbers

Stands for the reading and the printing of doubles in the standard library that `parse_number` and
`format_number` call, which are taken to be exact: reading rounds to the nearest double, and
printing has as few digits as reading back allows.

The doubles that are not negative, in increasing order from `0` to infinity, are numbered by their
bit patterns. That number is the **rank** of the double: the least positive double has rank `1`, and
the next double above rank `r` has rank `r + 1`. A rank is a significand and a scale, and its
value is `significand * 2 ^ scale` in units of the least positive double, `2 ^ (-1074)`.

* `Shape.of` reads the bits of a double, `ofRank` writes them.
* `nearestRank` is the double nearest to a fraction, with a tie at the even rank.
* `Decimal.rank` is the double nearest to a decimal number, and `shortest` a decimal number with as
  few digits as possible whose nearest double has a given rank.

Results:
* `shape_rank_lt`: the rank of a finite double is below that of infinity.
* `divNearest_mul`: a quotient without remainder is not rounded.
-/

namespace PostfixSheet

namespace Binary64

/-- How many units `2 ^ (-1074)` make one. -/
def unitsPerOne : Nat := Nat.pow 2 1074

/-- How many ranks there are in a binade, which is also the least significand above the lowest
binade. -/
def binade : Nat := Nat.pow 2 52

/-- The rank of infinity. -/
def infiniteRank : Nat := 2047 * binade

/-- Where the bits of the negative doubles begin. -/
def signBit : Nat := 2048 * binade

/-! ## The bits of a double -/

/-- What a double is: its sign and its rank, unless it is infinite or not a number. -/
inductive Shape where
  | nan
  | infinite (negative : Bool)
  | finite (negative : Bool) (rank : Nat)
  deriving Repr, DecidableEq

/-- Reads the bits of a double. -/
def Shape.of (x : Float) : Shape :=
  let bits := x.toBits.toNat
  let rank := bits % signBit
  let negative := decide (signBit ≤ bits)
  if rank < infiniteRank then .finite negative rank
  else if rank = infiniteRank then .infinite negative
  else .nan

theorem shape_rank_lt {x : Float} {negative : Bool} {rank : Nat}
    (h : Shape.of x = .finite negative rank) : rank < infiniteRank := by
  unfold Shape.of at h
  simp only at h
  split at h
  · cases h
    assumption
  · split at h <;> cases h

/-- The double with the given sign and rank. -/
def ofRank (negative : Bool) (rank : Nat) : Float :=
  Float.ofBits (UInt64.ofNat (if negative then signBit + rank else rank))

/-! ## Significand and scale -/

/-- The significand of a rank: below `2 ^ 53`, and from `2 ^ 52` on except in the lowest binade. -/
def significand (rank : Nat) : Nat :=
  if rank < binade then rank else binade + rank % binade

/-- The scale of a rank; the two lowest binades have scale `0`. -/
def scale (rank : Nat) : Nat := rank / binade - 1

/-- The value of a rank in units of the least positive double. -/
def units (rank : Nat) : Nat := significand rank * Nat.pow 2 (scale rank)

/-! ## The nearest double -/

/-- The whole number nearest to `num / den`, and the even one of two that are equally near. -/
def divNearest (num den : Nat) : Nat :=
  let q := num / den
  let r := num % den
  if 2 * r < den then q
  else if den < 2 * r then q + 1
  else q + q % 2

theorem divNearest_mul (n : Nat) {den : Nat} (h : 0 < den) : divNearest (n * den) den = n := by
  simp [divNearest, h]

/-- The rank of the double nearest to `num / den`, a tie going to the even rank; that of infinity
if there is no finite double as large. The significand is rounded at the scale at which it is
below `2 ^ 53`; rounding it up to `2 ^ 53` gives the rank that begins the next binade. -/
def nearestRank (num den : Nat) : Nat :=
  let least := num * unitsPerOne
  let scale := (least / den).log2 - 52
  min (scale * binade + divNearest least (den * Nat.pow 2 scale)) infiniteRank

end Binary64

/-- The rank of the double nearest to a decimal number. A number of `10 ^ 309` or more is infinite,
and one whose places exceed its binary digits by so much that it is below half of the least
positive double is zero; the powers of ten that are computed thus stay small. -/
def Decimal.rank (d : Decimal) : Nat :=
  match d.exponent with
  | .ofNat zeros =>
    if d.coefficient = 0 then 0
    else if 309 ≤ zeros then Binary64.infiniteRank
    else Binary64.nearestRank (d.coefficient * Nat.pow 10 zeros) 1
  | .negSucc n =>
    if d.coefficient.log2 + 325 ≤ n then 0
    else Binary64.nearestRank d.coefficient (Nat.pow 10 (n + 1))

namespace Binary64

/-! ## The shortest decimal number that reads back -/

/-- The exact value of a rank. -/
def exact (rank : Nat) : Decimal :=
  Decimal.reduced (units rank * Nat.pow 5 1074) 1074

/-- The two neighbours of `num / den` among the whole multiples of `10 ^ exponent`, the nearer one
first; of two that are equally near the greater one first. -/
def neighbours (num den : Nat) (exponent : Int) : List Decimal :=
  let (n, d) := match exponent with
    | .ofNat zeros => (num, den * Nat.pow 10 zeros)
    | .negSucc m => (num * Nat.pow 10 (m + 1), den)
  let below := n / d
  if 2 * (n % d) < d then [⟨below, exponent⟩, ⟨below + 1, exponent⟩]
  else [⟨below + 1, exponent⟩, ⟨below, exponent⟩]

/-- The first neighbour that reads back as `rank`, tried on up to `grids` grids from
`10 ^ exponent` downwards; the exact value if there is none. -/
def shortestFrom (rank : Nat) : (grids : Nat) → (exponent : Int) → Decimal
  | 0, _ => exact rank
  | grids + 1, exponent =>
    match (neighbours (units rank) unitsPerOne exponent).find? fun d => d.rank == rank with
    | some d => d
    | none => shortestFrom rank grids (exponent - 1)

/-- The exponent of a power of ten that `num / den` does not exceed, and exceeds a hundredth of. -/
def ceilingExponent (num den : Nat) : Int :=
  if den ≤ num then (Decimal.digits (num / den)).length
  else 1 - (Decimal.digits (den / num)).length

/-- A decimal number with as few digits as possible that reads back as the double of the given
rank, and the nearest such number to it. Seventeen digits are always enough. -/
def shortest (rank : Nat) : Decimal :=
  shortestFrom rank 20 (ceilingExponent (units rank) unitsPerOne)

end Binary64

end PostfixSheet
