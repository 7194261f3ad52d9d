import Mathlib.Order.Monotone.Basic
import PostfixSheet.Number.Text
import PostfixSheet.Proofs.Ranks

/-!
# Whole numbers among the doubles

A whole number below `10 ^ 15` is written by way of a cast: the double is cut off towards zero to a
number of 64 bits, which goes to the nearest end of the range if it does not fit, and that number is
printed. Which doubles go this way is asked of the doubles themselves. Here the order of the doubles and
the cast are both read off their ranks: ranks are in the order of their values, so a double below
`10 ^ 15` has a value below it, and then the cast cuts off nothing and meets no end.

* `unpacked` is what a double is taken apart into, by its sign and rank.
* `isWhole` says that a double has no fraction.

Results:
* `units_lt_units`: ranks are in the order of their values.
* `unpack_of_shape`, `abs_lt_iff`: the order of the doubles that are not negative is that of their ranks.
* `toInt_unpacked`: a double is cut off to the whole part of its value.
* `isSmallWhole_iff`: the doubles that are written as whole numbers are those without a fraction below
  `10 ^ 15`.
* `toInt_castInt64`: such a double is cast to exactly its value.
-/

namespace PostfixSheet

namespace Binary64

open Float.Model Float.Model.UnpackedFloat

/-! ## The order of values -/

section Order

variable {r t : Nat}

theorem significand_lt (r : Nat) : significand r < 2 * binade := by
  have hmod : r % binade < binade := Nat.mod_lt _ binade_pos
  unfold significand
  split <;> omega

/-- Above the lowest scale the leading bit of the significand is set. -/
theorem binade_le_significand (h : 0 < scale r) : binade ≤ significand r := by
  have hrank : ¬ r < binade := fun hlow => by
    rw [scale, Nat.div_eq_of_lt hlow] at h
    exact absurd h (by decide)
  rw [significand, if_neg hrank]
  exact Nat.le_add_right _ _

theorem significand_pos (h : r ≠ 0) : 0 < significand r := by
  have hbinade := binade_pos
  unfold significand
  split <;> omega

/-- A rank is below another if its scale is, or else its significand. -/
theorem lt_iff_scale : r < t ↔ scale r < scale t ∨ scale r = scale t ∧ significand r < significand t := by
  have hr := scale_mul_add_significand r
  have ht := scale_mul_add_significand t
  have hlow := significand_lt r
  have hhigh := significand_lt t
  rcases Nat.lt_trichotomy (scale r) (scale t) with h | h | h
  · have hmul : (scale r + 1) * binade ≤ scale t * binade := Nat.mul_le_mul_right _ h
    have hlead := binade_le_significand (Nat.zero_lt_of_lt h)
    rw [Nat.succ_mul] at hmul
    omega
  · rw [h] at hr
    omega
  · have hmul : (scale t + 1) * binade ≤ scale r * binade := Nat.mul_le_mul_right _ h
    have hlead := binade_le_significand (Nat.zero_lt_of_lt h)
    rw [Nat.succ_mul] at hmul
    omega

/-- **Ranks are in the order of their values.** -/
theorem units_lt_units (h : r < t) : units r < units t := by
  unfold units
  rcases lt_iff_scale.mp h with hscale | ⟨hscale, hsignificand⟩
  · calc significand r * 2 ^ scale r
        < 2 * binade * 2 ^ scale r :=
          Nat.mul_lt_mul_of_pos_right (significand_lt r) (Nat.two_pow_pos _)
      _ = binade * 2 ^ (scale r + 1) := by rw [Nat.pow_succ]; ac_rfl
      _ ≤ binade * 2 ^ scale t :=
          Nat.mul_le_mul_left _ (Nat.pow_le_pow_right (by decide) hscale)
      _ ≤ significand t * 2 ^ scale t :=
          Nat.mul_le_mul_right _ (binade_le_significand (Nat.zero_lt_of_lt hscale))
  · rw [hscale]
    exact Nat.mul_lt_mul_of_pos_right hsignificand (Nat.two_pow_pos _)

theorem units_lt_units_iff : units r < units t ↔ r < t :=
  (show StrictMono units from fun _ _ => units_lt_units).lt_iff_lt

end Order

/-! ## What a double is taken apart into -/

/-- The sign of a double. -/
def signOf (negative : Bool) : Sign := if negative then .negative else .positive

/-- What the double with a sign and a rank is taken apart into: a zero, or the significand of the rank
and its scale, counted from the least positive double. -/
def unpacked (negative : Bool) (rank : Nat) : UnpackedFloat :=
  if h : rank = 0 then .zero (signOf negative)
  else .finite (signOf negative) (significand rank) (scale rank - 1074) (significand_pos h)

theorem unpacked_of_ne_zero {negative : Bool} {rank : Nat} (h : rank ≠ 0) :
    unpacked negative rank =
      .finite (signOf negative) (significand rank) (scale rank - 1074) (significand_pos h) :=
  dif_neg h

section Bits

variable (b : BitVec Format.binary64.numBits)

theorem toNat_unpackMantissa : (unpackMantissa b).toNat = b.toNat % 2 ^ 52 := by
  show (BitVec.extractLsb' 0 52 b).toNat = b.toNat % 2 ^ 52
  rw [BitVec.extractLsb'_toNat, Nat.shiftRight_zero]

theorem ofBitVec_unpackSign :
    Sign.ofBitVec (unpackSign b) = signOf (decide (signBit ≤ b.toNat)) := by
  have hsign : (unpackSign b).toNat = b.toNat / 2 ^ 63 % 2 := by
    show (BitVec.extractLsb' 63 1 b).toNat = b.toNat / 2 ^ 63 % 2
    rw [BitVec.extractLsb'_toNat, Nat.shiftRight_eq_div_pow]
  have hlt : b.toNat < 2 ^ 64 := b.isLt
  have hvalue : signBit = 2 ^ 63 := rfl
  have hiff : unpackSign b = 0#1 ↔ ¬ signBit ≤ b.toNat := by
    rw [← BitVec.toNat_inj, hsign, hvalue, BitVec.toNat_zero]
    omega
  unfold Sign.ofBitVec signOf
  by_cases h : signBit ≤ b.toNat
  · rw [if_neg fun hzero => hiff.mp hzero h, if_pos (decide_eq_true h)]
  · rw [if_pos (hiff.mpr h), if_neg (by rwa [decide_eq_true_eq])]

theorem finite_congr {s : Sign} {m m' : Nat} {e e' : Int} (hm : 0 < m) (hm' : 0 < m')
    (hsignificand : m = m') (hscale : e = e') :
    UnpackedFloat.finite s m e hm = UnpackedFloat.finite s m' e' hm' := by
  subst hsignificand hscale
  rfl

/-- Bits below those of infinity are taken apart by their sign and rank. -/
theorem unpack_of_lt (h : b.toNat % signBit < infiniteRank) :
    UnpackedFloat.unpack Format.binary64 b =
      unpacked (decide (signBit ≤ b.toNat)) (b.toNat % signBit) := by
  have hfull : unpackExponent b ≠ -1#11 := by
    rw [Ne, unpackExponent_eq_iff]
    exact Nat.not_le.mpr h
  have hbinade := binade_pos
  generalize hrank : b.toNat % signBit = rank
  have hexponent : (unpackExponent b).toNat = rank / binade := by
    rw [toNat_unpackExponent, ← hrank, show signBit = 2 ^ 63 from rfl, show binade = 2 ^ 52 from rfl]
    omega
  have hmantissa : (unpackMantissa b).toNat = rank % binade := by
    rw [toNat_unpackMantissa, ← hrank, show signBit = 2 ^ 63 from rfl, show binade = 2 ^ 52 from rfl]
    omega
  delta UnpackedFloat.unpack
  dsimp only
  rw [if_neg hfull, ofBitVec_unpackSign]
  by_cases hlow : rank < binade
  · -- The exponent field of the lowest binade is zero, and the fraction is all of the rank.
    rw [Nat.div_eq_of_lt hlow] at hexponent
    rw [Nat.mod_eq_of_lt hlow] at hmantissa
    rw [if_pos (BitVec.eq_of_toNat_eq hexponent)]
    by_cases hzero : rank = 0
    · have hm : unpackMantissa b = 0#52 :=
        BitVec.eq_of_toNat_eq (by rw [hmantissa, hzero, BitVec.toNat_zero])
      rw [dif_pos hm, unpacked, dif_pos hzero]
    · have hne : unpackMantissa b ≠ 0#52 := fun hm => by
        rw [hm, BitVec.toNat_zero] at hmantissa
        exact hzero hmantissa.symm
      rw [dif_neg hne, unpacked_of_ne_zero hzero]
      refine finite_congr _ _ ?_ ?_
      · rw [hmantissa, significand, if_pos hlow]
      · rw [hexponent, scale, Nat.div_eq_of_lt hlow]
        rfl
  · have hpos : 0 < rank / binade := Nat.div_pos (Nat.not_lt.mp hlow) hbinade
    have hne : unpackExponent b ≠ 0#11 := fun he => by
      rw [he, BitVec.toNat_zero] at hexponent
      exact Nat.ne_of_gt hpos hexponent.symm
    rw [if_neg hne, unpacked_of_ne_zero (by omega)]
    refine finite_congr _ _ ?_ ?_
    · rw [toNat_leadingOne, hmantissa, significand, if_neg hlow]
      rfl
    · rw [hexponent, scale]
      show ((rank / binade : Nat) : Int) - 1075 = ((rank / binade - 1 : Nat) : Int) - 1074
      omega

end Bits

variable {x y : Float} {negative : Bool} {rank : Nat}

/-- The bits of a finite double are its sign and its rank. -/
theorem bits_of_shape (h : Shape.of x = .finite negative rank) :
    x.toBits.toNat % signBit = rank ∧ decide (signBit ≤ x.toBits.toNat) = negative := by
  unfold Shape.of at h
  simp only at h
  split_ifs at h
  cases h
  exact ⟨rfl, rfl⟩

/-- A finite double is the one with its sign and rank. -/
theorem ofRank_of_shape (h : Shape.of x = .finite negative rank) : ofRank negative rank = x := by
  obtain ⟨hrank, hnegative⟩ := bits_of_shape h
  have hlt : x.toBits.toNat < 2 ^ 64 := x.toBits.toNat_lt
  have hvalue : signBit = 2 ^ 63 := rfl
  have hbits : UInt64.ofNat (if negative then signBit + rank else rank) = x.toBits := by
    rw [← UInt64.ofNat_toNat (x := x.toBits)]
    congr 1
    rw [← hnegative, ← hrank, hvalue]
    by_cases hsign : 2 ^ 63 ≤ x.toBits.toNat
    · rw [if_pos (decide_eq_true hsign)]
      omega
    · rw [if_neg (by rwa [decide_eq_true_eq])]
      omega
  rw [ofRank, hbits]
  apply toBits_injective
  exact toBits_ofBits (by rw [hrank]; exact shape_rank_lt h)

/-- **A finite double is taken apart by its sign and rank.** -/
theorem unpack_of_shape (h : Shape.of x = .finite negative rank) :
    x.toModel.unpack = unpacked negative rank := by
  obtain ⟨hrank, hnegative⟩ := bits_of_shape h
  have hunpack := unpack_of_lt x.toBits.toBitVec (hrank.symm ▸ shape_rank_lt h)
  rwa [show x.toBits.toBitVec.toNat = x.toBits.toNat from rfl, hrank, hnegative] at hunpack

/-- A double with a sign and a rank is finite. -/
theorem isFinite_of_shape (h : Shape.of x = .finite negative rank) : x.isFinite = true := by
  show x.toModel.unpack.isFinite = true
  rw [unpack_of_shape h]
  by_cases hzero : rank = 0
  · rw [unpacked, dif_pos hzero]
    rfl
  · rw [unpacked_of_ne_zero hzero]
    rfl

/-! ## Comparing doubles -/

/-- A finite double without its sign. -/
theorem abs_of_shape (h : Shape.of x = .finite negative rank) : x.abs = ofRank false rank := by
  have hrank : Shape.of (ofRank false rank) = .finite false rank := shape_ofRank (shape_rank_lt h)
  have habs : (unpacked negative rank).abs = unpacked false rank := by
    by_cases hzero : rank = 0
    · rw [unpacked, unpacked, dif_pos hzero, dif_pos hzero]
      rfl
    · rw [unpacked_of_ne_zero hzero, unpacked_of_ne_zero hzero]
      rfl
  have hexponent : @unpackExponent Format.binary64 (ofRank false rank).toBits.toBitVec ≠ -1#11 := by
    rw [Ne, unpackExponent_eq_iff, Nat.not_le]
    exact (bits_of_shape hrank).1.symm ▸ shape_rank_lt h
  apply toBits_injective
  show UInt64.ofBitVec (UnpackedFloat.pack Format.binary64 x.toModel.unpack.abs) = _
  rw [unpack_of_shape h, habs, ← unpack_of_shape hrank]
  exact congrArg UInt64.ofBitVec (pack_unpack _ hexponent)

theorem compare_unpacked (r t : Nat) :
    (unpacked false r).compare (unpacked false t) = some (compare r t) := by
  by_cases hr : r = 0
  · by_cases ht : t = 0
    · rw [hr, ht]
      rfl
    · rw [hr, unpacked_of_ne_zero ht, compare_lt_iff_lt.mpr (Nat.pos_of_ne_zero ht)]
      rfl
  · by_cases ht : t = 0
    · rw [ht, unpacked_of_ne_zero hr, compare_gt_iff_gt.mpr (Nat.pos_of_ne_zero hr)]
      rfl
    · rw [unpacked_of_ne_zero hr, unpacked_of_ne_zero ht]
      show some ((compare (scale r - 1074 : Int) (scale t - 1074)).then
        (compare (significand r) (significand t))) = some (compare r t)
      -- Exponents are compared before significands, which is the order of the ranks.
      rcases Nat.lt_trichotomy r t with h | h | h
      · rw [compare_lt_iff_lt.mpr h]
        rcases lt_iff_scale.mp h with hscale | ⟨hscale, hsignificand⟩
        · rw [compare_lt_iff_lt.mpr (show (scale r - 1074 : Int) < scale t - 1074 by omega)]
          rfl
        · rw [hscale, compare_eq_iff_eq.mpr rfl, compare_lt_iff_lt.mpr hsignificand]
          rfl
      · rw [h, compare_eq_iff_eq.mpr rfl, compare_eq_iff_eq.mpr rfl, compare_eq_iff_eq.mpr rfl]
        rfl
      · rw [compare_gt_iff_gt.mpr h]
        rcases lt_iff_scale.mp h with hscale | ⟨hscale, hsignificand⟩
        · rw [compare_gt_iff_gt.mpr (show (scale t - 1074 : Int) < scale r - 1074 by omega)]
          rfl
        · rw [hscale, compare_eq_iff_eq.mpr rfl, compare_gt_iff_gt.mpr hsignificand]
          rfl

/-- The compared ranks of doubles that are not negative. -/
theorem lt_unpacked {r t : Nat} : (unpacked false r).lt (unpacked false t) = decide (r < t) := by
  rw [UnpackedFloat.lt, compare_unpacked]
  by_cases h : r < t
  · rw [compare_lt_iff_lt.mpr h, decide_eq_true h]
    rfl
  · rw [decide_eq_false h, beq_eq_false_iff_ne, Ne, Option.some.injEq, compare_lt_iff_lt]
    exact h

/-- **The order of doubles that are not negative is that of their ranks.** -/
theorem abs_lt_iff {t : Nat} (h : Shape.of x = .finite negative rank)
    (hy : Shape.of y = .finite false t) : x.abs < y ↔ rank < t := by
  have hrank : Shape.of (ofRank false rank) = .finite false rank := shape_ofRank (shape_rank_lt h)
  rw [abs_of_shape h]
  show decide ((ofRank false rank).toModel.unpack.lt y.toModel.unpack = true) = true ↔ rank < t
  rw [unpack_of_shape hrank, unpack_of_shape hy, lt_unpacked]
  simp

/-! ## The cast -/

/-- Shifting a significand to the right drops its last digits. -/
theorem mantissa_shiftRight (em : ExtendedMantissa) (n : Nat) :
    (em >>> n).mantissa = em.mantissa / 2 ^ n := by
  induction n with
  | zero => rw [Nat.pow_zero, Nat.div_one]; rfl
  | succ n ih =>
    show (em >>> n).mantissa / 2 = _
    rw [ih, Nat.div_div_eq_div_mul, Nat.pow_succ]

/-- A significand with an exponent is cut off by a quotient. -/
theorem roundToInt_eq (s : Sign) (m : Nat) (e : Int) :
    roundToInt s m e = s.apply (m * 2 ^ e.toNat / 2 ^ (-e).toNat : Nat) := by
  have hshift : (0 - (e - (e - 0).toNat)).toNat = (-e).toNat := by omega
  show s.apply ((⟨m <<< (e - 0).toNat, false, false⟩ : ExtendedMantissa) >>>
    (0 - (e - (e - 0).toNat)).toNat).mantissa = _
  rw [mantissa_shiftRight, hshift, Int.sub_zero, Nat.shiftLeft_eq]

/-- What is shifted by a difference of exponents is shifted by the one and back by the other. -/
theorem mul_two_pow_div (m scale k : Nat) :
    m * 2 ^ (scale - k : Int).toNat / 2 ^ (-(scale - k : Int)).toNat = m * 2 ^ scale / 2 ^ k := by
  rcases Nat.le_total k scale with h | h
  · obtain ⟨n, rfl⟩ := Nat.exists_eq_add_of_le h
    rw [show ((k + n : Nat) - k : Int) = n by omega, Int.toNat_natCast, Int.toNat_neg_natCast,
      Nat.pow_zero, Nat.div_one, Nat.add_comm k, Nat.pow_add, ← Nat.mul_assoc,
      Nat.mul_div_cancel _ (Nat.two_pow_pos k)]
  · obtain ⟨n, rfl⟩ := Nat.exists_eq_add_of_le h
    rw [show (scale - (scale + n : Nat) : Int) = -(n : Int) by omega, Int.neg_neg, Int.toNat_natCast,
      Int.toNat_neg_natCast, Nat.pow_zero, Nat.mul_one, Nat.pow_add, Nat.mul_comm (2 ^ scale),
      Nat.mul_div_mul_right _ _ (Nat.two_pow_pos _)]

/-- **A double is cut off to the whole part of its value.** -/
theorem toInt_unpacked (low high : Int) :
    (unpacked negative rank).toInt low high =
      (signOf negative).apply (units rank / unitsPerOne : Nat) := by
  by_cases hzero : rank = 0
  · rw [unpacked, dif_pos hzero, hzero, units_zero, Nat.zero_div]
    cases negative <;> rfl
  · rw [unpacked_of_ne_zero hzero]
    show roundToInt _ _ _ = _
    rw [roundToInt_eq, units, unitsPerOne_eq, Nat.pow_eq]
    exact congrArg (fun n : Nat => (signOf negative).apply n)
      (mul_two_pow_div (significand rank) (scale rank) 1074)

/-! ## Whole numbers -/

/-- Whether a double is finite and has no fraction. -/
def isWhole (x : Float) : Bool :=
  match Shape.of x with
  | .finite _ rank => units rank % unitsPerOne = 0
  | _ => false

theorem exists_shape_of_isWhole (h : isWhole x = true) :
    ∃ negative rank, Shape.of x = .finite negative rank := by
  unfold isWhole at h
  split at h
  case h_1 negative rank hx => exact ⟨negative, rank, hx⟩
  case h_2 => cases h

/-- The value of a finite double in units of the least positive one. -/
def signedUnits (x : Float) : Int :=
  match Shape.of x with
  | .finite negative rank => (signOf negative).apply (units rank)
  | _ => 0

/-- The number of 64 bits that a double is cast to: cut off towards zero, and the nearest one if it
does not fit. -/
def castInt64 (x : Float) : Int64 := x.toModel.toInt64

/-- A rank is below that of `10 ^ 15` if its value is. -/
theorem lt_quadrillion_iff : rank < 4831355200913801216 ↔ units rank < 10 ^ 15 * unitsPerOne := by
  have hunits : units 4831355200913801216 = 10 ^ 15 * unitsPerOne := by decide +kernel
  rw [← hunits, units_lt_units_iff]

/-- **The doubles that are written as whole numbers are those without a fraction below `10 ^ 15`.** -/
theorem isSmallWhole_iff (h : Shape.of x = .finite negative rank) :
    isSmallWhole rank = true ↔ isWhole x = true ∧ x.abs < 1e15 := by
  have hquadrillion : Shape.of 1e15 = .finite false 4831355200913801216 := by decide +kernel
  rw [abs_lt_iff h hquadrillion, lt_quadrillion_iff, isWhole, h, isSmallWhole, Bool.and_eq_true,
    decide_eq_true_eq, decide_eq_true_eq, Nat.div_lt_iff_lt_mul unitsPerOne_pos]
  simp only [Nat.pow_eq]

/-- **A double that is written as a whole number is cast to exactly its value**, away from the ends of
what the cast can reach. -/
theorem toInt_castInt64 (h : Shape.of x = .finite negative rank) (hsmall : isSmallWhole rank = true) :
    (castInt64 x).toInt = (signOf negative).apply (units rank / unitsPerOne : Nat) := by
  rw [isSmallWhole, Bool.and_eq_true, decide_eq_true_eq, decide_eq_true_eq, Nat.pow_eq] at hsmall
  obtain ⟨-, hsmall⟩ := hsmall
  show (Int64.ofIntClamp (x.toModel.unpack.toInt _ _)).toInt = _
  rw [unpack_of_shape h, toInt_unpacked]
  generalize units rank / unitsPerOne = n at hsmall ⊢
  have hlow : -2 ^ 63 ≤ (signOf negative).apply n := by
    cases negative
    · show (-2 ^ 63 : Int) ≤ n
      omega
    · show (-2 ^ 63 : Int) ≤ -n
      omega
  have hhigh : (signOf negative).apply n < 2 ^ 63 := by
    cases negative
    · show (n : Int) < 2 ^ 63
      omega
    · show (-n : Int) < 2 ^ 63
      omega
  have hclamp : Int64.ofIntLE ((signOf negative).apply n) hlow (Int.le_of_lt_add_one hhigh) =
      Int64.ofIntClamp ((signOf negative).apply n) := Int64.ofIntLE_eq_ofIntClamp
  rw [← hclamp]
  exact Int64.toInt_ofInt_of_le hlow hhigh

/-- Without a fraction, the whole part is all of the value. -/
theorem mul_unitsPerOne_of_isSmallWhole (hsmall : isSmallWhole rank = true) :
    units rank / unitsPerOne * unitsPerOne = units rank := by
  rw [isSmallWhole, Bool.and_eq_true, decide_eq_true_eq] at hsmall
  exact Nat.div_mul_cancel (Nat.dvd_of_mod_eq_zero hsmall.1)

theorem apply_mul (s : Sign) (a b : Int) : s.apply a * b = s.apply (a * b) := by
  cases s with
  | negative => exact Int.neg_mul a b
  | positive => rfl

/-- **The number that such a double is cast to has all of its value.** -/
theorem castInt64_mul_unitsPerOne (h : Shape.of x = .finite negative rank)
    (hsmall : isSmallWhole rank = true) : (castInt64 x).toInt * unitsPerOne = signedUnits x := by
  have hunits : ((units rank / unitsPerOne : Nat) : Int) * unitsPerOne = units rank := by
    rw [← Int.natCast_mul, mul_unitsPerOne_of_isSmallWhole hsmall]
  rw [toInt_castInt64 h hsmall, apply_mul, hunits, signedUnits, h]

/-- **A double that is written as a whole number is written as the number that it is cast to.** -/
theorem numberText_of_isSmallWhole (h : Shape.of x = .finite negative rank)
    (hsmall : isSmallWhole rank = true) : numberText x = toString (castInt64 x) := by
  have hrepr : toString (castInt64 x) =
      ((signOf negative).apply (units rank / unitsPerOne : Nat)).repr :=
    congrArg Int.repr (toInt_castInt64 h hsmall)
  have hzero : units rank / unitsPerOne = 0 ↔ rank = 0 := by
    constructor
    · intro hn
      have hunits := mul_unitsPerOne_of_isSmallWhole hsmall
      rw [hn, Nat.zero_mul] at hunits
      exact units_eq_zero_iff.mp hunits.symm
    · rintro rfl
      rw [units_zero, Nat.zero_div]
  rw [hrepr, numberText, h, Shape.text, magnitudeText, if_pos hsmall]
  generalize units rank / unitsPerOne = n at hzero ⊢
  cases negative with
  | false => rfl
  | true =>
    cases n with
    | zero => rw [hzero.mp rfl]; rfl
    | succ n =>
      have hne : rank ≠ 0 := fun hrank => absurd (hzero.mpr hrank) (Nat.succ_ne_zero n)
      rw [Bool.true_and, bne_iff_ne.mpr hne, if_pos rfl, String.ofList_append]
      rfl

end Binary64

end PostfixSheet
