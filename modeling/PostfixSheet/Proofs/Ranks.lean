import Mathlib.Algebra.Group.Nat.Defs
import Mathlib.Tactic.ByContra
import PostfixSheet.Number.Binary64

/-!
# Doubles by their ranks

A double that is finite is its sign and its rank, and every sign and rank below that of infinity is a
double. A fraction that has exactly the value of a double is nearest to it, so whatever decimal number
is written for a double is read as that double again: the digits of a whole number, the shortest number
that was found by trying, and the exact value where none was found.

Results:
* `pack_unpack`: taking the bits of a double apart and putting them together again changes nothing,
  unless it is infinite or not a number.
* `shape_ofRank`: the double with a sign and a rank has that sign and rank.
* `exists_shape_of_isFinite`: a finite double has a sign and a rank.
* `beq_zero_iff`: the doubles that compare equal to zero are the two zeros.
* `nearestRank_of_units`: a fraction that has the value of a rank is nearest to it.
* `rank_shortest`: the shortest decimal number of a rank reads back as the rank.
-/

namespace PostfixSheet

namespace Binary64

open Float.Model Float.Model.UnpackedFloat

/-! ## The fields of a double -/

section Fields

variable (b : BitVec Format.binary64.numBits)

theorem toBitVec_ofBitVec (sign : BitVec 1) : (Sign.ofBitVec sign).toBitVec = sign := by
  revert sign
  decide

theorem extractLsb'_fields (b : BitVec 64) :
    b.extractLsb' 63 1 ++ b.extractLsb' 52 11 ++ b.extractLsb' 0 52 = b := by
  have hhigh : b.extractLsb' 63 1 ++ b.extractLsb' 52 11 = b.extractLsb' 52 12 :=
    BitVec.extractLsb'_append_extractLsb'_eq_extractLsb' rfl
  have hall : b.extractLsb' 52 12 ++ b.extractLsb' 0 52 = b.extractLsb' 0 64 :=
    BitVec.extractLsb'_append_extractLsb'_eq_extractLsb' rfl
  rw [hhigh, hall, BitVec.extractLsb'_eq_self]

/-- The three fields of a double are all of it. -/
theorem packComponents_unpack :
    packComponents Format.binary64 (Sign.ofBitVec (unpackSign b)) (unpackExponent b)
      (unpackMantissa b) = b := by
  rw [packComponents, toBitVec_ofBitVec]
  exact extractLsb'_fields b

theorem toNat_unpackExponent : (unpackExponent b).toNat = b.toNat / 2 ^ 52 % 2 ^ 11 := by
  show (BitVec.extractLsb' 52 11 b).toNat = b.toNat / 2 ^ 52 % 2 ^ 11
  rw [BitVec.extractLsb'_toNat, Nat.shiftRight_eq_div_pow]

/-- Below the lowest normal double the exponent field is zero. -/
theorem pack_subnormal (s : Sign) {m : BitVec 52} (hm : 0 < m.toNat) :
    UnpackedFloat.pack Format.binary64 (.finite s m.toNat (-1074) hm) =
      packComponents Format.binary64 s 0#11 m := by
  have hlog : m.toNat.log2 < 52 := (Nat.log2_lt (by omega)).mpr m.isLt
  have hne : m.toNat.log2 + 1 ≠ Format.binary64.mantissaBits := by
    rw [show Format.binary64.mantissaBits = 53 from rfl]
    omega
  delta UnpackedFloat.pack
  dsimp only
  rw [if_neg (by decide), if_neg hne, BitVec.ofNat_toNat, BitVec.setWidth_eq]

/-- A fraction behind a leading bit. -/
theorem toNat_leadingOne (m : BitVec 52) : (1#1 ++ m).toNat = 2 ^ 52 + m.toNat := by
  rw [BitVec.toNat_append, ← Nat.shiftLeft_add_eq_or_of_lt m.isLt]
  rfl

/-- From the lowest normal double on the leading bit of the significand is left out. -/
theorem pack_normal (s : Sign) {e : BitVec 11} {m : BitVec 52} (he : 0 < e.toNat)
    (he' : e.toNat < 2047) (hm : 0 < (1#1 ++ m).toNat) :
    UnpackedFloat.pack Format.binary64 (.finite s (1#1 ++ m).toNat (e.toNat - 1075) hm) =
      packComponents Format.binary64 s e m := by
  have hlt : m.toNat < 2 ^ 52 := m.isLt
  have hvalue : (1#1 ++ m).toNat = 2 ^ 52 + m.toNat := toNat_leadingOne m
  have hlog : (1#1 ++ m).toNat.log2 = 52 := by
    rw [hvalue, Nat.log2_eq_iff (by omega)]
    omega
  have hbits : (1#1 ++ m).toNat.log2 + 1 = Format.binary64.mantissaBits := by
    rw [hlog]
    rfl
  have hfraction : BitVec.ofNat 52 (1#1 ++ m).toNat = m := by
    rw [hvalue, BitVec.ofNat_add, BitVec.ofNat_toNat, BitVec.setWidth_eq]
    exact BitVec.zero_add m
  have hexponent : ((e.toNat : Int) - 1075 + Format.binary64.exponentBias + (52 : Nat)).toNat =
      e.toNat := by
    rw [show (Format.binary64.exponentBias : Int) = 1023 from rfl]
    omega
  delta UnpackedFloat.pack
  dsimp only
  rw [hexponent, if_neg (show ¬ 2 ^ 11 ≤ e.toNat + 1 by omega), if_pos hbits, hfraction,
    BitVec.ofNat_toNat, BitVec.setWidth_eq]

/-- **The bits of a finite double are those of its sign, significand and exponent.** -/
theorem pack_unpack (h : unpackExponent b ≠ -1#11) :
    UnpackedFloat.pack Format.binary64 (UnpackedFloat.unpack Format.binary64 b) = b := by
  refine Eq.trans ?_ (packComponents_unpack b)
  delta UnpackedFloat.unpack
  dsimp only
  rw [if_neg h]
  by_cases hzero : unpackExponent b = 0#11
  · rw [if_pos hzero]
    by_cases hm : unpackMantissa b = 0#52
    · rw [dif_pos hm, hzero, hm]
      rfl
    · rw [dif_neg hm, hzero]
      exact pack_subnormal _ _
  · rw [if_neg hzero]
    have hlt : (unpackExponent b).toNat < 2048 := (unpackExponent b).isLt
    have hne : (unpackExponent b).toNat ≠ 2047 := fun hall => h (BitVec.eq_of_toNat_eq hall)
    have hpos : (unpackExponent b).toNat ≠ 0 := fun hnone => hzero (BitVec.eq_of_toNat_eq hnone)
    exact pack_normal _ (by omega) (by omega) _

/-- The exponent field is full exactly from infinity on. -/
theorem unpackExponent_eq_iff : unpackExponent b = -1#11 ↔ infiniteRank ≤ b.toNat % signBit := by
  have hexponent := toNat_unpackExponent b
  have hvalue : infiniteRank = 2047 * 2 ^ 52 ∧ signBit = 2048 * 2 ^ 52 := ⟨rfl, rfl⟩
  rw [← BitVec.toNat_inj, hexponent, show (-1#11).toNat = 2047 from rfl, hvalue.1, hvalue.2]
  omega

end Fields

/-! ## Doubles and ranks -/

theorem toBits_ofBits {bits : UInt64} (h : bits.toNat % signBit < infiniteRank) :
    (Float.ofBits bits).toBits = bits := by
  have hexponent : @unpackExponent Format.binary64 bits.toBitVec ≠ -1#11 := by
    rw [Ne, unpackExponent_eq_iff]
    exact Nat.not_le.mpr h
  exact congrArg UInt64.ofBitVec (pack_unpack bits.toBitVec hexponent)

/-- **The double with a sign and a rank has that sign and rank.** -/
theorem shape_ofRank {negative : Bool} {rank : Nat} (h : rank < infiniteRank) :
    Shape.of (ofRank negative rank) = .finite negative rank := by
  have hvalue : infiniteRank = 2047 * 2 ^ 52 ∧ signBit = 2048 * 2 ^ 52 := ⟨rfl, rfl⟩
  obtain ⟨hinfinite, hsign⟩ := hvalue
  have hbits : (UInt64.ofNat (if negative then signBit + rank else rank)).toNat =
      if negative then signBit + rank else rank := by
    rw [UInt64.toNat_ofNat']
    apply Nat.mod_eq_of_lt
    split <;> omega
  have hrank : (UInt64.ofNat (if negative then signBit + rank else rank)).toNat % signBit = rank := by
    rw [hbits, hsign]
    split <;> omega
  have hnegative : decide (signBit ≤ if negative then signBit + rank else rank) = negative := by
    cases negative with
    | true => exact decide_eq_true (Nat.le_add_right _ _)
    | false => exact decide_eq_false (show ¬ signBit ≤ rank by omega)
  rw [ofRank, Shape.of, toBits_ofBits (by rw [hrank]; exact h), hrank,
    if_pos h, hbits, hnegative]

/-- A finite double has a sign and a rank. -/
theorem exists_shape_of_isFinite {x : Float} (h : x.isFinite = true) :
    ∃ negative rank, Shape.of x = .finite negative rank := by
  have hexponent : @unpackExponent Format.binary64 x.toBits.toBitVec ≠ -1#11 := by
    intro hfull
    have hunpack : (UnpackedFloat.unpack Format.binary64 x.toBits.toBitVec).isFinite = true := h
    delta UnpackedFloat.unpack at hunpack
    dsimp only at hunpack
    rw [if_pos hfull] at hunpack
    split at hunpack <;> cases hunpack
  rw [Ne, unpackExponent_eq_iff, Nat.not_le] at hexponent
  exact ⟨_, _, by rw [Shape.of]; exact if_pos hexponent⟩

/-! ## Zeros -/

theorem toBits_injective {x y : Float} (h : x.toBits = y.toBits) : x = y := by
  obtain ⟨⟨bits, hx⟩⟩ := x
  obtain ⟨⟨bits', hy⟩⟩ := y
  have hbits : bits = bits' := h
  subst hbits
  rfl

/-- Nothing but a zero is taken apart as one. -/
theorem exists_packedZero_of_unpack {b : BitVec Format.binary64.numBits} {s : Sign}
    (h : UnpackedFloat.unpack Format.binary64 b = .zero s) :
    ∃ s', b = packedZero Format.binary64 s' := by
  refine ⟨Sign.ofBitVec (unpackSign b), ?_⟩
  delta UnpackedFloat.unpack at h
  dsimp only at h
  have hfull : unpackExponent b ≠ -1#11 := by
    intro hfull
    rw [if_pos hfull] at h
    split at h <;> cases h
  rw [if_neg hfull] at h
  by_cases hzero : unpackExponent b = 0#11
  · rw [if_pos hzero] at h
    by_cases hm : unpackMantissa b = 0#52
    · exact (packComponents_unpack b).symm.trans (by rw [hzero, hm]; rfl)
    · rw [dif_neg hm] at h
      cases h
  · rw [if_neg hzero] at h
    cases h

/-- **A double compares equal to zero exactly if it is a zero of either sign.** -/
theorem beq_zero_iff {x : Float} : (x == 0.0) = true ↔ x = 0.0 ∨ x = -0.0 := by
  constructor
  · intro h
    have hcompare : (UnpackedFloat.unpack Format.binary64 x.toBits.toBitVec).compare
        (.zero .positive) = some .eq := beq_iff_eq.mp h
    have hzero : ∃ s, UnpackedFloat.unpack Format.binary64 x.toBits.toBitVec = .zero s := by
      generalize UnpackedFloat.unpack Format.binary64 x.toBits.toBitVec = u at hcompare ⊢
      cases u with
      | zero s => exact ⟨s, rfl⟩
      | infinity s => cases s <;> cases hcompare
      | notANumber => cases hcompare
      | finite s m e hm => cases s <;> cases hcompare
    obtain ⟨s, hs⟩ := hzero
    obtain ⟨sign, hsign⟩ := exists_packedZero_of_unpack hs
    cases sign with
    | positive => exact Or.inl (toBits_injective (congrArg UInt64.ofBitVec hsign))
    | negative => exact Or.inr (toBits_injective (congrArg UInt64.ofBitVec hsign))
  · rintro (rfl | rfl) <;> decide

/-! ## The nearest double -/

variable {rank : Nat}

theorem binade_pos : 0 < binade := Nat.two_pow_pos 52

theorem unitsPerOne_eq : unitsPerOne = 2 ^ 1074 := rfl

theorem unitsPerOne_pos : 0 < unitsPerOne := unitsPerOne_eq ▸ Nat.two_pow_pos _

/-- A rank is its significand and its scale. -/
theorem scale_mul_add_significand (rank : Nat) : scale rank * binade + significand rank = rank := by
  unfold scale significand
  split
  case isTrue h => rw [Nat.div_eq_of_lt h, Nat.zero_sub, Nat.zero_mul, Nat.zero_add]
  case isFalse h =>
    obtain ⟨n, hn⟩ : ∃ n, rank / binade = n + 1 :=
      Nat.exists_eq_add_one.mpr (Nat.div_pos (Nat.not_lt.mp h) binade_pos)
    have hdiv := Nat.div_add_mod rank binade
    rw [hn, Nat.mul_succ] at hdiv
    rw [hn, Nat.add_sub_cancel, Nat.mul_comm]
    omega

theorem log2_mul_two_pow {m : Nat} (hlow : binade ≤ m) (hhigh : m < binade + binade) (shift : Nat) :
    (m * 2 ^ shift).log2 = 52 + shift := by
  have hne : m * 2 ^ shift ≠ 0 := by
    have := Nat.mul_pos (Nat.lt_of_lt_of_le binade_pos hlow) (Nat.two_pow_pos shift)
    omega
  have hbinade : binade + binade = 2 ^ 53 := rfl
  rw [Nat.log2_eq_iff hne, show 52 + shift + 1 = 53 + shift by omega, Nat.pow_add, Nat.pow_add]
  exact ⟨Nat.mul_le_mul_right _ hlow,
    Nat.mul_lt_mul_of_pos_right (hbinade ▸ hhigh) (Nat.two_pow_pos shift)⟩

/-- The binary digits of the units tell the scale of a rank. -/
theorem log2_units (rank : Nat) : (units rank).log2 - 52 = scale rank := by
  unfold units
  by_cases h : rank < binade
  · have hscale : scale rank = 0 := by rw [scale, Nat.div_eq_of_lt h]
    have hsignificand : significand rank = rank := if_pos h
    rw [hscale, hsignificand, Nat.pow_eq, Nat.pow_zero, Nat.mul_one]
    by_cases hzero : rank = 0
    · rw [hzero, Nat.log2_zero]
    · have := (Nat.log2_lt hzero).mpr h
      omega
  · have hsignificand : significand rank = binade + rank % binade := if_neg h
    have hmod : rank % binade < binade := Nat.mod_lt _ binade_pos
    have hlog := log2_mul_two_pow (m := significand rank) (by omega) (by omega) (scale rank)
    rw [Nat.pow_eq, hlog, Nat.add_sub_cancel_left]

/-- **A fraction that has the value of a rank is nearest to it.** -/
theorem nearestRank_of_units {num den : Nat} (hrank : rank < infiniteRank) (hden : 0 < den)
    (h : num * unitsPerOne = units rank * den) : nearestRank num den = rank := by
  have hquotient : divNearest (units rank * den) (den * Nat.pow 2 (scale rank)) =
      significand rank := by
    rw [units, Nat.mul_assoc, Nat.mul_comm (Nat.pow 2 _) den]
    exact divNearest_mul _ (Nat.mul_pos hden (Nat.two_pow_pos _))
  rw [nearestRank, h, Nat.mul_div_cancel _ hden, log2_units, hquotient, scale_mul_add_significand]
  exact Nat.min_eq_left (Nat.le_of_lt hrank)

theorem units_zero : units 0 = 0 := rfl

theorem units_eq_zero_iff : units rank = 0 ↔ rank = 0 := by
  refine ⟨fun h => ?_, fun h => h ▸ units_zero⟩
  have hsignificand : significand rank = 0 :=
    (Nat.mul_eq_zero.mp h).resolve_right (Nat.ne_of_gt (Nat.two_pow_pos _))
  have hscale : scale rank = 0 := by rw [← log2_units, h, Nat.log2_zero, Nat.zero_sub]
  have hsum := scale_mul_add_significand rank
  rw [hscale, hsignificand] at hsum
  omega

theorem two_mul_unitsPerOne_le : 2 * unitsPerOne ≤ 10 ^ 325 := by
  have htwo : 2 * unitsPerOne = (2 ^ 43) ^ 25 := by
    rw [unitsPerOne_eq, ← Nat.pow_succ', ← Nat.pow_mul]
  have hten : 10 ^ 325 = (10 ^ 13) ^ 25 := by rw [← Nat.pow_mul]
  rw [htwo, hten]
  exact Nat.pow_le_pow_left (by decide) 25

/-- A number that has the value of a double other than zero has few more places than binary digits. -/
theorem places_lt_of_units {c n : Nat} (h : c * unitsPerOne = units rank * 10 ^ n) (hzero : rank ≠ 0) :
    n < c.log2 + 325 := by
  by_contra hn
  have hunits : 0 < units rank := Nat.pos_of_ne_zero (mt units_eq_zero_iff.mp hzero)
  have hlt : c * unitsPerOne < 10 ^ n := by
    calc c * unitsPerOne < 2 ^ (c.log2 + 1) * unitsPerOne :=
          Nat.mul_lt_mul_of_pos_right Nat.lt_log2_self unitsPerOne_pos
      _ = 2 ^ c.log2 * (2 * unitsPerOne) := by rw [Nat.pow_succ, Nat.mul_assoc]
      _ ≤ 10 ^ c.log2 * 10 ^ 325 :=
          Nat.mul_le_mul (Nat.pow_le_pow_left (by decide) _) two_mul_unitsPerOne_le
      _ = 10 ^ (c.log2 + 325) := (Nat.pow_add _ _ _).symm
      _ ≤ 10 ^ n := Nat.pow_le_pow_right (by decide) (Nat.not_lt.mp hn)
  have hle : 10 ^ n ≤ units rank * 10 ^ n := Nat.le_mul_of_pos_left _ hunits
  omega

/-! ## Decimal numbers -/

theorem rank_ofNat (c zeros : Nat) : Decimal.rank ⟨c, .ofNat zeros⟩ =
    if c = 0 then 0 else if 309 ≤ zeros then infiniteRank
      else nearestRank (c * Nat.pow 10 zeros) 1 := rfl

theorem rank_negSucc (c n : Nat) : Decimal.rank ⟨c, .negSucc n⟩ =
    if c.log2 + 325 ≤ n then 0 else nearestRank c (Nat.pow 10 (n + 1)) := rfl

/-- **A decimal number that has the value of a rank reads back as the rank.** -/
theorem rank_of_units {c n : Nat} (hrank : rank < infiniteRank)
    (h : c * unitsPerOne = units rank * 10 ^ n) : Decimal.rank ⟨c, -(n : Int)⟩ = rank := by
  cases n with
  | zero =>
    rw [Nat.pow_zero] at h
    rw [show -((0 : Nat) : Int) = .ofNat 0 from rfl, rank_ofNat]
    split
    case isTrue hc =>
      rw [hc, Nat.zero_mul, Nat.mul_one] at h
      exact (units_eq_zero_iff.mp h.symm).symm
    case isFalse hc =>
      rw [if_neg (by decide)]
      exact nearestRank_of_units hrank Nat.one_pos (by rw [← h]; simp)
  | succ n =>
    rw [show -((n + 1 : Nat) : Int) = .negSucc n from rfl, rank_negSucc]
    split
    case isTrue hn =>
      by_contra hzero
      have := places_lt_of_units h (Ne.symm hzero)
      omega
    case isFalse hn => exact nearestRank_of_units hrank (Nat.pow_pos (by decide)) h

/-- A number without its needless places has as many places less as its coefficient lost zeros. -/
theorem exists_reduced (c places : Nat) :
    ∃ c' n k : Nat,
      Decimal.reduced c places = ⟨c', -(n : Int)⟩ ∧ n + k = places ∧ c = c' * 10 ^ k := by
  induction places generalizing c with
  | zero => exact ⟨c, 0, 0, rfl, rfl, (Nat.mul_one c).symm⟩
  | succ places ih =>
    rw [Decimal.reduced]
    split
    case isTrue hc =>
      obtain ⟨c', n, k, hreduced, hn, hc'⟩ := ih (c / 10)
      refine ⟨c', n, k + 1, hreduced, by omega, ?_⟩
      rw [Nat.pow_succ, ← Nat.mul_assoc, ← hc']
      omega
    case isFalse hc => exact ⟨c, places + 1, 0, rfl, rfl, (Nat.mul_one c).symm⟩

/-- The fraction `u / 2 ^ (n + k)` is `u * 5 ^ (n + k) / 10 ^ (n + k)`, and `c / 10 ^ n` when `k` zeros
are taken off at the end. -/
theorem mul_two_pow_of_reduced {c u n k : Nat} (h : u * 5 ^ (n + k) = c * 10 ^ k) :
    c * 2 ^ (n + k) = u * 10 ^ n := by
  have hpos : 0 < 10 ^ k * 5 ^ (n + k) :=
    Nat.mul_pos (Nat.pow_pos (by decide)) (Nat.pow_pos (by decide))
  refine Nat.eq_of_mul_eq_mul_right hpos ?_
  calc c * 2 ^ (n + k) * (10 ^ k * 5 ^ (n + k))
      = (c * 10 ^ k) * (2 ^ (n + k) * 5 ^ (n + k)) := by ac_rfl
    _ = u * 5 ^ (n + k) * (10 ^ n * 10 ^ k) := by rw [← h, ← Nat.mul_pow, Nat.pow_add 10]
    _ = u * 10 ^ n * (10 ^ k * 5 ^ (n + k)) := by ac_rfl

/-- The exact value of a rank reads back as the rank. -/
theorem rank_exact (hrank : rank < infiniteRank) : (exact rank).rank = rank := by
  obtain ⟨c, n, k, hreduced, hn, hc⟩ := exists_reduced (units rank * Nat.pow 5 1074) 1074
  rw [exact, hreduced]
  refine rank_of_units hrank ?_
  rw [Nat.pow_eq, ← hn] at hc
  rw [unitsPerOne_eq, ← hn]
  exact mul_two_pow_of_reduced hc

/-- **The shortest decimal number of a rank reads back as the rank**, from whatever exponent on it was
looked for. -/
theorem rank_shortestFrom (hrank : rank < infiniteRank) (grids : Nat) (exponent : Int) :
    (shortestFrom rank grids exponent).rank = rank := by
  induction grids generalizing exponent with
  | zero => exact rank_exact hrank
  | succ grids ih =>
    rw [shortestFrom]
    split
    case h_1 d hd =>
      have := List.find?_some hd
      exact beq_iff_eq.mp this
    case h_2 => exact ih (exponent - 1)

theorem rank_shortest (hrank : rank < infiniteRank) : (shortest rank).rank = rank :=
  rank_shortestFrom hrank 20 _

end Binary64

end PostfixSheet
