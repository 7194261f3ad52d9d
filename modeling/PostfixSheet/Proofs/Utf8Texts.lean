import Mathlib.Data.List.DropRight
import PostfixSheet.Text.Blank
import PostfixSheet.Text.Utf8

/-!
# Texts as bytes

The bytes of a text are read back as the text, since the first byte of a character says how many there
are and the payload bits make up its number. A character is a single byte below `0x80`, or has bytes
from `0x80` on only, so that what is done to single bytes below `0x80` is done to whole characters.

* `IsText` says of bytes that they are those of a text.

Results:
* `announced_encodeChar`: the character that the bytes of a character announce is that character.
* `decode_encode`: the bytes of a text are read back, and `decode_eq_ok_iff`: no others are.
* `encodeChar_cases`: a character is one low byte, or high bytes only.
* `strip_encode`: taking the blank bytes off both ends takes whole characters off, and
  `isText_strip_iff`: bytes that are no text do not become one.
* `Text.strip_strip`: taking off some of the blanks first makes no difference.
-/

namespace PostfixSheet

namespace Utf8

/-! ## Reading back -/

theorem toNat_lt (c : Char) : c.toNat < 0x110000 := by
  rcases c.valid with h | ⟨-, h⟩
  · have : c.toNat < 0xD800 := h
    omega
  · exact h

/-- **The bytes of a character announce it**, whatever comes behind them. -/
theorem announced_encodeChar (c : Char) (rest : List UInt8) :
    announced (String.utf8EncodeChar c ++ rest) = c := by
  have hc := toNat_lt c
  have hval : c.val.toNat = c.toNat := rfl
  have hcode : ∀ n, n = c.toNat → Char.ofNat n = c := by
    rintro _ rfl
    exact Char.ofNat_toNat c
  have hbyte : ∀ n, n < 256 → (UInt8.ofNat n).toNat = n := fun n hn => UInt8.toNat_ofNat_of_lt' hn
  unfold String.utf8EncodeChar
  simp only [hval]
  split_ifs with h₁ h₂ h₃
  · simp only [List.cons_append, announced]
    rw [hbyte _ (by omega), if_pos (by omega)]
    exact hcode _ rfl
  · simp only [List.cons_append, announced, List.nil_append, List.getD_cons_zero]
    rw [hbyte _ (by omega), hbyte _ (by omega), if_neg (by omega), if_pos (by omega)]
    exact hcode _ (by omega)
  · simp only [List.cons_append, announced, List.nil_append, List.getD_cons_zero,
      List.getD_cons_succ]
    rw [hbyte _ (by omega), hbyte _ (by omega), hbyte _ (by omega), if_neg (by omega),
      if_neg (by omega), if_pos (by omega)]
    exact hcode _ (by omega)
  · simp only [List.cons_append, announced, List.nil_append, List.getD_cons_zero,
      List.getD_cons_succ]
    rw [hbyte _ (by omega), hbyte _ (by omega), hbyte _ (by omega), hbyte _ (by omega),
      if_neg (by omega), if_neg (by omega), if_neg (by omega)]
    exact hcode _ (by omega)

theorem first?_encodeChar (c : Char) (rest : List UInt8) :
    first? (String.utf8EncodeChar c ++ rest) = some c := by
  simp only [first?, announced_encodeChar, List.isPrefixOf_iff_prefix, List.prefix_append, if_true]

theorem decodeFrom_skip (pos : Nat) (text : List Char) (bytes rest : List UInt8) :
    decodeFrom pos bytes.length text (bytes ++ rest) =
      decodeFrom (pos + bytes.length) 0 text rest := by
  induction bytes generalizing pos with
  | nil => rfl
  | cons b bytes ih =>
    rw [List.length_cons, List.cons_append, decodeFrom, ih (pos + 1), Nat.add_right_comm]
    rfl

theorem decodeFrom_encodeChar (pos : Nat) (text : List Char) (c : Char) (rest : List UInt8) :
    decodeFrom pos 0 text (String.utf8EncodeChar c ++ rest) =
      decodeFrom (pos + c.utf8Size) 0 (c :: text) rest := by
  obtain ⟨b, bytes, hb⟩ := List.exists_cons_of_ne_nil (String.utf8EncodeChar_ne_nil (c := c))
  have hfirst := first?_encodeChar c rest
  have hsize := String.length_utf8EncodeChar c
  rw [hb, List.cons_append] at hfirst
  rw [hb, List.length_cons] at hsize
  have hskip : c.utf8Size - 1 = bytes.length := by omega
  have hpos : pos + c.utf8Size = pos + 1 + bytes.length := by omega
  rw [hb, List.cons_append, decodeFrom, hfirst, hpos]
  simp only [hskip]
  exact decodeFrom_skip (pos + 1) (c :: text) bytes rest

theorem decodeFrom_encode (pos : Nat) (before text : List Char) :
    decodeFrom pos 0 before (encode text) = .ok (before.reverse ++ text) := by
  induction text generalizing pos before with
  | nil => simp [encode, decodeFrom]
  | cons c text ih =>
    rw [encode, List.flatMap_cons, decodeFrom_encodeChar]
    exact (ih _ _).trans (by rw [List.reverse_cons, List.append_assoc, List.singleton_append])

/-- **The bytes of a text are read back as the text.** -/
theorem decode_encode (text : List Char) : decode (encode text) = .ok text :=
  decodeFrom_encode 0 [] text

theorem encode_injective {s t : List Char} (h : encode s = encode t) : s = t := by
  have hdecode : decode (encode s) = decode (encode t) := congrArg decode h
  rw [decode_encode, decode_encode] at hdecode
  exact Except.ok.inj hdecode

theorem encode_nil : encode [] = [] := rfl

theorem encode_cons (c : Char) (text : List Char) :
    encode (c :: text) = String.utf8EncodeChar c ++ encode text :=
  List.flatMap_cons

/-- What is read behind a text that was read before is encoded by the bytes. -/
theorem exists_of_decodeFrom {pos : Nat} {before text : List Char} {bytes : List UInt8}
    (h : decodeFrom pos 0 before bytes = .ok text) :
    ∃ behind, text = before.reverse ++ behind ∧ encode behind = bytes := by
  match bytes with
  | [] =>
    cases h
    exact ⟨[], (List.append_nil _).symm, rfl⟩
  | b :: rest =>
    cases hfirst : first? (b :: rest) with
    | none =>
      rw [decodeFrom, hfirst] at h
      cases h
    | some c =>
      obtain ⟨rest', hrest⟩ := List.isPrefixOf_iff_prefix.mp (first?_eq_some hfirst)
      have hlt : rest'.length < rest.length + 1 := by
        have := List.length_pos_of_ne_nil (String.utf8EncodeChar_ne_nil (c := c))
        rw [← List.length_cons, ← hrest, List.length_append]
        omega
      rw [← hrest, decodeFrom_encodeChar] at h
      obtain ⟨behind, rfl, hbehind⟩ := exists_of_decodeFrom h
      exact ⟨c :: behind, by simp, by rw [encode_cons, hbehind, hrest]⟩
termination_by bytes.length

/-- **Bytes are read as a text exactly if they are its bytes.** -/
theorem decode_eq_ok_iff {bytes : List UInt8} {text : List Char} :
    decode bytes = .ok text ↔ encode text = bytes := by
  constructor
  · intro h
    obtain ⟨behind, rfl, hbytes⟩ := exists_of_decodeFrom h
    exact hbytes
  · rintro rfl
    exact decode_encode text

/-! ## Low and high bytes -/

/-- **A character is one low byte, or high bytes only.** -/
theorem encodeChar_cases (c : Char) :
    (∃ b : UInt8, b.toNat < 0x80 ∧ c = Char.ofNat b.toNat ∧ String.utf8EncodeChar c = [b]) ∨
      ∀ b ∈ String.utf8EncodeChar c, 0x80 ≤ b.toNat := by
  have hc := toNat_lt c
  have hval : c.val.toNat = c.toNat := rfl
  have hbyte : ∀ n, n < 256 → (UInt8.ofNat n).toNat = n := fun n hn => UInt8.toNat_ofNat_of_lt' hn
  unfold String.utf8EncodeChar
  simp only [hval]
  split_ifs with h₁ h₂ h₃
  · refine Or.inl ⟨UInt8.ofNat c.toNat, ?_, ?_, rfl⟩ <;> rw [hbyte _ (by omega)]
    · omega
    · exact (Char.ofNat_toNat c).symm
  all_goals
    refine Or.inr fun b hb => ?_
    simp only [List.mem_cons, List.not_mem_nil, or_false] at hb
  · rcases hb with rfl | rfl <;> rw [hbyte _ (by omega)] <;> omega
  · rcases hb with rfl | rfl | rfl <;> rw [hbyte _ (by omega)] <;> omega
  · rcases hb with rfl | rfl | rfl | rfl <;> rw [hbyte _ (by omega)] <;> omega

/-- An ASCII character is one low byte. -/
theorem encodeChar_of_lt {c : Char} (h : c.toNat < 0x80) :
    ∃ b : UInt8, b.toNat < 0x80 ∧ String.utf8EncodeChar c = [b] := by
  have hval : c.val.toNat = c.toNat := rfl
  refine ⟨UInt8.ofNat c.toNat, ?_, ?_⟩
  · rw [UInt8.toNat_ofNat_of_lt' (Nat.lt_trans h (by decide))]
    exact h
  · unfold String.utf8EncodeChar
    simp only [hval]
    rw [if_pos (by omega)]

/-- Bytes that are those of a text. -/
def IsText (bytes : List UInt8) : Prop := ∃ text, encode text = bytes

theorem isText_nil : IsText [] := ⟨[], rfl⟩

theorem IsText.encodeChar_append {bytes : List UInt8} (c : Char) (h : IsText bytes) :
    IsText (String.utf8EncodeChar c ++ bytes) := by
  obtain ⟨text, rfl⟩ := h
  exact ⟨c :: text, encode_cons c text⟩

theorem IsText.append {first second : List UInt8} (hfirst : IsText first)
    (hsecond : IsText second) : IsText (first ++ second) := by
  obtain ⟨s, rfl⟩ := hfirst
  obtain ⟨t, rfl⟩ := hsecond
  exact ⟨s ++ t, encode_append s t⟩

end Utf8

/-! ## Blanks at the ends -/

namespace Text

variable {α β : Type} {p q : α → Bool}

/-- What is taken off passes the test. -/
theorem exists_strip (p : α → Bool) (l : List α) :
    ∃ x y, l = x ++ strip p l ++ y ∧ (∀ a ∈ x, p a = true) ∧ ∀ a ∈ y, p a = true := by
  refine ⟨l.takeWhile p, (l.dropWhile p).rtakeWhile p, ?_, fun a ha => ?_, fun a ha => ?_⟩
  · have hright : strip p l ++ (l.dropWhile p).rtakeWhile p = l.dropWhile p := by
      rw [strip, List.rtakeWhile, ← List.reverse_append, List.takeWhile_append_dropWhile,
        List.reverse_reverse]
    rw [List.append_assoc, hright, List.takeWhile_append_dropWhile]
  · exact List.mem_takeWhile_imp ha
  · exact List.mem_takeWhile_imp (List.mem_reverse.mp ha)

/-- What passes the test at the ends makes no difference. -/
theorem strip_append_append {x m y : List α} (hx : ∀ a ∈ x, p a = true)
    (hy : ∀ a ∈ y, p a = true) : strip p (x ++ m ++ y) = strip p m := by
  have hy' : y.dropWhile p = [] := List.dropWhile_eq_nil_iff.mpr hy
  rw [strip, List.append_assoc, List.dropWhile_append_of_pos hx, List.dropWhile_append, hy']
  split
  · rename_i h
    rw [strip, List.isEmpty_iff.mp h]
  · rw [strip, List.reverse_append,
      List.dropWhile_append_of_pos fun a ha => hy a (List.mem_reverse.mp ha)]

/-- **Taking off some first makes no difference.** -/
theorem strip_strip (hpq : ∀ a, p a = true → q a = true) (l : List α) :
    strip q (strip p l) = strip q l := by
  obtain ⟨x, y, hl, hx, hy⟩ := exists_strip p l
  conv => rhs; rw [hl]
  exact (strip_append_append (fun a ha => hpq a (hx a ha)) fun a ha => hpq a (hy a ha)).symm

/-- A list whose ends fail the test stays as it is. -/
theorem strip_eq_self {l : List α} (h : ∀ a ∈ l, p a = false) : strip p l = l := by
  have hdrop : ∀ l : List α, (∀ a ∈ l, p a = false) → l.dropWhile p = l := by
    intro l hl
    cases l with
    | nil => rfl
    | cons a l => rw [List.dropWhile_cons_of_neg (by simp [hl a List.mem_cons_self])]
  rw [strip, hdrop l h, hdrop l.reverse fun a ha => h a (List.mem_reverse.mp ha),
    List.reverse_reverse]

/-- Where a test treats all parts of an element alike, it drops whole elements. -/
theorem dropWhile_flatMap {f : β → List α} {r : β → Bool} (hne : ∀ b, f b ≠ [])
    (h : ∀ b, ∀ a ∈ f b, p a = r b) (l : List β) :
    (l.flatMap f).dropWhile p = (l.dropWhile r).flatMap f := by
  induction l with
  | nil => rfl
  | cons b l ih =>
    rw [List.flatMap_cons]
    cases hb : r b with
    | true =>
      rw [List.dropWhile_append_of_pos fun a ha => (h b a ha).trans hb, ih,
        List.dropWhile_cons_of_pos hb]
    | false =>
      obtain ⟨a, part, ha⟩ := List.exists_cons_of_ne_nil (hne b)
      have hpa : p a = false := (h b a (ha ▸ List.mem_cons_self)).trans hb
      rw [ha, List.cons_append, List.dropWhile_cons_of_neg (by simp [hpa]),
        List.dropWhile_cons_of_neg (by simp [hb]), List.flatMap_cons, ha, List.cons_append]

theorem strip_flatMap {f : β → List α} {r : β → Bool} (hne : ∀ b, f b ≠ [])
    (h : ∀ b, ∀ a ∈ f b, p a = r b) (l : List β) :
    strip p (l.flatMap f) = (strip r l).flatMap f := by
  have hreverse : ∀ l : List β,
      (l.flatMap f).reverse = l.reverse.flatMap fun b => (f b).reverse := fun l => by
    rw [List.reverse_flatMap]
    rfl
  rw [strip, dropWhile_flatMap hne h, hreverse,
    dropWhile_flatMap (r := r) (fun b => by simpa using hne b)
      (fun b a ha => h b a (List.mem_reverse.mp ha)),
    strip, List.reverse_flatMap]
  simp [Function.comp_def]

end Text

namespace Utf8

/-- Whether a character is a blank of ASCII text. -/
def isBlankAscii (c : Char) : Bool := (String.utf8EncodeChar c).all Text.isBlankByte

theorem isBlankByte_eq_false {b : UInt8} (h : 0x80 ≤ b.toNat) : Text.isBlankByte b = false := by
  have hne : ∀ n : UInt8, n.toNat < 0x80 → (b == n) = false := by
    rintro n hn
    rw [beq_eq_false_iff_ne]
    rintro rfl
    omega
  simp [Text.isBlankByte, hne]

theorem isBlankByte_of_mem_encodeChar {c : Char} {b : UInt8} (hb : b ∈ String.utf8EncodeChar c) :
    Text.isBlankByte b = isBlankAscii c := by
  rcases encodeChar_cases c with ⟨d, -, -, hd⟩ | hhigh
  · rw [hd, List.mem_singleton] at hb
    rw [hb, isBlankAscii, hd, List.all_cons, List.all_nil, Bool.and_true]
  · rw [isBlankByte_eq_false (hhigh b hb), eq_comm, isBlankAscii, List.all_eq_false]
    exact ⟨b, hb, by simp [isBlankByte_eq_false (hhigh b hb)]⟩

theorem isBlank_of_isBlankAscii {c : Char} (h : isBlankAscii c = true) :
    Text.isBlank c = true := by
  rcases encodeChar_cases c with ⟨b, -, hc, hb⟩ | hhigh
  · rw [isBlankAscii, hb, List.all_cons, List.all_nil, Bool.and_true] at h
    rw [hc]
    exact Text.isBlank_of_isBlankByte h
  · obtain ⟨b, bytes, hb⟩ := List.exists_cons_of_ne_nil (String.utf8EncodeChar_ne_nil (c := c))
    have hmem : b ∈ String.utf8EncodeChar c := hb ▸ List.mem_cons_self
    rw [← isBlankByte_of_mem_encodeChar hmem, isBlankByte_eq_false (hhigh b hmem)] at h
    cases h

/-- **Taking the blank bytes off both ends takes whole characters off.** -/
theorem strip_encode (text : List Char) :
    Text.strip Text.isBlankByte (encode text) = encode (Text.strip isBlankAscii text) :=
  Text.strip_flatMap (fun _ => String.utf8EncodeChar_ne_nil)
    (fun _ _ hb => isBlankByte_of_mem_encodeChar hb) text

/-- Blank bytes are a text. -/
theorem isText_of_blanks {bytes : List UInt8} (h : ∀ b ∈ bytes, Text.isBlankByte b = true) :
    IsText bytes := by
  induction bytes with
  | nil => exact isText_nil
  | cons b bytes ih =>
    obtain ⟨hb, hbytes⟩ := List.forall_mem_cons.mp h
    have hchar : String.utf8EncodeChar (Char.ofNat b.toNat) = [b] := by
      simp only [Text.isBlankByte, Bool.or_eq_true, beq_iff_eq] at hb
      rcases hb with (((rfl | rfl) | rfl) | rfl) | rfl <;> rfl
    have hcons := (ih hbytes).encodeChar_append (Char.ofNat b.toNat)
    rwa [hchar] at hcons

/-- **Bytes are a text exactly if they are one without the blank bytes at both ends.** -/
theorem isText_strip_iff {bytes : List UInt8} :
    IsText (Text.strip Text.isBlankByte bytes) ↔ IsText bytes := by
  constructor
  · intro h
    obtain ⟨front, back, hbytes, hfront, hback⟩ := Text.exists_strip Text.isBlankByte bytes
    rw [hbytes]
    exact ((isText_of_blanks hfront).append h).append (isText_of_blanks hback)
  · rintro ⟨text, rfl⟩
    exact ⟨_, (strip_encode text).symm⟩

end Utf8

end PostfixSheet
