/-!
# UTF-8

Stands for `from_utf8` of the standard library, by which the library `csv` makes texts of the fields
of a record, and for the bytes of a text that is written.

A text is written as the UTF-8 encodings of its characters one after the other. Bytes are read back
character by character: the first byte says how many bytes the character has, the payload bits of
those bytes make up a code point, and the character is accepted when its own encoding is what
stands there. That turns down the overlong forms, the surrogates and the numbers past the last code
point without naming them.

Results:
* `first?_eq_some`: an accepted character's encoding stands at the front of the bytes.
* `encode_append`: the bytes of two texts in a row.
-/

namespace PostfixSheet

namespace Utf8

/-- The UTF-8 bytes of a text. -/
def encode (text : List Char) : List UInt8 := text.flatMap String.utf8EncodeChar

/-- The character that the bytes at the front announce; a missing byte counts as zero, and NUL
stands for a number that is no code point. -/
def announced : List UInt8 → Char
  | [] => Char.ofNat 0
  | lead :: rest =>
    let payload (i : Nat) : Nat := (rest.getD i 0).toNat % 64
    let n := lead.toNat
    Char.ofNat <|
      if n < 0x80 then n
      else if n < 0xE0 then n % 32 * 64 + payload 0
      else if n < 0xF0 then n % 16 * 4096 + payload 0 * 64 + payload 1
      else n % 8 * 262144 + payload 0 * 4096 + payload 1 * 64 + payload 2

/-- The character at the front of the bytes, if its encoding stands there. -/
def first? (bytes : List UInt8) : Option Char :=
  let c := announced bytes
  if (String.utf8EncodeChar c).isPrefixOf bytes then some c else none

/-- Reads bytes from position `pos` on, of which the next `skip` belong to the character read last;
`text` is what was read so far, last character first. -/
def decodeFrom : (pos skip : Nat) → (text : List Char) → List UInt8 → Except Nat (List Char)
  | _, _, text, [] => .ok text.reverse
  | pos, skip + 1, text, _ :: rest => decodeFrom (pos + 1) skip text rest
  | pos, 0, text, b :: rest =>
    match first? (b :: rest) with
    | some c => decodeFrom (pos + 1) (c.utf8Size - 1) (c :: text) rest
    | none => .error pos

/-- The text that the bytes encode, or else the length of their longest part from the front that is
made of whole characters. -/
def decode (bytes : List UInt8) : Except Nat (List Char) := decodeFrom 0 0 [] bytes

theorem encode_append (s t : List Char) : encode (s ++ t) = encode s ++ encode t := by
  simp [encode]

theorem first?_eq_some {bytes : List UInt8} {c : Char} (h : first? bytes = some c) :
    (String.utf8EncodeChar c).isPrefixOf bytes = true := by
  simp only [first?] at h
  split at h
  · rename_i hp
    cases h
    exact hp
  · cases h

end Utf8

end PostfixSheet
