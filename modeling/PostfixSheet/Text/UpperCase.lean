/-!
# Upper case with an ASCII result

Stands for `to_uppercase` of the standard library where the `from_str` of `CellError` calls it.

Ten characters outside ASCII have an upper case that is all ASCII: seven ligatures, the sharp s, the
long s and the dotless i. For comparing a text in any case with an ASCII text, the upper case of
every other character outside ASCII may stand for itself, because neither is ASCII.
-/

namespace PostfixSheet

namespace Text

/-- The characters outside ASCII whose upper case is ASCII, with that upper case. -/
def asciiUpperTable : List (Char × List Char) :=
  [('ß', ['S', 'S']), ('ı', ['I']), ('ſ', ['S']), ('ﬀ', ['F', 'F']), ('ﬁ', ['F', 'I']),
    ('ﬂ', ['F', 'L']), ('ﬃ', ['F', 'F', 'I']), ('ﬄ', ['F', 'F', 'L']), ('ﬅ', ['S', 'T']),
    ('ﬆ', ['S', 'T'])]

/-- The upper case of a character where that is ASCII, and the character itself elsewhere. -/
def upperAscii (c : Char) : List Char := (asciiUpperTable.lookup c).getD [c.toUpper]

end Text

end PostfixSheet
