/-!
# Capitals

`capitals` writes a text in capital letters as far as the Latin alphabet goes:
besides `a` to `z` it maps the characters whose capital form is spelled with the
letters `A` to `Z`, such as the sharp s and the ligatures.  Every other character
stays as it is, so the result spells a word of the Latin alphabet exactly when
the full capital form of the text does.
-/

namespace Abacus.Text

/-- The characters outside `a` to `z` whose capital form is in `A` to `Z`. -/
def latinCapitals : List (Char × String) :=
  [('ß', "SS"), ('ı', "I"), ('ſ', "S"), ('ﬀ', "FF"), ('ﬁ', "FI"), ('ﬂ', "FL"), ('ﬃ', "FFI"),
    ('ﬄ', "FFL"), ('ﬅ', "ST"), ('ﬆ', "ST")]

/-- The capital form of one character. -/
def capital (c : Char) : List Char :=
  match latinCapitals.lookup c with
  | some letters => letters.toList
  | none => [c.toUpper]

/-- The capital form of a text. -/
def capitals (cs : List Char) : List Char := cs.flatMap capital

end Abacus.Text
