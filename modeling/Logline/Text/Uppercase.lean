import Logline.Text.Basic
/-!
Upper case as far as it meets ASCII.  A character whose full upper case
consists of ASCII letters is mapped to them; every other character stands for
itself, so that comparing an upper-cased text with an ASCII word gives the same
answer as under the full Unicode mapping.
-/
namespace Logline.Text

/-- The characters beyond ASCII whose upper case is ASCII, with that upper
case. -/
def asciiUppercase : List (Char × Text) :=
  [('ß', ['S', 'S']), ('ı', ['I']), ('ſ', ['S']), ('ﬀ', ['F', 'F']),
    ('ﬁ', ['F', 'I']), ('ﬂ', ['F', 'L']), ('ﬃ', ['F', 'F', 'I']),
    ('ﬄ', ['F', 'F', 'L']), ('ﬅ', ['S', 'T']),
    ('ﬆ', ['S', 'T'])]

/-- The upper case of a character where it is ASCII, else the character. -/
def upperChar (c : Char) : Text :=
  match asciiUppercase.lookup c with
  | some t => t
  | none => [c.toUpper]

/-- The upper case of a text as far as it is ASCII. -/
def upper (t : Text) : Text :=
  t.flatMap upperChar

example : upper "ınfo".toList = "INFO".toList := by decide

example : upper "İnfo".toList ≠ "INFO".toList := by decide

end Logline.Text
