import Logline.Text.Hidden
/-!
Text in double quotes for inspection.  Quotes, backslashes and characters that
do not show are escaped; the code of a character that does not show is written
in braces.
-/
namespace Logline.Text

/-- The number in lower-case hexadecimal. -/
def hex (n : Nat) : Text :=
  Nat.toDigits 16 n

def quotedChar (c : Char) : Text :=
  if c = '"' ∨ c = '\\' then ['\\', c]
  else if c = '\n' then ['\\', 'n']
  else if c = '\r' then ['\\', 'r']
  else if c = '\t' then ['\\', 't']
  else if c.toNat = 0 then ['\\', '0']
  else if isHidden c then '\\' :: 'u' :: '\x7b' :: hex c.toNat ++ ['\x7d']
  else [c]

/-- The text in quotes. -/
def quoted (t : Text) : Text :=
  '"' :: t.flatMap quotedChar ++ ['"']

example : quoted "a\"\n\x1b".toList = "\"a\\\"\\n\\u\x7b1b\x7d\"".toList := by
  decide +kernel

end Logline.Text
