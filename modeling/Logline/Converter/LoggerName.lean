import Logline.Text.Basic
/-!
Abbreviating the names of loggers.  A name is cut at slashes and dots; in front
of the last slash, segments are reduced to their first character, one by one
from the left, until the name is shorter than the width asked for.  What begins
with the last slash is kept whole.
-/
namespace Logline.LoggerName

/-- The text before the last slash, and the text from it on. -/
def splitLastSlash? : Text → Option (Text × Text)
  | [] => none
  | c :: rest =>
    match splitLastSlash? rest with
    | some (before, after) => some (c :: before, after)
    | none => if c = '/' then some ([], c :: rest) else none

def isSeparator (c : Char) : Bool := c == '/' || c == '.'

/-- What is left to write of a name when `used` bytes have been written, the
segment begun has the first character `first`, `rest` is still to be read of
the part that may be cut, and `tail` is kept. -/
def shorten (width used : Nat) (first : Option Char) (tail : Text) : Text → Text
  | [] => first.toList ++ tail
  | c :: rest =>
    if isSeparator c then
      let segment := first.toList ++ [c]
      let used := used + Text.size segment
      if used + (Text.size rest + Text.size tail) < width then
        segment ++ rest ++ tail
      else segment ++ shorten width used none tail rest
    else shorten width used (first.or (some c)) tail rest

/-- The name, abbreviated if it has more than `width` bytes and a slash that is
not its first character. -/
def abbreviate (name : Text) (width : Nat) : Text :=
  if Text.size name ≤ width then name
  else
    match splitLastSlash? name with
    | some (head, tail) =>
      if head.isEmpty then name else shorten width 0 none tail head
    | none => name

example : abbreviate "aa/bb.cc/dd".toList 10 = "a/b.cc/dd".toList := by decide

end Logline.LoggerName
