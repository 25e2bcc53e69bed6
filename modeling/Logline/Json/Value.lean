import Logline.Json.Fault
import Logline.Entries
import Logline.Number.Shortest
/-!
JSON values and their compact text.
-/
namespace Logline

/-- A number of a JSON text: exact if it is an integer of at most 64 bits, else
a double. -/
inductive Json.Number
  | integer (n : Int)
  | double (d : Double)
deriving DecidableEq, Repr

inductive Json
  | null
  | bool (b : Bool)
  | number (n : Json.Number)
  | string (t : Text)
  | array (items : List Json)
  | object (entries : List (Text × Json))
deriving Repr

namespace Json

/-- The two lower-case hexadecimal digits of a byte. -/
def hexByte (n : Nat) : Text :=
  [Nat.digitChar (n / 16), Nat.digitChar (n % 16)]

/-- A character inside a string. -/
def escaped (c : Char) : Text :=
  if c = '"' then ['\\', '"']
  else if c = '\\' then ['\\', '\\']
  else if c = '\n' then ['\\', 'n']
  else if c = '\r' then ['\\', 'r']
  else if c = '\t' then ['\\', 't']
  else if c.toNat = 8 then ['\\', 'b']
  else if c.toNat = 12 then ['\\', 'f']
  else if c.toNat < 32 then '\\' :: 'u' :: '0' :: '0' :: hexByte c.toNat
  else [c]

/-- A string in quotes. -/
def quoted (t : Text) : Text :=
  '"' :: t.flatMap escaped ++ ['"']

/-- A positive or negative finite double other than zero: plain while the
exponent of the first digit is between -5 and 15, with a point always, and else
with the exponent written out. -/
def finiteText (d : Double) : Text :=
  let shortest := d.shortest .even
  let digits := shortest.text
  let e := shortest.leadingExponent
  if -5 ≤ e ∧ e ≤ 15 then
    let (whole, fraction) := Double.positional digits e
    whole ++ '.' :: if fraction.isEmpty then ['0'] else fraction
  else
    let fraction := digits.drop 1
    digits.take 1 ++ (if fraction.isEmpty then [] else '.' :: fraction) ++
      'e' :: (if e < 0 then '-' else '+') :: Text.ofNat e.natAbs

/-- A double; there is no way to write one that is not finite. -/
def doubleText (d : Double) : Text :=
  if !d.isFinite then "null".toList
  else
    let sign := if d.isNegative then ['-'] else []
    sign ++ if d.isZero then "0.0".toList else finiteText d

def Number.text : Number → Text
  | .integer n => Text.ofInt n
  | .double d => doubleText d

/-- The values are separated by commas. -/
def commaJoin : List Text → Text :=
  Text.join [',']

mutual

/-- The compact text of a value. -/
def text : Json → Text
  | .null => "null".toList
  | .bool b => if b then "true".toList else "false".toList
  | .number n => n.text
  | .string t => quoted t
  | .array items => '[' :: commaJoin (itemTexts items) ++ [']']
  | .object entries => '\x7b' :: commaJoin (entryTexts entries) ++ ['\x7d']

def itemTexts : List Json → List Text
  | [] => []
  | v :: rest => text v :: itemTexts rest

def entryTexts : List (Text × Json) → List Text
  | [] => []
  | (key, v) :: rest => (quoted key ++ ':' :: text v) :: entryTexts rest

end

example :
    text
      (.object
        [("a".toList, .array [.number (.integer (-1)), .string ['\n']])]) =
    "\x7b\"a\":[-1,\"\\n\"]\x7d".toList := by decide

end Json

end Logline
