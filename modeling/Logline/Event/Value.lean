import Logline.Json.Value
import Logline.Time.Duration
/-!
The values of the fields of an event, their text in log lines, and their JSON
form.
-/
namespace Logline

inductive FieldValue
  | string (t : Text)
  | int (n : Int64)
  | float (d : Double)
  | bool (b : Bool)
  | duration (d : Duration)
  /-- The message of an error. -/
  | error (message : Text)
  | list (items : List FieldValue)
  | null
deriving Repr

namespace FieldValue

mutual

/-- The value in a log line. -/
def text : FieldValue → Text
  | string t => t
  | int n => Text.ofInt n.toInt
  | float d => d.plainText
  | bool b => if b then "true".toList else "false".toList
  | duration d => d.text
  | error message => message
  | list items => '[' :: Text.join [' '] (texts items) ++ [']']
  | null => "null".toList

def texts : List FieldValue → List Text
  | [] => []
  | v :: rest => text v :: texts rest

end

mutual

/-- The value in a JSON document.  A float that is not finite has no number and
becomes null. -/
def toJson : FieldValue → Json
  | string t => .string t
  | int n => .number (.integer n.toInt)
  | float d => if d.isFinite then .number (.double d) else .null
  | bool b => .bool b
  | duration d => .string d.text
  | error message => .string message
  | list items => .array (toJsons items)
  | null => .null

def toJsons : List FieldValue → List Json
  | [] => []
  | v :: rest => toJson v :: toJsons rest

end

/-- The value of a number: an integer if it fits into 64 bits with a sign, else
the nearest double. -/
def ofNumber : Json.Number → FieldValue
  | .integer n =>
    if Int64.minValue.toInt ≤ n ∧ n ≤ Int64.maxValue.toInt then
      int (Int64.ofInt n)
    else float (Double.ofRatio (n < 0) n.natAbs 1)
  | .double d => float d

mutual

/-- The value that a JSON value stands for.  An object is kept as its compact
text. -/
def ofJson : Json → FieldValue
  | .null => null
  | .bool b => bool b
  | .number n => ofNumber n
  | .string t => string t
  | .array items => list (ofJsons items)
  | .object entries => string (Json.text (.object entries))

def ofJsons : List Json → List FieldValue
  | [] => []
  | v :: rest => ofJson v :: ofJsons rest

end

mutual

/-- The values are equal; a float that is no number equals nothing. -/
def same : FieldValue → FieldValue → Bool
  | string a, string b => a == b
  | int a, int b => a == b
  | float a, float b => (a == b && !a.isNaN) || (a.isZero && b.isZero)
  | bool a, bool b => a == b
  | duration a, duration b => a == b
  | error a, error b => a == b
  | list a, list b => allSame a b
  | null, null => true
  | _, _ => false

def allSame : List FieldValue → List FieldValue → Bool
  | [], [] => true
  | a :: as, b :: bs => same a b && allSame as bs
  | _, _ => false

end

example : text (list [int 1, null, list [bool true]]) =
    "[1 null [true]]".toList := by decide

end FieldValue

end Logline
