import Logline.Color
import Logline.Text.Uppercase
import Logline.Json.Token
/-!
Severity levels: their order, their names in log lines and in patterns, and the
color of each.
-/
namespace Logline

/-- Severities in ascending order. -/
inductive Level
  | trace
  | debug
  | info
  | warn
  | error
  | fatal
  | panic
deriving DecidableEq, Repr

namespace Level

instance : Inhabited Level := ⟨info⟩

def rank : Level → Nat
  | trace => 0
  | debug => 1
  | info => 2
  | warn => 3
  | error => 4
  | fatal => 5
  | panic => 6

instance : LT Level := ⟨fun a b => a.rank < b.rank⟩

instance (a b : Level) : Decidable (a < b) :=
  inferInstanceAs (Decidable (a.rank < b.rank))

def all : List Level := [trace, debug, info, warn, error, fatal, panic]

/-- The level in a log line. -/
def name : Level → Text
  | trace => "TRACE".toList
  | debug => "DEBUG".toList
  | info => "INFO".toList
  | warn => "WARN".toList
  | error => "ERROR".toList
  | fatal => "FATAL".toList
  | panic => "PANIC".toList

/-- The level with this name in whatever case; `WARNING` is a second name of
`warn`. -/
def ofText? (t : Text) : Option Level :=
  let upper := t.upper
  if upper = "WARNING".toList then some warn else all.find? fun level =>
    level.name == upper

/-- What is said of a text that names no level. -/
def unknownMessage (t : Text) : Text :=
  "Invalid log level: '".toList ++ t ++ ['\'']

/-- The color of the level. -/
def color : Level → Color
  | trace => ⟨.white, false⟩
  | debug => ⟨.blue, false⟩
  | info => ⟨.green, false⟩
  | warn => ⟨.yellow, false⟩
  | error => ⟨.red, false⟩
  | fatal => ⟨.red, false⟩
  | panic => ⟨.red, false⟩

/-- The level as a JSON variant. -/
def title : Level → Text
  | trace => "Trace".toList
  | debug => "Debug".toList
  | info => "Info".toList
  | warn => "Warn".toList
  | error => "Error".toList
  | fatal => "Fatal".toList
  | panic => "Panic".toList

def ofTitle (t : Text) : Except Json.Fault Level :=
  match all.find? fun level => level.title == t with
  | some level => .ok level
  | none => .error .mismatched

open Json in
/-- What follows the variant of an object: a colon, null and the closing
brace. -/
def endVariant : List Token → Except Fault (List Token)
  | [] => .error .truncated
  | .colon :: [] => .error .truncated
  | .colon :: .null :: [] => .error .truncated
  | .colon :: .null :: .closeObject :: rest => .ok rest
  | .colon :: .null :: _ => .error .malformed
  | .colon :: token :: _ => .error token.mismatch
  | _ => .error .malformed

open Json in
/-- The level in a JSON text: the variant as a string, or an object with the
variant as its only key and null as its value.  A key that is no string is
malformed, as in any object. -/
def ofTokens : List Token → Except Fault Level
  | .string value :: rest => do
    let level ← ofTitle (← value)
    if rest.isEmpty then .ok level else .error .malformed
  | .openObject :: .string value :: rest => do
    let level ← ofTitle (← value)
    let rest ← endVariant rest
    if rest.isEmpty then .ok level else .error .malformed
  | [.openObject] => .error .truncated
  | .openObject :: .brokenString fault _ :: _ => .error fault
  | .brokenString fault _ :: _ => .error fault
  | [] => .error .truncated
  | _ => .error .malformed

def readJson (payload : Bytes) : Except Json.Fault Level :=
  ofTokens (Json.tokens payload)

def toJson (level : Level) : Json :=
  .string level.title

example : ofText? "panıc".toList = some panic := by decide

example : ofText? " info".toList = none := by decide

end Level

end Logline
