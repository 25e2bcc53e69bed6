import Logline.Json.NumberText
import Logline.Json.StringText
/-!
The tokens of a JSON text.  A token that is well formed but has no value (a
number out of range, a string with a lone surrogate) keeps the fault in the
place of the value, so that a reader which skips it need not notice.  After a
token that breaks off there are no more.
-/
namespace Logline.Json

inductive Token
  | openArray
  | closeArray
  | openObject
  | closeObject
  | comma
  | colon
  | null
  | bool (b : Bool)
  | number (value : Except Fault Number)
  | string (value : Except Fault Text)
  /-- A string that is never closed or has a wrong escape: the fault of reading
  it, and that of skipping it. -/
  | brokenString (read skip : Fault)
  /-- A number or a word that breaks off or goes wrong: the fault of reading
  it, and that of skipping it. -/
  | broken (read skip : Fault)
  /-- A character that begins no token. -/
  | stray

namespace Token

/-- No token can follow this one. -/
def isBroken : Token → Bool
  | brokenString .. => true
  | broken .. => true
  | _ => false

/-- The fault of finding the token in the place of a value of some other
kind. -/
def mismatch : Token → Fault
  | null => .mismatched
  | bool _ => .mismatched
  | number (.ok _) => .mismatched
  | number (.error fault) => fault
  | string (.ok _) => .mismatched
  | string (.error fault) => fault
  | openArray => .mismatched
  | openObject => .mismatched
  | brokenString read _ => read
  | broken read _ => read
  | _ => .malformed

end Token

/-- White space between tokens. -/
def isSpace (c : Char) : Bool :=
  c == ' ' || c == '\t' || c == '\n' || c == '\r'

/-- The rest of a word, if the symbols spell it, or the fault of misspelling
it. -/
def spell : Text → List Symbol → Except Fault Unit
  | [], _ => .ok ()
  | _ :: _, [] => .error .truncated
  | c :: word, s :: rest =>
    if s = some c then spell word rest else .error .malformed

def wordToken (token : Token) (word : Text) (rest : List Symbol) :
    Token × Nat :=
  match spell word rest with
  | .ok () => (token, word.length)
  | .error fault => (.broken fault fault, 0)

def stringToken (rest : List Symbol) : Token × Nat :=
  let scan := scanString rest
  match scan.fault, scan.text with
  | none, value => (.string value, scan.used)
  | some fault, .error read => (.brokenString read fault, 0)
  | some fault, .ok _ => (.brokenString fault fault, 0)

def numberToken (s : List Symbol) : Token × Nat :=
  match NumberText.scan s with
  | .ok n => (.number n.value, n.length - 1)
  | .error .atEnd => (.broken .truncated .malformed, 0)
  | .error .inside => (.broken .malformed .malformed, 0)

/-- The token that starts with `c`, and the number of symbols of it that
follow. -/
def lexeme (c : Char) (rest : List Symbol) : Token × Nat :=
  match c with
  | '[' => (.openArray, 0)
  | ']' => (.closeArray, 0)
  | '\x7b' => (.openObject, 0)
  | '\x7d' => (.closeObject, 0)
  | ',' => (.comma, 0)
  | ':' => (.colon, 0)
  | '"' => stringToken rest
  | 'n' => wordToken .null "ull".toList rest
  | 't' => wordToken (.bool true) "rue".toList rest
  | 'f' => wordToken (.bool false) "alse".toList rest
  | c =>
    if c.isDigit ∨ c = '-' then numberToken (some c :: rest) else (.stray, 0)

/-- The tokens after the first `skip` symbols, which an earlier token has
used. -/
def tokensFrom : Nat → List Symbol → List Token
  | _, [] => []
  | skip + 1, _ :: rest => tokensFrom skip rest
  | 0, none :: rest => .stray :: tokensFrom 0 rest
  | 0, some c :: rest =>
    if isSpace c then tokensFrom 0 rest
    else
      let (token, used) := lexeme c rest
      if token.isBroken then [token] else token :: tokensFrom used rest

/-- The tokens of a payload. -/
def tokens (payload : Bytes) : List Token :=
  tokensFrom 0 (Utf8.symbols payload)

end Logline.Json
