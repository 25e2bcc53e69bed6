import Logline.Json.Fault
/-!
The ways in which an operation of the library fails, and their messages.
-/
namespace Logline

inductive Error
  /-- A pattern is malformed at a byte position. -/
  | parse (position : Nat) (message : Text)
  | unknownConverter (name : Text)
  | encode (message : Text)
  | io (message : Text)
  | json (fault : Json.Fault)
  | queueFull (count capacity : Nat)
  | queueClosed
  | invalidConfiguration (component message : Text)
  | fileLock (path : Text)
  | writer (message : Text)
deriving DecidableEq, Repr

namespace Error

def message : Error → Text
  | parse position message =>
    "Pattern parse error at position ".toList ++ Text.ofNat position ++
      ": ".toList ++ message
  | unknownConverter name => "Unknown converter '#".toList ++ name ++ ['\'']
  | encode message => "Encode error: ".toList ++ message
  | io message => "IO error: ".toList ++ message
  | json _ => "JSON error".toList
  | queueFull count capacity =>
    "Log queue full: ".toList ++ Text.ofNat count ++
      '/' :: Text.ofNat capacity ++
      " payloads buffered".toList
  | queueClosed => "Log queue closed".toList
  | invalidConfiguration component message =>
    "Invalid configuration for ".toList ++ component ++ ": ".toList ++ message
  | fileLock path => "Failed to acquire file lock on '".toList ++ path ++ ['\'']
  | writer message => "Writer error: ".toList ++ message

/-- The error is a fault of the pattern or of the options in it, known before
any event. -/
def isConfiguration : Error → Bool
  | parse .. => true
  | unknownConverter _ => true
  | invalidConfiguration .. => true
  | _ => false

end Error

end Logline
