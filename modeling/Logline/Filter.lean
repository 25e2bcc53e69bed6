import Logline.Json.Record
import Logline.Level
import Logline.Outcome
/-!
Filtering payloads by severity.  The filter reads nothing of a payload but its
level; a payload that it cannot read is kept, so that whoever encodes it can
report it.
-/
namespace Logline

/-- Says whether a payload is dropped; it may panic. -/
abbrev Filter := Bytes → Except Panic Bool

/-- Keeps payloads of at least a minimum level. -/
structure LevelFilter where
  minimum : Level
deriving DecidableEq, Repr

namespace LevelFilter

/-- The part of a payload that the filter reads. -/
structure Header where
  level : Option Text
deriving DecidableEq, Repr

/-- The fields of a header. -/
def headerFields : List (Json.Field Header) :=
  [.ofOptionalString "level".toList fun _ level => ⟨level⟩]

/-- The header of a payload. -/
def header (payload : Bytes) : Except Json.Fault Header :=
  Json.readRecord headerFields ⟨none⟩ payload

/-- The level that a header gives: `info` if it names none. -/
def Header.severity (h : Header) : Level :=
  (h.level.bind Level.ofText?).getD default

/-- The payload is below the minimum. -/
def shouldDrop (f : LevelFilter) (payload : Bytes) : Bool :=
  match header payload with
  | .ok h => decide (h.severity < f.minimum)
  | .error _ => false

def toFilter (f : LevelFilter) : Filter :=
  fun payload => .ok (f.shouldDrop payload)

end LevelFilter

end Logline
