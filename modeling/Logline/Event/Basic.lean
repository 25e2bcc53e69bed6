import Logline.Entries
import Logline.Event.Value
import Logline.Level
import Logline.Time.Timestamp
/-!
Log events.  The message of an event never holds a line feed, carriage return
or tab: they are escaped when the event is made.
-/
namespace Logline

/-- The fields of an event, in the order in which their keys were first
added. -/
abbrev Fields := Entries FieldValue

namespace Fields

/-- One field in a log line. -/
def entryText (entry : Text × FieldValue) : Text :=
  entry.1 ++ '=' :: entry.2.text

/-- The fields in a log line. -/
def text (fields : Fields) : Text :=
  Text.join [' '] (fields.map entryText)

end Fields

structure Event where
  level : Level
  time : Timestamp
  message : Text
  logger : Option Text
  fields : Fields
deriving Repr

namespace Event

/-- A character of a line: line feeds, carriage returns and tabs are written as
escapes. -/
def escapeBreak (c : Char) : Text :=
  if c = '\n' then ['\\', 'n']
  else if c = '\r' then ['\\', 'r']
  else if c = '\t' then ['\\', 't']
  else [c]

/-- A text brought into one line. -/
def sanitize (t : Text) : Text :=
  t.flatMap escapeBreak

/-- An event without logger and fields. -/
def new (level : Level) (time : Timestamp) (message : Text) : Event :=
  { level, time, message := sanitize message, logger := none, fields := [] }

/-- The events are equal; of the times only the instants are compared. -/
def same (a b : Event) : Bool :=
  a.level == b.level && a.time.seconds == b.time.seconds && a.time.nanos ==
    b.time.nanos &&
    a.message == b.message && a.logger == b.logger && a.fields.length ==
    b.fields.length &&
    (a.fields.zip b.fields).all fun (x, y) => x.1 == y.1 && x.2.same y.2

end Event

end Logline
