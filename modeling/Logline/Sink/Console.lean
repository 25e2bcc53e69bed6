import Logline.Sink.Basic
/-!
The console as a sink: the two output streams of a process.  Diagnostics of the
library itself go to the error stream as lines of their own, between those of a
delivery to it.
-/
namespace Logline

/-- A stream of the console. -/
inductive Stream
  | output
  | error
deriving DecidableEq, Repr

/-- What has been written to the streams. -/
structure Console where
  output : Bytes
  error : Bytes
deriving DecidableEq, Repr

namespace Stream

/-- The stream for inspection. -/
def inspect : Stream → Text
  | output => "Stdout".toList
  | error => "Stderr".toList

end Stream

namespace Console

def empty : Console := ⟨[], []⟩

/-- The console with bytes at the end of a stream. -/
def append (stream : Stream) (bytes : Bytes) (c : Console) : Console :=
  match stream with
  | .output => { c with output := c.output ++ bytes }
  | .error => { c with error := c.error ++ bytes }

/-- The line of a diagnostic that lets the program go on. -/
def errorLine (message : Text) : Text :=
  "[LOGGER ERROR] ".toList ++ message ++ ['\n']

/-- The line of a diagnostic that ends the program. -/
def fatalLine (message : Text) : Text :=
  "[LOGGER FATAL] ".toList ++ message ++ ['\n']

/-- A stream as a sink.  It takes everything and keeps nothing back, so it has
no state. -/
def sink : Sink Unit where
  name := "console".toList
  write _ bytes := ((), .done bytes.length)
  flush _ := ((), .done ())

/-- The console after something has happened in a delivery to one of its
streams. -/
def observe (stream : Stream) (c : Console) : Delivery.Note → Console
  | .call (.write bytes) => c.append stream bytes
  | .call _ => c
  | .report message => c.append .error (errorLine message).utf8

/-- The exit status after a fatal diagnostic. -/
def fatalStatus : Nat := 1

end Console

end Logline
