import Logline.Converter.Compile
import Logline.Event.Payload
import Logline.Pattern.Reader
/-!
Encoders: a compiled layout that turns payloads into log lines.  The converters
keep their state from one line to the next, and so does the buffer that lines
are put together in: a line that panics leaves it half written.
-/
namespace Logline

structure Encoder (κ : Type) where
  layout : Text
  converters : List (Converter κ)
  /-- What lines are put together in; it is cleared before and after each. -/
  buffer : Bytes := []

namespace Encoder

variable {κ : Type}

/-- The layout that is used where none is given. -/
def defaultLayout : Text :=
  "#color(#date\x7b2006-01-02\x7d)\x7bcyan\x7d #color(#level) #message #fields".toList

/-- The encoder for a layout; an empty one stands for the default. -/
def build (ext : Extension κ) (registry : Registry κ) (layout : Text) :
    Except Error (Encoder κ) := do
  let layout := if layout.isEmpty then defaultLayout else layout
  match Pattern.read layout with
  | .error e => .error e.toError
  | .ok pattern =>
    return { layout, converters := ← Pattern.compile ext registry pattern }

/-- What is said of a layout that cannot be built: the stage that fails, and
the error. -/
def buildFailure (e : Error) : Text :=
  (match e with
    | .parse .. => "parse pattern error, ".toList
    | _ => "compile pattern error, ".toList) ++ e.message

/-- The line of an event. -/
def encodeEvent (ext : Extension κ) (encoder : Encoder κ) (e : Event) :
    Encoder κ × Outcome Bytes :=
  let w := Converter.writeAll ext e encoder.converters encoder.buffer.cleared
  match w.panic with
  | some p =>
    ({ encoder with converters := w.state, buffer := w.out }, .panicked p)
  | none =>
    let line := w.out ++ Text.utf8 ['\n']
    ({ encoder with converters := w.state, buffer := line.cleared }, .done line)

/-- The line of a payload; `now` is the time of a payload that gives none. -/
def encode (ext : Extension κ) (now : Timestamp) (encoder : Encoder κ)
    (payload : Bytes) : Encoder κ × Outcome Bytes :=
  match Event.ofPayload now payload with
  | .ok e => encoder.encodeEvent ext e
  | .error e => (encoder, .failed e)

/-- The encoder for inspection. -/
def inspect (encoder : Encoder κ) : Text :=
  Inspect.record "PatternEncoder".toList
    [("layout".toList, encoder.layout.quoted)]

end Encoder

end Logline
