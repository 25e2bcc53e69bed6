import Logline.Converter.LoggerName
import Logline.Event.Basic
import Logline.Outcome
import Logline.Time.Layout
import Logline.Text.Blank
/-!
Converters, the parts of a compiled pattern.  Each writes one part of a log
line behind the bytes that are already in a buffer.  A conversion may panic
half-way; the state it leaves behind then is part of its result (`Written`), as
is that of converters which keep a scratch buffer or a state of their own.
-/
namespace Logline

/-- What a custom converter writes for an event: text, its children if it
wants them, and text after them; then it may panic.  The contract assumed
here is that it writes UTF-8 text behind what the buffer holds, and that it
runs the chain attached to it at most once for an event, in that buffer. -/
structure Rendering where
  before : Text
  children : Bool
  after : Text
  panic : Option Panic
deriving DecidableEq, Repr

/-- The behaviour of custom converters with states in `κ`: how they take
options, and what they write.  The contract assumed here is that neither
depends on the chain attached to a converter: all it does with its children
is to run them, without a look at how many or of what kind they are. -/
structure Extension (κ : Type) where
  attachOptions : κ → List Text → Except Error κ
  render : κ → Event → κ × Rendering

inductive Converter (κ : Type)
  /-- Text that is copied as it stands. -/
  | literal (text : Text)
  /-- Children between a color, if there is one, and its reset; they are
  written to a scratch buffer first, which keeps its content. -/
  | color (color : Option Color) (children : List (Converter κ))
      (scratch : Bytes)
  | level
  | date (layout : DateLayout)
  | logger (width : Option Nat)
  | message
  | fields
  | custom (state : κ) (children : List (Converter κ))

/-- A state and a buffer after writing, and the panic that ended it early, if
one did. -/
structure Written (α : Type) where
  state : α
  out : Bytes
  panic : Option Panic

namespace Converter

variable {κ : Type}

/-- The built-in converters, before options and children. -/
def newColor : Converter κ := color none [] []

def newDate : Converter κ := date default

def newLogger : Converter κ := logger none

/-- The width in an option of a logger: decimal digits, perhaps behind a plus
sign, that fit into 64 bits. -/
def width? (option : Text) : Option Nat :=
  let digits := match option.trim with
    | '+' :: rest => rest
    | t => t
  if !digits.isEmpty && digits.all Char.isDigit && Text.digitsValue digits <
    UInt64.size then
    some (Text.digitsValue digits)
  else none

/-- The converter after taking the options of its reference.  Built-in
converters look at the first one alone. -/
def attachOptions (ext : Extension κ) (options : List Text) :
    Converter κ → Except Error (Converter κ)
  | color c children scratch =>
    match options with
    | option :: _ =>
      .ok (color (some ((Color.ofName? option).getD .white)) children scratch)
    | [] => .ok (color c children scratch)
  | date layout =>
    match options with
    | option :: _ => (DateLayout.ofOption option).map date
    | [] => .ok (date layout)
  | logger width =>
    match options with
    | option :: _ =>
      match width? option with
      | some n => .ok (logger (if n = 0 then none else some n))
      | none =>
        .error <| .invalidConfiguration "logger".toList
          ("width '".toList ++ option ++ "' is not a number".toList)
    | [] => .ok (logger width)
  | custom state children =>
    (ext.attachOptions state options).map (custom · children)
  | c => .ok c

/-- The converter with these children in place of those it had; leaves ignore
them. -/
def attachChildren (children : List (Converter κ)) : Converter κ → Converter κ
  | color c _ scratch => color c children scratch
  | custom state _ => custom state children
  | c => c

/-- A byte that would end or break a line. -/
def isBreak (b : UInt8) : Bool := b == 10 || b == 13 || b == 9

/-- The escape of a byte that would break a line. -/
def escapeBreakByte (b : UInt8) : Bytes :=
  if b = 10 then [92, 110] else if b = 13 then [92, 114]
    else if b = 9 then [92, 116] else [b]

/-- The buffer with the breaks from `start` on escaped; it is left alone if
there are none. -/
def escapeBreaksFrom (start : Nat) (out : Bytes) : Bytes :=
  if (out.drop start).any isBreak then
    out.take start ++ (out.drop start).flatMap escapeBreakByte
  else out

/-- The buffer with the name of the logger behind it. -/
def writeLogger (width : Option Nat) (logger : Option Text) (out : Bytes) :
    Bytes :=
  match logger with
  | some (c :: rest) =>
    let name := match width with
      | some n => LoggerName.abbreviate (c :: rest) n
      | none => c :: rest
    escapeBreaksFrom out.length (out ++ name.utf8)
  | _ => out ++ Text.utf8 ['-']

/-- The buffer with the message behind it. -/
def writeMessage (message : Text) (out : Bytes) : Bytes :=
  out ++ Text.utf8 (if message.isEmpty then ['-'] else message)

/-- The buffer with fields behind it; `first` for the first of them, which
needs no blank. -/
def writeFields (first : Bool) : Fields → Bytes → Bytes
  | [], out => out
  | entry :: rest, out =>
    let out := if first then out else out ++ Text.utf8 [' ']
    writeFields false rest
    (escapeBreaksFrom out.length (out ++ (Fields.entryText entry).utf8))

/-- What rendering a date panics with when its layout cannot be rendered. -/
def dateFailure : Text :=
  "a formatting trait implementation returned an error when the underlying stream did not".toList

/-- The sequence that sets a color, if there is one. -/
def colorStart (c : Option Color) : Bytes :=
  match c with
  | some c => c.sequence.utf8
  | none => []

mutual

/-- Writes an event behind a buffer. -/
def write (ext : Extension κ) (e : Event) :
    Converter κ → Bytes → Written (Converter κ)
  | literal t, out => ⟨literal t, out ++ t.utf8, none⟩
  | color c children scratch, out =>
    let w := writeColored ext e c children (scratch.cleared ++ colorStart c)
    match w.panic with
    | some p => ⟨color c w.state w.out, out, some p⟩
    | none =>
      let scratch := w.out ++ Color.reset.utf8
      ⟨color c w.state scratch, out ++ scratch, none⟩
  | level, out => ⟨level, out ++ e.level.name.utf8, none⟩
  | date layout, out =>
    match layout.render? e.time with
    | some t => ⟨date layout, out ++ t.utf8, none⟩
    | none => ⟨date layout, out, some (.message dateFailure)⟩
  | logger width, out => ⟨logger width, writeLogger width e.logger out, none⟩
  | message, out => ⟨message, writeMessage e.message out, none⟩
  | fields, out => ⟨fields, writeFields true e.fields out, none⟩
  | custom state children, out =>
    let (state, rendering) := ext.render state e
    let out := out ++ rendering.before.utf8
    let w := if rendering.children then writeAll ext e children out
      else ⟨children, out, none⟩
    match w.panic with
    | some p => ⟨custom state w.state, w.out, some p⟩
    | none => ⟨custom state w.state, w.out ++ rendering.after.utf8,
        rendering.panic⟩

/-- Writes an event with converters in order, up to the first one that
panics. -/
def writeAll (ext : Extension κ) (e : Event) :
    List (Converter κ) → Bytes → Written (List (Converter κ))
  | [], out => ⟨[], out, none⟩
  | c :: rest, out =>
    let w := write ext e c out
    match w.panic with
    | some p => ⟨w.state :: rest, w.out, some p⟩
    | none =>
      let ws := writeAll ext e rest w.out
      ⟨w.state :: ws.state, ws.out, ws.panic⟩

/-- Writes an event with the children of a color.  A level gets the color of
its severity and a reset behind it, after which the color around it is set
again for the children that follow. -/
def writeColored (ext : Extension κ) (e : Event) (c : Option Color) :
    List (Converter κ) → Bytes → Written (List (Converter κ))
  | [], out => ⟨[], out, none⟩
  | level :: rest, out =>
    let out := out ++ e.level.color.sequence.utf8 ++ e.level.name.utf8 ++
      Color.reset.utf8
    let out := if rest.isEmpty then out else out ++ colorStart c
    let ws := writeColored ext e c rest out
    ⟨level :: ws.state, ws.out, ws.panic⟩
  | child :: rest, out =>
    let w := write ext e child out
    match w.panic with
    | some p => ⟨w.state :: rest, w.out, some p⟩
    | none =>
      let ws := writeColored ext e c rest w.out
      ⟨w.state :: ws.state, ws.out, ws.panic⟩

end

end Converter

end Logline
