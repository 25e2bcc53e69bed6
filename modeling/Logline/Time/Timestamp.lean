import Logline.Text.Basic
import Logline.Time.Calendar
/-!
Instants with the offset they were recorded in.  All components are those of
the local time: the instant moved by its offset.  A leap second is the second
before it with a billion nanoseconds or more.
-/
namespace Logline

/-- Seconds since 1970-01-01T00:00:00Z, nanoseconds beyond them, and the offset
east of UTC in seconds. -/
structure Timestamp where
  seconds : Int
  nanos : Nat
  offset : Int
deriving DecidableEq, Repr

namespace Timestamp

def epoch : Timestamp := ⟨0, 0, 0⟩

def secondsPerDay : Nat := 86400

def localSeconds (t : Timestamp) : Int := t.seconds + t.offset

/-- The local day, counted from 1970-01-01. -/
def day (t : Timestamp) : Int := t.localSeconds / secondsPerDay

def secondOfDay (t : Timestamp) : Nat := (t.localSeconds % secondsPerDay).toNat

def date (t : Timestamp) : Date := Date.ofDays t.day

def hour (t : Timestamp) : Nat := t.secondOfDay / 3600

def minute (t : Timestamp) : Nat := t.secondOfDay / 60 % 60

/-- The second of the minute; a leap second comes after the one that it
extends. -/
def second (t : Timestamp) : Nat := t.secondOfDay % 60 + t.nanos / 1_000_000_000

/-- The nanoseconds of the second, also of a leap second. -/
def subsecond (t : Timestamp) : Nat := t.nanos % 1_000_000_000

/-- The hour on a clock face of twelve. -/
def hour12 (t : Timestamp) : Nat := if t.hour % 12 = 0 then 12 else t.hour % 12

def isAfternoon (t : Timestamp) : Bool := 12 ≤ t.hour

end Timestamp

/-- How a number is brought to its width. -/
inductive Padding
  | none
  | zeros
  | spaces
deriving DecidableEq, Repr

namespace Padding

/-- A sign and digits brought to a width of `width` characters: zeros go
between them, spaces in front. -/
def apply (padding : Padding) (width : Nat) (sign digits : Text) : Text :=
  match padding with
  | .none => sign ++ digits
  | .zeros => sign ++ Text.padLeft '0' (width - sign.length) digits
  | .spaces => Text.padLeft ' ' width (sign ++ digits)

/-- An integer of at least `width` characters, with a minus sign below zero. -/
def number (padding : Padding) (width : Nat) (n : Int) : Text :=
  padding.apply width (if n < 0 then ['-'] else []) (Text.ofNat n.natAbs)

/-- A year of at least four digits; outside 0 to 9999 it always has a sign. -/
def year (padding : Padding) (y : Int) : Text :=
  if 0 ≤ y ∧ y ≤ 9999 then padding.apply 4 [] (Text.ofNat y.toNat)
  else padding.apply 5 (if y < 0 then ['-'] else ['+']) (Text.ofNat y.natAbs)

end Padding

namespace Offset

/-- Two digits, or more from one hundred on. -/
def two (n : Nat) : Text := Text.zeroPadded 2 n

def sign (offset : Int) : Char := if offset < 0 then '-' else '+'

/-- The offset in hours and minutes; seconds are rounded to the nearest minute
by magnitude, half a minute upward. -/
def toMinutes (separator : Text) (offset : Int) : Text :=
  let minutes := (offset.natAbs + 30) / 60
  sign offset :: two (minutes / 60) ++ separator ++ two (minutes % 60)

/-- The offset in hours, minutes and seconds. -/
def toSeconds (offset : Int) : Text :=
  let seconds := offset.natAbs
  sign offset :: two (seconds / 3600) ++ ':' :: two (seconds / 60 % 60) ++
  ':' :: two (seconds % 60)

/-- The whole hours of the offset. -/
def toHours (offset : Int) : Text :=
  sign offset :: two (offset.natAbs / 3600)

/-- The offset as the name of a zone: with seconds only if it has some. -/
def name (offset : Int) : Text :=
  if offset.natAbs % 60 = 0 then toMinutes [':'] offset else toSeconds offset

end Offset

namespace Timestamp

/-- The fraction of a second with its point: nothing, or three, six or nine
digits. -/
def fraction (t : Timestamp) : Text :=
  let n := t.subsecond
  if n = 0 then []
  else if n % 1_000_000 = 0 then '.' :: Text.zeroPadded 3 (n / 1_000_000)
  else if n % 1_000 = 0 then '.' :: Text.zeroPadded 6 (n / 1_000)
  else '.' :: Text.zeroPadded 9 n

end Timestamp

end Logline
