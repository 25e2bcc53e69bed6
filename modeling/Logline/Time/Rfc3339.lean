import Logline.Time.Timestamp
/-!
Timestamps as RFC 3339 text.  `render` writes the shortest of the fractions of
no, three, six or nine digits and `Z` for the offset zero; `read?` reads any
fraction and both spellings of the offset zero, and says of a wrong text what
is wrong at the first place where it is.
-/
namespace Logline.Rfc3339

/-- What is wrong with a text that is no timestamp. -/
inductive Fault
  | premature
  | invalid
  | outOfRange
  | trailing
deriving DecidableEq, Repr

def Fault.message : Fault → Text
  | .premature => "premature end of input".toList
  | .invalid => "input contains invalid characters".toList
  | .outOfRange => "input is out of range".toList
  | .trailing => "trailing input".toList

/-- A timestamp as text. -/
def render (t : Timestamp) : Text :=
  let d := t.date
  Padding.year .zeros d.year ++ '-' :: Offset.two d.month ++
  '-' :: Offset.two d.day ++
    'T' :: Offset.two t.hour ++ ':' :: Offset.two t.minute ++
      ':' :: Offset.two t.second ++
    t.fraction ++ if t.offset = 0 then ['Z']
      else Offset.toMinutes [':'] t.offset

/-- Refuses unless the condition holds. -/
def require (fault : Fault) (condition : Bool) : Except Fault Unit :=
  if condition then .ok () else .error fault

/-- One digit of the part whose length is fixed. -/
def digit : Text → Except Fault (Nat × Text)
  | c :: rest =>
    if c.isDigit then .ok (c.toNat - '0'.toNat, rest) else .error .invalid
  | [] => .error .invalid

/-- Two digits of the part whose length is fixed. -/
def twoDigits (t : Text) : Except Fault (Nat × Text) := do
  let (a, t) ← digit t
  let (b, t) ← digit t
  return (10 * a + b, t)

/-- One of the characters `allowed`. -/
def oneOf (allowed : Text) : Text → Except Fault Text
  | c :: rest => if allowed.contains c then .ok rest else .error .invalid
  | [] => .error .premature

/-- Calendar day, checked as soon as it is read. -/
def date (t : Text) : Except Fault (Date × Text) := do
  let (century, t) ← twoDigits t
  let (year, t) ← twoDigits t
  let t ← oneOf ['-'] t
  let (month, t) ← twoDigits t
  let t ← oneOf ['-'] t
  let (day, t) ← twoDigits t
  let date := ⟨(100 * century + year : Nat), month, day⟩
  require .outOfRange (Date.isValid date)
  return (date, t)

/-- Hour, minute and second of a day. -/
def clock (t : Text) : Except Fault ((Nat × Nat × Nat) × Text) := do
  let (hour, t) ← twoDigits t
  let t ← oneOf [':'] t
  let (minute, t) ← twoDigits t
  let t ← oneOf [':'] t
  let (second, t) ← twoDigits t
  return ((hour, minute, second), t)

/-- The nanoseconds of an optional fraction; digits beyond the ninth are
dropped. -/
def nanos : Text → Except Fault (Nat × Text)
  | '.' :: rest =>
    let digits := rest.takeWhile Char.isDigit
    let rest := rest.dropWhile Char.isDigit
    if digits.isEmpty then .error (if rest.isEmpty then .premature
      else .invalid)
    else
      let kept := digits.take 9
      .ok (Text.digitsValue kept * Nat.pow 10 (9 - kept.length), rest)
  | t => .ok (0, t)

/-- Two digits of an offset; they are missing if fewer than two bytes are
left. -/
def offsetDigits (t : Text) : Except Fault (Nat × Text) :=
  if Text.size t < 2 then .error .premature else twoDigits t

/-- The offset in seconds: `Z`, or a sign (also U+2212) with hours and
minutes. -/
def offset : Text → Except Fault (Int × Text)
  | [] => .error .premature
  | c :: t =>
    if c = 'Z' ∨ c = 'z' then .ok (0, t)
    else if c = '+' ∨ c = '-' ∨ c = '−' then do
      let (hours, t) ← offsetDigits t
      let t ← oneOf [':'] t
      let (minutes, t) ← offsetDigits t
      require .outOfRange (minutes < 60)
      let seconds : Int := (hours * 3600 + minutes * 60 : Nat)
      return (if c = '+' then seconds else -seconds, t)
    else .error .invalid

/-- A timestamp from its text.  The second 60 is the leap second after 59. -/
def read? (t : Text) : Except Fault Timestamp := do
  require .premature (19 ≤ Text.size t)
  let (date, t) ← date t
  let t ← oneOf ['T', 't', ' '] t
  let ((hour, minute, second), t) ← clock t
  let (nanos, t) ← nanos t
  require .outOfRange (hour < 24 && minute < 60 && second ≤ 60)
  let (offset, t) ← offset t
  require .trailing t.isEmpty
  require .outOfRange (offset.natAbs < 86400)
  let leap := second == 60
  let second := if leap then 59 else second
  return {
    seconds := date.toDays * Timestamp.secondsPerDay +
      (hour * 3600 + minute * 60 + second : Nat) -
      offset
    nanos := if leap then nanos + 1_000_000_000 else nanos
    offset }

end Logline.Rfc3339
