import Logline.Text.Basic
/-!
Lengths of time and their written form: the largest unit with a whole part
among seconds, milliseconds, microseconds and nanoseconds, and the rest of it
as a fraction without trailing zeros.
-/
namespace Logline

/-- A length of time in whole seconds and the nanoseconds beyond them. -/
structure Duration where
  seconds : Nat
  nanos : Nat
deriving DecidableEq, Repr

namespace Duration

/-- The length of so many seconds and nanoseconds, a billion of the latter
making a second. -/
def ofParts (seconds nanos : Nat) : Duration :=
  ⟨seconds + nanos / 1_000_000_000, nanos % 1_000_000_000⟩

def ofMillis (millis : Nat) : Duration :=
  ⟨millis / 1_000, millis % 1_000 * 1_000_000⟩

/-- A whole number, then `fraction` as a decimal fraction of `places` places,
then the unit. -/
def withUnit (whole fraction places : Nat) (unit : Text) : Text :=
  let digits := Text.dropTrailingZeros (Text.zeroPadded places fraction)
  let digits := if fraction = 0 then [] else '.' :: digits
  Text.ofNat whole ++ digits ++ unit

def text (d : Duration) : Text :=
  if 0 < d.seconds then withUnit d.seconds d.nanos 9 ['s']
  else if 1_000_000 ≤ d.nanos then
    withUnit (d.nanos / 1_000_000) (d.nanos % 1_000_000) 6 ['m', 's']
  else if 1_000 ≤ d.nanos then
    withUnit (d.nanos / 1_000) (d.nanos % 1_000) 3 ['µ', 's']
  else withUnit d.nanos 0 0 ['n', 's']

example : (ofParts 1 500000000).text = "1.5s".toList := by decide

example : (ofParts 0 1000001).text = "1.000001ms".toList := by decide

example : (ofMillis 0).text = "0ns".toList := by decide

end Duration

end Logline
