import Logline.Json.Value
import Logline.Text.Utf8
/-!
Numbers in JSON texts: their form (`NumberText.scan`) and their value
(`NumberText.value`).

Digits are collected into 64 bits and the decimal exponent is applied in one
multiplication or division of doubles, so the value of a long or small number
may be next to the nearest double.
-/
namespace Logline.Json

/-- The parts of a number as it is written. -/
structure NumberText where
  negative : Bool
  whole : Text
  fraction : Option Text
  /-- The sign that is written, if one is, and whether it is a minus; then the
  digits. -/
  exponent : Option (Option Bool × Text)
deriving DecidableEq, Repr

/-- The leading digits, and what follows them. -/
def digits : List Symbol → Text × List Symbol
  | some c :: rest =>
    if c.isDigit then ((c :: (digits rest).1), (digits rest).2)
      else ([], some c :: rest)
  | rest => ([], rest)

/-- Why a number breaks off: at the end of the text, or at some other
character. -/
inductive NumberBreak
  | atEnd
  | inside
deriving DecidableEq, Repr

def NumberBreak.of (rest : List Symbol) : NumberBreak :=
  if rest.isEmpty then .atEnd else .inside

namespace NumberText

/-- The digits before the point; a leading zero stands alone. -/
def scanWhole (s : List Symbol) : Except NumberBreak (Text × List Symbol) :=
  match digits s with
  | ([], rest) => .error (.of rest)
  | ('0' :: _ :: _, _) => .error .inside
  | (whole, rest) => .ok (whole, rest)

/-- The digits after a point, if there is one. -/
def scanFraction : List Symbol → Except NumberBreak (Option Text × List Symbol)
  | some '.' :: rest =>
    match digits rest with
    | ([], rest) => .error (.of rest)
    | (fraction, rest) => .ok (some fraction, rest)
  | rest => .ok (none, rest)

/-- The sign of an exponent, if one is written. -/
def scanSign : List Symbol → Option Bool × List Symbol
  | some '+' :: rest => (some false, rest)
  | some '-' :: rest => (some true, rest)
  | rest => (none, rest)

/-- The exponent, if there is one. -/
def scanExponent :
    List Symbol → Except NumberBreak (Option (Option Bool × Text))
  | some c :: rest =>
    if c = 'e' ∨ c = 'E' then
      let (sign, rest) := scanSign rest
      match digits rest with
      | ([], rest) => .error (.of rest)
      | (exponent, _) => .ok (some (sign, exponent))
    else .ok none
  | _ => .ok none

/-- The number that a text starts with. -/
def scan (s : List Symbol) : Except NumberBreak NumberText := do
  let (negative, s) := match s with
    | some '-' :: rest => (true, rest)
    | s => (false, s)
  let (whole, s) ← scanWhole s
  let (fraction, s) ← scanFraction s
  let exponent ← scanExponent s
  return { negative, whole, fraction, exponent }

/-- The number of characters of a number. -/
def length (n : NumberText) : Nat :=
  (if n.negative then 1 else 0) + n.whole.length +
    (match n.fraction with
      | some fraction => 1 + fraction.length
      | none => 0) +
    match n.exponent with
      | some (sign, exponent) =>
        1 + (if sign.isSome then 1 else 0) + exponent.length
      | none => 0

/-- The significand after the digits that still fit into 64 bits, and the
number of those that do not. -/
def absorb (m : Nat) : Text → Nat × Nat
  | [] => (m, 0)
  | c :: rest =>
    let next := 10 * m + (c.toNat - '0'.toNat)
    if next < UInt64.size then absorb next rest else (m, rest.length + 1)

/-- A power of ten as a double. -/
def powerOfTen (e : Nat) : Double :=
  Double.ofNat (Nat.pow 10 e)

/-- A double divided by a power of ten, by at most the 308th at a time. -/
def divideByPower (d : Double) (e : Nat) : Double :=
  if e ≤ 308 then d.div (powerOfTen e)
  else if d.isZero then d
  else divideByPower (d.div (powerOfTen 308)) (e - 308)
termination_by e

/-- A significand times a power of ten; there is no infinite number. -/
def scaled (m : Nat) (e : Int) : Except Fault Double :=
  let d := Double.ofNat m
  if e < 0 then .ok (divideByPower d e.natAbs)
  else if d.isZero then .ok d
  else if 308 < e then .error .malformed
  else
    let product := d.mul (powerOfTen e.natAbs)
    if product.isFinite then .ok product else .error .malformed

/-- A significand with a decimal exponent on top of the one that is written.  A
written exponent beyond 32 bits leaves zero or a number out of range. -/
def withExponent (m : Nat) (shift : Int) :
    Option (Option Bool × Text) → Except Fault Double
  | none => scaled m shift
  | some (sign, exponent) =>
    let e := Text.digitsValue exponent
    let negative := sign == some true
    if 0x8000_0000 ≤ e then
      if m ≠ 0 ∧ !negative then .error .malformed else .ok Double.zero
    else scaled m (if negative then shift - e else shift + e)

/-- The value of a number: an integer if it is written as one and fits into 64
bits, with or without sign, and else a double.  Minus zero is a double. -/
def value (n : NumberText) : Except Fault Number := do
  let (m, skipped) := absorb 0 n.whole
  let sign (d : Double) : Double := if n.negative then d.neg else d
  if n.fraction.isNone ∧ n.exponent.isNone ∧ skipped = 0 then
    if !n.negative then return .integer m
    else if 0 < m ∧ m ≤ 0x8000_0000_0000_0000 then return .integer (-m)
    else return .double (Double.ofNat m).neg
  else
    let fraction := n.fraction.getD []
    let (m, dropped) := absorb m fraction
    let shift : Int := skipped - ((fraction.length - dropped : Nat) : Int)
    return .double (sign (← withExponent m shift n.exponent))

end NumberText

end Logline.Json
