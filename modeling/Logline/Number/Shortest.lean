import Logline.Text.Basic
import Logline.Number.Double
/-!
The shortest decimal that reads back as a given double, and its plain notation.

The reals that round to a finite number `m * 2 ^ q` form an interval whose ends
belong to it exactly if `m` is even.  For one digit, two digits and so on, the
two neighbours of the number on that decimal grid are tried: the first grid
with a neighbour inside the interval gives the length, the nearer of two such
neighbours the digits.
-/
namespace Logline

/-- The decimal `digits * 10 ^ exponent`. -/
structure Decimal where
  digits : Nat
  exponent : Int
deriving DecidableEq, Repr

/-- The neighbour taken when two of the shortest decimals are equally near. -/
inductive Tie
  | up
  | even
deriving DecidableEq, Repr

namespace Decimal

/-- The digits in writing, without trailing zeros. -/
def text (d : Decimal) : Text :=
  Text.dropTrailingZeros (Text.ofNat d.digits)

/-- The power of ten of the first digit. -/
def leadingExponent (d : Decimal) : Int :=
  d.exponent + (Text.ofNat d.digits).length - 1

end Decimal

namespace Double

/-- The least exponent `e` such that the positive number lies below `10 ^ e`. -/
def decimalCeiling (d : Double) : Int :=
  let (num, den) := d.ratio
  let e := ((Text.ofNat num).length : Int) - (Text.ofNat den).length
  if num * Nat.pow 10 (-e).toNat < den * Nat.pow 10 e.toNat then e else e + 1

/-- A neighbour of the positive number on the grid of multiples of `10 ^ k`
that rounds to it. -/
def onGrid? (d : Double) (tie : Tie) (k : Int) : Option Nat :=
  let m := d.significand
  let q := d.exponent - 2
  let unit := Nat.pow 2 q.toNat * Nat.pow 10 (-k).toNat
  let grid := Nat.pow 2 (-q).toNat * Nat.pow 10 k.toNat
  let low := if m == hiddenBit && d.exponent != -1074 then 4 * m - 1
    else 4 * m - 2
  let inside (n : Nat) : Bool :=
    if m % 2 = 0 then low * unit ≤ n * grid && n * grid ≤ (4 * m + 2) * unit
    else low * unit < n * grid && n * grid < (4 * m + 2) * unit
  let value := 4 * m * unit
  let floor := value / grid
  let rest := 2 * (value % grid)
  let nearer :=
    if rest < grid then floor
    else if grid < rest then floor + 1
    else match tie with
      | .up => floor + 1
      | .even => if floor % 2 = 0 then floor else floor + 1
  if inside floor && inside (floor + 1) then some nearer
  else if inside floor then some floor
  else if inside (floor + 1) then some (floor + 1)
  else none

/-- The first decimal found on the grids of `n` digits, `n + 1` digits and so
on. -/
def searchGrids (d : Double) (tie : Tie) (ceiling : Int) : Nat → Nat → Decimal
  | 0, n => ⟨d.significand, ceiling - n⟩
  | budget + 1, n =>
    match d.onGrid? tie (ceiling - n) with
    | some digits => ⟨digits, ceiling - n⟩
    | none => searchGrids d tie ceiling budget (n + 1)

/-- The shortest decimal that rounds to the positive finite number.  Seventeen
digits always do. -/
def shortest (d : Double) (tie : Tie) : Decimal :=
  searchGrids d tie d.decimalCeiling 17 1

/-- Digits with the point behind the digit of weight one; `exponent` is that of
the first digit. -/
def positional (digits : Text) (exponent : Int) : Text × Text :=
  if exponent < 0 then
    (['0'], List.replicate (-exponent - 1).toNat '0' ++ digits)
  else
    let whole := exponent.toNat + 1
    (digits.take whole ++ List.replicate (whole - digits.length) '0',
      digits.drop whole)

/-- A number in plain notation: the shortest digits, never an exponent, no
point in an integer. -/
def plainText (d : Double) : Text :=
  if d.isNaN then "NaN".toList
  else
    let sign := if d.isNegative then ['-'] else []
    if !d.isFinite then sign ++ "inf".toList
    else if d.isZero then sign ++ ['0']
    else
      let shortest := d.shortest .up
      let (whole, fraction) := positional shortest.text shortest.leadingExponent
      sign ++ whole ++ if fraction.isEmpty then [] else '.' :: fraction

example : (ofNat 18446744073709551615).plainText =
    "18446744073709552000".toList := by
  decide +kernel

example : (ofRatio true 1 10000000).plainText = "-0.0000001".toList := by
  decide +kernel

example : (⟨1⟩ : Double).shortest .even = ⟨5, -324⟩ := by decide +kernel

end Double

end Logline
