/-!
Double-precision numbers as their IEEE 754 words.  A finite word stands for an
exact fraction; arithmetic takes the exact result of the fractions and rounds
it once, to the nearest word and to the even one of two equally near
(`Double.ofRatio`).
-/
namespace Logline

/-- A double-precision number, by its 64 bits. -/
structure Double where
  bits : UInt64
deriving DecidableEq, Repr

namespace Double

/-- The first bit of a word, which tells the sign. -/
def signBit : Nat := 0x8000_0000_0000_0000

/-- The unit of the exponent in a word, and the leading bit of a significand
that has all its bits: two to the 52nd. -/
def hiddenBit : Nat := 0x0010_0000_0000_0000

/-- The word has the sign bit. -/
def isNegative (d : Double) : Bool :=
  decide (signBit ≤ d.bits.toNat)

/-- The word without its sign bit. -/
def magnitude (d : Double) : Nat :=
  d.bits.toNat % signBit

/-- The least word above every finite magnitude: that of infinity. -/
def infinityWord : Nat :=
  2047 * hiddenBit

def isFinite (d : Double) : Bool :=
  decide (d.magnitude < infinityWord)

def isNaN (d : Double) : Bool :=
  decide (infinityWord < d.magnitude)

/-- The word with this sign and magnitude. -/
def ofWord (negative : Bool) (magnitude : Nat) : Double :=
  ⟨UInt64.ofNat (if negative then signBit + magnitude else magnitude)⟩

/-- The number with the other sign. -/
def neg (d : Double) : Double :=
  ofWord (!d.isNegative) d.magnitude

/-- The integer `m` of a finite magnitude `m * 2 ^ q`. -/
def significand (d : Double) : Nat :=
  if d.magnitude < hiddenBit then d.magnitude
    else hiddenBit + d.magnitude % hiddenBit

/-- The exponent `q` of a finite magnitude `m * 2 ^ q`. -/
def exponent (d : Double) : Int :=
  if d.magnitude < hiddenBit then -1074
    else (d.magnitude / hiddenBit : Nat) - 1075

/-- A finite magnitude as a fraction. -/
def ratio (d : Double) : Nat × Nat :=
  (d.significand * Nat.pow 2 d.exponent.toNat, Nat.pow 2 (-d.exponent).toNat)

/-- The quotient rounded to the nearest integer, and to the even one of two
equally near. -/
def roundDiv (num den : Nat) : Nat :=
  let floor := num / den
  let rest := 2 * (num % den)
  if rest < den || (rest == den && floor % 2 == 0) then floor else floor + 1

/-- The exponent at which a positive fraction has a significand of 53 bits, or
the least exponent if the fraction is too small for that. -/
def scale (num den : Nat) : Int :=
  let low := max ((num.log2 : Int) - den.log2 - 53) (-1074)
  if num * Nat.pow 2 (-low).toNat <
      2 * hiddenBit * (den * Nat.pow 2 low.toNat) then low
  else low + 1

/-- The number nearest to a fraction.  Rounding up past a power of two carries
into the exponent by itself, and whatever lies beyond the greatest finite word
becomes infinity. -/
def ofRatio (negative : Bool) (num den : Nat) : Double :=
  if num = 0 then ofWord negative 0
  else
    let q := scale num den
    let m := roundDiv (num * Nat.pow 2 (-q).toNat) (den * Nat.pow 2 q.toNat)
    ofWord negative (min ((q + 1074).toNat * hiddenBit + m) infinityWord)

def ofNat (n : Nat) : Double :=
  ofRatio false n 1

/-- The product of finite numbers. -/
def mul (a b : Double) : Double :=
  let (an, ad) := a.ratio
  let (bn, bd) := b.ratio
  ofRatio (a.isNegative != b.isNegative) (an * bn) (ad * bd)

/-- The quotient of finite numbers, the second not zero. -/
def div (a b : Double) : Double :=
  let (an, ad) := a.ratio
  let (bn, bd) := b.ratio
  ofRatio (a.isNegative != b.isNegative) (an * bd) (ad * bn)

/-- The sum of the magnitudes of finite numbers. -/
def addMagnitudes (a b : Double) : Double :=
  let (an, ad) := a.ratio
  let (bn, bd) := b.ratio
  ofRatio false (an * bd + bn * ad) (ad * bd)

def zero : Double := ofWord false 0

def isZero (d : Double) : Bool :=
  d.magnitude == 0

example : (ofNat 1).bits = 0x3FF0000000000000 := by decide +kernel

example : ((ofNat 1).div (ofNat 3)).bits = 0x3FD5555555555555 := by
  decide +kernel

example : (ofRatio true 1 (10 ^ 400)).bits = 0x8000000000000000 := by
  decide +kernel

example : (ofNat (10 ^ 309)).isFinite = false := by decide +kernel

end Double

end Logline
