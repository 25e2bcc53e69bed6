/-!
Text is a list of characters and a payload a list of bytes, so that every rule
of the library can be stated by recursion on the data.  This module fixes the
two types and the measures on them: `Text.utf8` (the bytes of a text) and
`Text.size` (their number), plus decimal digits.
-/
namespace Logline

/-- A text is its characters in order. -/
abbrev Text := List Char

/-- A payload, or anything already encoded, is its bytes in order. -/
abbrev Bytes := List UInt8

namespace Text

/-- The UTF-8 bytes of a text. -/
def utf8 (t : Text) : Bytes :=
  t.flatMap String.utf8EncodeChar

/-- The number of UTF-8 bytes of a text. -/
def size : Text → Nat
  | [] => 0
  | c :: rest => c.utf8Size + size rest

@[simp] theorem utf8_nil : utf8 [] = [] := rfl

@[simp] theorem utf8_cons (c : Char) (t : Text) :
    utf8 (c :: t) = String.utf8EncodeChar c ++ utf8 t := rfl

@[simp] theorem utf8_append (s t : Text) :
    utf8 (s ++ t) = utf8 s ++ utf8 t := by
  simp [utf8]

@[simp] theorem size_nil : size [] = 0 := rfl

@[simp] theorem size_cons (c : Char) (t : Text) :
    size (c :: t) = c.utf8Size + size t := rfl

@[simp] theorem size_append (s t : Text) : size (s ++ t) = size s + size t := by
  induction s with
  | nil => simp
  | cons c s ih => simp [ih, Nat.add_assoc]

/-- The texts in order with `separator` between neighbours. -/
def join (separator : Text) (parts : List Text) : Text :=
  List.intercalate separator parts

/-- A natural number in decimal. -/
def ofNat (n : Nat) : Text :=
  Nat.toDigits 10 n

/-- An integer in decimal, with a minus sign below zero. -/
def ofInt : Int → Text
  | .ofNat n => ofNat n
  | .negSucc n => '-' :: ofNat (n + 1)

/-- The text behind as many copies of `fill` as bring it to `width`
characters. -/
def padLeft (fill : Char) (width : Nat) (t : Text) : Text :=
  List.replicate (width - t.length) fill ++ t

/-- A natural number in decimal with leading zeros up to `width` digits. -/
def zeroPadded (width n : Nat) : Text :=
  padLeft '0' width (ofNat n)

/-- The number that a run of decimal digits writes. -/
def digitsValue (t : Text) : Nat :=
  Nat.ofDigitChars 10 t 0

/-- The text without the zeros at its end. -/
def dropTrailingZeros (t : Text) : Text :=
  (t.reverse.dropWhile (· == '0')).reverse

/-- The pattern occurs somewhere in the text. -/
def includes (t part : Text) : Bool :=
  part.isPrefixOf t || match t with
    | [] => false
    | _ :: rest => includes rest part

end Text

namespace Bytes

/-- A buffer that has been cleared, to be filled again. -/
def cleared (buffer : Bytes) : Bytes :=
  buffer.take 0

@[simp] theorem cleared_eq (buffer : Bytes) : buffer.cleared = [] := rfl

/-- The bytes of `part` occur somewhere in a row. -/
def includes (b part : Bytes) : Bool :=
  part.isPrefixOf b || match b with
    | [] => false
    | _ :: rest => includes rest part

end Bytes

end Logline
