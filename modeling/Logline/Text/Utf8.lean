import Logline.Text.Basic
/-!
Reading bytes as UTF-8.  A payload is read as a row of symbols: the characters
it encodes, and a gap for every byte that belongs to no encoding.  Bytes below
`0x80` always stand for themselves, so a gap never swallows one of them.
-/
namespace Logline

/-- A character of a payload, or a byte that is part of no well-formed
encoding. -/
abbrev Symbol := Option Char

namespace Utf8

/-- The six bits that a continuation byte carries. -/
def continuation? (b : UInt8) : Option Nat :=
  if 0x80 ≤ b.toNat ∧ b.toNat < 0xC0 then some (b.toNat - 0x80) else none

/-- The character with this code, if it is a scalar value that needs more than
`low` codes. -/
def scalar? (low code : Nat) : Option Char :=
  if low ≤ code ∧ code.isValidChar then some (Char.ofNat code) else none

/-- The character whose encoding starts with `b`, and the number of bytes of it
that follow. -/
def leading? (b : UInt8) (rest : Bytes) : Option (Char × Nat) :=
  let n := b.toNat
  if n < 0x80 then some (Char.ofNat n, 0)
  else if n < 0xC2 then none
  else if n < 0xE0 then
    match rest with
    | x :: _ => do
      let x ← continuation? x
      let c ← scalar? 0x80 ((n - 0xC0) * 64 + x)
      some (c, 1)
    | _ => none
  else if n < 0xF0 then
    match rest with
    | x :: y :: _ => do
      let x ← continuation? x
      let y ← continuation? y
      let c ← scalar? 0x800 ((n - 0xE0) * 4096 + x * 64 + y)
      some (c, 2)
    | _ => none
  else if n < 0xF5 then
    match rest with
    | x :: y :: z :: _ => do
      let x ← continuation? x
      let y ← continuation? y
      let z ← continuation? z
      let c ← scalar? 0x10000 ((n - 0xF0) * 262144 + x * 4096 + y * 64 + z)
      some (c, 3)
    | _ => none
  else none

/-- The symbols of the bytes after the first `skip`, which an earlier symbol
has used. -/
def symbolsFrom : Nat → Bytes → List Symbol
  | _, [] => []
  | skip + 1, _ :: rest => symbolsFrom skip rest
  | 0, b :: rest =>
    match leading? b rest with
    | some (c, used) => some c :: symbolsFrom used rest
    | none => none :: symbolsFrom 0 rest

/-- The symbols of a payload in order. -/
def symbols (b : Bytes) : List Symbol :=
  symbolsFrom 0 b

/-- The text that the bytes encode, if every byte belongs to a character. -/
def decode? (b : Bytes) : Option Text :=
  (symbols b).mapM id

example : decode? (Text.utf8 ['a', 'é', '日', '🎉']) =
    some ['a', 'é', '日', '🎉'] := by decide

example : symbols [0xE2, 0x82, 0x41, 0xFF] = [none, none, some 'A', none] := by
  decide

/-- The number of bytes that a symbol takes in its payload. -/
def symbolSize : Symbol → Nat
  | some c => c.utf8Size
  | none => 1

end Utf8

end Logline
