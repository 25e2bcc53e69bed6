import Logline.Json.Value
import Logline.Text.Utf8
/-!
Strings in JSON texts.  A string is scanned up to its closing quote into
pieces, characters and the 16-bit units of `\u` escapes (`StringScan`).
Skipping a string asks for the form of the escapes only; reading it joins the
units to characters (`decodePieces`) and refuses lone surrogates and bytes that
are no UTF-8.
-/
namespace Logline.Json

/-- A part of a string. -/
inductive Piece
  | symbol (s : Symbol)
  | unit (n : Nat)
deriving DecidableEq, Repr

/-- The pieces of a string, the fault that ends it before a closing quote, and
the number of symbols that it takes. -/
structure StringScan where
  pieces : List Piece
  fault : Option Fault
  used : Nat
deriving DecidableEq, Repr

namespace StringScan

/-- A scan that continues another one with one more piece in front. -/
def after (piece : Piece) (used : Nat) (scan : StringScan) : StringScan :=
  ⟨piece :: scan.pieces, scan.fault, used + scan.used⟩

def closed : StringScan := ⟨[], none, 1⟩

def failed (fault : Fault) : StringScan := ⟨[], some fault, 0⟩

end StringScan

/-- The character that a letter after a backslash stands for. -/
def unescaped? : Char → Option Char
  | '"' => some '"'
  | '\\' => some '\\'
  | '/' => some '/'
  | 'b' => some '\x08'
  | 'f' => some '\x0c'
  | 'n' => some '\n'
  | 'r' => some '\r'
  | 't' => some '\t'
  | _ => none

def hexDigit? (s : Symbol) : Option Nat :=
  s.bind fun c =>
    if c.isDigit then some (c.toNat - '0'.toNat)
    else if 'a' ≤ c ∧ c ≤ 'f' then some (c.toNat - 'a'.toNat + 10)
    else if 'A' ≤ c ∧ c ≤ 'F' then some (c.toNat - 'A'.toNat + 10)
    else none

/-- The unit of four hexadecimal digits. -/
def hexUnit? (a b c d : Symbol) : Option Nat := do
  let a ← hexDigit? a
  let b ← hexDigit? b
  let c ← hexDigit? c
  let d ← hexDigit? d
  return 4096 * a + 256 * b + 16 * c + d

/-- The bytes that symbols take. -/
def symbolsSize (s : List Symbol) : Nat :=
  s.foldl (fun n c => n + Utf8.symbolSize c) 0

/-- The string whose opening quote has been read. -/
def scanString : List Symbol → StringScan
  | [] => .failed .truncated
  | some '"' :: _ => .closed
  | some '\\' :: some 'u' :: a :: b :: c :: d :: rest =>
    match hexUnit? a b c d with
    | some n => (scanString rest).after (.unit n) 6
    | none => .failed .malformed
  | some '\\' :: some 'u' :: rest =>
    .failed (if 4 ≤ symbolsSize rest then .malformed else .truncated)
  | some '\\' :: some e :: rest =>
    match unescaped? e with
    | some c => (scanString rest).after (.symbol (some c)) 2
    | none => .failed .malformed
  | some '\\' :: none :: _ => .failed .malformed
  | [some '\\'] => .failed .truncated
  | some c :: rest =>
    if c.toNat < 32 then .failed .malformed
      else (scanString rest).after (.symbol (some c)) 1
  | none :: rest => (scanString rest).after (.symbol none) 1

def isHighSurrogate (n : Nat) : Bool := 0xD800 ≤ n && n ≤ 0xDBFF

def isLowSurrogate (n : Nat) : Bool := 0xDC00 ≤ n && n ≤ 0xDFFF

/-- The character of a pair of surrogates. -/
def joinSurrogates (high low : Nat) : Char :=
  Char.ofNat (0x10000 + (high - 0xD800) * 0x400 + (low - 0xDC00))

/-- The text of a string.  A high surrogate wants a low one right behind it;
where the string breaks off instead, that is the fault.  Stray bytes count only
once the string is complete. -/
def decodePieces (fault : Option Fault) : List Piece → Except Fault Text
  | [] => match fault with
    | none => .ok []
    | some f => .error f
  | .symbol (some c) :: rest => (decodePieces fault rest).map (c :: ·)
  | .symbol none :: rest =>
    decodePieces fault rest >>= fun _ => .error .malformed
  | .unit n :: rest =>
    if isLowSurrogate n then .error .malformed
    else if isHighSurrogate n then
      match rest with
      | .unit m :: rest =>
        if isLowSurrogate m then
          (decodePieces fault rest).map (joinSurrogates n m :: ·)
        else .error .malformed
      | [] => .error (fault.getD .malformed)
      | .symbol _ :: _ => .error .malformed
    else (decodePieces fault rest).map (Char.ofNat n :: ·)

/-- The text of a scanned string. -/
def StringScan.text (scan : StringScan) : Except Fault Text :=
  decodePieces scan.fault scan.pieces

end Logline.Json
