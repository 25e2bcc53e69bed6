import Logline.Proofs.Converter.EscapeFree
/-!
What a terminal shows.  It reads a line byte by byte; `ESC [ n m` sets the
color of what comes after it, `ESC [ 0 m` clears the color, and every other
byte is shown in the color that is set (`Shows`).
-/
namespace Logline

/-! ### Reading bytes -/

/-- A byte on the screen, and the number of its color if it has one. -/
structure Cell where
  byte : UInt8
  color : Option Nat
deriving DecidableEq, Repr

namespace Terminal

/-- What a terminal is reading. -/
inductive Phase
  | text
  /-- What comes after an escape byte. -/
  | escape
  /-- The number of an escape sequence, as far as it has come in. -/
  | number (n : Nat)
deriving DecidableEq, Repr

end Terminal

/-- A terminal between two bytes, with the number of the color that it writes
in. -/
structure Terminal where
  pen : Option Nat
  phase : Terminal.Phase
deriving DecidableEq, Repr

namespace Terminal

/-- The terminal between two characters of a text. -/
def ready (pen : Option Nat) : Terminal := ⟨pen, .text⟩

/-- What a byte puts on the screen. -/
def shown (s : Terminal) (b : UInt8) : List Cell :=
  match s.phase with
  | .text => if b = 0x1b then [] else [⟨b, s.pen⟩]
  | .escape | .number _ => []

/-- The terminal after a byte.  A sequence of another form than that of colors
is skipped. -/
def next (s : Terminal) (b : UInt8) : Terminal :=
  match s.phase with
  | .text => if b = 0x1b then { s with phase := .escape } else s
  | .escape => { s with phase := if b = 0x5b then .number 0 else .text }
  | .number n =>
    if 0x30 ≤ b ∧ b ≤ 0x39 then
      { s with phase := .number (10 * n + (b.toNat - 0x30)) }
    else if b = 0x6d then ready (if n = 0 then none else some n)
    else { s with phase := .text }

/-- The terminal after a row of bytes. -/
def after (s : Terminal) (bytes : Bytes) : Terminal :=
  bytes.foldl next s

/-- What a row of bytes puts on the screen. -/
def display (s : Terminal) : Bytes → List Cell
  | [] => []
  | b :: rest => s.shown b ++ (s.next b).display rest

theorem after_append (s : Terminal) (left right : Bytes) :
    s.after (left ++ right) = (s.after left).after right :=
  List.foldl_append

theorem display_append (s : Terminal) (left right : Bytes) :
    s.display (left ++ right) = s.display left ++
      (s.after left).display right := by
  induction left generalizing s with
  | nil => rfl
  | cons b left ih =>
      rw [List.cons_append, display, display, ih, List.append_assoc]
      rfl

/-- Bytes without an escape are shown as they are. -/
theorem display_of_not_mem (pen : Option Nat) {bytes : Bytes}
    (h : (0x1b : UInt8) ∉ bytes) :
    (ready pen).display bytes = bytes.map (⟨·, pen⟩) ∧
      (ready pen).after bytes = ready pen := by
  induction bytes with
  | nil => exact ⟨rfl, rfl⟩
  | cons b rest ih =>
      rw [List.mem_cons, not_or] at h
      obtain ⟨hdisplay, hafter⟩ := ih h.2
      have hb : b ≠ 0x1b := Ne.symm h.1
      have hnext : (ready pen).next b = ready pen := if_neg hb
      have hshown : (ready pen).shown b = [⟨b, pen⟩] := if_neg hb
      constructor
      · rw [display, hnext, hshown, hdisplay, List.map_cons,
          List.singleton_append]
      · rw [after, List.foldl_cons, hnext]
        exact hafter

end Terminal

/-! ### Reading texts -/

/-- The text in one color. -/
def Text.paint (pen : Option Nat) (t : Text) : List Cell :=
  t.utf8.map (⟨·, pen⟩)

/-- A terminal that writes in `pen` shows the cells for the text, and writes in
`last` then. -/
structure Shows (pen : Option Nat) (t : Text) (cells : List Cell)
    (last : Option Nat) : Prop where
  display : (Terminal.ready pen).display t.utf8 = cells
  after : (Terminal.ready pen).after t.utf8 = Terminal.ready last

namespace Shows

variable {pen : Option Nat}

theorem nil : Shows pen [] [] pen := ⟨rfl, rfl⟩

theorem append {middle last : Option Nat} {s t : Text} {left right : List Cell}
    (hs : Shows pen s left middle) (ht : Shows middle t right last) :
    Shows pen (s ++ t) (left ++ right) last where
  display := by
    rw [Text.utf8_append, Terminal.display_append, hs.display,
      hs.after, ht.display]
  after := by
    rw [Text.utf8_append, Terminal.after_append, hs.after, ht.after]

theorem of_escapeFree (pen : Option Nat) {t : Text} (h : t.EscapeFree) :
    Shows pen t (t.paint pen) pen := by
  obtain ⟨hdisplay, hafter⟩ := Terminal.display_of_not_mem pen h.not_mem_utf8
  exact ⟨hdisplay, hafter⟩

/-- The sequence of a color shows nothing and sets the color. -/
theorem sequence (pen : Option Nat) (c : Color) :
    Shows pen c.sequence [] (some c.code) := by
  obtain ⟨hue, bright⟩ := c
  cases hue <;> cases bright <;> exact ⟨rfl, rfl⟩

theorem reset : Shows pen Color.reset [] none := ⟨rfl, rfl⟩

/-- Where there is no color to start, the one that is set goes on. -/
theorem startText (pen : Option Nat) (c : Option Color) :
    Shows pen (Color.startText c) [] ((c.map Color.code).or pen) := by
  cases c with
  | none => exact nil
  | some c => exact sequence pen c

end Shows

end Logline
