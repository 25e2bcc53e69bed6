import Logline.Text.Basic
/-!
The sixteen colors of a terminal, the names that patterns use for them, and the
escape sequences that set and reset them.
-/
namespace Logline

inductive Hue
  | black
  | red
  | green
  | yellow
  | blue
  | magenta
  | cyan
  | white
deriving DecidableEq, Repr

/-- A terminal color: one of eight hues, plain or bright. -/
structure Color where
  hue : Hue
  bright : Bool
deriving DecidableEq, Repr

namespace Hue

def all : List Hue := [black, red, green, yellow, blue, magenta, cyan, white]

def index : Hue → Nat
  | black => 0
  | red => 1
  | green => 2
  | yellow => 3
  | blue => 4
  | magenta => 5
  | cyan => 6
  | white => 7

/-- The name of the hue in patterns. -/
def name : Hue → Text
  | black => "black".toList
  | red => "red".toList
  | green => "green".toList
  | yellow => "yellow".toList
  | blue => "blue".toList
  | magenta => "magenta".toList
  | cyan => "cyan".toList
  | white => "white".toList

end Hue

namespace Color

def white : Color := ⟨.white, false⟩

/-- Every color, plain ones first. -/
def all : List Color :=
  Hue.all.map (⟨·, false⟩) ++ Hue.all.map (⟨·, true⟩)

/-- The name of the color in patterns: that of the hue, with `br` behind it for
a bright one. -/
def name (c : Color) : Text :=
  c.hue.name ++ if c.bright then "br".toList else []

/-- The color with this name. -/
def ofName? (t : Text) : Option Color :=
  all.find? fun c => c.name == t

/-- The number that sets the color as foreground. -/
def code (c : Color) : Nat :=
  (if c.bright then 90 else 30) + c.hue.index

/-- The escape sequence that sets the color as foreground. -/
def sequence (c : Color) : Text :=
  '\x1b' :: '[' :: Text.ofNat c.code ++ ['m']

/-- The escape sequence that returns to no color. -/
def reset : Text := ['\x1b', '[', '0', 'm']

example : ofName? "redbr".toList = some ⟨.red, true⟩ := by decide

example : (Color.mk .cyan false).sequence = "\x1b[36m".toList := by decide

end Color

end Logline
