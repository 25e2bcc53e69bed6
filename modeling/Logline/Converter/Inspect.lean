import Logline.Converter.Basic
import Logline.Text.Inspect
/-!
Converters as text for inspection, with all they hold.
-/
namespace Logline

namespace Color

/-- The color for inspection. -/
def inspect (c : Color) : Text :=
  let hue := match c.hue with
    | .black => "Black".toList
    | .red => "Red".toList
    | .green => "Green".toList
    | .yellow => "Yellow".toList
    | .blue => "Blue".toList
    | .magenta => "Magenta".toList
    | .cyan => "Cyan".toList
    | .white => "White".toList
  if c.bright then "Bright".toList ++ hue else hue

end Color

namespace Converter

variable {κ : Type}

/-- A chain of converters, given the texts of its members. -/
def inspectChain (members : List Text) : Text :=
  Inspect.record "ConverterChain".toList
    [("converters".toList, Inspect.list members)]

mutual

def inspect : Converter κ → Text
  | literal t => "Literal(".toList ++ t.quoted ++ [')']
  | color c children scratch =>
    "Color(".toList ++ Inspect.record "ColorConverter".toList
      [("color".toList, Inspect.optional (c.map Color.inspect)),
        ("child".toList, inspectChain (inspectAll children)),
        ("buf".toList,
          Inspect.list (scratch.map fun b => Text.ofNat b.toNat))] ++ [')']
  | level => "Level".toList
  | date layout =>
    "Date(".toList ++
      Inspect.record "DateLayout".toList
        [("strftime".toList, layout.format.quoted)] ++ [')']
  | logger width =>
    "Logger(".toList ++ Inspect.record "LoggerConverter".toList
      [("width".toList, Inspect.optional (width.map Text.ofNat))] ++ [')']
  | message => "Message".toList
  | fields => "Fields".toList
  | custom _ _ => "Custom(..)".toList

def inspectAll : List (Converter κ) → List Text
  | [] => []
  | c :: rest => inspect c :: inspectAll rest

end

end Converter

end Logline
