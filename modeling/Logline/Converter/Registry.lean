import Logline.Converter.Inspect
/-!
Registries of converters: the converter that a name in a pattern starts out as.
-/
namespace Logline

/-- New converters by the names that patterns refer to them with.  The
contract assumed here is that a name makes the same converter each time it
is used, so that an entry is that converter; custom ones are as
`Extension` has them. -/
abbrev Registry (κ : Type) := Entries (Converter κ)

namespace Registry

variable {κ : Type}

/-- The registry with a converter under a name, in place of one that was
there. -/
def register (name : Text) (c : Converter κ) (registry : Registry κ) :
    Registry κ :=
  Entries.insert name c registry

/-- The registry of the built-in converters. -/
def builtins : Registry κ :=
  [("color".toList, .newColor), ("level".toList, .level),
    ("date".toList, .newDate), ("logger".toList, .newLogger),
    ("message".toList, .message), ("fields".toList, .fields)]

/-- A new converter of this name. -/
def make? (name : Text) (registry : Registry κ) : Option (Converter κ) :=
  Entries.get? name registry

def contains (name : Text) (registry : Registry κ) : Bool :=
  (registry.make? name).isSome

/-- One text comes before another in the order of code points. -/
def precedes : Text → Text → Bool
  | [], _ => true
  | _ :: _, [] => false
  | a :: s, b :: t => a < b || (a == b && precedes s t)

/-- The names in the order of code points. -/
def names (registry : Registry κ) : List Text :=
  (registry.map Prod.fst).mergeSort precedes

/-- The registry for inspection. -/
def inspect (registry : Registry κ) : Text :=
  Inspect.record "ConverterRegistry".toList
    [("names".toList, Inspect.list (registry.names.map Text.quoted))]

end Registry

end Logline
