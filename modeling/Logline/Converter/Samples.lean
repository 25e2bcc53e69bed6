import Logline.Converter.Registry
/-!
Some custom converters: a message in upper case, children in angle brackets, a
counter, a converter that refuses options, and one that panics.
-/
namespace Logline

/-- The state of a sample converter. -/
inductive Sample
  /-- The message with its ASCII letters in upper case and an exclamation
  mark. -/
  | shout
  /-- The options and the children in angle brackets. -/
  | wrap (options : List Text)
  /-- The number of events so far. -/
  | count (n : Nat)
  /-- Refuses options. -/
  | reject
  /-- Writes `tick`, and panics if the message holds `boom`. -/
  | bomb
deriving DecidableEq, Repr

namespace Sample

def attachOptions (options : List Text) : Sample → Except Error Sample
  | wrap _ => .ok (wrap options)
  | reject =>
    .error (.invalidConfiguration "reject".toList (Text.join ['|'] options))
  | s => .ok s

def render (e : Event) : Sample → Sample × Rendering
  | shout => (shout, ⟨e.message.map Char.toUpper ++ ['!'], false, [], none⟩)
  | wrap options => (wrap options,
      ⟨'<' :: Text.join ['|'] options ++ [':'], true, ['>'], none⟩)
  | count n => (count (n + 1), ⟨Text.ofNat (n + 1), false, [], none⟩)
  | reject => (reject, ⟨"unrejected".toList, false, [], none⟩)
  | bomb =>
    let panic := if Text.includes e.message "boom".toList then
      some (Panic.message "converter exploded".toList) else none
    (bomb, ⟨"tick".toList, false, [], panic⟩)

/-- The behaviour of the sample converters. -/
def extension : Extension Sample where
  attachOptions state options := state.attachOptions options
  render state e := state.render e

/-- A new converter by the name of its kind: a sample, or a built-in one. -/
def ofKind? (kind text : Text) : Option (Converter Sample) :=
  Entries.get? kind
    [("upper".toList, .custom shout []), ("wrap".toList, .custom (wrap []) []),
      ("count".toList, .custom (count 0) []),
      ("reject".toList, .custom reject []),
      ("bomb".toList, .custom bomb []), ("literal".toList, .literal text),
      ("color".toList, .newColor), ("date".toList, .newDate),
      ("logger".toList, .newLogger),
      ("level".toList, .level), ("message".toList, .message),
      ("fields".toList, .fields)]

end Sample

end Logline
