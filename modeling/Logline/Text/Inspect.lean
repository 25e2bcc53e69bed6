import Logline.Text.Quoted
/-!
Values as text for inspection: the pieces that the texts of all inspected
values are made of.
-/
namespace Logline

namespace Inspect

/-- A value that may be missing. -/
def optional (t : Option Text) : Text :=
  match t with
  | some t => "Some(".toList ++ t ++ [')']
  | none => "None".toList

/-- Values in brackets. -/
def list (items : List Text) : Text :=
  '[' :: Text.join ", ".toList items ++ [']']

/-- Named fields in braces behind the name of a record. -/
def record (name : Text) (fields : List (Text × Text)) : Text :=
  name ++ " \x7b ".toList ++
    Text.join ", ".toList
      (fields.map fun field => field.1 ++ ": ".toList ++ field.2) ++
    " \x7d".toList

def bool (b : Bool) : Text :=
  if b then "true".toList else "false".toList

end Inspect

end Logline
