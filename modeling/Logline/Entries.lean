import Logline.Text.Basic
/-!
Maps that keep the order in which their keys were first inserted, as lists of
entries.
-/
namespace Logline

/-- Keys with their values, in the order of first insertion. -/
abbrev Entries (α : Type) := List (Text × α)

namespace Entries

variable {α : Type}

/-- The map with `value` under `key`: in place of the old value, or as a new
last entry. -/
def insert (key : Text) (value : α) : Entries α → Entries α
  | [] => [(key, value)]
  | (k, v) :: rest =>
    if k = key then (k, value) :: rest else (k, v) :: insert key value rest

/-- The value under a key. -/
def get? (key : Text) : Entries α → Option α
  | [] => none
  | (k, v) :: rest => if k = key then some v else get? key rest

/-- The map without a key; the other entries keep their order. -/
def erase (key : Text) (entries : Entries α) : Entries α :=
  entries.filter fun entry => entry.1 ≠ key

/-- The map after inserting a row of entries one by one. -/
def insertAll (entries : Entries α) (new : List (Text × α)) : Entries α :=
  new.foldl (fun entries entry => insert entry.1 entry.2 entries) entries

end Entries

end Logline
