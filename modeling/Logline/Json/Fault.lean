import Logline.Text.Basic
/-!
The three ways in which reading a JSON text fails.
-/
namespace Logline.Json

inductive Fault
  /-- The text ends too early. -/
  | truncated
  /-- The text is no JSON, holds a number out of range, is nested too deep or
  goes on too long. -/
  | malformed
  /-- The text is JSON, but not of the shape asked for. -/
  | mismatched
deriving DecidableEq, Repr

end Logline.Json
