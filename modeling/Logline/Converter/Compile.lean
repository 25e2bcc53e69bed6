import Logline.Converter.Registry
import Logline.Pattern.Node
/-!
Compiling patterns.  Every reference becomes a new converter of its name that
takes the options of the reference, if there are some, and then the compiled
children, if there are some.
-/
namespace Logline.Pattern

variable {κ : Type}

mutual

/-- The converter of a node. -/
def compileNode (ext : Extension κ) (registry : Registry κ) :
    Node → Except Error (Converter κ)
  | .literal t => .ok (.literal t)
  | .converter name options children => do
    let c ← match registry.make? name with
      | some c => .ok c
      | none => .error (.unknownConverter name)
    let c ← if options.isEmpty then .ok c else c.attachOptions ext options
    if children.isEmpty then return c
    else return c.attachChildren (← compile ext registry children)

/-- The converters of a pattern, one for each node. -/
def compile (ext : Extension κ) (registry : Registry κ) :
    List Node → Except Error (List (Converter κ))
  | [] => .ok []
  | node :: rest => do
    let c ← compileNode ext registry node
    let cs ← compile ext registry rest
    return c :: cs

end

end Logline.Pattern
