import Logline.Text.Basic
/-!
Patterns: literal text and references to converters, which may have options and
a pattern of their own as children.  `Pattern.text` prints a pattern.
-/
namespace Logline

inductive Node
  /-- Text that is copied as it stands. -/
  | literal (text : Text)
  /-- A reference to a converter by its name. -/
  | converter (name : Text) (options : List Text) (children : List Node)
deriving Repr

/-- A pattern is its nodes in order. -/
abbrev Pattern := List Node

namespace Node

mutual

/-- The nodes are equal. -/
def same : Node → Node → Bool
  | literal a, literal b => a == b
  | converter a options children, converter b options' children' =>
    a == b && options == options' && allSame children children'
  | _, _ => false

def allSame : List Node → List Node → Bool
  | [], [] => true
  | a :: as, b :: bs => same a b && allSame as bs
  | _, _ => false

end

mutual

theorem eq_of_same : ∀ a b : Node, same a b = true ↔ a = b
  | literal a, literal b => by simp [same]
  | converter a options children, converter b options' children' => by
    simp [same, eq_of_allSame children children', and_assoc]
  | literal _, converter .. => by simp [same]
  | converter .., literal _ => by simp [same]

theorem eq_of_allSame : ∀ as bs : List Node, allSame as bs = true ↔ as = bs
  | [], [] => by simp [allSame]
  | a :: as, b :: bs => by simp [allSame, eq_of_same a b, eq_of_allSame as bs]
  | [], _ :: _ => by simp [allSame]
  | _ :: _, [] => by simp [allSame]

end

instance : DecidableEq Node := fun a b => decidable_of_iff _ (eq_of_same a b)

end Node

namespace Pattern

/-- Introduces the reference to a converter. -/
def marker : Char := '#'

/-- A character that the name of a converter can start with. -/
def isNameStart (c : Char) : Bool :=
  c.isAlpha || c == '_'

/-- A character that the name of a converter can go on with. -/
def isNameChar (c : Char) : Bool :=
  c.isAlphanum || c == '_'

mutual

/-- The names of the converters of a node, its own before those of its
children. -/
def nodeNames : Node → List Text
  | .literal _ => []
  | .converter name _ children => name :: names children

/-- The names of all converters of a pattern, depth first. -/
def names : List Node → List Text
  | [] => []
  | node :: rest => nodeNames node ++ names rest

end

/-- The next node is a literal whose first character would be read as part of
the reference in front of it. -/
def extendsReference : List Node → Bool
  | .literal (c :: _) :: _ => c == '(' || c == '\x7b' || isNameChar c
  | _ => false

mutual

/-- The text of a node.  A reference with nothing to say leaves out its
brackets, unless it has to be `closed` against the text that follows. -/
def nodeText (closed : Bool) : Node → Text
  | .literal t => t
  | .converter name options children =>
    marker :: name ++
      (if closed || !children.isEmpty then
        '(' :: text children ++ [')']
      else []) ++
      if closed || !options.isEmpty then
        '\x7b' :: Text.join [','] options ++ ['\x7d']
      else []

/-- The text of a pattern. -/
def text : List Node → Text
  | [] => []
  | node :: rest => nodeText (extendsReference rest) node ++ text rest

end

example : text [.converter ['a'] [] [.literal ['x']], .literal ['b']] =
    "#a(x)\x7b\x7db".toList := by decide

end Pattern

end Logline
