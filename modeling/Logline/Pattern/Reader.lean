import Logline.Error
import Logline.Pattern.Node
/-!
Reading patterns.  A reference is `#` and a name, then at most one pattern in
parentheses and at most one list of options in braces, in either order.  All
other brackets are text; they have to be balanced, parentheses and braces
separately, within the sequence that they stand in.

The reader takes one character at a time.  Its state is the innermost sequence
that is being read, the converters around it whose children are not yet
complete, and what the last characters have begun (`Mode`).
-/
namespace Logline.Pattern

/-- What is wrong with a bracket. -/
inductive BracketFault
  | unclosedParen
  | unclosedBrace
  | unmatchedParen
  | unmatchedBrace
deriving DecidableEq, Repr

/-- A bracket that is never closed or closes nothing, at a byte position of the
pattern. -/
structure ReadError where
  position : Nat
  fault : BracketFault
deriving DecidableEq, Repr

namespace BracketFault

/-- The bracket that is at fault. -/
def bracket : BracketFault → Char
  | unclosedParen => '('
  | unclosedBrace => '\x7b'
  | unmatchedParen => ')'
  | unmatchedBrace => '\x7d'

/-- The bracket is never closed, and not one that closes nothing. -/
def isUnclosed : BracketFault → Bool
  | unclosedParen => true
  | unclosedBrace => true
  | unmatchedParen => false
  | unmatchedBrace => false

def message (f : BracketFault) : Text :=
  (if f.isUnclosed then "unclosed '".toList else "unmatched '".toList) ++
    [f.bracket, '\'']

end BracketFault

def ReadError.toError (e : ReadError) : Error :=
  .parse e.position e.fault.message

/-- A sequence of nodes that is being read: its nodes and the characters of its
last literal, the latest first, and the positions of the brackets in its
literals that are still open, the innermost first. -/
structure Sequence where
  nodes : List Node
  literal : Text
  parens : List Nat
  braces : List Nat
deriving DecidableEq, Repr

/-- A reference that is being read: its name and the slots that have been
given. -/
structure Head where
  name : Text
  options : Option (List Text)
  children : Option (List Node)
deriving DecidableEq, Repr

/-- What the last characters have begun. -/
inductive Mode
  | text
  /-- A marker, which may turn out to be text. -/
  | marker
  /-- The name of a reference, the latest character first. -/
  | name (reversed : Text)
  /-- The slots of a reference. -/
  | slots (head : Head)
  /-- The options of a reference: where they open, how deep in braces they are,
  and their text, the latest character first. -/
  | options (opened depth : Nat) (reversed : Text) (head : Head)
deriving DecidableEq, Repr

/-- A reference whose children are being read: where they open, the reference
so far, and the sequence that it stands in. -/
structure Enclosing where
  opened : Nat
  head : Head
  sequence : Sequence
deriving DecidableEq, Repr

structure State where
  position : Nat
  mode : Mode
  sequence : Sequence
  enclosing : List Enclosing
deriving DecidableEq, Repr

namespace Sequence

def empty : Sequence := ⟨[], [], [], []⟩

def push (s : Sequence) (c : Char) : Sequence :=
  { s with literal := c :: s.literal }

/-- The sequence with its last literal among the nodes. -/
def flush (s : Sequence) : Sequence :=
  if s.literal.isEmpty then s
  else { s with nodes := .literal s.literal.reverse :: s.nodes, literal := [] }

/-- The sequence with a complete reference at its end. -/
def attach (s : Sequence) (head : Head) : Sequence :=
  { s with
    nodes := .converter head.name (head.options.getD [])
      (head.children.getD []) :: s.nodes }

/-- The nodes in order. -/
def complete (s : Sequence) : List Node :=
  s.flush.nodes.reverse

end Sequence

/-- The pieces of a text between the commas outside braces. -/
def splitPieces (depth : Nat) : Text → Text × List Text
  | [] => ([], [])
  | c :: rest =>
    if c = ',' ∧ depth = 0 then
      let (piece, pieces) := splitPieces depth rest
      ([], piece :: pieces)
    else
      let depth := if c = '\x7b' then depth + 1
        else if c = '\x7d' then depth - 1 else depth
      let (piece, pieces) := splitPieces depth rest
      (c :: piece, pieces)

/-- The options in the text between the braces of a reference; an empty text
has none. -/
def splitOptions (raw : Text) : List Text :=
  if raw.isEmpty then []
  else
    let (piece, pieces) := splitPieces 0 raw
    piece :: pieces

namespace State

def start : State := ⟨0, .text, .empty, []⟩

/-- The state after a closing parenthesis that no literal has opened. -/
def closeChildren (st : State) : Except ReadError State :=
  match st.enclosing with
  | [] => .error ⟨st.position, .unmatchedParen⟩
  | outer :: enclosing =>
    match st.sequence.braces.getLast? with
    | some brace => .error ⟨brace, .unclosedBrace⟩
    | none =>
      .ok { st with
        mode := .slots { outer.head with children := some st.sequence.complete }
        sequence := outer.sequence
        enclosing }

/-- A character of a literal, or one that begins or ends something else. -/
def stepText (st : State) (c : Char) : Except ReadError State :=
  let s := st.sequence
  match c with
  | '#' => .ok { st with mode := .marker }
  | '(' => .ok { st with
      mode := .text, sequence :=
        { s.push c with parens := st.position :: s.parens } }
  | ')' =>
    match s.parens with
    | _ :: parens => .ok { st with
        mode := .text, sequence := { s.push c with parens } }
    | [] => st.closeChildren
  | '\x7b' => .ok { st with
      mode := .text, sequence :=
        { s.push c with braces := st.position :: s.braces } }
  | '\x7d' =>
    match s.braces with
    | _ :: braces => .ok { st with
        mode := .text, sequence := { s.push c with braces } }
    | [] => .error ⟨st.position, .unmatchedBrace⟩
  | c => .ok { st with mode := .text, sequence := s.push c }

/-- A character after a reference: it opens a slot that is still free, or ends
the reference. -/
def stepSlots (st : State) (head : Head) (c : Char) : Except ReadError State :=
  if c = '(' ∧ head.children.isNone then
    .ok { st with
      mode := .text, sequence := .empty,
      enclosing := ⟨st.position, head, st.sequence⟩ :: st.enclosing }
  else if c = '\x7b' ∧ head.options.isNone then
    .ok { st with mode := .options st.position 0 [] head }
  else { st with sequence := st.sequence.attach head }.stepText c

/-- A character of the options of a reference. -/
def stepOptions (st : State) (opened depth : Nat) (reversed : Text)
    (head : Head) (c : Char) : State :=
  if c = '\x7d' ∧ depth = 0 then
    { st with
      mode := .slots
        { head with options := some (splitOptions reversed.reverse) } }
  else
    let depth := if c = '\x7b' then depth + 1 else if c = '\x7d' then depth - 1
      else depth
    { st with mode := .options opened depth (c :: reversed) head }

/-- The state after one more character, its position not yet moved on. -/
def stepMode (st : State) (c : Char) : Except ReadError State :=
  match st.mode with
  | .text => st.stepText c
  | .marker =>
    if isNameStart c then
      .ok { st with mode := .name [c], sequence := st.sequence.flush }
    else { st with sequence := st.sequence.push marker }.stepText c
  | .name reversed =>
    if isNameChar c then .ok { st with mode := .name (c :: reversed) }
    else st.stepSlots ⟨reversed.reverse, none, none⟩ c
  | .slots head => st.stepSlots head c
  | .options opened depth reversed head =>
    .ok (st.stepOptions opened depth reversed head c)

def step (st : State) (c : Char) : Except ReadError State :=
  (st.stepMode c).map fun next =>
    { next with position := st.position + c.utf8Size }

/-- The sequence at the end of the pattern, with what the last characters have
begun. -/
def closing (st : State) : Except ReadError Sequence :=
  match st.mode with
  | .text => .ok st.sequence
  | .marker => .ok (st.sequence.push marker)
  | .name reversed => .ok (st.sequence.attach ⟨reversed.reverse, none, none⟩)
  | .slots head => .ok (st.sequence.attach head)
  | .options opened _ _ _ => .error ⟨opened, .unclosedBrace⟩

/-- The nodes of the pattern, if nothing is left open: a parenthesis of the
innermost sequence is reported before a brace, and a brace before the
parenthesis around the sequence. -/
def finish (st : State) : Except ReadError (List Node) := do
  let s ← st.closing
  match s.parens.getLast?, s.braces.getLast?, st.enclosing with
  | some paren, _, _ => .error ⟨paren, .unclosedParen⟩
  | none, some brace, _ => .error ⟨brace, .unclosedBrace⟩
  | none, none, outer :: _ => .error ⟨outer.opened, .unclosedParen⟩
  | none, none, [] => .ok s.complete

end State

/-- The pattern that a text spells. -/
def read (t : Text) : Except ReadError (List Node) :=
  t.foldlM State.step State.start >>= State.finish

end Logline.Pattern
