import Logline.Json.Token
/-!
Reading a whole JSON document.  The reader keeps the arrays and objects that
are still open, the innermost first, and what it expects next; each token is
one step.
-/
namespace Logline.Json

/-- An array or object that is still open. -/
inductive Frame
  /-- The items so far, the latest first. -/
  | array (items : List Json)
  /-- The entries so far, and the key of the value that comes next. -/
  | object (entries : Entries Json) (key : Text)

/-- What the reader is waiting for.  Right after an opening bracket the closing
one is welcome. -/
inductive Awaiting
  | value (opened : Bool)
  | key (opened : Bool)
  | colon
  | separator
  | nothing (document : Json)

structure Reader where
  awaiting : Awaiting
  frames : List Frame

namespace Reader

/-- How many arrays and objects may be open at once. -/
def maxDepth : Nat := 127

def start : Reader := ⟨.value false, []⟩

/-- The reader after a complete value. -/
def complete (v : Json) : List Frame → Reader
  | [] => ⟨.nothing v, []⟩
  | .array items :: frames => ⟨.separator, .array (v :: items) :: frames⟩
  | .object entries key :: frames =>
    ⟨.separator, .object (entries.insert key v) key :: frames⟩

/-- The reader inside one more array or object. -/
def descend (frames : List Frame) (frame : Frame) (awaiting : Awaiting) :
    Except Fault Reader :=
  if maxDepth ≤ frames.length then .error .malformed
    else .ok ⟨awaiting, frame :: frames⟩

/-- A token in the place of a value. -/
def stepValue (opened : Bool) (frames : List Frame) :
    Token → Except Fault Reader
  | .null => .ok (complete .null frames)
  | .bool b => .ok (complete (.bool b) frames)
  | .number value => value.map fun n => complete (.number n) frames
  | .string value => value.map fun t => complete (.string t) frames
  | .openArray => descend frames (.array []) (.value true)
  | .openObject => descend frames (.object [] []) (.key true)
  | .closeArray =>
    match opened, frames with
    | true, .array _ :: frames => .ok (complete (.array []) frames)
    | _, _ => .error .malformed
  | .brokenString fault _ => .error fault
  | .broken fault _ => .error fault
  | _ => .error .malformed

/-- A token in the place of a key. -/
def stepKey (opened : Bool) (frames : List Frame) : Token → Except Fault Reader
  | .string value =>
    match frames with
    | .object entries _ :: frames =>
      value.map fun key => ⟨.colon, .object entries key :: frames⟩
    | _ => .error .malformed
  | .closeObject =>
    match opened, frames with
    | true, .object _ _ :: frames => .ok (complete (.object []) frames)
    | _, _ => .error .malformed
  | .brokenString fault _ => .error fault
  | _ => .error .malformed

/-- A token after a value inside an array or object. -/
def stepSeparator : List Frame → Token → Except Fault Reader
  | .array items :: frames, .comma => .ok ⟨.value false, .array items :: frames⟩
  | .array items :: frames, .closeArray =>
    .ok (complete (.array items.reverse) frames)
  | .object entries key :: frames, .comma =>
    .ok ⟨.key false, .object entries key :: frames⟩
  | .object entries _ :: frames, .closeObject =>
    .ok (complete (.object entries) frames)
  | _, _ => .error .malformed

def step (r : Reader) (token : Token) : Except Fault Reader :=
  match r.awaiting with
  | .value opened => stepValue opened r.frames token
  | .key opened => stepKey opened r.frames token
  | .colon =>
    match token with
    | .colon => .ok ⟨.value false, r.frames⟩
    | _ => .error .malformed
  | .separator => stepSeparator r.frames token
  | .nothing _ => .error .malformed

/-- The document, once the tokens are at an end. -/
def finish (r : Reader) : Except Fault Json :=
  match r.awaiting with
  | .nothing document => .ok document
  | _ => .error .truncated

end Reader

/-- The document that tokens spell. -/
def ofTokens (tokens : List Token) : Except Fault Json :=
  tokens.foldlM Reader.step Reader.start >>= Reader.finish

/-- The document in a payload. -/
def read (payload : Bytes) : Except Fault Json :=
  ofTokens (tokens payload)

end Logline.Json
