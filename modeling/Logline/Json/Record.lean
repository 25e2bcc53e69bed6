import Logline.Json.Token
/-!
Reading a record with known fields out of a JSON text without building the
document.  The record is an object, or an array of its fields in order; a field
that is missing keeps its default, a field given twice is a mismatch, and the
value of an unknown field is skipped, whatever its depth and whether or not it
has a value (`Skipper`).
-/
namespace Logline.Json

/-- What the skipping of a value is waiting for. -/
inductive SkipAwaiting
  | value (opened : Bool)
  | key (opened : Bool)
  | colon
  | separator
  | nothing
deriving DecidableEq, Repr

/-- A value that is being skipped: the open brackets, the innermost first,
`true` for an object. -/
structure Skipper where
  awaiting : SkipAwaiting
  frames : List Bool
deriving DecidableEq, Repr

namespace Skipper

def start : Skipper := ⟨.value false, []⟩

def complete (frames : List Bool) : Skipper :=
  ⟨if frames.isEmpty then .nothing else .separator, frames⟩

def stepValue (opened : Bool) (frames : List Bool) :
    Token → Except Fault Skipper
  | .null => .ok (complete frames)
  | .bool _ => .ok (complete frames)
  | .number _ => .ok (complete frames)
  | .string _ => .ok (complete frames)
  | .openArray => .ok ⟨.value true, false :: frames⟩
  | .openObject => .ok ⟨.key true, true :: frames⟩
  | .closeArray =>
    match opened, frames with
    | true, false :: frames => .ok (complete frames)
    | _, _ => .error .malformed
  | .brokenString _ fault => .error fault
  | .broken _ fault => .error fault
  | _ => .error .malformed

def stepKey (opened : Bool) (frames : List Bool) : Token → Except Fault Skipper
  | .string _ => .ok ⟨.colon, frames⟩
  | .closeObject =>
    match opened, frames with
    | true, true :: frames => .ok (complete frames)
    | _, _ => .error .malformed
  | .brokenString _ fault => .error fault
  | _ => .error .malformed

def stepSeparator : List Bool → Token → Except Fault Skipper
  | false :: frames, .comma => .ok ⟨.value false, false :: frames⟩
  | false :: frames, .closeArray => .ok (complete frames)
  | true :: frames, .comma => .ok ⟨.key false, true :: frames⟩
  | true :: frames, .closeObject => .ok (complete frames)
  | _, _ => .error .malformed

def step (k : Skipper) (token : Token) : Except Fault Skipper :=
  match k.awaiting with
  | .value opened => stepValue opened k.frames token
  | .key opened => stepKey opened k.frames token
  | .colon =>
    match token with
    | .colon => .ok ⟨.value false, k.frames⟩
    | _ => .error .malformed
  | .separator => stepSeparator k.frames token
  | .nothing => .error .malformed

end Skipper

/-- A field: its key, and how the token in its place changes the record. -/
structure Field (σ : Type) where
  key : Text
  assign : σ → Token → Except Fault σ

namespace Field

variable {σ : Type}

/-- A field that takes a string. -/
def ofString (key : Text) (set : σ → Text → σ) : Field σ where
  key
  assign record token := match token with
    | .string (.ok t) => .ok (set record t)
    | token => .error token.mismatch

/-- A field that takes a string or null. -/
def ofOptionalString (key : Text) (set : σ → Option Text → σ) : Field σ where
  key
  assign record token := match token with
    | .null => .ok (set record none)
    | .string (.ok t) => .ok (set record (some t))
    | token => .error token.mismatch

/-- A field that takes a natural number of at most 64 bits. -/
def ofNat (key : Text) (set : σ → Nat → σ) : Field σ where
  key
  assign record token := match token with
    | .number (.ok (.integer (.ofNat n))) => .ok (set record n)
    | token => .error token.mismatch

end Field

/-- What the reading of a record is waiting for. -/
inductive RecordAwaiting
  | record
  | key (opened : Bool)
  | colon (field : Option Nat)
  | value (field : Nat)
  | skipped (value : Skipper)
  | separator
  | item (index : Nat) (opened : Bool)
  | itemSeparator (count : Nat)
  | nothing
deriving DecidableEq, Repr

/-- A record that is being read, with the indices of the fields that have been
given. -/
structure RecordReader (σ : Type) where
  awaiting : RecordAwaiting
  given : List Nat
  record : σ

namespace RecordReader

variable {σ : Type}

/-- The record after a token for the field with this index. -/
def assign (fields : List (Field σ)) (index : Nat) (record : σ)
    (token : Token) : Except Fault σ :=
  match fields[index]? with
  | some field => field.assign record token
  | none => .error .malformed

/-- The token that opens the record. -/
def stepRecord (r : RecordReader σ) : Token → Except Fault (RecordReader σ)
  | .openObject => .ok { r with awaiting := .key true }
  | .openArray => .ok { r with awaiting := .item 0 true }
  | token => .error token.mismatch

/-- A token in the place of a key.  A field is given twice as soon as its key
is. -/
def stepKey (fields : List (Field σ)) (opened : Bool) (r : RecordReader σ) :
    Token → Except Fault (RecordReader σ)
  | .string (.ok key) =>
    match fields.findIdx? (·.key = key) with
    | some index =>
      if r.given.contains index then .error .mismatched
      else .ok { r with
        awaiting := .colon (some index), given := index :: r.given }
    | none => .ok { r with awaiting := .colon none }
  | .string (.error fault) => .error fault
  | .brokenString fault _ => .error fault
  | .closeObject =>
    if opened then .ok { r with awaiting := .nothing } else .error .malformed
  | _ => .error .malformed

def stepSkipped (value : Skipper) (r : RecordReader σ) (token : Token) :
    Except Fault (RecordReader σ) :=
  (value.step token).map fun value =>
    { r with awaiting :=
      if value.awaiting = .nothing then .separator else .skipped value }

/-- A token in the place of an array item, or the end of the array if it is
welcome. -/
def stepItem (fields : List (Field σ)) (index : Nat) (opened : Bool)
    (r : RecordReader σ) (token : Token) : Except Fault (RecordReader σ) :=
  match token, opened with
  | .closeArray, true => .ok { r with awaiting := .nothing }
  | token, _ =>
    (assign fields index r.record token).map fun record =>
      { r with awaiting := .itemSeparator (index + 1), record }

/-- A token after an array item; a comma after the last field is one too many,
whatever follows. -/
def stepItemSeparator (fields : List (Field σ)) (count : Nat)
    (r : RecordReader σ) : Token → Except Fault (RecordReader σ)
  | .closeArray => .ok { r with awaiting := .nothing }
  | .comma =>
    if count < fields.length then .ok { r with awaiting := .item count false }
    else .error .malformed
  | _ => .error .malformed

def step (fields : List (Field σ)) (r : RecordReader σ) (token : Token) :
    Except Fault (RecordReader σ) :=
  match r.awaiting with
  | .record => r.stepRecord token
  | .key opened => stepKey fields opened r token
  | .colon field =>
    match token with
    | .colon =>
      .ok { r with awaiting := match field with
        | some index => .value index
        | none => .skipped .start }
    | _ => .error .malformed
  | .value index =>
    (assign fields index r.record token).map fun record =>
      { r with awaiting := .separator, record }
  | .skipped value => stepSkipped value r token
  | .separator =>
    match token with
    | .comma => .ok { r with awaiting := .key false }
    | .closeObject => .ok { r with awaiting := .nothing }
    | _ => .error .malformed
  | .item index opened => stepItem fields index opened r token
  | .itemSeparator count => stepItemSeparator fields count r token
  | .nothing => .error .malformed

/-- The record, once the tokens are at an end. -/
def finish (r : RecordReader σ) : Except Fault σ :=
  if r.awaiting = .nothing then .ok r.record else .error .truncated

end RecordReader

/-- The record that tokens spell, with the defaults of `record` for the fields
that they leave out. -/
def recordOfTokens {σ : Type} (fields : List (Field σ)) (record : σ)
    (tokens : List Token) : Except Fault σ :=
  tokens.foldlM (RecordReader.step fields) ⟨.record, [], record⟩ >>=
    RecordReader.finish

/-- The record in a payload. -/
def readRecord {σ : Type} (fields : List (Field σ)) (record : σ)
    (payload : Bytes) : Except Fault σ :=
  recordOfTokens fields record (tokens payload)

end Logline.Json
