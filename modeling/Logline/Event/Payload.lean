import Logline.Error
import Logline.Event.Basic
import Logline.Json.Reader
import Logline.Outcome
import Logline.Time.Rfc3339
/-!
Events as JSON payloads.  Four reserved keys hold the level, the time, the
message and the logger; every other key is a field.
-/
namespace Logline.Event

def levelKey : Text := "level".toList

def timeKey : Text := "time".toList

def messageKey : Text := "message".toList

def loggerKey : Text := "logger".toList

/-- The keys that are no fields. -/
def reservedKeys : List Text := [levelKey, timeKey, messageKey, loggerKey]

/-- The level of a document: `info` unless there is a name of another one. -/
def levelOf (entries : Entries Json) : Level :=
  match entries.get? levelKey with
  | some (.string t) => (Level.ofText? t).getD default
  | _ => default

/-- The time of a document, or `now` if it has none. -/
def timeOf (now : Timestamp) (entries : Entries Json) :
    Except Error Timestamp :=
  match entries.get? timeKey with
  | some (.string t) =>
    match Rfc3339.read? t with
    | .ok time => .ok time
    | .error fault =>
      .error <|
        .encode ("invalid timestamp '".toList ++ t ++ "': ".toList ++
          fault.message)
  | some other =>
    .error <|
      .encode ("timestamp must be an RFC 3339 string, got ".toList ++
        other.text)
  | none => .ok now

/-- The message of a document: a string in one line, or any other value as its
compact text. -/
def messageOf (entries : Entries Json) : Text :=
  match entries.get? messageKey with
  | some (.string t) => sanitize t
  | some .null => []
  | some other => other.text
  | none => []

/-- The logger of a document, if it is a string. -/
def loggerOf (entries : Entries Json) : Option Text :=
  match entries.get? loggerKey with
  | some (.string t) => some t
  | _ => none

/-- The entries that are left without the reserved keys, in document order. -/
def fieldsOf (entries : Entries Json) : Fields :=
  Entries.insertAll [] <|
    (reservedKeys.foldl (fun entries key => entries.erase key) entries).map
      fun entry => (entry.1, FieldValue.ofJson entry.2)

/-- The event that a document describes. -/
def ofDocument (now : Timestamp) : Json → Except Error Event
  | .object entries => do
    let time ← timeOf now entries
    return {
      level := levelOf entries
      time
      message := messageOf entries
      logger := loggerOf entries
      fields := fieldsOf entries }
  | _ => .error (.encode "event payload is not a JSON object".toList)

theorem exists_of_timeOf_eq_error {now : Timestamp} {entries : Entries Json}
    {e : Error} (h : timeOf now entries = .error e) :
    ∃ message, e = .encode message := by
  rw [timeOf] at h
  split at h
  · split at h
    · contradiction
    · exact ⟨_, (Except.error.inj h).symm⟩
  · exact ⟨_, (Except.error.inj h).symm⟩
  · contradiction

/-- A document that describes no event is refused with a message. -/
theorem exists_of_ofDocument_eq_error {now : Timestamp} {document : Json}
    {e : Error} (h : ofDocument now document = .error e) :
    ∃ message, e = .encode message := by
  cases document with
  | object entries =>
      cases htime : timeOf now entries with
      | error other =>
          rw [ofDocument, htime] at h
          obtain rfl := Except.error.inj h
          exact exists_of_timeOf_eq_error htime
      | ok time =>
          rw [ofDocument, htime] at h
          contradiction
  | null | bool _ | number _ | string _ | array _ =>
      exact ⟨_, (Except.error.inj h).symm⟩

/-- The event in a payload; `now` is its time if the payload gives none. -/
def ofPayload (now : Timestamp) (payload : Bytes) : Except Error Event :=
  match Json.read payload with
  | .ok document => ofDocument now document
  | .error fault => .error (.json fault)

/-- An event comes from a document that is an object, whose time can be read. -/
theorem ofPayload_cases {now : Timestamp} {payload : Bytes} {e : Event}
    (h : ofPayload now payload = .ok e) :
    ∃ entries, Json.read payload = .ok (.object entries) ∧
      timeOf now entries = .ok e.time ∧
      e = ⟨levelOf entries, e.time, messageOf entries, loggerOf entries,
        fieldsOf entries⟩ := by
  rw [ofPayload] at h
  cases hread : Json.read payload with
  | error fault =>
      rw [hread] at h
      contradiction
  | ok document =>
      rw [hread] at h
      cases document with
      | object entries =>
          obtain ⟨time, htime, h⟩ := Except.bind_eq_ok h
          obtain rfl := Except.ok.inj h
          exact ⟨entries, rfl, htime, rfl⟩
      | null | bool _ | number _ | string _ | array _ => contradiction

/-- Decoding fails with a fault of the text exactly where the text is no
document. -/
theorem ofPayload_eq_json_iff {now : Timestamp} {payload : Bytes}
    {fault : Json.Fault} :
    ofPayload now payload = .error (.json fault) ↔
      Json.read payload = .error fault := by
  rw [ofPayload]
  cases hread : Json.read payload with
  | error other =>
      exact ⟨fun h => congrArg _ (Error.json.inj (Except.error.inj h)),
      fun h => congrArg (Except.error ∘ Error.json) (Except.error.inj h)⟩
  | ok document =>
      refine ⟨fun h => ?_, fun h => by contradiction⟩
      obtain ⟨message, hmessage⟩ := exists_of_ofDocument_eq_error h
      contradiction

/-- The document of an event.  A field under a reserved key takes the place of
what it names. -/
def toDocument (e : Event) : Json :=
  let reserved : Entries Json :=
    [(levelKey, .string e.level.name),
      (timeKey, .string (Rfc3339.render e.time)),
      (messageKey, .string e.message)] ++
    match e.logger with
    | some logger => [(loggerKey, .string logger)]
    | none => []
  .object (Entries.insertAll reserved
    (e.fields.map fun entry => (entry.1, entry.2.toJson)))

/-- The payload of an event. -/
def toPayload (e : Event) : Bytes :=
  Text.utf8 e.toDocument.text

end Logline.Event
