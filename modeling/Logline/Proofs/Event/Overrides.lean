import Logline.Proofs.Event.Plain
import Logline.Proofs.Time.Rfc3339
/-!
Fields under reserved keys.  A payload has one space of keys for the attributes
of an event and for its fields, and a field is written over the attribute it
shares its key with.  So the payload says of the event what such a field says
(`told`): the level, the message and the logger may come back as others, and
the payload may not be accepted at all.  It is faithful exactly if every field
under a reserved key repeats what the event says of itself
(`toPayload_faithful_iff`).
-/
namespace Logline

/-! ### What a field says -/

namespace FieldValue

/-- The string that a payload has for the value, if it has one. -/
def payloadText? : FieldValue → Option Text
  | string t => some t
  | duration d => some d.text
  | error message => some message
  | _ => none

/-- The value where a level is looked for. -/
def asLevel (v : FieldValue) : Level :=
  (v.payloadText?.bind Level.ofText?).getD default

/-- The value where a time is looked for. -/
def asTime (v : FieldValue) : Except Error Timestamp :=
  match v.payloadText? with
  | some t =>
    match Rfc3339.read? t with
    | .ok time => .ok time
    | .error fault =>
      .error <|
        .encode ("invalid timestamp '".toList ++ t ++ "': ".toList ++
          fault.message)
  | none =>
    .error <|
      .encode ("timestamp must be an RFC 3339 string, got ".toList ++
        v.toJson.text)

/-- The value where a message is looked for. -/
def asMessage : FieldValue → Text
  | null => []
  | v =>
    match v.payloadText? with
    | some t => Event.sanitize t
    | none => v.toJson.text

end FieldValue

namespace Event

/-- All of the event can be said in a payload, apart from its keys, of which
nothing is asked but that they are distinct, as they are in every map. -/
structure Expressible (e : Event) : Prop where
  time : e.time.Writable
  message : e.message.OneLine
  keys : (e.fields.map Prod.fst).Nodup
  floatFree : ∀ entry ∈ e.fields, entry.2.FloatFree
  depth : ∀ entry ∈ e.fields, entry.2.depth ≤ 126

/-- What a payload says under a key: what the field there says, or else the
event's own. -/
def saidUnder {β : Type} (e : Event) (key : Text) (say : FieldValue → β)
    (own : β) : β :=
  match e.fields.get? key with
  | some v => say v
  | none => own

def toldLevel (e : Event) : Level :=
  e.saidUnder levelKey FieldValue.asLevel e.level

def toldTime (e : Event) : Except Error Timestamp :=
  e.saidUnder timeKey FieldValue.asTime (.ok e.time)

def toldMessage (e : Event) : Text :=
  e.saidUnder messageKey FieldValue.asMessage e.message

def toldLogger (e : Event) : Option Text :=
  e.saidUnder loggerKey FieldValue.payloadText? e.logger

/-- The fields that are read as fields again. -/
def toldFields (e : Event) : Fields :=
  Fields.plain (e.fields.filter fun entry => !reservedKeys.contains entry.1)

/-- The event that the payload of an event describes. -/
def told (e : Event) : Except Error Event := do
  let time ← e.toldTime
  return {
    level := e.toldLevel
    time
    message := e.toldMessage
    logger := e.toldLogger
    fields := e.toldFields }

/-- A field under a reserved key says what the event says of itself. -/
structure Restates (e : Event) (key : Text) (v : FieldValue) : Prop where
  level : key = levelKey → v.asLevel = e.level
  time : key = timeKey → v.asTime = .ok e.time
  message : key = messageKey → v.asMessage = e.message
  logger : key = loggerKey → v.payloadText? = e.logger

/-! ### Reading the document -/

theorem levelOf_eq {entries : Entries Json} {v : FieldValue}
    (hfree : v.FloatFree) (h : Entries.get? levelKey entries = some v.toJson) :
    levelOf entries = v.asLevel := by
  rw [levelOf, h, FieldValue.asLevel]
  cases v with
  | float d => exact absurd hfree id
  | string _ | int _ | bool _ | duration _ | error _ | list _ | null => rfl

theorem timeOf_eq {entries : Entries Json} {v : FieldValue} (now : Timestamp)
    (hfree : v.FloatFree) (h : Entries.get? timeKey entries = some v.toJson) :
    timeOf now entries = v.asTime := by
  rw [timeOf, h, FieldValue.asTime]
  cases v with
  | float d => exact absurd hfree id
  | string _ | int _ | bool _ | duration _ | error _ | list _ | null => rfl

theorem messageOf_eq {entries : Entries Json} {v : FieldValue}
    (hfree : v.FloatFree)
    (h : Entries.get? messageKey entries = some v.toJson) :
    messageOf entries = v.asMessage := by
  rw [messageOf, h]
  cases v with
  | float d => exact absurd hfree id
  | string _ | int _ | bool _ | duration _ | error _ | list _ | null => rfl

theorem loggerOf_eq {entries : Entries Json} {v : FieldValue}
    (hfree : v.FloatFree) (h : Entries.get? loggerKey entries = some v.toJson) :
    loggerOf entries = v.payloadText? := by
  rw [loggerOf, h]
  cases v with
  | float d => exact absurd hfree id
  | string _ | int _ | bool _ | duration _ | error _ | list _ | null => rfl

/-- The entries of the document of an event. -/
def entries (e : Event) : Entries Json :=
  Entries.insertAll e.reserved e.fields.toEntries

theorem toDocument_eq_entries (e : Event) :
    e.toDocument = .object e.entries := rfl

namespace Expressible

variable {e : Event}

theorem nodup_toEntries (h : e.Expressible) :
    (e.fields.toEntries.map Prod.fst).Nodup := by
  rw [Fields.map_fst_toEntries]
  exact h.keys

/-- A field hides what the event has under its key. -/
theorem get?_entries (h : e.Expressible) (key : Text) :
    (∃ v : FieldValue, v.FloatFree ∧ Entries.get? key e.fields = some v ∧
      Entries.get? key e.entries = some v.toJson) ∨
    (Entries.get? key e.fields = none ∧
      Entries.get? key e.entries = Entries.get? key e.reserved) := by
  have hget := Entries.get?_insertAll h.nodup_toEntries key e.reserved
  rw [Fields.get?_toEntries] at hget
  cases hfield : Entries.get? key e.fields with
  | some v =>
      rw [hfield, Option.map_some, Option.some_or] at hget
      have hmem := (Entries.get?_eq_some_iff h.keys).mp hfield
      exact .inl ⟨v, h.floatFree _ hmem, rfl, hget⟩
  | none =>
      rw [hfield, Option.map_none, Option.none_or] at hget
      exact .inr ⟨rfl, hget⟩

theorem exact_toDocument (h : e.Expressible) : Json.Exact e.toDocument := by
  rw [toDocument_eq_entries]
  refine ⟨Entries.nodup_insertAll
    (nodup_reservedKeys.sublist e.reserved_prefix.sublist) _, ?_⟩
  rw [Json.exactEntries_iff]
  intro entry hentry
  rcases Entries.mem_insertAll hentry with hreserved | hfield
  · obtain ⟨t, ht⟩ := e.reserved_string hreserved
    rw [ht]
    trivial
  · obtain ⟨field, hmem, hjson⟩ := Fields.exists_of_mem_toEntries hfield
    rw [hjson]
    exact field.2.exact_toJson (h.floatFree field hmem)

theorem depth_toDocument (h : e.Expressible) :
    Json.depth e.toDocument ≤ Json.Reader.maxDepth := by
  have hentries : Json.depthEntries e.entries ≤ 126 := by
    rw [Json.depthEntries_le_iff]
    intro entry hentry
    rcases Entries.mem_insertAll hentry with hreserved | hfield
    · obtain ⟨t, ht⟩ := e.reserved_string hreserved
      rw [ht]
      exact Nat.zero_le 126
    · obtain ⟨field, hmem, hjson⟩ := Fields.exists_of_mem_toEntries hfield
      rw [hjson, field.2.depth_toJson (h.floatFree field hmem)]
      exact h.depth field hmem
  rw [toDocument_eq_entries, Json.depth, Json.Reader.maxDepth]
  omega

theorem levelOf_entries (h : e.Expressible) :
    levelOf e.entries = e.toldLevel := by
  rw [toldLevel, saidUnder]
  rcases h.get?_entries levelKey with ⟨v, hfree, hfield, hget⟩ | ⟨hfield, hget⟩
  · simp only [levelOf_eq hfree hget, hfield]
  · have hown : Entries.get? levelKey e.reserved =
        some (.string e.level.name) := rfl
    simp only [levelOf, hget, hown, hfield, Level.ofText?_name,
      Option.getD_some]

theorem timeOf_entries (h : e.Expressible) (now : Timestamp) :
    timeOf now e.entries = e.toldTime := by
  rw [toldTime, saidUnder]
  rcases h.get?_entries timeKey with ⟨v, hfree, hfield, hget⟩ | ⟨hfield, hget⟩
  · simp only [timeOf_eq now hfree hget, hfield]
  · have hown : Entries.get? timeKey e.reserved =
        some (.string (Rfc3339.render e.time)) := rfl
    simp only [timeOf, hget, hown, hfield, Rfc3339.read?_render h.time]

theorem messageOf_entries (h : e.Expressible) :
    messageOf e.entries = e.toldMessage := by
  rw [toldMessage, saidUnder]
  rcases h.get?_entries messageKey with ⟨v, hfree, hfield, hget⟩ |
    ⟨hfield, hget⟩
  · simp only [messageOf_eq hfree hget, hfield]
  · have hown : Entries.get? messageKey e.reserved = some (.string e.message) :=
      rfl
    simp only [messageOf, hget, hown, hfield,
      Text.sanitize_of_oneLine h.message]

theorem loggerOf_entries (h : e.Expressible) :
    loggerOf e.entries = e.toldLogger := by
  rw [toldLogger, saidUnder]
  rcases h.get?_entries loggerKey with ⟨v, hfree, hfield, hget⟩ | ⟨hfield, hget⟩
  · simp only [loggerOf_eq hfree hget, hfield]
  · have hown : Entries.get? loggerKey e.reserved =
        e.logger.map Json.string := by
      rw [reserved]
      cases e.logger <;> rfl
    simp only [loggerOf, hget, hown, hfield]
    cases e.logger <;> rfl

theorem fieldsOf_entries (h : e.Expressible) :
    fieldsOf e.entries = e.toldFields := by
  have hreserved : e.reserved.filter
      (fun entry => !reservedKeys.contains entry.1) = [] := by
    rw [List.filter_eq_nil_iff]
    intro entry hentry
    have hkey := e.reserved_prefix.subset (List.mem_map_of_mem hentry)
    simpa using hkey
  have hfields :
      (e.fields.toEntries.filter fun entry =>
        !reservedKeys.contains entry.1).map
          (fun entry => (entry.1, FieldValue.ofJson entry.2)) =
        e.toldFields := by
    rw [toldFields, Fields.toEntries, Fields.plain,
      List.filter_map, List.map_map]
    apply List.map_congr_left
    intro entry hentry
    have hfree := h.floatFree entry (List.mem_filter.mp hentry).1
    exact congrArg (entry.1, ·) (entry.2.ofJson_toJson hfree)
  have hnew :
      ((e.fields.toEntries.filter fun entry =>
        !reservedKeys.contains entry.1).map Prod.fst).Nodup :=
    h.nodup_toEntries.sublist (List.filter_sublist.map _)
  have htold : (e.toldFields.map Prod.fst).Nodup := by
    rw [← hfields, List.map_map]
    exact hnew
  rw [fieldsOf, Entries.foldl_erase, entries,
    Entries.filter_insertAll (fun key => !reservedKeys.contains key),
    hreserved, Entries.insertAll_nil hnew, hfields, Entries.insertAll_nil htold]

/-- What a payload of the event says. -/
theorem ofPayload_toPayload (h : e.Expressible) (now : Timestamp) :
    ofPayload now e.toPayload = e.told := by
  rw [ofPayload, toPayload,
    Json.read_text h.exact_toDocument h.depth_toDocument]
  change ofDocument now (.object e.entries) = e.told
  rw [ofDocument, told, h.levelOf_entries, h.timeOf_entries now,
    h.messageOf_entries, h.loggerOf_entries, h.fieldsOf_entries]

/-- A payload says under a key what the event says if the field there, should
there be one, says the same. -/
theorem saidUnder_eq_iff (h : e.Expressible) {β : Type} (key : Text)
    (say : FieldValue → β) (own : β) :
    e.saidUnder key say own = own ↔
      ∀ entry ∈ e.fields, entry.1 = key → say entry.2 = own := by
  rw [saidUnder]
  constructor
  · rintro hsaid ⟨k, v⟩ hentry rfl
    simpa only [(Entries.get?_eq_some_iff h.keys).mpr hentry] using hsaid
  · intro hfields
    cases hfield : Entries.get? key e.fields with
    | none => rfl
    | some v =>
        exact hfields (key, v) ((Entries.get?_eq_some_iff h.keys).mp hfield) rfl

theorem told_eq_iff (h : e.Expressible) :
    (∃ fields, e.told = .ok { e with fields }) ↔
      ∀ entry ∈ e.fields, e.Restates entry.1 entry.2 := by
  have hlevel := h.saidUnder_eq_iff levelKey FieldValue.asLevel e.level
  have htime := h.saidUnder_eq_iff timeKey FieldValue.asTime (.ok e.time)
  have hmessage := h.saidUnder_eq_iff messageKey FieldValue.asMessage e.message
  have hlogger := h.saidUnder_eq_iff loggerKey FieldValue.payloadText? e.logger
  constructor
  · rintro ⟨fields, htold⟩ entry hentry
    obtain ⟨time, htoldTime, htold⟩ := Except.bind_eq_ok htold
    obtain ⟨heqLevel, rfl, heqMessage, heqLogger, -⟩ :=
      Event.mk.inj (Except.ok.inj htold)
    exact {
      level := hlevel.mp heqLevel entry hentry
      time := htime.mp htoldTime entry hentry
      message := hmessage.mp heqMessage entry hentry
      logger := hlogger.mp heqLogger entry hentry }
  · intro hfields
    have heqLevel : e.toldLevel = e.level :=
      hlevel.mpr fun entry hentry => (hfields entry hentry).level
    have heqTime : e.toldTime = .ok e.time :=
      htime.mpr fun entry hentry => (hfields entry hentry).time
    have heqMessage : e.toldMessage = e.message :=
      hmessage.mpr fun entry hentry => (hfields entry hentry).message
    have heqLogger : e.toldLogger = e.logger :=
      hlogger.mpr fun entry hentry => (hfields entry hentry).logger
    refine ⟨e.toldFields, ?_⟩
    rw [told, heqTime, Except.ok_bind, heqLevel, heqMessage, heqLogger]
    rfl

end Expressible

/-- A payload of an event says what `told` says, whatever the time is; it is
accepted with the level, the time, the message and the logger of the event
exactly if every field under one of their keys says the same as the event. -/
theorem toPayload_faithful_iff {e : Event} (h : e.Expressible)
    (now : Timestamp) :
    ofPayload now e.toPayload = e.told ∧
      ((∃ fields, ofPayload now e.toPayload = .ok { e with fields }) ↔
        ∀ entry ∈ e.fields, e.Restates entry.1 entry.2) := by
  have htold := h.ofPayload_toPayload now
  refine ⟨htold, ?_⟩
  rw [htold]
  exact h.told_eq_iff

namespace OverridesWitness

/-- A field that says that the time is five. -/
def timed : Event where
  level := .info
  time := .epoch
  message := "m".toList
  logger := none
  fields := [(timeKey, .int 5)]

/-- The level is repeated as it is, the logger is another one, and a field is
left. -/
def renamed : Event where
  level := .error
  time := .epoch
  message := "m".toList
  logger := some "a".toList
  fields := [("n".toList, .int 5), (levelKey, .string "error".toList),
    (loggerKey, .error "b".toList)]

theorem expressible_timed : timed.Expressible where
  time := ⟨by decide, by decide, by decide +kernel, by decide,
    by decide +kernel⟩
  message := by decide
  keys := by decide
  floatFree := by simp [timed, FieldValue.FloatFree]
  depth := by simp [timed, FieldValue.depth]

theorem expressible_renamed : renamed.Expressible where
  time := expressible_timed.time
  message := by decide
  keys := by decide
  floatFree := by simp [renamed, FieldValue.FloatFree]
  depth := by simp [renamed, FieldValue.depth]

/-- The payload of an event need not be accepted. -/
theorem payload_refused :
    timed.Expressible ∧ ∀ now, ofPayload now timed.toPayload =
      .error
        (.encode "timestamp must be an RFC 3339 string, got 5".toList) := by
  refine ⟨expressible_timed, ?_⟩
  intro now
  rw [expressible_timed.ofPayload_toPayload now]
  rfl

theorem toPayload_faithful_iff_sample :
    renamed.Expressible ∧
      ofPayload .epoch renamed.toPayload = .ok { renamed with
        logger := some "b".toList
        fields := [("n".toList, .int 5)] } ∧
      ¬ ∃ fields, ofPayload .epoch renamed.toPayload =
        .ok { renamed with fields } := by
  obtain ⟨htold, hfaithful⟩ := toPayload_faithful_iff expressible_renamed .epoch
  refine ⟨expressible_renamed, htold.trans rfl, ?_⟩
  rw [hfaithful]
  intro hrestates
  have hlogger :=
    (hrestates (loggerKey, .error "b".toList) (by simp [renamed])).logger rfl
  simp [FieldValue.payloadText?, renamed] at hlogger

end OverridesWitness

end Event

end Logline
