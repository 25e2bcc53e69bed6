import Logline.Event.Payload
import Logline.Proofs.Event.Kept
import Logline.Proofs.Json.RoundTrip
/-!
Values and fields in payloads.  A payload says of a duration or an error no
more than its text, so that they come back `plain`; a float it may not say at
all.
-/
namespace Logline

/-! ### Fields -/

namespace FieldValue

mutual

/-- The value as it comes back from a payload. -/
def plain : FieldValue → FieldValue
  | duration d => string d.text
  | error message => string message
  | list items => list (plains items)
  | v => v

def plains : List FieldValue → List FieldValue
  | [] => []
  | v :: rest => plain v :: plains rest

end

mutual

/-- There is no float in the value, at any depth. -/
def FloatFree : FieldValue → Prop
  | float _ => False
  | list items => AllFloatFree items
  | _ => True

def AllFloatFree : List FieldValue → Prop
  | [] => True
  | v :: rest => FloatFree v ∧ AllFloatFree rest

end

mutual

/-- How many lists are around the innermost value. -/
def depth : FieldValue → Nat
  | list items => depthAll items + 1
  | _ => 0

def depthAll : List FieldValue → Nat
  | [] => 0
  | v :: rest => max (depth v) (depthAll rest)

end

mutual

theorem text_plain : ∀ v : FieldValue, v.plain.text = v.text
  | string _ | int _ | float _ | bool _ | duration _ | error _ | null => rfl
  | list items => by rw [plain, text, text, texts_plains items]

theorem texts_plains :
    ∀ items : List FieldValue, texts (plains items) = texts items
  | [] => rfl
  | v :: rest => by rw [plains, texts, texts, text_plain v, texts_plains rest]

end

mutual

theorem exact_toJson : ∀ v : FieldValue, v.FloatFree → Json.Exact v.toJson
  | string _, _ | bool _, _ | duration _, _ | error _, _ | null, _ => trivial
  | int n, _ => by
      have hlow := n.le_toInt
      have hhigh := n.toInt_lt
      simp only [toJson, Json.Exact, Json.InRange]
      omega
  | float _, h => absurd h id
  | list items, h => exact_toJsons items h

theorem exact_toJsons : ∀ items : List FieldValue, AllFloatFree items →
    Json.ExactAll (toJsons items)
  | [], _ => trivial
  | v :: rest, h => ⟨exact_toJson v h.1, exact_toJsons rest h.2⟩

end

mutual

theorem depth_toJson :
    ∀ v : FieldValue, v.FloatFree → Json.depth v.toJson = v.depth
  | string _, _ | int _, _ | bool _, _
  | duration _, _ | error _, _ | null, _ => rfl
  | float _, h => absurd h id
  | list items, h => by rw [toJson, Json.depth, depth, depthAll_toJsons items h]

theorem depthAll_toJsons : ∀ items : List FieldValue, AllFloatFree items →
    Json.depthAll (toJsons items) = depthAll items
  | [], _ => rfl
  | v :: rest, h => by
      rw [toJsons, Json.depthAll, depthAll, depth_toJson v h.1,
        depthAll_toJsons rest h.2]

end

mutual

theorem kept_of_floatFree : ∀ v : FieldValue, v.FloatFree → v.kept = v.plain
  | string _, _ | int _, _ | bool _, _
  | duration _, _ | error _, _ | null, _ => rfl
  | float _, h => absurd h id
  | list items, h => by rw [kept, plain, allKept_of_allFloatFree items h]

theorem allKept_of_allFloatFree :
    ∀ items : List FieldValue, AllFloatFree items →
    allKept items = plains items
  | [], _ => rfl
  | v :: rest, h => by
      rw [allKept, plains, kept_of_floatFree v h.1,
        allKept_of_allFloatFree rest h.2]

end

/-- A value comes back plain. -/
theorem ofJson_toJson (v : FieldValue) (h : v.FloatFree) :
    ofJson v.toJson = v.plain :=
  (ofJson_toJson_eq_kept v).trans (kept_of_floatFree v h)

end FieldValue

namespace Fields

/-- The fields as they come back from a payload. -/
def plain (fields : Fields) : Fields :=
  fields.map fun entry => (entry.1, entry.2.plain)

theorem text_plain (fields : Fields) : fields.plain.text = fields.text := by
  have hentries : fields.plain.map entryText = fields.map entryText := by
    rw [plain, List.map_map]
    apply List.map_congr_left
    intro entry _
    exact congrArg (fun value => entry.1 ++ '=' :: value) entry.2.text_plain
  rw [text, text, hentries]

/-- The entries of the fields in a document. -/
def toEntries (fields : Fields) : Entries Json :=
  fields.map fun entry => (entry.1, entry.2.toJson)

theorem map_fst_toEntries (fields : Fields) :
    fields.toEntries.map Prod.fst = fields.map Prod.fst := by
  rw [toEntries, List.map_map]
  rfl

theorem get?_toEntries (key : Text) (fields : Fields) :
    Entries.get? key fields.toEntries =
      (Entries.get? key fields).map FieldValue.toJson := by
  induction fields with
  | nil => rfl
  | cons entry fields ih =>
      rw [toEntries, List.map_cons, Entries.get?, Entries.get?]
      split_ifs
      · rfl
      · exact ih

theorem exists_of_mem_toEntries {fields : Fields} {entry : Text × Json}
    (h : entry ∈ fields.toEntries) :
    ∃ field ∈ fields, entry.2 = field.2.toJson := by
  obtain ⟨field, hfield, rfl⟩ := List.mem_map.mp h
  exact ⟨field, hfield, rfl⟩

end Fields

theorem Level.ofText?_name (level : Level) :
    Level.ofText? level.name = some level := by
  cases level <;> decide

namespace Event

/-- The entries that are no fields. -/
def reserved (e : Event) : Entries Json :=
  [(levelKey, .string e.level.name), (timeKey, .string (Rfc3339.render e.time)),
    (messageKey, .string e.message)] ++
    match e.logger with
    | some logger => [(loggerKey, .string logger)]
    | none => []

theorem reserved_prefix (e : Event) :
    e.reserved.map Prod.fst <+: reservedKeys := by
  rw [reserved]
  cases e.logger with
  | none => exact ⟨[loggerKey], rfl⟩
  | some logger => exact ⟨[], rfl⟩

theorem nodup_reservedKeys : reservedKeys.Nodup := by
  decide

theorem reserved_string {e : Event} {entry : Text × Json}
    (h : entry ∈ e.reserved) :
    ∃ t, entry.2 = .string t := by
  rw [reserved, List.mem_append] at h
  rcases h with hfixed | hlogger
  · simp only [List.mem_cons, List.not_mem_nil, or_false] at hfixed
    rcases hfixed with rfl | rfl | rfl <;> exact ⟨_, rfl⟩
  · cases hname : e.logger with
    | none => simp [hname] at hlogger
    | some logger =>
        simp only [hname, List.mem_singleton] at hlogger
        exact ⟨logger, congrArg Prod.snd hlogger⟩

end Event

end Logline
