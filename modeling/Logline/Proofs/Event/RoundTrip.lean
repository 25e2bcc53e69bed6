import Logline.Proofs.Encoder.Calls
import Logline.Proofs.Event.Overrides
/-!
Events that survive their payload.  A payload says of a duration or an error no
more than its text, so that an event comes back `plain`; an event with a float,
a field under a reserved key or a time that RFC 3339 has no text for does not
(`Portable`).  What is lost does not show in a log line: an encoder makes the
same of the payload and of the event (`toPayload_roundTrip`).
-/
namespace Logline

namespace Event

/-- The event as it comes back from its payload. -/
def plain (e : Event) : Event :=
  { e with fields := e.fields.plain }

/-- All of the event but what `plain` leaves out can be said in a payload.  A
message is one line in every event that has been made with one, and keys are
distinct in every map. -/
structure Portable (e : Event) : Prop where
  time : e.time.Writable
  message : e.message.OneLine
  keys : (e.fields.map Prod.fst).Nodup
  unreserved : ∀ entry ∈ e.fields, entry.1 ∉ reservedKeys
  floatFree : ∀ entry ∈ e.fields, entry.2.FloatFree
  depth : ∀ entry ∈ e.fields, entry.2.depth ≤ 126

namespace Portable

variable {e : Event}

theorem expressible (h : e.Portable) : e.Expressible where
  time := h.time
  message := h.message
  keys := h.keys
  floatFree := h.floatFree
  depth := h.depth

/-- No field says what the event says of itself. -/
theorem saidUnder_eq (h : e.Portable) {β : Type} {key : Text}
    (hkey : key ∈ reservedKeys) (say : FieldValue → β) (own : β) :
    e.saidUnder key say own = own := by
  rw [h.expressible.saidUnder_eq_iff]
  rintro entry hentry rfl
  exact absurd hkey (h.unreserved entry hentry)

theorem told_eq (h : e.Portable) : e.told = .ok e.plain := by
  have hlevel : e.toldLevel = e.level := h.saidUnder_eq (by decide) _ _
  have htime : e.toldTime = .ok e.time := h.saidUnder_eq (by decide) _ _
  have hmessage : e.toldMessage = e.message := h.saidUnder_eq (by decide) _ _
  have hlogger : e.toldLogger = e.logger := h.saidUnder_eq (by decide) _ _
  have hfields : e.toldFields = e.fields.plain := by
    have hkept : e.fields.filter (fun entry => !reservedKeys.contains entry.1) =
        e.fields := by
      rw [List.filter_eq_self]
      intro entry hentry
      simpa using h.unreserved entry hentry
    rw [toldFields, hkept]
  rw [told, htime, Except.ok_bind, hlevel, hmessage, hlogger, hfields]
  rfl

/-- The event in the payload of an event. -/
theorem ofPayload_toPayload (h : e.Portable) (now : Timestamp) :
    ofPayload now e.toPayload = .ok e.plain :=
  (h.expressible.ofPayload_toPayload now).trans h.told_eq

end Portable

end Event

/-! ### Lines -/

namespace Pattern

mutual

theorem nodeMeaning_plain (e : Event) : ∀ node : Node,
    nodeMeaning e.plain node = nodeMeaning e node
  | .literal t => rfl
  | .converter name options children => by
      rw [nodeMeaning, nodeMeaning, coloredMeaning_plain e _ children]
      have hfields : e.plain.fields.text = e.fields.text := e.fields.text_plain
      rw [hfields]
      rfl

/-- What a payload leaves out does not show in a line. -/
theorem meaning_plain (e : Event) :
    ∀ nodes : List Node, meaning e.plain nodes = meaning e nodes
  | [] => rfl
  | node :: rest => by
      rw [meaning, meaning, nodeMeaning_plain e node, meaning_plain e rest]

theorem coloredMeaning_plain (e : Event) (c : Option Color) :
    ∀ nodes : List Node,
    coloredMeaning e.plain c nodes = coloredMeaning e c nodes
  | [] => rfl
  | node :: rest => by
      rw [coloredMeaning, coloredMeaning, nodeMeaning_plain e node,
        coloredMeaning_plain e c rest]
      rfl

end

end Pattern

namespace Event

/-- An event comes back from its payload, whatever the time is, and an encoder
makes of the payload what it makes of the event, whatever it has been asked
before. -/
theorem toPayload_roundTrip {e : Event} (h : e.Portable) :
    (∀ now, ofPayload now e.toPayload = .ok e.plain) ∧
      ∀ {κ : Type} (ext : Extension κ) (layout : Text) (encoder : Encoder κ),
        Encoder.build ext Registry.builtins layout = .ok encoder →
          ∀ (calls : List Encoder.Call) (now : Timestamp),
            ((encoder.after ext calls).encode ext now e.toPayload).2 =
              ((encoder.after ext calls).encodeEvent ext e).2 := by
  refine ⟨h.ofPayload_toPayload, ?_⟩
  intro κ ext layout encoder hbuild calls now
  obtain ⟨-, nodes, -, hcompile⟩ := Encoder.build_cases hbuild
  rw [Encoder.encode, h.ofPayload_toPayload now]
  calc
    ((encoder.after ext calls).encodeEvent ext e.plain).2
      = Encoder.outcome (Pattern.meaning e.plain nodes) :=
        Encoder.encodeEvent_after hcompile calls e.plain
    _ = Encoder.outcome (Pattern.meaning e nodes) := by
      rw [Pattern.meaning_plain]
    _ = ((encoder.after ext calls).encodeEvent ext e).2 :=
        (Encoder.encodeEvent_after hcompile calls e).symm

namespace RoundTripWitness

/-- A leap second west of Greenwich, and fields of which two come back as their
text. -/
def event : Event where
  level := .panic
  time := ⟨3659, 1_500_000_000, -3600⟩
  message := "\"é\x01🎉\\".toList
  logger := some ['\n']
  fields := [("wait".toList, .duration (.ofMillis 1500)), ([], .int (-5)),
    ("all".toList, .list [.error ['\t'], .list [], .null, .bool true])]

def layout : Text := "#date\x7b%S%.f\x7d #fields".toList

def nodes : List Node :=
  [.converter "date".toList ["%S%.f".toList] [], .literal [' '],
    .converter "fields".toList [] []]

theorem portable_event : event.Portable where
  time := ⟨by decide, by decide, by decide +kernel, by decide,
    by decide +kernel⟩
  message := by decide
  keys := by decide
  unreserved := by decide
  floatFree := by simp [event, FieldValue.FloatFree, FieldValue.AllFloatFree]
  depth := by simp [event, FieldValue.depth, FieldValue.depthAll]

theorem toPayload_roundTrip_sample :
    event.Portable ∧ ofPayload .epoch event.toPayload = .ok event.plain ∧
      ∃ encoder, Encoder.build Sample.extension Registry.builtins layout =
        .ok encoder ∧
        ((encoder.after Sample.extension [.event event]).encode
            Sample.extension .epoch event.toPayload).2 =
          ((encoder.after Sample.extension [.event event]).encodeEvent
            Sample.extension event).2 := by
  have hread : Pattern.read layout = .ok nodes := rfl
  obtain ⟨encoder, hbuild⟩ : ∃ encoder,
      Encoder.build Sample.extension Registry.builtins layout =
        .ok encoder := by
    rw [Encoder.build, if_neg (by decide)]
    simp only [hread]
    exact ⟨_, rfl⟩
  obtain ⟨hback, hlines⟩ := toPayload_roundTrip portable_event
  exact ⟨portable_event, hback .epoch, encoder, hbuild,
    hlines Sample.extension layout encoder hbuild [.event event] .epoch⟩

end RoundTripWitness

end Event

end Logline
