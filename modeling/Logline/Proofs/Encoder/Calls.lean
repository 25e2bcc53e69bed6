import Logline.Encoder
import Logline.Proofs.Converter.Compiled
/-!
Calls of an encoder.  An encoder built with the built-in converters gives for
an event the meaning of its layout, and a line feed behind it, whatever it has
been asked before (`encodeEvent_after`).
-/
namespace Logline.Encoder

variable {κ : Type} {ext : Extension κ}

/-- What an encoder is asked for: the line of an event, or of a payload that
comes in at a time. -/
inductive Call
  | event (e : Event)
  | payload (now : Timestamp) (bytes : Bytes)

/-- One call. -/
def call (ext : Extension κ) (encoder : Encoder κ) :
    Call → Encoder κ × Outcome Bytes
  | .event e => encoder.encodeEvent ext e
  | .payload now bytes => encoder.encode ext now bytes

/-- The encoder after a row of calls, whatever became of them. -/
def after (ext : Extension κ) (calls : List Call) (encoder : Encoder κ) :
    Encoder κ :=
  calls.foldl (fun encoder c => (encoder.call ext c).1) encoder

/-- The outcome for an event with this text. -/
def outcome : Except Panic Text → Outcome Bytes
  | .ok t => .done (Text.utf8 (t ++ ['\n']))
  | .error p => .panicked p

theorem build_cases {registry : Registry κ} {layout : Text}
    {encoder : Encoder κ} (h : build ext registry layout = .ok encoder) :
    encoder.layout = (if layout.isEmpty then defaultLayout else layout) ∧
      ∃ nodes, Pattern.read encoder.layout = .ok nodes ∧
        Pattern.compile ext registry nodes = .ok encoder.converters := by
  rw [build] at h
  generalize (if layout.isEmpty then defaultLayout else layout) = used at h ⊢
  cases hread : Pattern.read used with
  | error e =>
      rw [hread] at h
      contradiction
  | ok nodes =>
      rw [hread] at h
      obtain ⟨converters, hcompile, h⟩ := Except.bind_eq_ok h
      obtain rfl := Except.ok.inj h
      exact ⟨rfl, nodes, hread, hcompile⟩

/-- Whatever is left in the buffer, an event is converted into an empty one. -/
theorem converters_encodeEvent (ext : Extension κ) (encoder : Encoder κ)
    (e : Event) :
    (encoder.encodeEvent ext e).1.converters =
      (Converter.writeAll ext e encoder.converters []).state := by
  rw [encodeEvent, Bytes.cleared_eq]
  cases (Converter.writeAll ext e encoder.converters []).panic <;> rfl

/-- A call converts one event into an empty buffer, or nothing if the payload
is refused. -/
theorem converters_call (ext : Extension κ) (encoder : Encoder κ) (c : Call) :
    (encoder.call ext c).1.converters = encoder.converters ∨
      ∃ e, (encoder.call ext c).1.converters =
        (Converter.writeAll ext e encoder.converters []).state := by
  cases c with
  | event e => exact .inr ⟨e, converters_encodeEvent ext encoder e⟩
  | payload now bytes =>
      rw [call, encode]
      cases Event.ofPayload now bytes with
      | error e => exact .inl rfl
      | ok e => exact .inr ⟨e, converters_encodeEvent ext encoder e⟩

theorem exists_converters_after (ext : Extension κ) (encoder : Encoder κ)
    (calls : List Call) :
    ∃ history, (encoder.after ext calls).converters =
      Converter.after ext history encoder.converters := by
  induction calls generalizing encoder with
  | nil => exact ⟨[], rfl⟩
  | cons c calls ih =>
      obtain ⟨history, hhistory⟩ := ih (encoder.call ext c).1
      obtain hsame | ⟨e, hwritten⟩ := converters_call ext encoder c
      · rw [hsame] at hhistory
        exact ⟨history, hhistory⟩
      · rw [hwritten] at hhistory
        exact ⟨(e, []) :: history, hhistory⟩

theorem encodeEvent_of_appends {encoder : Encoder κ} {e : Event}
    {text : Except Panic Text}
    (h : (Converter.writeAll ext e encoder.converters []).Appends [] text) :
    (encoder.encodeEvent ext e).2 = outcome text := by
  rw [encodeEvent, Bytes.cleared_eq]
  cases text with
  | error p =>
      simp only [h.2]
      rfl
  | ok t =>
      simp only [h.1, h.2]
      rw [outcome, Text.utf8_append, List.nil_append]

/-- The line of an event, after any calls, is the meaning of the layout. -/
theorem encodeEvent_after {encoder : Encoder κ} {nodes : List Node}
    (hcompile : Pattern.compile ext Registry.builtins nodes =
      .ok encoder.converters)
    (calls : List Call) (e : Event) :
    ((encoder.after ext calls).encodeEvent ext e).2 =
      outcome (Pattern.meaning e nodes) := by
  apply encodeEvent_of_appends
  obtain ⟨history, hhistory⟩ := exists_converters_after ext encoder calls
  rw [hhistory]
  exact Pattern.writeAll_after_appends hcompile history e []

end Logline.Encoder
