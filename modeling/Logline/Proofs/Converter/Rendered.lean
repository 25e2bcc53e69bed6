import Mathlib.Tactic.SplitIfs
import Logline.Proofs.Text.OneLine
/-!
What converters write, without buffers.  `rendered` gives the text of a
converter for an event, or the panic that it ends in; writing puts exactly this
text behind whatever is in the buffer (`write_appends`).  Neither the buffer
nor what a color has kept from earlier events has a part in it.
-/
namespace Logline

/-- The text stands behind the buffer; or the panic has come up, and the buffer
still begins as it did. -/
def Written.Appends {α : Type} (w : Written α) (out : Bytes) :
    Except Panic Text → Prop
  | .ok t => w.out = out ++ t.utf8 ∧ w.panic = none
  | .error p => out <+: w.out ∧ w.panic = some p

namespace Event

/-- The name of the logger in a log line. -/
def loggerText (width : Option Nat) : Option Text → Text
  | some (c :: rest) =>
      sanitize <| match width with
        | some n => LoggerName.abbreviate (c :: rest) n
        | none => c :: rest
  | _ => ['-']

/-- The message in a log line. -/
def messageText (message : Text) : Text :=
  if message.isEmpty then ['-'] else message

end Event

/-- The text that sets a color, if there is one. -/
def Color.startText : Option Color → Text
  | some c => c.sequence
  | none => []

/-- The name of a level in the color of its severity. -/
def Level.coloredName (level : Level) : Text :=
  level.color.sequence ++ level.name ++ Color.reset

/-- A timestamp in the layout; one that cannot be rendered panics. -/
def DateLayout.text (layout : DateLayout) (t : Timestamp) : Except Panic Text :=
  match layout.render? t with
  | some text => .ok text
  | none => .error (.message Converter.dateFailure)

/-- What a custom converter writes, with the text of its children. -/
def Rendering.around (rendering : Rendering) (inner : Except Panic Text) :
    Except Panic Text := do
  let text ← inner
  match rendering.panic with
  | some p => .error p
  | none => return rendering.before ++ text ++ rendering.after

namespace Written

variable {α : Type}

/-- One row of converters behind another: the second is not begun if the first
panics. -/
theorem Appends.seq {β : Type} {w : Written α} {next result : Written β}
    {out : Bytes} {first more : Except Panic Text}
    (hfirst : w.Appends out first) (hnext : next.Appends w.out more)
    (hout : result.out = if w.panic.isSome then w.out else next.out)
    (hpanic : result.panic = w.panic.or next.panic) :
    result.Appends out (do
      let text ← first
      let rest ← more
      return text ++ rest) := by
  cases first with
  | error p =>
      obtain ⟨hbegins, hp⟩ := hfirst
      rw [hp] at hout hpanic
      exact ⟨by rw [hout]; exact hbegins, hpanic⟩
  | ok text =>
      obtain ⟨heq, hnone⟩ := hfirst
      rw [hnone] at hout hpanic
      cases more with
      | error p =>
          obtain ⟨hbegins, hp⟩ := hnext
          rw [heq] at hbegins
          refine ⟨?_, hpanic.trans hp⟩
          rw [hout]
          exact (List.prefix_append out _).trans hbegins
      | ok rest =>
          obtain ⟨hrest, hp⟩ := hnext
          refine ⟨?_, hpanic.trans hp⟩
          rw [hout, if_neg (by simp), hrest, heq, Text.utf8_append,
            List.append_assoc]

/-- Text that is there already belongs to what is written. -/
theorem Appends.behind {w : Written α} {out : Bytes} {head : Text}
    {more : Except Panic Text} (h : w.Appends (out ++ head.utf8) more) :
    w.Appends out (do
      let rest ← more
      return head ++ rest) := by
  cases more with
  | error p => exact ⟨(List.prefix_append out _).trans h.1, h.2⟩
  | ok rest =>
      refine ⟨?_, h.2⟩
      rw [h.1, Text.utf8_append, List.append_assoc]

theorem Appends.around {β : Type} {w : Written α} {out : Bytes}
    {rendering : Rendering} {inner : Except Panic Text}
    (hinner : w.Appends (out ++ rendering.before.utf8) inner)
    (stopped finished : β) :
    (match w.panic with
      | some p => Written.mk stopped w.out (some p)
      | none => ⟨finished, w.out ++ rendering.after.utf8, rendering.panic⟩ :
      Written β).Appends out (rendering.around inner) := by
  cases inner with
  | error p =>
      obtain ⟨hbegins, hp⟩ := hinner
      rw [hp]
      exact ⟨(List.prefix_append out _).trans hbegins, rfl⟩
  | ok text =>
      obtain ⟨heq, hnone⟩ := hinner
      rw [hnone, heq]
      obtain ⟨before, children, after, panic⟩ := rendering
      cases panic with
      | some p => exact ⟨by simp, rfl⟩
      | none => exact ⟨by simp, rfl⟩

end Written

namespace Converter

variable {κ : Type}

mutual

/-- The text of a converter for an event. -/
def rendered (ext : Extension κ) (e : Event) : Converter κ → Except Panic Text
  | literal t => .ok t
  | color c children _ => do
      let inner ← renderedColored ext e c children
      return Color.startText c ++ inner ++ Color.reset
  | level => .ok e.level.name
  | date layout => layout.text e.time
  | logger width => .ok (Event.loggerText width e.logger)
  | message => .ok (Event.messageText e.message)
  | fields => .ok (Event.sanitize e.fields.text)
  | custom state children =>
      let rendering := (ext.render state e).2
      rendering.around <|
        if rendering.children then renderedAll ext e children else .ok []

/-- The texts of converters one after the other. -/
def renderedAll (ext : Extension κ) (e : Event) :
    List (Converter κ) → Except Panic Text
  | [] => .ok []
  | c :: rest => do
      let text ← rendered ext e c
      let more ← renderedAll ext e rest
      return text ++ more

/-- The texts of the children of a color.  A level has the color of its
severity, and the color around it goes on behind it if there is a next child. -/
def renderedColored (ext : Extension κ) (e : Event) (c : Option Color) :
    List (Converter κ) → Except Panic Text
  | [] => .ok []
  | level :: rest => do
      let more ← renderedColored ext e c rest
      return e.level.coloredName ++
        (if rest.isEmpty then [] else Color.startText c) ++ more
  | child :: rest => do
      let text ← rendered ext e child
      let more ← renderedColored ext e c rest
      return text ++ more

end

/-! ### Leaves -/

theorem colorStart_eq (c : Option Color) :
    colorStart c = (Color.startText c).utf8 := by
  cases c <;> rfl

theorem writeLogger_eq (width : Option Nat) (logger : Option Text)
    (out : Bytes) :
    writeLogger width logger out =
      out ++ (Event.loggerText width logger).utf8 := by
  rcases logger with _ | ⟨_ | ⟨c, rest⟩⟩
  · rfl
  · rfl
  · exact escapeBreaksFrom_utf8 out _

theorem sanitize_join_cons (entry next : Text × FieldValue) (rest : Fields) :
    Event.sanitize (Fields.text (entry :: next :: rest)) =
      Event.sanitize (Fields.entryText entry) ++ ' ' ::
        Event.sanitize (Fields.text (next :: rest)) := by
  rw [Fields.text, List.map_cons, List.map_cons, Text.join,
    List.intercalate_cons_cons, Text.sanitize_append, Text.sanitize_append,
    List.append_assoc]
  rfl

/-- A blank stands in front of every field but the first. -/
theorem writeFields_eq (first : Bool) (fields : Fields) (out : Bytes) :
    writeFields first fields out =
      out ++ (if first || fields.isEmpty then [] else Text.utf8 [' ']) ++
        (Event.sanitize fields.text).utf8 := by
  induction fields generalizing first out with
  | nil => simp [writeFields, Fields.text, Text.join, Event.sanitize]
  | cons entry rest ih =>
      rw [writeFields, escapeBreaksFrom_utf8, ih]
      cases rest with
      | nil => cases first <;> simp [Fields.text, Text.join, Event.sanitize]
      | cons next rest =>
          rw [sanitize_join_cons]
          cases first <;> simp

/-! ### Writing -/

mutual

theorem write_appends (ext : Extension κ) (e : Event) :
    ∀ (c : Converter κ) (out : Bytes),
      (write ext e c out).Appends out (rendered ext e c)
  | literal t, out => ⟨by rw [write], by rw [write]⟩
  | color c children scratch, out => by
      have hinner := writeColored_appends ext e c children (colorStart c)
      rw [write, rendered, Bytes.cleared_eq, List.nil_append]
      cases htext : renderedColored ext e c children with
      | error p =>
          rw [htext] at hinner
          simp only [hinner.2]
          exact ⟨List.prefix_refl out, rfl⟩
      | ok text =>
          rw [htext] at hinner
          simp only [hinner.2]
          refine ⟨?_, rfl⟩
          rw [hinner.1, colorStart_eq, Text.utf8_append, Text.utf8_append]
  | level, out => ⟨by rw [write], by rw [write]⟩
  | date layout, out => by
      rw [write, rendered, DateLayout.text]
      cases layout.render? e.time with
      | none => exact ⟨List.prefix_refl out, rfl⟩
      | some text => exact ⟨rfl, rfl⟩
  | logger width, out => by
      rw [write, rendered]
      exact ⟨writeLogger_eq width e.logger out, rfl⟩
  | message, out => ⟨by rw [write]; rfl, by rw [write]⟩
  | fields, out => by
      rw [write, rendered]
      exact ⟨by simp [writeFields_eq], rfl⟩
  | custom state children, out => by
      rw [write, rendered]
      generalize ext.render state e = reply
      apply Written.Appends.around
      split_ifs
      · exact writeAll_appends ext e children _
      · exact ⟨by simp, rfl⟩

theorem writeAll_appends (ext : Extension κ) (e : Event) :
    ∀ (cs : List (Converter κ)) (out : Bytes),
      (writeAll ext e cs out).Appends out (renderedAll ext e cs)
  | [], out => ⟨by rw [writeAll]; simp, by rw [writeAll]⟩
  | c :: rest, out => by
      have hfirst := write_appends ext e c out
      have hnext := writeAll_appends ext e rest (write ext e c out).out
      rw [renderedAll]
      apply hfirst.seq hnext
      · rw [writeAll]
        cases (write ext e c out).panic <;> rfl
      · rw [writeAll]
        cases (write ext e c out).panic <;> rfl

theorem writeColored_appends (ext : Extension κ) (e : Event)
    (c : Option Color) :
    ∀ (cs : List (Converter κ)) (out : Bytes),
      (writeColored ext e c cs out).Appends out (renderedColored ext e c cs)
  | [], out => ⟨by rw [writeColored]; simp, by rw [writeColored]⟩
  | child :: rest, out => by
      by_cases hlevel : child = .level
      · subst hlevel
        rw [writeColored, renderedColored]
        apply Written.Appends.behind
        have hhead : (if rest.isEmpty
            then out ++ e.level.color.sequence.utf8 ++ e.level.name.utf8 ++
              Color.reset.utf8
            else out ++ e.level.color.sequence.utf8 ++ e.level.name.utf8 ++
              Color.reset.utf8 ++
              colorStart c) =
            out ++ (e.level.coloredName ++
              if rest.isEmpty then [] else Color.startText c).utf8 := by
          rw [colorStart_eq, Level.coloredName]
          split_ifs <;> simp only [Text.utf8_append, List.append_assoc,
            List.append_nil]
        rw [hhead]
        exact writeColored_appends ext e c rest _
      · have hfirst := write_appends ext e child out
        have hnext := writeColored_appends ext e c rest
          (write ext e child out).out
        rw [renderedColored]
        · apply hfirst.seq hnext
          · rw [writeColored]
            · cases (write ext e child out).panic <;> rfl
            · exact hlevel
          · rw [writeColored]
            · cases (write ext e child out).panic <;> rfl
            · exact hlevel
        · exact hlevel

end

/-! ### Fields -/

/-- The escapes of a line feed, a carriage return and a tab are a backslash
and a letter; every other byte stands for itself. -/
theorem escapeBreakByte_cases :
    escapeBreakByte 10 = Text.utf8 ['\\', 'n'] ∧
      escapeBreakByte 13 = Text.utf8 ['\\', 'r'] ∧
      escapeBreakByte 9 = Text.utf8 ['\\', 't'] ∧
      ∀ b, b ≠ 10 → b ≠ 13 → b ≠ 9 → escapeBreakByte b = [b] := by
  refine ⟨by decide, by decide, by decide, fun b hfeed hreturn htab => ?_⟩
  rw [escapeBreakByte, if_neg hfeed, if_neg hreturn, if_neg htab]

/-- The converter of fields puts their text behind the buffer, each byte of it
that breaks a line as its escape; what was in the buffer stays, with the
breaks that it has.  And escaping is the same whether or not the buffer is
rewritten where there is no break.  The escapes are those of line feed,
carriage return and tab. -/
theorem write_fields_escaped (ext : Extension κ) (e : Event) (out : Bytes) :
    write ext e .fields out =
        ⟨.fields, out ++ e.fields.text.utf8.flatMap escapeBreakByte, none⟩ ∧
      (∀ start buffer, escapeBreaksFrom start buffer =
        buffer.take start ++ (buffer.drop start).flatMap escapeBreakByte) ∧
      escapeBreakByte 10 = Text.utf8 ['\\', 'n'] ∧
      escapeBreakByte 13 = Text.utf8 ['\\', 'r'] ∧
      escapeBreakByte 9 = Text.utf8 ['\\', 't'] ∧
      ∀ b, b ≠ 10 → b ≠ 13 → b ≠ 9 → escapeBreakByte b = [b] := by
  refine ⟨?_, escapeBreaksFrom_eq, escapeBreakByte_cases⟩
  rw [write, writeFields_eq, flatMap_escapeBreakByte_utf8]
  simp

end Converter

end Logline
