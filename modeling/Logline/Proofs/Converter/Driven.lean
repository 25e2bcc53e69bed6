import Logline.Converter.Inspect
import Logline.Converter.Samples
import Logline.Proofs.Converter.Merged
/-!
Converters that are driven by hand: options and children are attached to them,
and events converted, in any order.  A built-in converter is at every moment as
a new one would be that has been given the first option it took last and the
children attached last, these as the conversions since have left them; all that
is besides is scratch (`driven_keeps_last_configuration`).  So options that are
refused or empty change nothing, and conversions leave their traces in the
states of custom converters among the children alone, where these keep one
(`conversions_leave_traces`).
-/
namespace Logline

namespace Written

variable {α : Type} {w : Written α} {out : Bytes} {text : Except Panic Text}

theorem Appends.panic_eq (h : w.Appends out text) :
    w.panic = failure? text := by
  cases text with
  | ok t => exact h.2
  | error p => exact h.2

/-- The text stands behind the buffer; or the panic has come up, and nothing
was written. -/
def Puts (w : Written α) (out : Bytes) : Except Panic Text → Prop
  | .ok t => w.out = out ++ t.utf8 ∧ w.panic = none
  | .error p => w.out = out ∧ w.panic = some p

end Written

namespace Converter

variable {κ : Type}

/-! ### States after a conversion -/

section States

variable (ext : Extension κ) (e : Event)

theorem panic_write (c : Converter κ) (out out' : Bytes) :
    (write ext e c out).panic = (write ext e c out').panic :=
  (write_appends ext e c out).panic_eq.trans
    (write_appends ext e c out').panic_eq.symm

theorem panic_writeAll (cs : List (Converter κ)) (out out' : Bytes) :
    (writeAll ext e cs out).panic = (writeAll ext e cs out').panic :=
  (writeAll_appends ext e cs out).panic_eq.trans
    (writeAll_appends ext e cs out').panic_eq.symm

theorem state_andThen {v w : Written (Converter κ)}
    {next next' : Bytes → Written (List (Converter κ))}
    (hstate : v.state = w.state) (hpanic : v.panic = w.panic)
    (hnext : ∀ out out', (next out).state = (next' out').state)
    (rest : List (Converter κ)) :
    (andThen v rest next).state = (andThen w rest next').state := by
  rw [andThen, andThen, hstate, hpanic]
  cases w.panic with
  | some p => rfl
  | none => exact congrArg (w.state :: ·) (hnext v.out w.out)

mutual

/-- The buffer has no part in the state after a conversion. -/
theorem state_write : ∀ (c : Converter κ) (out out' : Bytes),
    (write ext e c out).state = (write ext e c out').state
  | color c children scratch, out, out' => by
      rw [write, write]
      dsimp only
      cases (writeColored ext e c children
        (scratch.cleared ++ colorStart c)).panic <;> rfl
  | custom state children, out, out' => by
      rw [write, write]
      generalize ext.render state e = reply
      obtain ⟨state', before, wanted, after, panic⟩ := reply
      cases wanted with
      | false => rfl
      | true =>
          have hstate := state_writeAll children (out ++ before.utf8)
            (out' ++ before.utf8)
          have hpanic := panic_writeAll ext e children (out ++ before.utf8)
            (out' ++ before.utf8)
          simp only [if_true]
          rw [hpanic, hstate]
          cases (writeAll ext e children (out' ++ before.utf8)).panic <;> rfl
  | date layout, out, out' => by
      rw [write, write]
      cases layout.render? e.time <;> rfl
  | literal _, _, _ | level, _, _ | logger _, _, _
  | message, _, _ | fields, _, _ => by
      rw [write, write]

theorem state_writeAll : ∀ (cs : List (Converter κ)) (out out' : Bytes),
    (writeAll ext e cs out).state = (writeAll ext e cs out').state
  | [], out, out' => by rw [writeAll, writeAll]
  | c :: rest, out, out' => by
      rw [writeAll_cons, writeAll_cons]
      exact state_andThen (state_write c out out')
        (panic_write ext e c out out') (state_writeAll rest) rest

end

/-- Nor has a color around a row. -/
theorem state_writeColored (color : Option Color) (cs : List (Converter κ))
    (out out' : Bytes) :
    (writeColored ext e color cs out).state =
      (writeAll ext e cs out').state := by
  induction cs generalizing out out' with
  | nil => rw [writeColored, writeAll]
  | cons c rest ih =>
      by_cases hlevel : c = .level
      · subst hlevel
        rw [writeColored_level, writeAll_level]
        exact congrArg (level :: ·) (ih _ _)
      · rw [writeColored_cons hlevel, writeAll_cons]
        exact state_andThen (state_write ext e c out out')
          (panic_write ext e c out out') ih rest

end States

/-! ### Calls -/

/-- What is done to a converter by hand. -/
inductive Call (κ : Type)
  | options (options : List Text)
  | children (children : List (Converter κ))
  | convert (e : Event) (out : Bytes)

/-- The converter after a call.  Options that are refused leave it as it was. -/
def call (ext : Extension κ) (c : Converter κ) : Call κ → Converter κ
  | .options options =>
    match c.attachOptions ext options with
    | .ok configured => configured
    | .error _ => c
  | .children children => c.attachChildren children
  | .convert e out => (write ext e c out).state

/-- The converter after a row of calls. -/
def driven (ext : Extension κ) (calls : List (Call κ)) (c : Converter κ) :
    Converter κ :=
  calls.foldl (call ext) c

/-- The first option of a call whose options are taken. -/
def takenOption? (ext : Extension κ) (c : Converter κ) : Call κ → Option Text
  | .options (option :: rest) =>
    match c.attachOptions ext (option :: rest) with
    | .ok _ => some option
    | .error _ => none
  | _ => none

/-- The first option of the last call whose options are taken. -/
def lastOption? (ext : Extension κ) (c : Converter κ) :
    List (Call κ) → Option Text
  | [] => none
  | first :: calls =>
      (lastOption? ext (c.call ext first) calls).or (c.takenOption? ext first)

/-- The children that are there after a call. -/
def Call.childrenAfter (children : List (Converter κ)) :
    Call κ → List (Converter κ)
  | .children attached => attached
  | _ => children

/-- The children attached last, or else those that were there at first. -/
def lastChildren (own : List (Converter κ)) (calls : List (Call κ)) :
    List (Converter κ) :=
  calls.foldl Call.childrenAfter own

/-- The children that are there after a call, in the states that a conversion
leaves them in. -/
def Call.hold (ext : Extension κ) (children : List (Converter κ)) :
    Call κ → List (Converter κ)
  | .convert e out => (writeAll ext e children out).state
  | call => call.childrenAfter children

/-- The children attached last, as the conversions since have left them. -/
def heldChildren (ext : Extension κ) (own : List (Converter κ))
    (calls : List (Call κ)) :
    List (Converter κ) :=
  calls.foldl (Call.hold ext) own

def ownChildren : Converter κ → List (Converter κ)
  | color _ children _ => children
  | custom _ children => children
  | _ => []

/-- The converter, given an option if there is one. -/
def given (ext : Extension κ) (option : Option Text) (c : Converter κ) :
    Converter κ :=
  match option with
  | some option => c.call ext (.options [option])
  | none => c

/-- The converter, given an option if there is one, and children. -/
def configured (ext : Extension κ) (option : Option Text)
    (children : List (Converter κ)) (c : Converter κ) : Converter κ :=
  (c.given ext option).attachChildren children

/-- The converter, given no more than the option taken last and the children
attached last, as the conversions since have left these. -/
def lastConfiguration (ext : Extension κ) (calls : List (Call κ))
    (c : Converter κ) : Converter κ :=
  c.configured ext (lastOption? ext c calls)
    (heldChildren ext c.ownChildren calls)

/-- The converter with these bytes in its scratch buffer, if it has one. -/
def withScratch (scratch : Bytes) : Converter κ → Converter κ
  | color c children _ => color c children scratch
  | c => c

/-- The converter is no custom one. -/
def IsBuiltin : Converter κ → Prop
  | custom _ _ => False
  | _ => True

section Rows

variable (ext : Extension κ) (c : Converter κ) (own : List (Converter κ))
  (calls : List (Call κ)) (last : Call κ)

theorem driven_snoc :
    driven ext (calls ++ [last]) c = (driven ext calls c).call ext last := by
  rw [driven, List.foldl_append]
  rfl

theorem lastOption?_snoc :
    lastOption? ext c (calls ++ [last]) =
      ((driven ext calls c).takenOption? ext last).or
        (lastOption? ext c calls) := by
  induction calls generalizing c with
  | nil => simp [lastOption?, driven]
  | cons first calls ih =>
      rw [List.cons_append, lastOption?, lastOption?, ih, Option.or_assoc]
      rfl

theorem lastChildren_snoc :
    lastChildren own (calls ++ [last]) =
      last.childrenAfter (lastChildren own calls) := by
  rw [lastChildren, List.foldl_append]
  rfl

theorem heldChildren_snoc :
    heldChildren ext own (calls ++ [last]) =
      last.hold ext (heldChildren ext own calls) := by
  rw [heldChildren, List.foldl_append]
  rfl

end Rows

/-- Children whose custom converters keep their states are held as they were
attached, but for scratch. -/
theorem clearedAll_heldChildren {ext : Extension κ} {own : List (Converter κ)}
    {calls : List (Call κ)} (h : AllSteady ext (lastChildren own calls)) :
    clearedAll (heldChildren ext own calls) =
      clearedAll (lastChildren own calls) := by
  induction calls using List.reverseRecOn with
  | nil => rfl
  | append_singleton calls last ih =>
      rw [lastChildren_snoc] at h ⊢
      rw [heldChildren_snoc]
      cases last with
      | options options => exact ih h
      | children attached => rfl
      | convert e out =>
          have hsame := ih h
          have hsteady : AllSteady ext (heldChildren ext own calls) := by
            rw [← allSteady_clearedAll_iff, hsame, allSteady_clearedAll_iff]
            exact h
          exact (clearedAll_writeAll ext e _ out hsteady).trans hsame

/-! ### Built-in converters -/

section Builtins

variable {ext : Extension κ} {c : Converter κ}

theorem rendered_withScratch (scratch : Bytes) (c : Converter κ) (e : Event) :
    rendered ext e (c.withScratch scratch) = rendered ext e c := by
  cases c with
  | color _ _ _ => rw [withScratch, rendered, rendered]
  | literal _ | level | date _ | logger _ | message | fields | custom _ _ => rfl

theorem attachChildren_withScratch (scratch : Bytes)
    (children : List (Converter κ)) :
    (c.withScratch scratch).attachChildren children =
      (c.attachChildren children).withScratch scratch := by
  cases c <;> rfl

theorem cleared_attachChildren (c : Converter κ)
    {first second : List (Converter κ)}
    (h : clearedAll first = clearedAll second) :
    (c.attachChildren first).cleared = (c.attachChildren second).cleared := by
  cases c with
  | color _ _ _ | custom _ _ => simp only [attachChildren, cleared, h]
  | literal _ | level | date _ | logger _ | message | fields => rfl

theorem attachChildren_attachChildren (first second : List (Converter κ)) :
    (c.attachChildren first).attachChildren second =
      c.attachChildren second := by
  cases c <;> rfl

namespace IsBuiltin

theorem attachChildren (h : c.IsBuiltin) (children : List (Converter κ)) :
    (c.attachChildren children).IsBuiltin := by
  cases c <;> trivial

theorem withScratch (h : c.IsBuiltin) (scratch : Bytes) :
    (c.withScratch scratch).IsBuiltin := by
  cases c <;> trivial

/-- No options are always taken, and change nothing. -/
theorem attachOptions_nil (h : c.IsBuiltin) :
    c.attachOptions ext [] = .ok c := by
  cases c <;> trivial

/-- Options behind the first have no part. -/
theorem attachOptions_cons (h : c.IsBuiltin) (option : Text)
    (rest : List Text) :
    c.attachOptions ext (option :: rest) = c.attachOptions ext [option] := by
  cases c <;> trivial

/-- Children and scratch have no part in taking options, and stay. -/
theorem attachOptions_around (h : c.IsBuiltin) (children : List (Converter κ))
    (scratch : Bytes) (options : List Text) :
    ((c.attachChildren children).withScratch scratch).attachOptions ext
      options =
      (c.attachOptions ext options).map fun taken =>
        (taken.attachChildren children).withScratch scratch := by
  cases c with
  | custom _ _ => exact h.elim
  | color _ _ _ => cases options <;> rfl
  | date layout =>
      cases options with
      | nil => rfl
      | cons option rest =>
          simp only [Converter.attachChildren, Converter.withScratch,
            attachOptions]
          cases DateLayout.ofOption option <;> rfl
  | logger width =>
      cases options with
      | nil => rfl
      | cons option rest =>
          simp only [Converter.attachChildren, Converter.withScratch,
            attachOptions]
          cases width? option <;> rfl
  | literal _ | level | message | fields => rfl

/-- What has taken options is a built-in converter that takes others as
before. -/
theorem attachOptions_taken (h : c.IsBuiltin) {options : List Text}
    {taken : Converter κ} (htaken : c.attachOptions ext options = .ok taken) :
    taken.IsBuiltin ∧
      ∀ option, taken.attachOptions ext [option] =
        c.attachOptions ext [option] := by
  cases options with
  | nil =>
      rw [h.attachOptions_nil] at htaken
      obtain rfl := Except.ok.inj htaken
      exact ⟨h, fun _ => rfl⟩
  | cons first rest =>
      cases c with
      | custom _ _ => exact h.elim
      | date layout =>
          obtain ⟨other, -, rfl⟩ := Except.map_eq_ok htaken
          exact ⟨trivial, fun _ => rfl⟩
      | logger width =>
          rw [attachOptions] at htaken
          cases hwidth : width? first with
          | none => simp [hwidth] at htaken
          | some n =>
              simp only [hwidth] at htaken
              obtain rfl := Except.ok.inj htaken
              exact ⟨trivial, fun _ => rfl⟩
      | color _ _ _ | literal _ | level | message | fields =>
          obtain rfl := Except.ok.inj htaken
          exact ⟨trivial, fun _ => rfl⟩

theorem given (h : c.IsBuiltin) (ext : Extension κ) (option : Option Text) :
    (c.given ext option).IsBuiltin ∧
      ∀ next, (c.given ext option).attachOptions ext [next] =
        c.attachOptions ext [next] := by
  cases option with
  | none => exact ⟨h, fun _ => rfl⟩
  | some option =>
      rw [Converter.given, call]
      cases htaken : c.attachOptions ext [option] with
      | error error => exact ⟨h, fun _ => rfl⟩
      | ok taken => exact h.attachOptions_taken htaken

/-- A conversion changes the states of the children alone, and scratch. -/
theorem exists_state_write (h : c.IsBuiltin) (ext : Extension κ)
    (children : List (Converter κ)) (scratch : Bytes) (e : Event)
    (out : Bytes) : ∃ scratch',
      (write ext e
          ((c.attachChildren children).withScratch scratch) out).state =
        (c.attachChildren
          (writeAll ext e children out).state).withScratch scratch' := by
  cases c with
  | custom _ _ => exact h.elim
  | color c _ _ =>
      have hstate := state_writeColored ext e c children
        (scratch.cleared ++ colorStart c) out
      rw [Converter.attachChildren, Converter.withScratch, write]
      dsimp only
      rw [hstate]
      cases (writeColored ext e c children
        (scratch.cleared ++ colorStart c)).panic <;>
        exact ⟨_, rfl⟩
  | date layout =>
      refine ⟨[], ?_⟩
      simp only [Converter.attachChildren, Converter.withScratch, write]
      cases layout.render? e.time <;> rfl
  | literal _ | level | logger _ | message | fields =>
      exact ⟨[], by simp only [Converter.attachChildren,
        Converter.withScratch, write]⟩

/-- What one call makes of a converter that is configured. -/
theorem exists_call_configured (h : c.IsBuiltin) {d : Converter κ}
    {option : Option Text} {children : List (Converter κ)} {scratch : Bytes}
    (hd : d = (c.configured ext option children).withScratch scratch)
    (last : Call κ) :
    ∃ scratch', d.call ext last =
      (c.configured ext ((d.takenOption? ext last).or option)
        (last.hold ext children)).withScratch scratch' := by
  obtain ⟨hgiven, hnext⟩ := h.given ext option
  cases last with
  | options options =>
      refine ⟨scratch, ?_⟩
      have hattach : ∀ options, d.attachOptions ext options =
          ((c.given ext option).attachOptions ext options).map fun taken =>
            (taken.attachChildren children).withScratch scratch := by
        rw [hd]
        exact hgiven.attachOptions_around children scratch
      cases options with
      | nil =>
          have hsame : d.call ext (.options []) = d := by
            rw [call, hattach, hgiven.attachOptions_nil, hd]
            rfl
          exact hsame.trans hd
      | cons first rest =>
          have htaken := hattach (first :: rest)
          rw [hgiven.attachOptions_cons, hnext] at htaken
          rw [call, takenOption?, htaken]
          cases hfirst : c.attachOptions ext [first] with
          | error error => exact hd
          | ok taken =>
              have hcall : c.call ext (.options [first]) = taken := by
                rw [call, hfirst]
              change _ =
                ((c.call ext (.options [first])).attachChildren
                  children).withScratch _
              rw [hcall]
              rfl
  | children attached =>
      refine ⟨scratch, ?_⟩
      rw [hd, call, attachChildren_withScratch, configured,
        attachChildren_attachChildren]
      rfl
  | convert e out =>
      obtain ⟨scratch', hstate⟩ :=
        hgiven.exists_state_write ext children scratch e out
      refine ⟨scratch', ?_⟩
      rw [hd]
      exact hstate

/-- A built-in converter that panics has written nothing. -/
theorem write_puts (h : c.IsBuiltin) (e : Event) (out : Bytes) :
    (write ext e c out).Puts out (rendered ext e c) := by
  have happends := write_appends ext e c out
  cases htext : rendered ext e c with
  | ok text =>
      rw [htext] at happends
      exact happends
  | error p =>
      rw [htext] at happends
      refine ⟨?_, happends.2⟩
      cases c with
      | custom _ _ => exact h.elim
      | color c children scratch =>
          have hpanic := happends.2
          rw [write] at hpanic ⊢
          dsimp only at hpanic ⊢
          generalize writeColored ext e c children
            (scratch.cleared ++ colorStart c) = w at hpanic ⊢
          obtain ⟨state, inner, panic⟩ := w
          cases panic with
          | none => contradiction
          | some p => rfl
      | date layout =>
          rw [rendered, DateLayout.text] at htext
          rw [write]
          cases hrender : layout.render? e.time with
          | none => rfl
          | some text => simp [hrender] at htext
      | literal _ | level | logger _ | message | fields =>
          rw [rendered] at htext
          contradiction

/-- Where a built-in converter has got to is said by its last option and its
children alone. -/
theorem exists_driven_eq (h : c.IsBuiltin) (ext : Extension κ)
    (calls : List (Call κ)) :
    ∃ scratch, driven ext calls c =
      (c.lastConfiguration ext calls).withScratch scratch := by
  induction calls using List.reverseRecOn with
  | nil =>
      cases c with
      | custom _ _ => exact h.elim
      | color _ _ scratch => exact ⟨scratch, rfl⟩
      | literal _ | level | date _ | logger _ | message | fields =>
          exact ⟨[], rfl⟩
  | append_singleton calls last ih =>
      obtain ⟨scratch, hd⟩ := ih
      rw [driven_snoc, lastConfiguration, lastOption?_snoc, heldChildren_snoc]
      exact h.exists_call_configured hd last

end IsBuiltin

end Builtins

/-- A built-in converter that is driven by hand is always in its last
configuration, but for scratch: it has the first option of the last call whose
options were taken and were not none, and the children attached last, whose
custom converters are in the states in which the conversions since have left
them.  So a conversion puts behind the buffer what this configuration says of
the event, or panics as it does and writes nothing.  If the custom converters
keep their states, that is what it says with the children as they were
attached.  Options that are refused or none leave the converter itself as it
was. -/
theorem driven_keeps_last_configuration {c : Converter κ} (h : c.IsBuiltin)
    (ext : Extension κ) (calls : List (Call κ)) :
    (∃ scratch, driven ext calls c =
      (c.lastConfiguration ext calls).withScratch scratch) ∧
    (∀ e out, (write ext e (driven ext calls c) out).Puts out
      (rendered ext e (c.lastConfiguration ext calls))) ∧
    (AllSteady ext (lastChildren c.ownChildren calls) → ∀ e,
      rendered ext e (c.lastConfiguration ext calls) =
        rendered ext e (c.configured ext (lastOption? ext c calls)
          (lastChildren c.ownChildren calls))) ∧
    ∀ options, (options = [] ∨
        ∃ error, (driven ext calls c).attachOptions ext options =
          .error error) →
      driven ext (calls ++ [.options options]) c = driven ext calls c := by
  obtain ⟨scratch, hdriven⟩ := h.exists_driven_eq ext calls
  have hbuiltin : (driven ext calls c).IsBuiltin := by
    rw [hdriven]
    exact ((h.given ext _).1.attachChildren _).withScratch scratch
  refine ⟨⟨scratch, hdriven⟩, fun e out => ?_, fun hsteady e => ?_, ?_⟩
  · rw [← rendered_withScratch scratch, ← hdriven]
    exact hbuiltin.write_puts e out
  · have hcleared :=
      cleared_attachChildren (c.given ext (lastOption? ext c calls))
        (clearedAll_heldChildren hsteady)
    rw [lastConfiguration, configured, ← rendered_cleared, hcleared,
      rendered_cleared, configured]
  · rintro options (rfl | ⟨error, hrefused⟩)
    · rw [driven_snoc, call, hbuiltin.attachOptions_nil]
    · rw [driven_snoc, call, hrefused]

namespace DrivenWitness

def event : Event where
  level := .warn
  time := .epoch
  message := ['m']
  logger := some "aa/bb".toList
  fields := []

/-- An option is taken, one is refused, and none are given. -/
def widths : List (Call Sample) :=
  [.options ["3".toList, "x".toList], .convert event [7],
    .options ["wide".toList], .options []]

/-- A child that counts, two conversions of it, and a second option. -/
def counted : List (Call Sample) :=
  [.options ["red".toList], .children [.level, .custom (.count 0) []],
    .convert event [], .options ["blue".toList], .convert event [10]]

theorem driven_keeps_last_configuration_sample :
    (newLogger : Converter Sample).IsBuiltin ∧
      (newColor : Converter Sample).IsBuiltin ∧
      (write Sample.extension event
          (driven Sample.extension widths newLogger) [10]).out =
        10 :: Text.utf8 "a/bb".toList ∧
      (write Sample.extension event
          (driven Sample.extension counted newColor) [10]).out =
        10 :: Text.utf8
          "\x1b[34m\x1b[33mWARN\x1b[0m\x1b[34m3\x1b[0m".toList := by
  have hlogger : (newLogger : Converter Sample).IsBuiltin := trivial
  have hcolor : (newColor : Converter Sample).IsBuiltin := trivial
  obtain ⟨-, hname, -, -⟩ :=
    driven_keeps_last_configuration hlogger Sample.extension widths
  obtain ⟨-, hcount, -, -⟩ :=
    driven_keeps_last_configuration hcolor Sample.extension counted
  exact ⟨hlogger, hcolor, (hname event [10]).1, (hcount event [10]).1⟩

def counting : List (Call Sample) := [.children [.custom (.count 0) []]]

/-- A conversion shows in the scratch of a color; and where a child counts, the
same event has another text after it. -/
theorem conversions_leave_traces :
    inspect (driven Sample.extension [.convert event []] newColor) ≠
        inspect (driven Sample.extension [] newColor) ∧
      (write Sample.extension event
          (driven Sample.extension counting newColor) []).out =
        Text.utf8 "1\x1b[0m".toList ∧
      (write Sample.extension event
          (driven Sample.extension (counting ++ [.convert event []]) newColor)
          []).out =
        Text.utf8 "2\x1b[0m".toList :=
  ⟨by decide +kernel, rfl, rfl⟩

end DrivenWitness

end Converter

end Logline
