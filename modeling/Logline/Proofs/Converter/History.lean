import Logline.Proofs.Converter.Rendered
/-!
What conversions leave behind.  A converter keeps its configuration and its
children; the rest is what colors have in their scratch buffers, and the states
of custom converters.  So converters whose custom ones are stateless (`Steady`)
are the same after any row of conversions, whether or not some of them
panicked, but for scratch (`clearedAll_after`), and scratch has no part in what
is written (`rendered_cleared`).
-/
namespace Logline.Converter

variable {κ : Type}

mutual

/-- The converter with nothing in its scratch buffers. -/
def cleared : Converter κ → Converter κ
  | color c children _ => color c (clearedAll children) []
  | custom state children => custom state (clearedAll children)
  | c => c

def clearedAll : List (Converter κ) → List (Converter κ)
  | [] => []
  | c :: rest => cleared c :: clearedAll rest

end

mutual

/-- The custom converters in it keep their states, whatever the event. -/
def Steady (ext : Extension κ) : Converter κ → Prop
  | color _ children _ => AllSteady ext children
  | custom state children =>
      (∀ e, (ext.render state e).1 = state) ∧ AllSteady ext children
  | _ => True

def AllSteady (ext : Extension κ) : List (Converter κ) → Prop
  | [] => True
  | c :: rest => Steady ext c ∧ AllSteady ext rest

end

theorem cleared_eq_level_iff {c : Converter κ} :
    c.cleared = level ↔ c = level := by
  cases c <;> simp [cleared]

theorem isEmpty_clearedAll (cs : List (Converter κ)) :
    (clearedAll cs).isEmpty = cs.isEmpty := by
  cases cs <;> rfl

/-! ### Scratch has no part in the text -/

mutual

theorem rendered_cleared (ext : Extension κ) (e : Event) :
    ∀ c : Converter κ, rendered ext e c.cleared = rendered ext e c
  | color c children scratch => by
      rw [cleared, rendered, rendered,
        renderedColored_clearedAll ext e c children]
  | custom state children => by
      rw [cleared, rendered, rendered, renderedAll_clearedAll ext e children]
  | literal _ | level | date _ | logger _ | message | fields => rfl

theorem renderedAll_clearedAll (ext : Extension κ) (e : Event) :
    ∀ cs : List (Converter κ), renderedAll ext e (clearedAll cs) =
      renderedAll ext e cs
  | [] => rfl
  | c :: rest => by
      rw [clearedAll, renderedAll, renderedAll, rendered_cleared ext e c,
        renderedAll_clearedAll ext e rest]

theorem renderedColored_clearedAll (ext : Extension κ) (e : Event)
    (c : Option Color) :
    ∀ cs : List (Converter κ),
      renderedColored ext e c (clearedAll cs) = renderedColored ext e c cs
  | [] => rfl
  | child :: rest => by
      have hrest := renderedColored_clearedAll ext e c rest
      by_cases hlevel : child = level
      · subst hlevel
        change renderedColored ext e c (level :: clearedAll rest) = _
        rw [renderedColored, renderedColored, hrest, isEmpty_clearedAll]
      · have hcleared : child.cleared ≠ level :=
          fun h => hlevel (cleared_eq_level_iff.mp h)
        rw [clearedAll, renderedColored, renderedColored,
          rendered_cleared ext e child, hrest]
        · exact hlevel
        · exact hcleared

end

mutual

theorem steady_cleared_iff (ext : Extension κ) :
    ∀ c : Converter κ, Steady ext c.cleared ↔ Steady ext c
  | color c children scratch => by
      rw [cleared, Steady, Steady, allSteady_clearedAll_iff ext children]
  | custom state children => by
      rw [cleared, Steady, Steady, allSteady_clearedAll_iff ext children]
  | literal _ | level | date _ | logger _ | message | fields => Iff.rfl

theorem allSteady_clearedAll_iff (ext : Extension κ) :
    ∀ cs : List (Converter κ), AllSteady ext (clearedAll cs) ↔ AllSteady ext cs
  | [] => Iff.rfl
  | c :: rest => by
      rw [clearedAll, AllSteady, AllSteady, steady_cleared_iff ext c,
        allSteady_clearedAll_iff ext rest]

end

/-! ### What is left behind -/

mutual

theorem cleared_write (ext : Extension κ) (e : Event) :
    ∀ (c : Converter κ) (out : Bytes), Steady ext c →
      (write ext e c out).state.cleared = c.cleared
  | color c children scratch, out, h => by
      have hchildren := clearedAll_writeColored ext e c children
        (colorStart c) h
      rw [write, Bytes.cleared_eq, List.nil_append]
      cases (writeColored ext e c children (colorStart c)).panic
      all_goals
        simp only [cleared]
        rw [hchildren]
  | custom state children, out, h => by
      obtain ⟨hstate, hchildren⟩ := h
      have hsame := hstate e
      rw [write]
      generalize ext.render state e = reply at hsame ⊢
      obtain ⟨state', before, wanted, after, panic⟩ := reply
      obtain rfl : state' = state := hsame
      have hinner := clearedAll_writeAll ext e children
        (out ++ before.utf8) hchildren
      cases wanted with
      | false => rfl
      | true =>
          simp only [if_true]
          cases (writeAll ext e children (out ++ before.utf8)).panic
          all_goals
            simp only [cleared]
            rw [hinner]
  | date layout, out, _ => by
      rw [write]
      cases layout.render? e.time <;> rfl
  | literal _, _, _ | level, _, _ | logger _, _, _
  | message, _, _ | fields, _, _ => by
      rw [write]

theorem clearedAll_writeAll (ext : Extension κ) (e : Event) :
    ∀ (cs : List (Converter κ)) (out : Bytes), AllSteady ext cs →
      clearedAll (writeAll ext e cs out).state = clearedAll cs
  | [], _, _ => by rw [writeAll]
  | c :: rest, out, h => by
      have hfirst := cleared_write ext e c out h.1
      have hrest := clearedAll_writeAll ext e rest (write ext e c out).out h.2
      rw [writeAll]
      cases (write ext e c out).panic
      all_goals
        simp only [clearedAll]
        rw [hfirst]
      rw [hrest]

theorem clearedAll_writeColored (ext : Extension κ) (e : Event)
    (c : Option Color) :
    ∀ (cs : List (Converter κ)) (out : Bytes), AllSteady ext cs →
      clearedAll (writeColored ext e c cs out).state = clearedAll cs
  | [], _, _ => by rw [writeColored]
  | child :: rest, out, h => by
      by_cases hlevel : child = level
      · rw [hlevel, writeColored]
        simp only [clearedAll]
        rw [clearedAll_writeColored ext e c rest _ h.2]
      · have hfirst := cleared_write ext e child out h.1
        have hrest := clearedAll_writeColored ext e c rest
          (write ext e child out).out h.2
        rw [writeColored]
        · cases (write ext e child out).panic
          all_goals
            simp only [clearedAll]
            rw [hfirst]
          rw [hrest]
        · exact hlevel

end

/-- The converters after a row of conversions, each of an event into a buffer
of its own.  One that panics leaves them as they are then. -/
def after (ext : Extension κ) (history : List (Event × Bytes))
    (cs : List (Converter κ)) : List (Converter κ) :=
  history.foldl (fun cs conversion =>
    (writeAll ext conversion.1 cs conversion.2).state) cs

theorem clearedAll_after {ext : Extension κ} {cs : List (Converter κ)}
    (h : AllSteady ext cs) (history : List (Event × Bytes)) :
    clearedAll (after ext history cs) = clearedAll cs := by
  induction history generalizing cs with
  | nil => rfl
  | cons conversion history ih =>
      have hstep := clearedAll_writeAll ext conversion.1 cs conversion.2 h
      have hsteady : AllSteady ext
          (writeAll ext conversion.1 cs conversion.2).state := by
        rw [← allSteady_clearedAll_iff, hstep, allSteady_clearedAll_iff]
        exact h
      exact (ih hsteady).trans hstep

/-- Earlier conversions have no part in the text. -/
theorem renderedAll_after {ext : Extension κ} {cs : List (Converter κ)}
    (h : AllSteady ext cs) (history : List (Event × Bytes)) (e : Event) :
    renderedAll ext e (after ext history cs) = renderedAll ext e cs := by
  rw [← renderedAll_clearedAll, clearedAll_after h, renderedAll_clearedAll]

end Logline.Converter
