import Logline.Proofs.Pattern.Reads
import Logline.Proofs.Pattern.Steps
/-!
What the reader accepts is spelled by its text.  The invariant `State.Reads`
splits the text that has been read: references whose children are not yet
complete (`Encloses`), then what the last characters have begun, behind its
sequence (`Mode.Reads`).  Every step keeps it (`State.Reads.step`), so that at
the end the nodes are normal and spelled by the whole text (`read_sound`).
-/
namespace Logline.Pattern

/-- The references around that are still open, up to their parentheses. -/
inductive Encloses : List Enclosing → Text → Prop
  | nil : Encloses [] []
  | cons {outer : Enclosing} {enclosing : List Enclosing} {before own : Text}
      (hbefore : Encloses enclosing before)
      (hpending : Pending outer.sequence outer.head own)
      (hfree : outer.head.children = none) :
      Encloses (outer :: enclosing) (before ++ own ++ ['('])

/-- What has been read since the innermost parenthesis. -/
def Mode.Reads (s : Sequence) (t : Text) : Mode → Prop
  | .text => s.IsOpen ∧ s.literal.head? ≠ some Pattern.marker ∧
      ∀ next, s.Reads next t
  | .marker => s.IsOpen ∧
      ∃ before, s.Reads (some Pattern.marker) before ∧
        before ++ [Pattern.marker] = t
  | .name reversed => Pending s ⟨reversed.reverse, none, none⟩ t
  | .slots head => Pending s head t ∧
      (head.children.isSome = true ∨ head.options.isSome = true)
  | .options _ depth reversed head => head.options = none ∧
      nesting '\x7b' '\x7d' 0 reversed.reverse = some depth ∧
      ∃ before, Pending s head before ∧
        before ++ '\x7b' :: reversed.reverse = t

namespace State

/-- The invariant of reading. -/
def Reads (st : State) (t : Text) : Prop :=
  ∃ before own, Encloses st.enclosing before ∧
    st.mode.Reads st.sequence own ∧ before ++ own = t

theorem reads_empty : Mode.Reads Sequence.empty [] .text :=
  ⟨Sequence.isOpen_empty, by simp [Sequence.empty], Sequence.reads_empty⟩

theorem reads_start : start.Reads [] :=
  ⟨[], [], .nil, reads_empty, rfl⟩

variable {st next : State} {c : Char} {before own : Text}

/-- What has been begun is complete at the end, and in front of a character
that does not extend it. -/
theorem reads_closing {s : Sequence} (follows : Option Char)
    (h : st.mode.Reads st.sequence own) (hclosing : st.closing = .ok s)
    (hends : ∀ c ∈ follows, st.mode.extendedBy c = false) :
    s.IsOpen ∧ s.Reads follows own ∧ ∀ c ∈ follows,
      s.literal.head? = some marker → isNameStart c = false := by
  rw [closing] at hclosing
  cases hmode : st.mode with
  | text =>
      rw [hmode] at h hclosing
      obtain ⟨hopen, hlast, hreads⟩ := h
      obtain rfl := Except.ok.inj hclosing
      exact ⟨hopen, hreads follows, fun c _ hmarker => absurd hmarker hlast⟩
  | marker =>
      rw [hmode] at h hclosing hends
      obtain ⟨hopen, start, hreads, rfl⟩ := h
      obtain rfl := Except.ok.inj hclosing
      have hgrows := st.sequence.grows_push_marker
      exact ⟨hgrows.isOpen hopen, hreads.grow hgrows (fun _ => rfl) follows,
        fun c hc _ => hends c hc⟩
  | name reversed =>
      rw [hmode] at h hclosing hends
      obtain rfl := Except.ok.inj hclosing
      refine ⟨st.sequence.isOpen_attach _, h.attach ?_, ?_⟩
      · intro c hc
        have hnot := hends c hc
        rw [Mode.extendedBy, Bool.or_eq_false_iff] at hnot
        exact ⟨hnot.2, fun hname => by simp [hnot.1] at hname⟩
      · intro c _ hmarker
        simp [Sequence.attach, h.literal] at hmarker
  | slots head =>
      rw [hmode] at h hclosing hends
      obtain ⟨hpending, hgiven⟩ := h
      obtain rfl := Except.ok.inj hclosing
      refine ⟨st.sequence.isOpen_attach _, hpending.attach ?_, ?_⟩
      · intro c hc
        exact ⟨hends c hc, fun _ => hgiven⟩
      · intro c _ hmarker
        simp [Sequence.attach, hpending.literal] at hmarker
  | options opened depth reversed head =>
      rw [hmode] at hclosing
      cases hclosing

theorem reads_stepText (st : State) (hbefore : Encloses st.enclosing before)
    (hopen : st.sequence.IsOpen) (hreads : st.sequence.Reads (some c) own)
    (hplain : st.sequence.literal.head? = some marker → isNameStart c = false)
    (h : st.stepText c = .ok next) : next.Reads (before ++ own ++ [c]) := by
  rcases stepText_cases h with ⟨rfl, rfl⟩ | ⟨s, hgrows, hc, rfl⟩ |
    ⟨rfl, hparens, hcloses⟩
  · exact ⟨before, own ++ [marker], hbefore, ⟨hopen, own, hreads, rfl⟩,
      by simp⟩
  · refine ⟨before, own ++ [c], hbefore, ⟨hgrows.isOpen hopen, ?_,
      hreads.grow hgrows hplain⟩, by simp⟩
    simpa [hgrows.literal] using hc
  · obtain ⟨outer, enclosing, henclosing, hbraces, rfl⟩ :=
      closeChildren_cases hcloses
    obtain ⟨hnormal, hspells⟩ := hreads.atEnd.complete hopen hparens hbraces
    rw [henclosing] at hbefore
    cases hbefore with
    | cons houter hpending hfree =>
        exact ⟨_, _, houter,
          ⟨hpending.giveChildren hfree hnormal hspells, .inl rfl⟩, by simp⟩

theorem reads_stepSlots {head : Head} (hbefore : Encloses st.enclosing before)
    (hpending : Pending st.sequence head own) (hopens : head.opens c = true)
    (h : st.stepSlots head c = .ok next) :
    next.Reads (before ++ own ++ [c]) := by
  simp only [Head.opens, Bool.or_eq_true, Bool.and_eq_true, beq_iff_eq]
    at hopens
  rw [stepSlots] at h
  by_cases hparen : c = '(' ∧ head.children.isNone = true
  · rw [if_pos hparen] at h
    obtain ⟨rfl, hfree⟩ := hparen
    obtain rfl := Except.ok.inj h
    exact ⟨_, [], .cons hbefore hpending (Option.isNone_iff_eq_none.mp hfree),
      reads_empty, by simp⟩
  · obtain ⟨rfl, hfree⟩ := hopens.resolve_left hparen
    rw [if_neg hparen, if_pos ⟨rfl, hfree⟩] at h
    obtain rfl := Except.ok.inj h
    exact ⟨before, own ++ ['\x7b'], hbefore,
      ⟨Option.isNone_iff_eq_none.mp hfree, rfl, own, hpending, rfl⟩, by simp⟩

theorem reads_stepOptions {opened depth : Nat} {reversed : Text} {head : Head}
    (hbefore : Encloses st.enclosing before)
    (h : (Mode.options opened depth reversed head).Reads st.sequence own) :
    (st.stepOptions opened depth reversed head c).Reads
      (before ++ own ++ [c]) := by
  obtain ⟨hfree, hdepth, start, hpending, rfl⟩ := h
  by_cases hcloses : c = '\x7d' ∧ depth = 0
  · obtain ⟨rfl, rfl⟩ := hcloses
    rw [stepOptions_closing]
    exact ⟨before, _, hbefore,
      ⟨hpending.giveOptions hfree hdepth, .inr rfl⟩, by simp⟩
  · have hinside : c = '\x7d' → depth ≠ 0 :=
      fun hc hzero => hcloses ⟨hc, hzero⟩
    rw [stepOptions_of_not_closing st opened reversed head hinside]
    refine ⟨before, _, hbefore, ⟨hfree, ?_, start, hpending, rfl⟩, by simp⟩
    rw [List.reverse_cons, nesting_snoc c hdepth,
      nesting_cons_of_closes c [] hinside, nesting_nil]

theorem reads_extended (hbefore : Encloses st.enclosing before)
    (hown : st.mode.Reads st.sequence own)
    (hextends : st.mode.extendedBy c = true) (h : st.stepMode c = .ok next) :
    next.Reads (before ++ own ++ [c]) := by
  rw [stepMode] at h
  cases hmode : st.mode with
  | text =>
      rw [hmode] at hextends
      contradiction
  | marker =>
      rw [hmode, Mode.extendedBy] at hextends
      rw [hmode] at hown h
      obtain ⟨hopen, start, hreads, rfl⟩ := hown
      simp only [hextends, if_true] at h
      obtain rfl := Except.ok.inj h
      exact ⟨before, _, hbefore, .of_marker hreads hopen hextends, by simp⟩
  | name reversed =>
      rw [hmode, Mode.extendedBy] at hextends
      rw [hmode] at hown h
      by_cases hname : isNameChar c = true
      · simp only [hname, if_true] at h
        obtain rfl := Except.ok.inj h
        refine ⟨before, _, hbefore, ?_, (List.append_assoc ..).symm⟩
        have hlonger := hown.extendName hname
        rwa [← List.reverse_cons] at hlonger
      · simp only [hname] at h
        rw [Bool.eq_false_iff.mpr hname, Bool.false_or] at hextends
        exact reads_stepSlots hbefore hown hextends h
  | slots head =>
      rw [hmode, Mode.extendedBy] at hextends
      rw [hmode] at hown h
      exact reads_stepSlots hbefore hown.1 hextends h
  | options opened depth reversed head =>
      rw [hmode] at hown h
      obtain rfl := Except.ok.inj h
      exact reads_stepOptions hbefore hown

/-- Every step keeps the invariant. -/
theorem Reads.step {t : Text} (h : st.Reads t) (hstep : st.step c = .ok next) :
    next.Reads (t ++ [c]) := by
  obtain ⟨before, own, hbefore, hown, rfl⟩ := h
  obtain ⟨reached, hreached, rfl⟩ := step_eq_ok_iff.mp hstep
  suffices hreads : reached.Reads (before ++ own ++ [c]) from hreads
  by_cases hextends : st.mode.extendedBy c = true
  · exact reads_extended hbefore hown hextends hreached
  · obtain ⟨s, hclosing, heq⟩ :=
      stepMode_of_not_extendedBy (Bool.eq_false_iff.mpr hextends)
    have hends : ∀ d ∈ some c, st.mode.extendedBy d = false := by
      rintro d ⟨⟩
      exact Bool.eq_false_iff.mpr hextends
    obtain ⟨hopen, hreads, hplain⟩ :=
      reads_closing (some c) hown hclosing hends
    rw [heq] at hreached
    exact reads_stepText { st with sequence := s } hbefore hopen hreads
      (hplain c rfl) hreached

theorem Reads.run {t u : Text} (h : st.Reads t)
    (hrun : st.Leads u next) : next.Reads (t ++ u) := by
  induction u generalizing st t with
  | nil =>
      obtain rfl := (leads_nil_iff st next).mp hrun
      rwa [List.append_nil]
  | cons c u ih =>
      obtain ⟨reached, hstep, hrest⟩ := leads_cons_iff.mp hrun
      rw [List.append_cons]
      exact ih (h.step hstep) hrest

theorem Reads.finish {t : Text} {nodes : List Node} (h : st.Reads t)
    (hfinish : st.finish = .ok nodes) : Normal nodes ∧ Spells none nodes t := by
  obtain ⟨s, hclosing, hparens, hbraces, henclosing, rfl⟩ :=
    finish_eq_ok_iff.mp hfinish
  obtain ⟨before, own, hbefore, hown, rfl⟩ := h
  rw [henclosing] at hbefore
  cases hbefore
  obtain ⟨hopen, hreads, -⟩ := reads_closing none hown hclosing (by simp)
  exact hreads.complete hopen hparens hbraces

end State

/-- A text that is read spells the nodes, and they are normal. -/
theorem read_sound {t : Text} {nodes : List Node} (h : read t = .ok nodes) :
    Normal nodes ∧ Spells none nodes t := by
  obtain ⟨st, hrun, hfinish⟩ := read_eq_ok_iff_leads.mp h
  exact (State.reads_start.run hrun).finish hfinish

end Logline.Pattern
