import Logline.Outcome
import Logline.Proofs.Pattern.Inside
/-!
Where the fault of a text is.  Every bracket that a reader holds open stands in
the text that has been read, at the position that is kept of it
(`State.Marks`).  What is reported is one of them, or the character that cannot
be read.  Up to there the text could go on to a pattern, and with a bracket
that closes nothing it cannot (`read_error_points`).
-/
namespace Logline

theorem Text.length_utf8 (t : Text) : (Text.utf8 t).length = Text.size t := by
  induction t with
  | nil => rfl
  | cons c t ih =>
      rw [Text.utf8_cons, List.length_append, ih, Text.size_cons,
        String.length_utf8EncodeChar]

namespace Pattern

/-- The bracket of the fault stands in the text, behind as many bytes as the
position says. -/
def ReadError.LiesIn (e : ReadError) (t : Text) : Prop :=
  ∃ before after, before ++ e.fault.bracket :: after = t ∧
    Text.size before = e.position

theorem ReadError.LiesIn.append {e : ReadError} {t : Text} (h : e.LiesIn t)
    (rest : Text) :
    e.LiesIn (t ++ rest) := by
  obtain ⟨before, after, rfl, hsize⟩ := h
  exact ⟨before, after ++ rest, by simp, hsize⟩

/-! ### Open brackets -/

/-- What can be reported of the open brackets of literals. -/
def Sequence.unclosed (s : Sequence) : List ReadError :=
  s.parens.map (⟨·, .unclosedParen⟩) ++ s.braces.map (⟨·, .unclosedBrace⟩)

def Enclosing.unclosed (outer : Enclosing) : List ReadError :=
  ⟨outer.opened, .unclosedParen⟩ :: outer.sequence.unclosed

def Mode.unclosed : Mode → List ReadError
  | .options opened _ _ _ => [⟨opened, .unclosedBrace⟩]
  | _ => []

/-- What can be reported of the open brackets. -/
def State.unclosed (st : State) : List ReadError :=
  st.mode.unclosed ++
    (st.sequence.unclosed ++ st.enclosing.flatMap Enclosing.unclosed)

theorem Sequence.mem_unclosed_iff {s : Sequence} {e : ReadError} :
    e ∈ s.unclosed ↔ e.position ∈ s.parens ∧ e.fault = .unclosedParen ∨
      e.position ∈ s.braces ∧ e.fault = .unclosedBrace := by
  obtain ⟨position, fault⟩ := e
  rw [unclosed, List.mem_append, List.mem_map, List.mem_map]
  constructor
  · rintro (⟨opened, hopen, he⟩ | ⟨opened, hopen, he⟩)
    · obtain ⟨rfl, rfl⟩ := ReadError.mk.inj he
      exact .inl ⟨hopen, rfl⟩
    · obtain ⟨rfl, rfl⟩ := ReadError.mk.inj he
      exact .inr ⟨hopen, rfl⟩
  · rintro (⟨hopen, rfl⟩ | ⟨hopen, rfl⟩)
    · exact .inl ⟨position, hopen, rfl⟩
    · exact .inr ⟨position, hopen, rfl⟩

theorem Sequence.isUnclosed_of_mem {s : Sequence} {e : ReadError}
    (h : e ∈ s.unclosed) :
    e.fault.isUnclosed = true := by
  obtain ⟨-, hfault⟩ | ⟨-, hfault⟩ :=
    mem_unclosed_iff.mp h <;> rw [hfault] <;> rfl

namespace State

variable {st next : State} {c : Char} {e : ReadError}

theorem mem_unclosed_iff : e ∈ st.unclosed ↔ e ∈ st.mode.unclosed ∨
    e ∈ st.sequence.unclosed ∨
    ∃ outer ∈ st.enclosing, e ∈ outer.unclosed := by
  rw [unclosed, List.mem_append, List.mem_append, List.mem_flatMap]

theorem isUnclosed_of_mem (h : e ∈ st.unclosed) :
    e.fault.isUnclosed = true := by
  obtain h | h | ⟨outer, -, h⟩ := mem_unclosed_iff.mp h
  · cases hmode : st.mode with
    | options opened depth reversed head =>
        rw [hmode] at h
        obtain rfl := List.mem_singleton.mp h
        rfl
    | text | marker | name _ | slots _ =>
        rw [hmode] at h
        contradiction
  · exact Sequence.isUnclosed_of_mem h
  · rcases List.mem_cons.mp h with rfl | h
    · rfl
    · exact Sequence.isUnclosed_of_mem h

/-- The fault is the character at which the reader stands. -/
def Reports (st : State) (c : Char) (e : ReadError) : Prop :=
  e.position = st.position ∧ e.fault.bracket = c

/-- Of the brackets that are held open now, only the character was not
before. -/
def Adds (st : State) (c : Char) (next : State) : Prop :=
  ∀ e ∈ next.unclosed, e ∈ st.unclosed ∨ st.Reports c e

theorem adds_of_subset (h : next.unclosed ⊆ st.unclosed) : st.Adds c next :=
  fun _ he => .inl (h he)

/-- Outside of options, what is held open changes with the sequence. -/
theorem adds_of_sequence {mode : Mode} {s : Sequence}
    (hmode : mode.unclosed = [])
    (hs : ∀ e ∈ s.unclosed, e ∈ st.sequence.unclosed ∨ st.Reports c e) :
    st.Adds c { st with mode, sequence := s } := by
  intro e he
  obtain he | he | he := mem_unclosed_iff.mp he
  · rw [hmode] at he
    contradiction
  · exact (hs e he).imp_left fun he => mem_unclosed_iff.mpr (.inr (.inl he))
  · exact .inl (mem_unclosed_iff.mpr (.inr (.inr he)))

theorem adds_closeChildren (h : st.closeChildren = .ok next) :
    st.Adds c next := by
  obtain ⟨outer, enclosing, henclosing, -, rfl⟩ := closeChildren_cases h
  apply adds_of_subset
  intro e he
  refine mem_unclosed_iff.mpr (.inr (.inr ?_))
  rw [henclosing]
  obtain he | he | ⟨around, haround, he⟩ := mem_unclosed_iff.mp he
  · contradiction
  · exact ⟨outer, List.mem_cons_self, List.mem_cons_of_mem _ he⟩
  · exact ⟨around, List.mem_cons_of_mem outer haround, he⟩

theorem adds_stepText (h : st.stepText c = .ok next) : st.Adds c next := by
  unfold stepText at h
  dsimp only at h
  split at h
  · obtain rfl := Except.ok.inj h
    exact adds_of_sequence rfl fun e he => .inl he
  · obtain rfl := Except.ok.inj h
    apply adds_of_sequence rfl
    intro e he
    rcases List.mem_cons.mp he with rfl | he
    · exact .inr ⟨rfl, rfl⟩
    · exact .inl he
  · split at h
    · next position parens hparens =>
        obtain rfl := Except.ok.inj h
        apply adds_of_sequence rfl
        intro e he
        refine .inl ?_
        rw [Sequence.mem_unclosed_iff, hparens]
        exact (Sequence.mem_unclosed_iff.mp he).imp_left
          fun hopen => ⟨List.mem_cons_of_mem _ hopen.1, hopen.2⟩
    · exact adds_closeChildren h
  · obtain rfl := Except.ok.inj h
    apply adds_of_sequence rfl
    intro e he
    rcases Sequence.mem_unclosed_iff.mp he with hparen | ⟨hbrace, hfault⟩
    · exact .inl (Sequence.mem_unclosed_iff.mpr (.inl hparen))
    · rcases List.mem_cons.mp hbrace with hhere | hbrace
      · exact .inr ⟨hhere, by rw [hfault]; rfl⟩
      · exact .inl (Sequence.mem_unclosed_iff.mpr (.inr ⟨hbrace, hfault⟩))
  · split at h
    · next position braces hbraces =>
        obtain rfl := Except.ok.inj h
        apply adds_of_sequence rfl
        intro e he
        refine .inl ?_
        rw [Sequence.mem_unclosed_iff, hbraces]
        exact (Sequence.mem_unclosed_iff.mp he).imp_right
          fun hopen => ⟨List.mem_cons_of_mem _ hopen.1, hopen.2⟩
    · contradiction
  · obtain rfl := Except.ok.inj h
    exact adds_of_sequence rfl fun e he => .inl he

theorem adds_stepSlots {head : Head} (h : st.stepSlots head c = .ok next) :
    st.Adds c next := by
  rw [stepSlots] at h
  split_ifs at h with hparen hbrace
  · obtain rfl := Except.ok.inj h
    obtain ⟨rfl, -⟩ := hparen
    intro e he
    obtain he | he | ⟨around, haround, he⟩ := mem_unclosed_iff.mp he
    · contradiction
    · contradiction
    · rcases List.mem_cons.mp haround with rfl | haround
      · rcases List.mem_cons.mp he with rfl | he
        · exact .inr ⟨rfl, rfl⟩
        · exact .inl (mem_unclosed_iff.mpr (.inr (.inl he)))
      · exact .inl (mem_unclosed_iff.mpr (.inr (.inr ⟨around, haround, he⟩)))
  · obtain rfl := Except.ok.inj h
    obtain ⟨rfl, -⟩ := hbrace
    intro e he
    obtain he | he := mem_unclosed_iff.mp he
    · obtain rfl := List.mem_singleton.mp he
      exact .inr ⟨rfl, rfl⟩
    · exact .inl (mem_unclosed_iff.mpr (.inr he))
  · have hattached :
        State.Adds { st with sequence := st.sequence.attach head } c next :=
      adds_stepText h
    exact hattached

theorem adds_stepOptions {opened depth : Nat} {reversed : Text} {head : Head}
    (hmode : st.mode = .options opened depth reversed head) :
    st.Adds c (st.stepOptions opened depth reversed head c) := by
  apply adds_of_subset
  by_cases hcloses : c = '\x7d' ∧ depth = 0
  · obtain ⟨rfl, rfl⟩ := hcloses
    rw [stepOptions_closing]
    exact List.subset_append_right _ _
  · rw [stepOptions_of_not_closing st opened reversed head fun hc hzero =>
      hcloses ⟨hc, hzero⟩, unclosed, unclosed, hmode]
    exact List.Subset.refl _

theorem adds_stepMode (h : st.stepMode c = .ok next) : st.Adds c next := by
  rw [stepMode] at h
  cases hmode : st.mode with
  | text =>
      rw [hmode] at h
      exact adds_stepText h
  | marker =>
      rw [hmode] at h
      dsimp only at h
      split_ifs at h with hstart
      · obtain rfl := Except.ok.inj h
        refine adds_of_sequence rfl fun e he => .inl ?_
        simpa [Sequence.unclosed] using he
      · have hpushed :
            State.Adds { st with sequence := st.sequence.push marker } c next :=
          adds_stepText h
        exact hpushed
  | name reversed =>
      rw [hmode] at h
      dsimp only at h
      split_ifs at h with hname
      · obtain rfl := Except.ok.inj h
        exact adds_of_sequence (s := st.sequence) rfl fun e he => .inl he
      · exact adds_stepSlots h
  | slots head =>
      rw [hmode] at h
      exact adds_stepSlots h
  | options opened depth reversed head =>
      rw [hmode] at h
      obtain rfl := Except.ok.inj h
      exact adds_stepOptions hmode

/-! ### Errors -/

/-- The reader refuses one of the brackets that it holds open, or the
character. -/
def Refuses (st : State) (c : Char) (e : ReadError) : Prop :=
  e ∈ st.unclosed ∨ st.Reports c e

theorem refuses_stepText (h : st.stepText c = .error e) : st.Refuses c e := by
  unfold stepText at h
  dsimp only at h
  split at h
  · contradiction
  · contradiction
  · split at h
    · contradiction
    · rw [closeChildren] at h
      split at h
      · obtain rfl := Except.error.inj h
        exact .inr ⟨rfl, rfl⟩
      · split at h
        · next brace hbrace =>
            obtain rfl := Except.error.inj h
            have hopen : brace ∈ st.sequence.braces :=
              List.mem_of_getLast? hbrace
            exact .inl (mem_unclosed_iff.mpr
              (.inr (.inl (Sequence.mem_unclosed_iff.mpr (.inr ⟨hopen, rfl⟩)))))
        · contradiction
  · contradiction
  · split at h
    · contradiction
    · obtain rfl := Except.error.inj h
      exact .inr ⟨rfl, rfl⟩
  · contradiction

theorem refuses_stepSlots {head : Head} (h : st.stepSlots head c = .error e) :
    st.Refuses c e := by
  rw [stepSlots] at h
  split_ifs at h
  have hattached :
      State.Refuses { st with sequence := st.sequence.attach head } c e :=
    refuses_stepText h
  exact hattached

theorem refuses_step (h : st.step c = .error e) : st.Refuses c e := by
  have hmode : st.stepMode c = .error e := by
    rw [step] at h
    cases hreached : st.stepMode c with
    | error e' =>
        rw [hreached] at h
        exact h
    | ok reached =>
        rw [hreached] at h
        contradiction
  rw [stepMode] at hmode
  split at hmode
  · exact refuses_stepText hmode
  · split_ifs at hmode
    have hpushed :
        State.Refuses { st with sequence := st.sequence.push marker } c e :=
      refuses_stepText hmode
    exact hpushed
  · split_ifs at hmode
    exact refuses_stepSlots hmode
  · exact refuses_stepSlots hmode
  · contradiction

theorem mem_unclosed_of_closing (h : st.closing = .error e) :
    e ∈ st.mode.unclosed := by
  rw [closing] at h
  split at h
  all_goals first
    | contradiction
    | next hmode =>
        obtain rfl := Except.error.inj h
        rw [hmode]
        exact List.mem_singleton_self _

theorem unclosed_of_closing {s : Sequence} (h : st.closing = .ok s) :
    s.unclosed = st.sequence.unclosed := by
  rw [closing] at h
  split at h
  all_goals first
    | contradiction
    | obtain rfl := Except.ok.inj h
      rfl

/-- At the end one of the open brackets is reported. -/
theorem mem_unclosed_of_finish (h : st.finish = .error e) :
    e ∈ st.unclosed := by
  rw [mem_unclosed_iff]
  rw [finish] at h
  cases hclosing : st.closing with
  | error e' =>
      rw [hclosing] at h
      obtain rfl := Except.error.inj h
      exact .inl (mem_unclosed_of_closing hclosing)
  | ok s =>
      rw [hclosing, Except.ok_bind] at h
      rw [← unclosed_of_closing hclosing, Sequence.mem_unclosed_iff]
      split at h
      · next paren hparen =>
          obtain rfl := Except.error.inj h
          exact .inr (.inl (.inl ⟨List.mem_of_getLast? hparen, rfl⟩))
      · next brace _ hbrace =>
          obtain rfl := Except.error.inj h
          exact .inr (.inl (.inr ⟨List.mem_of_getLast? hbrace, rfl⟩))
      · next outer enclosing _ _ henclosing =>
          obtain rfl := Except.error.inj h
          rw [henclosing]
          exact .inr (.inr ⟨outer, List.mem_cons_self, List.mem_cons_self⟩)
      · contradiction

/-! ### Runs -/

/-- The reader stands behind the text, and what it holds open is in it. -/
structure Marks (st : State) (t : Text) : Prop where
  position : Text.size t = st.position
  unclosed : ∀ e ∈ st.unclosed, e.LiesIn t

theorem marks_start : start.Marks [] where
  position := rfl
  unclosed _ he := absurd he List.not_mem_nil

theorem Marks.reports {t : Text} (h : st.Marks t) (he : st.Reports c e)
    (rest : Text) :
    e.LiesIn (t ++ c :: rest) := by
  obtain ⟨hposition, rfl⟩ := he
  exact ⟨t, rest, rfl, h.position.trans hposition.symm⟩

theorem Marks.step {t : Text} (h : st.Marks t) (hstep : st.step c = .ok next) :
    next.Marks (t ++ [c]) := by
  obtain ⟨reached, hreached, rfl⟩ := step_eq_ok_iff.mp hstep
  constructor
  · rw [Text.size_append, h.position]
    rfl
  · intro e he
    obtain hold | hhere := adds_stepMode hreached e he
    · exact (h.unclosed e hold).append [c]
    · exact h.reports hhere []

theorem Marks.run {t u : Text} (h : st.Marks t) (hrun : st.Leads u next) :
    next.Marks (t ++ u) := by
  induction u generalizing st t with
  | nil =>
      obtain rfl := (leads_nil_iff st next).mp hrun
      rwa [List.append_nil]
  | cons c u ih =>
      obtain ⟨reached, hstep, hrest⟩ := leads_cons_iff.mp hrun
      rw [List.append_cons]
      exact ih (h.step hstep) hrest

/-- A run ends behind the text, or in front of the first character that cannot
be read. -/
theorem leads_or_stops (st : State) (t : Text) :
    (∃ next, st.Leads t next) ∨
      ∃ before c after next e, before ++ c :: after = t ∧
      st.Leads before next ∧ next.step c = .error e := by
  induction t generalizing st with
  | nil => exact .inl ⟨st, (leads_nil_iff st st).mpr rfl⟩
  | cons c t ih =>
      cases hstep : st.step c with
      | error e => exact .inr ⟨[], c, t, st, e, rfl,
          (leads_nil_iff st st).mpr rfl, hstep⟩
      | ok reached =>
          obtain ⟨next, hleads⟩ | ⟨before, d, after, next, e, rfl, hleads,
            hstops⟩ := ih reached
          · exact .inl ⟨next, leads_cons_iff.mpr ⟨reached, hstep, hleads⟩⟩
          · exact .inr ⟨c :: before, d, after, next, e, rfl,
              leads_cons_iff.mpr ⟨reached, hstep, hleads⟩, hstops⟩

theorem exists_leads_of_append {s t : Text} (h : st.Leads (s ++ t) next) :
    ∃ reached, st.Leads s reached := by
  rw [Leads, List.foldlM_append] at h
  obtain ⟨reached, hreached, -⟩ := Except.bind_eq_ok h
  exact ⟨reached, hreached⟩

end State

/-- Behind a character that cannot be read nothing helps. -/
theorem read_of_stops {before after : Text} {c : Char} {st : State}
    {e : ReadError} (hleads : State.start.Leads before st)
    (hstops : st.step c = .error e) :
    read (before ++ c :: after) = .error e := by
  rw [read, List.foldlM_append, hleads, Except.ok_bind,
    List.foldlM_cons, hstops]
  rfl

theorem read_of_leads {t : Text} {st : State}
    (hleads : State.start.Leads t st) :
    read t = st.finish := by
  rw [read, hleads, Except.ok_bind]

/-- What has been read can go on to a pattern. -/
theorem exists_read_append {before : Text} {st : State}
    (hleads : State.start.Leads before st) :
    ∃ rest nodes, read (before ++ rest) = .ok nodes := by
  obtain ⟨rest, next, nodes, hrest, hfinish⟩ := st.exists_completion
  exact ⟨rest, nodes,
    read_eq_ok_iff_leads.mpr ⟨next, hleads.trans hrest, hfinish⟩⟩

/-- The text in front of a bracket that is held open was read up to there. -/
theorem exists_leads_of_mem_unclosed {seen : Text} {st : State} {e : ReadError}
    (hleads : State.start.Leads seen st) (he : e ∈ st.unclosed) :
    ∃ before after reached, before ++ e.fault.bracket :: after = seen ∧
      Text.size before = e.position ∧ State.start.Leads before reached := by
  obtain ⟨before, after, rfl, hsize⟩ :=
    (State.marks_start.run hleads).unclosed e he
  obtain ⟨reached, hreached⟩ := State.exists_leads_of_append hleads
  exact ⟨before, after, reached, rfl, hsize, hreached⟩

/-- The fault of a text is a bracket in it, either one that stays open or one
at which the reader stops. -/
theorem read_error_cases {t : Text} {e : ReadError} (h : read t = .error e) :
    ∃ before after st, before ++ e.fault.bracket :: after = t ∧
      Text.size before = e.position ∧
      State.start.Leads before st ∧
      (e.fault.isUnclosed = true ∨ st.step e.fault.bracket = .error e) := by
  obtain ⟨st, hleads⟩ | ⟨seen, c, rest, st, e', rfl, hleads, hstops⟩ :=
    State.start.leads_or_stops t
  · rw [read_of_leads hleads] at h
    have hopen := State.mem_unclosed_of_finish h
    obtain ⟨before, after, reached, ht, hsize, hreached⟩ :=
      exists_leads_of_mem_unclosed hleads hopen
    exact ⟨before, after, reached, ht, hsize, hreached,
      .inl (State.isUnclosed_of_mem hopen)⟩
  · obtain rfl : e' = e :=
      Except.error.inj ((read_of_stops hleads hstops).symm.trans h)
    obtain hopen | ⟨hposition, rfl⟩ := State.refuses_step hstops
    · obtain ⟨before, after, reached, rfl, hsize, hreached⟩ :=
        exists_leads_of_mem_unclosed hleads hopen
      exact ⟨before, after ++ c :: rest, reached, by simp, hsize, hreached,
        .inl (State.isUnclosed_of_mem hopen)⟩
    · have hsize := (State.marks_start.run hleads).position
      exact ⟨seen, rest, st, rfl, hsize.trans hposition.symm,
        hleads, .inr hstops⟩

/-- The message of a fault quotes its bracket. -/
theorem BracketFault.message_cases (f : BracketFault) :
    f.isUnclosed = true ∧ f.bracket ∈ ['(', '\x7b'] ∧
        f.message = "unclosed '".toList ++ [f.bracket, '\''] ∨
      f.isUnclosed = false ∧ f.bracket ∈ [')', '\x7d'] ∧
        f.message = "unmatched '".toList ++ [f.bracket, '\''] := by
  cases f <;> decide

/-- A text that is no pattern fails at a bracket of it, by its byte position,
and with a message that quotes it.  What is in front of the bracket can go on
to a pattern; if the bracket closes nothing, what ends with it cannot. -/
theorem read_error_points {t : Text} {e : ReadError} (h : read t = .error e) :
    ∃ before c after, before ++ c :: after = t ∧
      (Text.utf8 before).length < (Text.utf8 t).length ∧
      (c ∈ ['(', '\x7b'] ∧
          e.toError = .parse (Text.utf8 before).length
            ("unclosed '".toList ++ [c, '\'']) ∨
        c ∈ [')', '\x7d'] ∧
          e.toError = .parse (Text.utf8 before).length
            ("unmatched '".toList ++ [c, '\'']) ∧
          ∀ rest nodes, read (before ++ c :: rest) ≠ .ok nodes) ∧
      ∃ rest nodes, read (before ++ rest) = .ok nodes := by
  obtain ⟨before, after, st, rfl, hsize, hleads, hfault⟩ := read_error_cases h
  refine ⟨before, e.fault.bracket, after, rfl, ?_, ?_,
    exists_read_append hleads⟩
  · rw [Text.length_utf8, Text.length_utf8, Text.size_append, Text.size_cons]
    have hpos := e.fault.bracket.utf8Size_pos
    omega
  · rw [Text.length_utf8, hsize, ReadError.toError]
    obtain ⟨-, hbracket, hmessage⟩ | ⟨hclosed, hbracket, hmessage⟩ :=
      e.fault.message_cases
    · exact .inl ⟨hbracket, by rw [hmessage]⟩
    · refine .inr ⟨hbracket, by rw [hmessage], ?_⟩
      intro rest nodes hread
      rw [hclosed] at hfault
      have hstops := hfault.resolve_left Bool.false_ne_true
      rw [read_of_stops hleads hstops] at hread
      contradiction

namespace FaultsWitness

/-- A character of two bytes, and a brace of a literal that is still open when
the children end. -/
def source : Text :=
  "é#color(\x7b#level)(".toList

def fault : ReadError :=
  ⟨9, .unclosedBrace⟩

theorem read_error_points_sample :
    read source = .error fault ∧
      ∃ before c after, before ++ c :: after = source ∧
        (Text.utf8 before).length < (Text.utf8 source).length ∧
        (c ∈ ['(', '\x7b'] ∧ fault.toError =
            .parse (Text.utf8 before).length
              ("unclosed '".toList ++ [c, '\'']) ∨
          c ∈ [')', '\x7d'] ∧ fault.toError =
            .parse (Text.utf8 before).length
              ("unmatched '".toList ++ [c, '\'']) ∧
            ∀ rest nodes, read (before ++ c :: rest) ≠ .ok nodes) ∧
        ∃ rest nodes, read (before ++ rest) = .ok nodes := by
  have hread : read source = .error fault := rfl
  exact ⟨hread, read_error_points hread⟩

end FaultsWitness

end Pattern

end Logline
