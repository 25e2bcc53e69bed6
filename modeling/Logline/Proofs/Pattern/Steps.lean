import Logline.Proofs.Pattern.Nesting
/-!
What a character does to a reader.  Either it extends what the last characters
have begun, such as a name, or it ends that and is then read as text
(`stepMode_of_not_extendedBy`).  As text it is a marker, or grows the literal,
or closes the children of a reference (`stepText_cases`).
-/
namespace Logline.Pattern

theorem isNameChar_of_isNameStart {c : Char} (h : isNameStart c = true) :
    isNameChar c = true := by
  simp only [isNameStart, isNameChar, Char.isAlphanum, Bool.or_eq_true] at *
  rcases h with halpha | hunderscore
  · exact .inl (.inl halpha)
  · exact .inr hunderscore

/-- The character opens a slot of the reference that has not been given. -/
def Head.opens (head : Head) (c : Char) : Bool :=
  c == '(' && head.children.isNone || c == '\x7b' && head.options.isNone

/-- The character goes on with what the last characters have begun. -/
def Mode.extendedBy (c : Char) : Mode → Bool
  | .text => false
  | .marker => isNameStart c
  | .name reversed =>
      isNameChar c || Head.opens ⟨reversed.reverse, none, none⟩ c
  | .slots head => head.opens c
  | .options .. => true

/-- The second sequence is the first with a text at the end of its last
literal, and with the brackets of that text. -/
structure Sequence.Grows (s : Sequence) (t : Text) (s' : Sequence) : Prop where
  nodes : s'.nodes = s.nodes
  literal : s'.literal = t.reverse ++ s.literal
  parens : nesting '(' ')' s.parens.length t = some s'.parens.length
  braces : nesting '\x7b' '\x7d' s.braces.length t = some s'.braces.length

namespace Sequence

@[simp] theorem flush_literal (s : Sequence) : s.flush.literal = [] := by
  rw [flush]
  split_ifs with hempty
  · simpa using hempty
  · rfl

@[simp] theorem flush_parens (s : Sequence) : s.flush.parens = s.parens := by
  rw [flush]
  split_ifs <;> rfl

@[simp] theorem flush_braces (s : Sequence) : s.flush.braces = s.braces := by
  rw [flush]
  split_ifs <;> rfl

theorem flush_of_literal_eq_nil {s : Sequence} (h : s.literal = []) :
    s.flush = s := by
  simp [flush, h]

theorem grows_nil (s : Sequence) : s.Grows [] s :=
  ⟨rfl, rfl, rfl, rfl⟩

theorem Grows.trans {s s' s'' : Sequence} {t u : Text} (h : s.Grows t s')
    (h' : s'.Grows u s'') : s.Grows (t ++ u) s'' where
  nodes := h'.nodes.trans h.nodes
  literal := by rw [h'.literal, h.literal]; simp
  parens := by rw [nesting_append, h.parens, Option.bind_some, h'.parens]
  braces := by rw [nesting_append, h.braces, Option.bind_some, h'.braces]

theorem grows_push (s : Sequence) {c : Char} (hparens : c ≠ '(' ∧ c ≠ ')')
    (hbraces : c ≠ '\x7b' ∧ c ≠ '\x7d') : s.Grows [c] (s.push c) where
  nodes := rfl
  literal := rfl
  parens := nesting_singleton_other hparens.1 hparens.2 _
  braces := nesting_singleton_other hbraces.1 hbraces.2 _

theorem grows_push_marker (s : Sequence) : s.Grows [marker] (s.push marker) :=
  s.grows_push (by decide) (by decide)

theorem grows_openParen (s : Sequence) (position : Nat) :
    s.Grows ['('] { s.push '(' with parens := position :: s.parens } where
  nodes := rfl
  literal := rfl
  parens := nesting_singleton_opener _
  braces := nesting_singleton_other (by decide) (by decide) _

theorem grows_closeParen {s : Sequence} {position : Nat} {parens : List Nat}
    (h : s.parens = position :: parens) :
    s.Grows [')'] { s.push ')' with parens } where
  nodes := rfl
  literal := rfl
  parens := by
    rw [h]
    exact nesting_singleton_closer (by decide) _
  braces := nesting_singleton_other (by decide) (by decide) _

theorem grows_openBrace (s : Sequence) (position : Nat) :
    s.Grows ['\x7b'] { s.push '\x7b' with braces := position :: s.braces } where
  nodes := rfl
  literal := rfl
  parens := nesting_singleton_other (by decide) (by decide) _
  braces := nesting_singleton_opener _

theorem grows_closeBrace {s : Sequence} {position : Nat} {braces : List Nat}
    (h : s.braces = position :: braces) :
    s.Grows ['\x7d'] { s.push '\x7d' with braces } where
  nodes := rfl
  literal := rfl
  parens := nesting_singleton_other (by decide) (by decide) _
  braces := by
    rw [h]
    exact nesting_singleton_closer (by decide) _

end Sequence

namespace State

/-- What a character of text does: it begins a reference, or grows the literal,
or closes the children of the reference around. -/
theorem stepText_cases {st next : State} {c : Char}
    (h : st.stepText c = .ok next) :
    (c = marker ∧ next = { st with mode := .marker }) ∨
      (∃ s, st.sequence.Grows [c] s ∧
        c ≠ marker ∧ next = { st with mode := .text, sequence := s }) ∨
      (c = ')' ∧ st.sequence.parens = [] ∧ st.closeChildren = .ok next) := by
  unfold stepText at h
  dsimp only at h
  split at h
  · exact .inl ⟨rfl, (Except.ok.inj h).symm⟩
  · exact .inr (.inl ⟨_, Sequence.grows_openParen _ _, by decide,
      (Except.ok.inj h).symm⟩)
  · split at h
    · next hparens =>
        exact .inr (.inl ⟨_, Sequence.grows_closeParen hparens, by decide,
          (Except.ok.inj h).symm⟩)
    · next hparens => exact .inr (.inr ⟨rfl, hparens, h⟩)
  · exact .inr (.inl ⟨_, Sequence.grows_openBrace _ _, by decide,
      (Except.ok.inj h).symm⟩)
  · split at h
    · next hbraces =>
        exact .inr (.inl ⟨_, Sequence.grows_closeBrace hbraces, by decide,
          (Except.ok.inj h).symm⟩)
    · cases h
  · next hmarker hopen hclose hopen' hclose' =>
      exact .inr (.inl ⟨_,
        Sequence.grows_push _ ⟨hopen, hclose⟩ ⟨hopen', hclose'⟩, hmarker,
        (Except.ok.inj h).symm⟩)

/-- A character whose brackets fit the open ones grows the literal. -/
theorem exists_stepText (st : State) {c : Char} (hc : c ≠ marker)
    {parens braces : Nat}
    (hparens : nesting '(' ')' st.sequence.parens.length [c] = some parens)
    (hbraces : nesting '\x7b' '\x7d' st.sequence.braces.length [c] =
      some braces) :
    ∃ s, st.sequence.Grows [c] s ∧
      st.stepText c = .ok { st with mode := .text, sequence := s } := by
  unfold stepText
  dsimp only
  split
  · exact absurd rfl hc
  · exact ⟨_, Sequence.grows_openParen _ _, rfl⟩
  · split
    · next h => exact ⟨_, Sequence.grows_closeParen h, rfl⟩
    · next h =>
        rw [h] at hparens
        simp [nesting] at hparens
  · exact ⟨_, Sequence.grows_openBrace _ _, rfl⟩
  · split
    · next h => exact ⟨_, Sequence.grows_closeBrace h, rfl⟩
    · next h =>
        rw [h] at hbraces
        simp [nesting] at hbraces
  · next hopen hclose hopen' hclose' =>
      exact ⟨_, Sequence.grows_push _ ⟨hopen, hclose⟩ ⟨hopen', hclose'⟩,
        rfl⟩

theorem closeChildren_cases {st next : State}
    (h : st.closeChildren = .ok next) :
    ∃ outer enclosing, st.enclosing = outer :: enclosing ∧
      st.sequence.braces = [] ∧
      next = { st with
        mode := .slots { outer.head with children := some st.sequence.complete }
        sequence := outer.sequence
        enclosing } := by
  rw [closeChildren] at h
  split at h
  · cases h
  · next outer enclosing henclosing =>
      split at h
      · cases h
      · next hbraces =>
          exact ⟨outer, enclosing, henclosing,
            List.getLast?_eq_none_iff.mp hbraces, (Except.ok.inj h).symm⟩

theorem stepSlots_of_not_opens (st : State) {head : Head} {c : Char}
    (h : head.opens c = false) :
    st.stepSlots head c =
      { st with sequence := st.sequence.attach head }.stepText c := by
  simp only [Head.opens, Bool.or_eq_false_iff, Bool.and_eq_false_imp,
    beq_iff_eq] at h
  have hparen : ¬ (c = '(' ∧ head.children.isNone = true) := by
    rintro ⟨hc, hnone⟩
    rw [h.1 hc] at hnone
    contradiction
  have hbrace : ¬ (c = '\x7b' ∧ head.options.isNone = true) := by
    rintro ⟨hc, hnone⟩
    rw [h.2 hc] at hnone
    contradiction
  rw [stepSlots, if_neg hparen, if_neg hbrace]

/-- A character that does not extend what has been begun ends it, and is read
as text after it. -/
theorem stepMode_of_not_extendedBy {st : State} {c : Char}
    (h : st.mode.extendedBy c = false) :
    ∃ s, st.closing = .ok s ∧
      st.stepMode c = { st with sequence := s }.stepText c := by
  rw [closing, stepMode]
  cases hmode : st.mode with
  | text => exact ⟨_, rfl, rfl⟩
  | marker =>
      rw [hmode, Mode.extendedBy] at h
      exact ⟨_, rfl, by simp [h]⟩
  | name reversed =>
      rw [hmode, Mode.extendedBy, Bool.or_eq_false_iff] at h
      refine ⟨_, rfl, ?_⟩
      simp only [h.1, Bool.false_eq_true, if_false]
      exact st.stepSlots_of_not_opens h.2
  | slots head =>
      rw [hmode] at h
      exact ⟨_, rfl, st.stepSlots_of_not_opens h⟩
  | options opened depth reversed head =>
      rw [hmode] at h
      exact absurd h (by simp [Mode.extendedBy])

/-- Outside of options only letters, digits, underscores and opening brackets
can extend anything. -/
theorem not_extendedBy_of_closing {st : State} {s : Sequence} {c : Char}
    (hclosing : st.closing = .ok s) (hname : isNameChar c = false)
    (hparen : c ≠ '(') (hbrace : c ≠ '\x7b') :
    st.mode.extendedBy c = false := by
  have hopens : ∀ head : Head, head.opens c = false := by
    intro head
    simp [Head.opens, hparen, hbrace]
  rw [closing] at hclosing
  cases hmode : st.mode with
  | text => rfl
  | marker =>
      rw [Mode.extendedBy, Bool.eq_false_iff]
      intro hstart
      rw [isNameChar_of_isNameStart hstart] at hname
      contradiction
  | name reversed => simp [Mode.extendedBy, hname, hopens]
  | slots head => exact hopens head
  | options opened depth reversed head =>
      rw [hmode] at hclosing
      cases hclosing

theorem stepOptions_closing (st : State) (opened : Nat) (reversed : Text)
    (head : Head) :
    st.stepOptions opened 0 reversed head '\x7d' = { st with
      mode := .slots
        { head with options := some (splitOptions reversed.reverse) } } := rfl

theorem stepOptions_of_not_closing (st : State) (opened : Nat) {depth : Nat}
    (reversed : Text) (head : Head) {c : Char}
    (h : c = '\x7d' → depth ≠ 0) :
    st.stepOptions opened depth reversed head c =
      { st with
        mode := .options opened (depthAfter c depth)
          (c :: reversed) head } := by
  rw [stepOptions, if_neg fun hclose => h hclose.1 hclose.2]
  rfl

/-- A text is a pattern if it leaves nothing open. -/
theorem finish_eq_ok_iff {st : State} {nodes : List Node} :
    st.finish = .ok nodes ↔
      ∃ s, st.closing = .ok s ∧ s.parens = [] ∧ s.braces = [] ∧
        st.enclosing = [] ∧ s.complete = nodes := by
  rw [finish]
  cases hclosing : st.closing with
  | error e => simp [bind, Except.bind]
  | ok s =>
      simp only [bind, Except.bind, Except.ok.injEq, exists_eq_left']
      split
      · next hparen =>
          have hne : s.parens ≠ [] := by
            rintro hnil
            simp [hnil] at hparen
          simp [hne]
      · next hbrace =>
          have hne : s.braces ≠ [] := by
            rintro hnil
            simp [hnil] at hbrace
          simp [hne]
      · next henclosing => simp [henclosing]
      · next hparens hbraces henclosing =>
          simp [List.getLast?_eq_none_iff.mp hparens,
            List.getLast?_eq_none_iff.mp hbraces, henclosing]

theorem step_eq_ok_iff {st next : State} {c : Char} :
    st.step c = .ok next ↔
      ∃ reached, st.stepMode c = .ok reached ∧
        { reached with position := st.position + c.utf8Size } = next := by
  rw [step]
  cases st.stepMode c <;> simp [Except.map]

/-- Reading the text leads from one state to the other. -/
def Leads (st : State) (t : Text) (st' : State) : Prop :=
  t.foldlM State.step st = .ok st'

theorem leads_nil_iff (st st' : State) : st.Leads [] st' ↔ st = st' := by
  simp [Leads, pure, Except.pure]

theorem leads_cons_iff {st st' : State} {c : Char} {t : Text} :
    st.Leads (c :: t) st' ↔
      ∃ next, st.step c = .ok next ∧ next.Leads t st' := by
  rw [Leads, List.foldlM_cons]
  cases st.step c with
  | error e => simp [bind, Except.bind]
  | ok next => simp [bind, Except.bind, Leads]

theorem Leads.trans {st st' st'' : State} {t u : Text} (h : st.Leads t st')
    (h' : st'.Leads u st'') : st.Leads (t ++ u) st'' := by
  rw [Leads] at *
  rw [List.foldlM_append, h]
  exact h'

theorem leads_of_stepMode {st st' : State} {c : Char}
    (h : st.stepMode c = .ok st') :
    st.Leads [c] { st' with position := st.position + c.utf8Size } :=
  leads_cons_iff.mpr
    ⟨_, step_eq_ok_iff.mpr ⟨st', h, rfl⟩, (leads_nil_iff _ _).mpr rfl⟩

end State

theorem read_eq_ok_iff_leads {t : Text} {nodes : List Node} :
    read t = .ok nodes ↔
      ∃ st, State.start.Leads t st ∧ st.finish = .ok nodes := by
  rw [read]
  cases hrun : t.foldlM State.step State.start with
  | error e => simp [bind, Except.bind, State.Leads, hrun]
  | ok st => simp [bind, Except.bind, State.Leads, hrun]

end Logline.Pattern
