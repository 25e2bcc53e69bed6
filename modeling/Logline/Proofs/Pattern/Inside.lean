import Logline.Proofs.Pattern.Brackets
import Logline.Proofs.Pattern.Steps
/-!
The brackets that a reader is inside of.  It keeps no stack of them: in its
state are the open parentheses and the open braces of the literals, apart from
each other, the depth of raw options, and the references around.  Yet a stack
fits it at every moment (`State.Inside`), and whatever fits the stack is read.
So the reader accepts every text that closes the stack (`Inside.accepts`), and
after whatever it has read there is such a text (`exists_completion`).
-/
namespace Logline.Pattern

open BracketPair

/-- The brackets that the literals of the sequence leave open, in some order. -/
structure Sequence.Opens (s : Sequence) (own : List BracketPair) : Prop where
  parens : own.count .paren = s.parens.length
  braces : own.count .brace = s.braces.length

/-- The brackets that stand open around a sequence: in front of each reference
whose children are being read those of the literals there, and then the
parenthesis of the children. -/
inductive Around : List Enclosing → List BracketPair → Prop
  | nil : Around [] []
  | cons {outer : Enclosing} {enclosing : List Enclosing}
      {own around : List BracketPair} (hown : outer.sequence.Opens own)
      (haround : Around enclosing around) :
      Around (outer :: enclosing) (.paren :: (own ++ around))

/-- The brackets that raw options leave open.  Parentheses among them mean
nothing to the reader. -/
def Mode.Opens (raw : List BracketPair) : Mode → Prop
  | .options _ depth _ _ =>
      ∃ inner, inner.count .brace = depth ∧ inner ++ [.brace] = raw
  | _ => raw = []

/-- The reader is inside of these brackets, the innermost first. -/
def State.Inside (st : State) (opened : List BracketPair) : Prop :=
  ∃ raw own around, st.mode.Opens raw ∧ st.sequence.Opens own ∧
    Around st.enclosing around ∧
    raw ++ (own ++ around) = opened

theorem Sequence.opens_empty : empty.Opens [] :=
  ⟨rfl, rfl⟩

/-- There are brackets that the literals of a sequence leave open. -/
theorem Sequence.exists_opens (s : Sequence) : ∃ own, s.Opens own := by
  refine ⟨.replicate s.parens.length .paren ++
    .replicate s.braces.length .brace, ?_, ?_⟩
  · simp [List.count_append, List.count_replicate]
  · simp [List.count_append, List.count_replicate]

namespace Sequence.Opens

variable {s : Sequence} {own : List BracketPair}

theorem openParen (h : s.Opens own) (position : Nat) :
    Opens { s.push '(' with parens := position :: s.parens }
      (.paren :: own) where
  parens := by rw [List.count_cons_self, h.parens, List.length_cons]
  braces := by
    rw [List.count_cons_of_ne (by decide), h.braces]
    rfl

theorem openBrace (h : s.Opens own) (position : Nat) :
    Opens { s.push '\x7b' with braces := position :: s.braces }
      (.brace :: own) where
  parens := by
    rw [List.count_cons_of_ne (by decide), h.parens]
    rfl
  braces := by rw [List.count_cons_self, h.braces, List.length_cons]

theorem closeParen (h : s.Opens (.paren :: own)) :
    ∃ position parens, s.parens = position :: parens ∧
      Opens { s.push ')' with parens } own := by
  obtain ⟨hparens, hbraces⟩ := h
  rw [List.count_cons_self] at hparens
  rw [List.count_cons_of_ne (by decide)] at hbraces
  obtain ⟨position, parens, hopen⟩ :=
    List.exists_cons_of_length_eq_add_one hparens.symm
  rw [hopen, List.length_cons, Nat.add_right_cancel_iff] at hparens
  exact ⟨position, parens, hopen, hparens, hbraces⟩

theorem closeBrace (h : s.Opens (.brace :: own)) :
    ∃ position braces, s.braces = position :: braces ∧
      Opens { s.push '\x7d' with braces } own := by
  obtain ⟨hparens, hbraces⟩ := h
  rw [List.count_cons_self] at hbraces
  rw [List.count_cons_of_ne (by decide)] at hparens
  obtain ⟨position, braces, hopen⟩ :=
    List.exists_cons_of_length_eq_add_one hbraces.symm
  rw [hopen, List.length_cons, Nat.add_right_cancel_iff] at hbraces
  exact ⟨position, braces, hopen, hparens, hbraces⟩

end Sequence.Opens

theorem exists_around (enclosing : List Enclosing) :
    ∃ around, Around enclosing around := by
  induction enclosing with
  | nil => exact ⟨[], .nil⟩
  | cons outer enclosing ih =>
      obtain ⟨own, hown⟩ := outer.sequence.exists_opens
      obtain ⟨around, haround⟩ := ih
      exact ⟨_, .cons hown haround⟩

namespace State

variable {st : State} {c : Char} {own around opened : List BracketPair}

theorem inside_start : start.Inside [] :=
  ⟨[], [], [], rfl, Sequence.opens_empty, .nil, rfl⟩

theorem exists_inside (st : State) : ∃ opened, st.Inside opened := by
  obtain ⟨own, hown⟩ := st.sequence.exists_opens
  obtain ⟨around, haround⟩ := exists_around st.enclosing
  obtain ⟨raw, hraw⟩ : ∃ raw, st.mode.Opens raw := by
    cases st.mode with
    | options opened depth reversed head =>
        exact ⟨_, .replicate depth .brace, by simp, rfl⟩
    | text | marker | name _ | slots _ => exact ⟨[], rfl⟩
  exact ⟨_, raw, own, around, hraw, hown, haround, rfl⟩

/-- Where a reference or a literal ends no bracket opens or closes. -/
theorem opens_closing {s : Sequence} {raw : List BracketPair}
    (hclosing : st.closing = .ok s) (hraw : st.mode.Opens raw)
    (hown : st.sequence.Opens own) : raw = [] ∧ s.Opens own := by
  rw [closing] at hclosing
  cases hmode : st.mode with
  | options opened depth reversed head =>
      rw [hmode] at hclosing
      contradiction
  | text | marker | name _ | slots _ =>
      rw [hmode] at hclosing hraw
      obtain rfl := Except.ok.inj hclosing
      exact ⟨hraw, hown.parens, hown.braces⟩

/-- A closing bracket is one of a literal, or the parenthesis that closes the
children. -/
theorem exists_stepText_closer {b : BracketPair} (hown : st.sequence.Opens own)
    (haround : Around st.enclosing around) (h : own ++ around = b :: opened) :
    ∃ next, st.stepText b.closer = .ok next ∧ next.Inside opened := by
  rcases own with _ | ⟨first, own⟩
  · rw [List.nil_append] at h
    subst h
    have hparens := List.length_eq_zero_iff.mp hown.parens.symm
    have hbraces := List.length_eq_zero_iff.mp hown.braces.symm
    rcases henclosing : st.enclosing with _ | ⟨outer, enclosing⟩
    · rw [henclosing] at haround
      contradiction
    · rw [henclosing] at haround
      cases haround with
      | cons houter haround =>
          have hstep : st.stepText ')' = .ok { st with
              mode := .slots
                { outer.head with children := some st.sequence.complete }
              sequence := outer.sequence
              enclosing } := by
            simp [stepText, hparens, closeChildren, henclosing, hbraces]
          exact ⟨_, hstep, [], _, _, rfl, houter, haround, rfl⟩
  · obtain ⟨rfl, rfl⟩ := List.cons.inj h
    cases first with
    | paren =>
        obtain ⟨position, parens, hopen, hrest⟩ := hown.closeParen
        have hstep : st.stepText ')' = .ok { st with
            mode := .text, sequence :=
              { st.sequence.push ')' with parens } } := by
          simp [stepText, hopen]
        exact ⟨_, hstep, [], own, around, rfl, hrest, haround, rfl⟩
    | brace =>
        obtain ⟨position, braces, hopen, hrest⟩ := hown.closeBrace
        have hstep : st.stepText '\x7d' = .ok { st with
            mode := .text, sequence :=
              { st.sequence.push '\x7d' with braces } } := by
          simp [stepText, hopen]
        exact ⟨_, hstep, [], own, around, rfl, hrest, haround, rfl⟩

theorem exists_stepText_free (st : State) (hc : Free c)
    (hown : st.sequence.Opens own) (haround : Around st.enclosing around) :
    ∃ next, st.stepText c = .ok next ∧ next.Inside (own ++ around) := by
  have hsame : ∀ mode : Mode, mode.Opens [] → ∀ s : Sequence, s.Opens own →
      State.Inside { st with mode, sequence := s } (own ++ around) :=
    fun _ hmode _ hs => ⟨[], own, around, hmode, hs, haround, rfl⟩
  unfold stepText
  dsimp only
  split
  · exact ⟨_, rfl, hsame .marker rfl _ hown⟩
  · exact absurd rfl (hc .paren).1
  · exact absurd rfl (hc .paren).2
  · exact absurd rfl (hc .brace).1
  · exact absurd rfl (hc .brace).2
  · exact ⟨_, rfl, hsame .text rfl _ ⟨hown.parens, hown.braces⟩⟩

/-- As text, a character that fits the open brackets is read. -/
theorem exists_stepText_inside (hown : st.sequence.Opens own)
    (haround : Around st.enclosing around)
    (h : enter (own ++ around) c = some opened) :
    ∃ next, st.stepText c = .ok next ∧ next.Inside opened := by
  obtain ⟨b, rfl, rfl⟩ | ⟨b, rfl, hopened⟩ | ⟨hc, rfl⟩ := enter_cases h
  · cases b with
    | paren => exact ⟨_, rfl, [], _, around, rfl,
        hown.openParen st.position, haround, rfl⟩
    | brace => exact ⟨_, rfl, [], _, around, rfl,
        hown.openBrace st.position, haround, rfl⟩
  · exact exists_stepText_closer hown haround hopened
  · exact exists_stepText_free st hc hown haround

/-- The brace that opened raw options is the outermost of those in them. -/
theorem inside_stepOptions {position depth : Nat} {reversed : Text}
    {head : Head} {raw : List BracketPair}
    (hraw : (Mode.options position depth reversed head).Opens raw)
    (hown : st.sequence.Opens own) (haround : Around st.enclosing around)
    (h : enter (raw ++ (own ++ around)) c = some opened) :
    (st.stepOptions position depth reversed head c).Inside opened := by
  obtain ⟨inner, rfl, rfl⟩ := hraw
  have hstays : ∀ inner' : List BracketPair,
      (c = '\x7d' → inner.count .brace ≠ 0) →
      inner'.count .brace = depthAfter c (inner.count .brace) →
      (st.stepOptions position (inner.count .brace) reversed head c).Inside
        (inner' ++ [.brace] ++ (own ++ around)) := by
    intro inner' hdeep hcount
    rw [stepOptions_of_not_closing st position reversed head hdeep]
    exact ⟨_, own, around, ⟨inner', hcount, rfl⟩, hown, haround, rfl⟩
  obtain ⟨b, rfl, rfl⟩ | ⟨b, rfl, hopened⟩ | ⟨hc, rfl⟩ := enter_cases h
  · apply hstays (b :: inner)
    · cases b <;> simp [opener]
    · cases b <;> simp [depthAfter, opener]
  · rcases inner with _ | ⟨first, inner⟩
    · obtain ⟨rfl, rfl⟩ := List.cons.inj hopened
      exact ⟨[], own, around, rfl, hown, haround, rfl⟩
    · obtain ⟨rfl, rfl⟩ := List.cons.inj hopened
      apply hstays inner
      · cases first <;> simp [closer]
      · cases first <;> simp [depthAfter, closer]
  · obtain ⟨hopen, hclose⟩ : c ≠ '\x7b' ∧ c ≠ '\x7d' := hc .brace
    apply hstays inner
    · intro hcloses
      exact absurd hcloses hclose
    · rw [depthAfter, if_neg hopen, if_neg hclose]

theorem exists_stepSlots_inside {head : Head} (hopens : head.opens c = true)
    (hown : st.sequence.Opens own) (haround : Around st.enclosing around)
    (h : enter (own ++ around) c = some opened) :
    ∃ next, st.stepSlots head c = .ok next ∧ next.Inside opened := by
  simp only [Head.opens, Bool.or_eq_true, Bool.and_eq_true, beq_iff_eq]
    at hopens
  rw [stepSlots]
  by_cases hparen : c = '(' ∧ head.children.isNone = true
  · rw [if_pos hparen]
    obtain ⟨rfl, -⟩ := hparen
    obtain rfl := Option.some.inj h
    exact ⟨_, rfl, [], [], _, rfl, Sequence.opens_empty,
      .cons hown haround, rfl⟩
  · obtain ⟨rfl, hfree⟩ := hopens.resolve_left hparen
    rw [if_neg hparen, if_pos ⟨rfl, hfree⟩]
    obtain rfl := Option.some.inj h
    exact ⟨_, rfl, [.brace], own, around, ⟨[], rfl, rfl⟩, hown, haround, rfl⟩

/-- No bracket is part of a name. -/
theorem enter_nameChar (opened : List BracketPair) (hc : isNameChar c = true) :
    enter opened c = some opened := by
  apply enter_free
  intro b
  constructor <;> rintro rfl <;> cases b <;> contradiction

theorem exists_extended_inside {raw : List BracketPair}
    (hraw : st.mode.Opens raw) (hown : st.sequence.Opens own)
    (haround : Around st.enclosing around)
    (hextends : st.mode.extendedBy c = true)
    (h : enter (raw ++ (own ++ around)) c = some opened) :
    ∃ next, st.stepMode c = .ok next ∧ next.Inside opened := by
  rw [stepMode]
  cases hmode : st.mode with
  | text =>
      rw [hmode] at hextends
      contradiction
  | marker =>
      rw [hmode] at hraw hextends
      obtain rfl : raw = [] := hraw
      have hstart : isNameStart c = true := hextends
      rw [enter_nameChar _ (isNameChar_of_isNameStart hstart)] at h
      obtain rfl := Option.some.inj h
      simp only [hstart, if_true]
      refine ⟨_, rfl, [], own, around, rfl, ⟨?_, ?_⟩, haround, rfl⟩
      · simpa using hown.parens
      · simpa using hown.braces
  | name reversed =>
      rw [hmode] at hraw hextends
      obtain rfl : raw = [] := hraw
      by_cases hname : isNameChar c = true
      · rw [enter_nameChar _ hname] at h
        obtain rfl := Option.some.inj h
        simp only [hname, if_true]
        exact ⟨_, rfl, [], own, around, rfl, hown, haround, rfl⟩
      · rw [Mode.extendedBy, Bool.eq_false_iff.mpr hname, Bool.false_or]
          at hextends
        simp only [hname]
        exact exists_stepSlots_inside hextends hown haround h
  | slots head =>
      rw [hmode] at hraw hextends
      obtain rfl : raw = [] := hraw
      exact exists_stepSlots_inside hextends hown haround h
  | options position depth reversed head =>
      rw [hmode] at hraw
      exact ⟨_, rfl, inside_stepOptions hraw hown haround h⟩

/-- A character that fits the open brackets is read. -/
theorem Inside.step {after : List BracketPair} (h : st.Inside opened)
    (hc : enter opened c = some after) :
    ∃ next, st.step c = .ok next ∧ next.Inside after := by
  obtain ⟨raw, own, around, hraw, hown, haround, rfl⟩ := h
  obtain ⟨reached, hreached, hinside⟩ :
      ∃ reached, st.stepMode c = .ok reached ∧ reached.Inside after := by
    by_cases hextends : st.mode.extendedBy c = true
    · exact exists_extended_inside hraw hown haround hextends hc
    · obtain ⟨s, hclosing, heq⟩ :=
        stepMode_of_not_extendedBy (Bool.eq_false_iff.mpr hextends)
      obtain ⟨rfl, hs⟩ := opens_closing hclosing hraw hown
      rw [heq]
      have hreached : ∃ next,
          State.stepText { st with sequence := s } c = .ok next ∧
            next.Inside after := exists_stepText_inside hs haround hc
      exact hreached
  exact ⟨_, step_eq_ok_iff.mpr ⟨reached, hreached, rfl⟩, hinside⟩

theorem Inside.run {t : Text} {after : List BracketPair} (h : st.Inside opened)
    (ht : openAfter opened t = some after) :
    ∃ next, st.Leads t next ∧ next.Inside after := by
  induction t generalizing st opened with
  | nil =>
      obtain rfl := Option.some.inj ht
      exact ⟨st, (leads_nil_iff st st).mpr rfl, h⟩
  | cons c t ih =>
      rw [openAfter_cons] at ht
      obtain ⟨inner, hinner, ht⟩ := Option.bind_eq_some_iff.mp ht
      obtain ⟨reached, hstep, hreached⟩ := h.step hinner
      obtain ⟨next, hleads, hnext⟩ := ih hreached ht
      exact ⟨next, leads_cons_iff.mpr ⟨reached, hstep, hleads⟩, hnext⟩

/-- A reader with no bracket open can end. -/
theorem Inside.finish (h : st.Inside []) : ∃ nodes, st.finish = .ok nodes := by
  obtain ⟨raw, own, around, hraw, hown, haround, hnil⟩ := h
  obtain ⟨rfl, hrest⟩ := List.append_eq_nil_iff.mp hnil
  obtain ⟨rfl, rfl⟩ := List.append_eq_nil_iff.mp hrest
  obtain ⟨s, hclosing⟩ : ∃ s, st.closing = .ok s := by
    rw [closing]
    cases hmode : st.mode with
    | options position depth reversed head =>
        rw [hmode] at hraw
        obtain ⟨inner, -, hinner⟩ := hraw
        exact absurd hinner (by simp)
    | text | marker | name _ | slots _ => exact ⟨_, rfl⟩
  have hs := (opens_closing hclosing hraw hown).2
  have henclosing : st.enclosing = [] := by
    generalize st.enclosing = enclosing at haround
    cases haround
    rfl
  exact ⟨s.complete, finish_eq_ok_iff.mpr ⟨s, hclosing,
    List.length_eq_zero_iff.mp hs.parens.symm,
    List.length_eq_zero_iff.mp hs.braces.symm,
    henclosing, rfl⟩⟩

/-- A text that closes the open brackets is accepted. -/
theorem Inside.accepts {t : Text} (h : st.Inside opened)
    (ht : openAfter opened t = some []) :
    ∃ next nodes, st.Leads t next ∧ next.finish = .ok nodes := by
  obtain ⟨next, hleads, hnext⟩ := h.run ht
  obtain ⟨nodes, hfinish⟩ := hnext.finish
  exact ⟨next, nodes, hleads, hfinish⟩

/-- Whatever has been read, the text can go on to a pattern. -/
theorem exists_completion (st : State) :
    ∃ t next nodes, st.Leads t next ∧ next.finish = .ok nodes := by
  obtain ⟨opened, hinside⟩ := st.exists_inside
  exact ⟨_, hinside.accepts (openAfter_closers opened)⟩

end State

end Logline.Pattern
