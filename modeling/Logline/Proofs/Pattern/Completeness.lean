import Logline.Proofs.Pattern.Spelling
import Logline.Proofs.Pattern.Steps
/-!
Every spelling of normal nodes is accepted.  From a state in which the pattern
could end (`State.Rests`), literals grow the sequence and references become
nodes of it, whatever stands around; the induction over the spelling is
`Spells.leads`.  Within a reference the reader `Awaits` its slots, which may
come in any order.
-/
namespace Logline.Pattern

open Node

/-- The reference with these slots given, and the others as they were. -/
def Head.given (head : Head) (options : List Text) (children : List Node)
    (slots : List Slot) : Head :=
  { head with
    options := if .options ∈ slots then some options else head.options
    children := if .children ∈ slots then some children else head.children }

section Covers

variable {slots : List Slot} {options : List Text} {children : List Node}

/-- Giving the written slots of a reference gives all of it. -/
theorem Covers.given_options (h : Covers slots options children)
    (name : Text) :
    (Head.given ⟨name, none, none⟩ options children slots).options.getD [] =
      options := by
  rw [Head.given]
  dsimp only
  split_ifs with hmem
  · rfl
  · rw [h.options hmem, Option.getD_none]

theorem Covers.given_children (h : Covers slots options children)
    (name : Text) :
    (Head.given ⟨name, none, none⟩ options children slots).children.getD [] =
      children := by
  rw [Head.given]
  dsimp only
  split_ifs with hmem
  · rfl
  · rw [h.children hmem, Option.getD_none]

end Covers

namespace Sequence

theorem complete_of_grows {s s' : Sequence} {t : Text} (hne : t ≠ [])
    (hliteral : s.literal = []) (h : s.Grows t s') :
    s'.complete = s.complete ++ [.literal t] := by
  have hlast : s'.literal = t.reverse := by
    rw [h.literal, hliteral, List.append_nil]
  have hfilled : s'.literal.isEmpty = false := by
    simpa [hlast] using hne
  rw [complete, complete, flush, flush, hfilled, hliteral, h.nodes, hlast]
  simp

theorem complete_attach_flush (s : Sequence) (head : Head) :
    (s.flush.attach head).complete = s.complete ++
      [.converter head.name (head.options.getD [])
        (head.children.getD [])] := by
  have hliteral : (s.flush.attach head).literal = [] := s.flush_literal
  rw [complete, complete, flush_of_literal_eq_nil hliteral, attach,
    List.reverse_cons]

end Sequence

namespace State

/-- The sequence could end here, within these references. -/
structure Rests (st : State) (s : Sequence) (enclosing : List Enclosing) :
    Prop where
  closing : st.closing = .ok s
  enclosing : st.enclosing = enclosing

/-- The reference could end here, or another slot of it could open. -/
structure Awaits (st : State) (head : Head) (s : Sequence)
    (enclosing : List Enclosing) : Prop where
  mode : st.mode = .slots head ∨
    ∃ reversed, st.mode = .name reversed ∧
      head = ⟨reversed.reverse, none, none⟩
  sequence : st.sequence = s
  enclosing : st.enclosing = enclosing

variable {st : State} {s : Sequence} {head : Head}
  {enclosing : List Enclosing}

/-! ### Literals -/

theorem exists_leads_char {c : Char} {parens braces : Nat}
    (hrests : st.Rests s enclosing) (hends : st.mode.extendedBy c = false)
    (hparens : nesting '(' ')' s.parens.length [c] = some parens)
    (hbraces : nesting '\x7b' '\x7d' s.braces.length [c] = some braces) :
    ∃ st' s', st.Leads [c] st' ∧ st'.Rests s' enclosing ∧ s.Grows [c] s' ∧
      ∀ next, (c = marker → isNameStart next = false) →
        st'.mode.extendedBy next = false := by
  obtain ⟨hclosing, henclosing⟩ := hrests
  obtain ⟨s₀, hclosing', hstep⟩ := stepMode_of_not_extendedBy hends
  obtain rfl : s₀ = s := Except.ok.inj (hclosing'.symm.trans hclosing)
  by_cases hmarker : c = marker
  · subst hmarker
    exact ⟨_, s₀.push marker, leads_of_stepMode hstep, ⟨rfl, henclosing⟩,
      s₀.grows_push_marker, fun next hnext => hnext rfl⟩
  · obtain ⟨s', hgrows, htext⟩ :=
      exists_stepText { st with sequence := s₀ } hmarker hparens hbraces
    rw [htext] at hstep
    exact ⟨_, s', leads_of_stepMode hstep, ⟨rfl, henclosing⟩, hgrows,
      fun _ _ => rfl⟩

/-- A text that begins no reference grows the literal, one character at a
time. -/
theorem exists_leads_literal {t : Text} {parens braces : Nat}
    (hrests : st.Rests s enclosing)
    (hends : ∀ c ∈ t.head?, st.mode.extendedBy c = false)
    (hplain : NoReference t)
    (hparens : nesting '(' ')' s.parens.length t = some parens)
    (hbraces : nesting '\x7b' '\x7d' s.braces.length t = some braces) :
    ∃ st' s', st.Leads t st' ∧ st'.Rests s' enclosing ∧ s.Grows t s' := by
  induction t generalizing st s with
  | nil => exact ⟨st, s, (leads_nil_iff st st).mpr rfl, hrests, s.grows_nil⟩
  | cons c t ih =>
      obtain ⟨hnext, hplain'⟩ := (noReference_cons_iff c t).mp hplain
      obtain ⟨parens₁, hparens₁, hparens₂⟩ :=
        exists_nesting_of_append (s := [c]) hparens
      obtain ⟨braces₁, hbraces₁, hbraces₂⟩ :=
        exists_nesting_of_append (s := [c]) hbraces
      obtain ⟨st₁, s₁, hleads, hrests₁, hgrows, hends₁⟩ :=
        exists_leads_char hrests (hends c rfl) hparens₁ hbraces₁
      obtain rfl := Option.some.inj (hgrows.parens.symm.trans hparens₁)
      obtain rfl := Option.some.inj (hgrows.braces.symm.trans hbraces₁)
      obtain ⟨st₂, s₂, hleads', hrests₂, hgrows'⟩ :=
        ih hrests₁ (fun d hd => hends₁ d (hnext d hd)) hplain' hparens₂
          hbraces₂
      exact ⟨st₂, s₂, hleads.trans hleads', hrests₂,
        hgrows.trans hgrows'⟩

/-- A literal becomes one node, if it is not read next to another one. -/
theorem exists_leads_literalNode {t : Text} {parens braces : Nat}
    (hrests : st.Rests s enclosing)
    (hends : ∀ c ∈ t.head?, st.mode.extendedBy c = false)
    (hliteral : s.literal = []) (hne : t ≠ []) (hplain : NoReference t)
    (hparens : nesting '(' ')' s.parens.length t = some parens)
    (hbraces : nesting '\x7b' '\x7d' s.braces.length t = some braces) :
    ∃ st' s', st.Leads t st' ∧ st'.Rests s' enclosing ∧
      s'.complete = s.complete ++ [.literal t] ∧ s'.parens.length = parens ∧
      s'.braces.length = braces := by
  obtain ⟨st', s', hleads, hrests', hgrows⟩ :=
    exists_leads_literal hrests hends hplain hparens hbraces
  refine ⟨st', s', hleads, hrests', ?_, ?_, ?_⟩
  · exact Sequence.complete_of_grows hne hliteral hgrows
  · exact Option.some.inj (hgrows.parens.symm.trans hparens)
  · exact Option.some.inj (hgrows.braces.symm.trans hbraces)

/-! ### References -/

theorem exists_leads_nameChars (st : State) {reversed rest : Text}
    (hmode : st.mode = .name reversed)
    (hrest : ∀ c ∈ rest, isNameChar c = true) :
    ∃ st', st.Leads rest st' ∧ st'.mode = .name (rest.reverse ++ reversed) ∧
      st'.sequence = st.sequence ∧ st'.enclosing = st.enclosing := by
  induction rest generalizing st reversed with
  | nil => exact ⟨st, (leads_nil_iff st st).mpr rfl, hmode, rfl, rfl⟩
  | cons c rest ih =>
      have hstep : st.stepMode c =
          .ok { st with mode := .name (c :: reversed) } := by
        rw [stepMode, hmode]
        simp [hrest c List.mem_cons_self]
      obtain ⟨st', hleads, hmode', hsequence, henclosing⟩ :=
        ih { st with
            mode := .name (c :: reversed),
            position := st.position + c.utf8Size } rfl
          fun d hd => hrest d (List.mem_cons_of_mem c hd)
      refine ⟨st', (leads_of_stepMode hstep).trans hleads, ?_, hsequence,
        henclosing⟩
      simpa using hmode'

theorem exists_leads_name {name : Text} (hrests : st.Rests s enclosing)
    (hname : IsName name) :
    ∃ st', st.Leads (marker :: name) st' ∧
      st'.Awaits ⟨name, none, none⟩ s.flush enclosing := by
  obtain ⟨hclosing, henclosing⟩ := hrests
  obtain ⟨first, rest, rfl, hfirst, hrest⟩ := hname
  have hends : st.mode.extendedBy marker = false :=
    not_extendedBy_of_closing hclosing (by decide) (by decide) (by decide)
  obtain ⟨s₀, hclosing', hmarker⟩ := stepMode_of_not_extendedBy hends
  obtain rfl : s₀ = s := Except.ok.inj (hclosing'.symm.trans hclosing)
  have hbegins : ∀ position, State.stepMode
      { st with position, mode := .marker, sequence := s₀ } first =
      .ok { st with
        position, mode := .name [first], sequence := s₀.flush } := by
    intro position
    simp [stepMode, hfirst]
  obtain ⟨st', hleads, hmode, hsequence, henclosing'⟩ :=
    exists_leads_nameChars { st with
      position := st.position + marker.utf8Size + first.utf8Size,
      mode := .name [first], sequence := s₀.flush } rfl hrest
  have hall := (leads_of_stepMode hmarker).trans
    ((leads_of_stepMode (hbegins _)).trans hleads)
  exact ⟨st', hall, .inr ⟨_, hmode, by simp⟩, hsequence,
    henclosing'.trans henclosing⟩

namespace Awaits

theorem rests (h : st.Awaits head s enclosing) :
    st.Rests (s.attach head) enclosing := by
  obtain ⟨hmode, rfl, henclosing⟩ := h
  refine ⟨?_, henclosing⟩
  rcases hmode with hmode | ⟨reversed, hmode, rfl⟩
  · rw [closing, hmode]
  · rw [closing, hmode]

theorem stepMode_eq (h : st.Awaits head s enclosing) {c : Char}
    (hname : isNameChar c = false) : st.stepMode c = st.stepSlots head c := by
  rcases h.mode with hmode | ⟨reversed, hmode, rfl⟩
  · rw [stepMode, hmode]
  · rw [stepMode, hmode]
    simp [hname]

/-- A character that ends the reference by its spelling also ends it for the
reader. -/
theorem not_extendedBy (h : st.Awaits head s enclosing) {slots : List Slot}
    (hchildren : .children ∈ slots → head.children.isSome = true)
    (hoptions : .options ∈ slots → head.options.isSome = true) {c : Char}
    (hends : EndsBefore slots c) : st.mode.extendedBy c = false := by
  have hopens : head.opens c = false := by
    simp only [Head.opens, Bool.or_eq_false_iff, Bool.and_eq_false_imp,
      beq_iff_eq]
    constructor
    · intro hparen
      simpa using hchildren (hends.closed .children hparen)
    · intro hbrace
      simpa using hoptions (hends.closed .options hbrace)
  rcases h.mode with hmode | ⟨reversed, hmode, rfl⟩
  · rw [hmode]
    exact hopens
  · rw [hmode, Mode.extendedBy, hopens, Bool.or_false, Bool.eq_false_iff]
    intro hname
    obtain ⟨slot, hslot⟩ := List.exists_mem_of_ne_nil _ (hends.named hname)
    cases slot with
    | children => simpa using hchildren hslot
    | options => simpa using hoptions hslot

end Awaits

theorem exists_leads_raw (st : State) {opened depth final : Nat}
    {reversed raw : Text}
    (hmode : st.mode = .options opened depth reversed head)
    (hcloses : nesting '\x7b' '\x7d' depth raw = some final) :
    ∃ st', st.Leads raw st' ∧
      st'.mode = .options opened final (raw.reverse ++ reversed) head ∧
      st'.sequence = st.sequence ∧ st'.enclosing = st.enclosing := by
  induction raw generalizing st depth reversed with
  | nil =>
      obtain rfl := Option.some.inj hcloses
      exact ⟨st, (leads_nil_iff st st).mpr rfl, hmode, rfl, rfl⟩
  | cons c raw ih =>
      have hinside := closes_of_nesting_cons hcloses
      rw [nesting_cons_of_closes c raw hinside] at hcloses
      have hstep : st.stepMode c = .ok { st with
          mode := .options opened (depthAfter c depth)
            (c :: reversed) head } := by
        rw [stepMode, hmode]
        exact congrArg _
          (st.stepOptions_of_not_closing opened reversed head hinside)
      obtain ⟨st', hleads, hmode', hsequence, henclosing⟩ :=
        ih { st with
            mode := .options opened (depthAfter c depth) (c :: reversed) head,
            position := st.position + c.utf8Size } rfl hcloses
      refine ⟨st', (leads_of_stepMode hstep).trans hleads, ?_, hsequence,
        henclosing⟩
      simpa using hmode'

theorem Awaits.exists_leads_options (h : st.Awaits head s enclosing)
    (hfree : head.options = none) {raw : Text}
    (hcloses : nesting '\x7b' '\x7d' 0 raw = some 0) :
    ∃ st', st.Leads ('\x7b' :: raw ++ ['\x7d']) st' ∧
      st'.Awaits { head with options := some (splitOptions raw) } s
        enclosing := by
  have hopens : st.stepMode '\x7b' =
      .ok { st with mode := .options st.position 0 [] head } := by
    rw [h.stepMode_eq (by decide), stepSlots]
    simp [hfree]
  obtain ⟨st₁, hleads, hmode, hsequence, henclosing⟩ :=
    exists_leads_raw { st with
      mode := .options st.position 0 [] head,
      position := st.position + ('\x7b').utf8Size } rfl hcloses
  rw [List.append_nil] at hmode
  have hshuts : st₁.stepMode '\x7d' = .ok { st₁ with
      mode := .slots { head with options := some (splitOptions raw) } } := by
    rw [stepMode, hmode]
    dsimp only
    rw [stepOptions_closing, List.reverse_reverse]
  have hall := ((leads_of_stepMode hopens).trans hleads).trans
    (leads_of_stepMode hshuts)
  exact ⟨_, hall, .inl rfl, hsequence.trans h.sequence,
    henclosing.trans h.enclosing⟩

/-- What reading the children of a reference comes to: from the start of their
sequence, whatever stands around. -/
def ReadsChildren (inner : Text) (children : List Node) : Prop :=
  ∀ (st : State) (enclosing : List Enclosing),
    st.Rests .empty enclosing → st.mode = .text →
    ∃ st' s', st.Leads inner st' ∧ st'.Rests s' enclosing ∧
      s'.complete = children ∧ s'.parens = [] ∧ s'.braces = []

theorem Awaits.exists_leads_children (h : st.Awaits head s enclosing)
    (hfree : head.children = none) {inner : Text} {children : List Node}
    (hinner : ReadsChildren inner children) :
    ∃ st', st.Leads ('(' :: inner ++ [')']) st' ∧
      st'.Awaits { head with children := some children } s enclosing := by
  obtain ⟨-, hsequence, henclosing⟩ := id h
  have hopens : st.stepMode '(' = .ok { st with
      mode := .text, sequence := .empty,
      enclosing := ⟨st.position, head, s⟩ :: enclosing } := by
    rw [h.stepMode_eq (by decide), stepSlots, hsequence, henclosing]
    simp [hfree]
  obtain ⟨st₁, s₁, hleads, ⟨hclosing, henclosing₁⟩, hcomplete, hparens,
      hbraces⟩ :=
    hinner { st with
      position := st.position + ('(').utf8Size,
      mode := .text, sequence := .empty,
      enclosing := ⟨st.position, head, s⟩ :: enclosing } _ ⟨rfl, rfl⟩ rfl
  have hends : st₁.mode.extendedBy ')' = false :=
    not_extendedBy_of_closing hclosing (by decide) (by decide) (by decide)
  obtain ⟨s₂, hclosing', hshuts⟩ := stepMode_of_not_extendedBy hends
  obtain rfl : s₂ = s₁ := Except.ok.inj (hclosing'.symm.trans hclosing)
  have hcloses : st₁.stepMode ')' = .ok { st₁ with
      mode := .slots { head with children := some children },
      sequence := s, enclosing } := by
    rw [hshuts]
    simp [stepText, closeChildren, hparens, hbraces, henclosing₁, hcomplete]
  have hall := ((leads_of_stepMode hopens).trans hleads).trans
    (leads_of_stepMode hcloses)
  exact ⟨_, hall, .inl rfl, rfl, rfl⟩

theorem Awaits.exists_leads_slots {slots : List Slot} {inner : Text}
    {options : List Text} {children : List Node}
    (h : st.Awaits head s enclosing) (hdistinct : slots.Nodup)
    (hfreeChildren : .children ∈ slots → head.children = none)
    (hfreeOptions : .options ∈ slots → head.options = none)
    (hinner : ReadsChildren inner children) (hsingle : options ≠ [[]])
    (hnormal : ∀ o ∈ options, NormalOption o) :
    ∃ st', st.Leads (slotsText inner (Text.join [','] options) slots) st' ∧
      st'.Awaits (head.given options children slots) s enclosing := by
  induction slots generalizing st head with
  | nil =>
      refine ⟨st, (leads_nil_iff st st).mpr rfl, ?_⟩
      simpa [Head.given] using h
  | cons slot slots ih =>
      obtain ⟨hnew, hdistinct'⟩ := List.nodup_cons.mp hdistinct
      cases slot with
      | children =>
          obtain ⟨st₁, hleads, hawaits⟩ := h.exists_leads_children
            (hfreeChildren List.mem_cons_self) hinner
          obtain ⟨st₂, hleads', hawaits'⟩ := ih hawaits hdistinct'
            (fun hmem => absurd hmem hnew)
            fun hmem => hfreeOptions (List.mem_cons_of_mem _ hmem)
          refine ⟨st₂, hleads.trans hleads', ?_⟩
          simpa [Head.given] using hawaits'
      | options =>
          have hcloses := nesting_join hnormal
          obtain ⟨st₁, hleads, hawaits⟩ := h.exists_leads_options
            (hfreeOptions List.mem_cons_self) hcloses
          rw [splitOptions_join hsingle hnormal] at hawaits
          obtain ⟨st₂, hleads', hawaits'⟩ := ih hawaits hdistinct'
            (fun hmem => hfreeChildren (List.mem_cons_of_mem _ hmem))
            fun hmem => absurd hmem hnew
          refine ⟨st₂, hleads.trans hleads', ?_⟩
          simpa [Head.given] using hawaits'

/-- A written reference becomes one node, and a character that ends it by its
spelling ends it for the reader. -/
theorem exists_leads_converter {name inner : Text} {options : List Text}
    {children : List Node} {slots : List Slot}
    (hrests : st.Rests s enclosing)
    (hnormal : NormalNode (.converter name options children))
    (hinner : ReadsChildren inner children)
    (hcovers : Covers slots options children) :
    ∃ st' s', st.Leads (marker :: name ++
        slotsText inner (Text.join [','] options) slots) st' ∧
      st'.Rests s' enclosing ∧
      s'.complete = s.complete ++ [.converter name options children] ∧
      s'.literal = [] ∧ s'.parens = s.parens ∧ s'.braces = s.braces ∧
      ∀ c, EndsBefore slots c → st'.mode.extendedBy c = false := by
  cases hnormal with
  | converter hname hsingle hoptions _ _ =>
      obtain ⟨st₁, hleads, hawaits⟩ := exists_leads_name hrests hname
      obtain ⟨st₂, hleads', hawaits'⟩ := hawaits.exists_leads_slots
        hcovers.distinct (fun _ => rfl) (fun _ => rfl) hinner hsingle hoptions
      refine ⟨st₂, _, hleads.trans hleads', hawaits'.rests, ?_,
        s.flush_literal, s.flush_parens, s.flush_braces, ?_⟩
      · rw [Sequence.complete_attach_flush, hcovers.given_options,
          hcovers.given_children, Head.given]
      · intro c hends
        apply hawaits'.not_extendedBy _ _ hends
        · intro hmem
          simp [Head.given, hmem]
        · intro hmem
          simp [Head.given, hmem]

end State

/-- Reading a spelling of normal nodes adds them to the sequence.  The brackets
of their literals may belong to ones that are open already. -/
theorem Spells.leads {next : Option Char} {nodes : List Node} {t : Text}
    (h : Spells next nodes t) {st : State} {s : Sequence}
    {enclosing : List Enclosing} {parens braces : Nat}
    (hrests : st.Rests s enclosing)
    (hends : ∀ c ∈ follower none nodes, st.mode.extendedBy c = false)
    (hopen : ∀ node ∈ nodes.head?, node.isLiteral = true → s.literal = [])
    (hnormal : ∀ node ∈ nodes, NormalNode node) (hapart : nodes.IsChain Apart)
    (hparens : nesting '(' ')' s.parens.length (literalText nodes) =
      some parens)
    (hbraces : nesting '\x7b' '\x7d' s.braces.length (literalText nodes) =
      some braces) :
    ∃ st' s', st.Leads t st' ∧ st'.Rests s' enclosing ∧
      s'.complete = s.complete ++ nodes ∧ s'.parens.length = parens ∧
      s'.braces.length = braces := by
  induction h generalizing st s enclosing parens braces with
  | nil =>
      exact ⟨st, s, (State.leads_nil_iff st st).mpr rfl, hrests,
        (List.append_nil _).symm, Option.some.inj hparens,
        Option.some.inj hbraces⟩
  | @literal next t rest nodes _ ih =>
      obtain ⟨hnode, hnodes⟩ := List.forall_mem_cons.mp hnormal
      obtain ⟨hfirst, hapart'⟩ := List.isChain_cons.mp hapart
      cases hnode with
      | literal hne hplain =>
          obtain ⟨parens₁, hparens₁, hparens₂⟩ :=
            exists_nesting_of_append hparens
          obtain ⟨braces₁, hbraces₁, hbraces₂⟩ :=
            exists_nesting_of_append hbraces
          have hends' : ∀ c ∈ t.head?, st.mode.extendedBy c = false := by
            intro c hc
            apply hends c
            rcases t with _ | ⟨d, t⟩
            · exact absurd rfl hne
            · exact hc
          -- what follows begins with a marker, which extends nothing
          have hnoLiteral : ∀ node ∈ nodes.head?, node.isLiteral = false := by
            intro node hmem
            have hfar := hfirst node hmem
            simpa [Apart, isLiteral] using hfar
          obtain ⟨st₁, s₁, hleads, hrests₁, hcomplete, rfl, rfl⟩ :=
            State.exists_leads_literalNode hrests hends'
              (hopen (.literal t) rfl rfl) hne hplain hparens₁ hbraces₁
          obtain ⟨st₂, s₂, hleads', hrests₂, hcomplete', hrest⟩ := ih hrests₁
            (by simp [follower_of_not_literal hnoLiteral])
            (fun node hmem hliteral => by
              simp [hnoLiteral node hmem] at hliteral)
            hnodes hapart' hparens₂ hbraces₂
          refine ⟨st₂, s₂, hleads.trans hleads', hrests₂, ?_, hrest⟩
          rw [hcomplete', hcomplete, List.append_assoc, List.singleton_append]
  | @converter next name inner rest options children nodes slots hchildren
      hcovers hslots _ ihChildren ihRest =>
      obtain ⟨hnode, hnodes⟩ := List.forall_mem_cons.mp hnormal
      -- the children stand in a sequence of their own, with no open bracket
      have hinner : State.ReadsChildren inner children := by
        intro st enclosing hrests hmode
        cases hnode with
        | converter _ _ _ harranged hall =>
            obtain ⟨st', s', hleads, hrests', hcomplete, hp, hb⟩ :=
              ihChildren hrests (fun c _ => by rw [hmode]; rfl)
                (fun _ _ _ => rfl) hall harranged.apart
                ((balanced_iff_nesting (by decide) _).mp harranged.parens)
                ((balanced_iff_nesting (by decide) _).mp harranged.braces)
            exact ⟨st', s', hleads, hrests', hcomplete,
              List.length_eq_zero_iff.mp hp, List.length_eq_zero_iff.mp hb⟩
      obtain ⟨st₁, s₁, hleads, hrests₁, hcomplete, hliteral, hp, hb, hends'⟩ :=
        State.exists_leads_converter hrests hnode hinner hcovers
      rw [literalText, ← hp] at hparens
      rw [literalText, ← hb] at hbraces
      obtain ⟨st₂, s₂, hleads', hrests₂, hcomplete', hrest⟩ := ihRest hrests₁
        (fun c hc => hends' c (hslots c (mem_follower hc)))
        (fun _ _ _ => hliteral) hnodes (List.isChain_cons.mp hapart).2
        hparens hbraces
      refine ⟨st₂, s₂, hleads.trans hleads', hrests₂, ?_, hrest⟩
      rw [hcomplete', hcomplete, List.append_assoc, List.singleton_append]

/-- A spelling of normal nodes is read as these nodes. -/
theorem read_complete {t : Text} {nodes : List Node} (hnormal : Normal nodes)
    (hspells : Spells none nodes t) : read t = .ok nodes := by
  obtain ⟨⟨hapart, hparens, hbraces⟩, hnodes⟩ := hnormal
  have hstart : State.Rests .start .empty [] := ⟨rfl, rfl⟩
  obtain ⟨st, s, hleads, ⟨hclosing, henclosing⟩, hcomplete, hp, hb⟩ :=
    hspells.leads hstart (fun _ _ => rfl) (fun _ _ _ => rfl) hnodes hapart
      ((balanced_iff_nesting (by decide) _).mp hparens)
      ((balanced_iff_nesting (by decide) _).mp hbraces)
  have hfinish : st.finish = .ok nodes := by
    rw [State.finish_eq_ok_iff]
    exact ⟨s, hclosing, List.length_eq_zero_iff.mp hp,
      List.length_eq_zero_iff.mp hb, henclosing, hcomplete⟩
  exact read_eq_ok_iff_leads.mpr ⟨st, hleads, hfinish⟩

end Logline.Pattern
