import Mathlib.Data.List.Nodup
import Logline.Proofs.Pattern.Spelling
import Logline.Proofs.Pattern.Steps
/-!
What a text has to be for a part of the reader's state to have come from it.
`Sequence.Reads` and `Head.Reads` say so of a sequence and of a reference;
`Pending` of a reference at the end of a sequence, until `Pending.attach` makes
a node of it.
-/
namespace Logline.Pattern

open Node

namespace Sequence

/-- A literal that is begun here is not adjacent to another one. -/
def IsOpen (s : Sequence) : Prop :=
  ∀ node ∈ s.nodes.head?, node.isLiteral = false

/-- The sequence is what has been read of the text, if it stands in front of
the character `next`. -/
structure Reads (s : Sequence) (next : Option Char) (t : Text) : Prop where
  spells : ∃ before,
    Spells (s.literal.getLast?.or next) s.nodes.reverse before ∧
      before ++ s.literal.reverse = t
  normal : ∀ node ∈ s.nodes, NormalNode node
  apart : s.nodes.reverse.IsChain Apart
  plain : NoReference s.literal.reverse
  parens : nesting '(' ')' 0
    (literalText s.nodes.reverse ++ s.literal.reverse) = some s.parens.length
  braces : nesting '\x7b' '\x7d' 0
    (literalText s.nodes.reverse ++ s.literal.reverse) = some s.braces.length

theorem reads_empty (next : Option Char) : empty.Reads next [] where
  spells := ⟨[], .nil, rfl⟩
  normal := by simp [empty]
  apart := .nil
  plain := noReference_nil
  parens := rfl
  braces := rfl

theorem isOpen_empty : empty.IsOpen := by
  simp [IsOpen, empty]

theorem Grows.isOpen {s s' : Sequence} {t : Text} (h : s.Grows t s')
    (hopen : s.IsOpen) : s'.IsOpen := by
  rwa [IsOpen, h.nodes]

theorem isOpen_attach (s : Sequence) (head : Head) :
    (s.attach head).IsOpen := by
  simp [IsOpen, attach, isLiteral]

namespace Reads

variable {s : Sequence} {next : Option Char} {t : Text}

theorem atEnd (h : s.Reads next t) : s.Reads none t := by
  obtain ⟨before, hspells, ht⟩ := h.spells
  refine { h with spells := ⟨before, ?_, ht⟩ }
  cases hlast : s.literal.getLast? with
  | none => exact hspells.atEnd
  | some last => rwa [hlast] at hspells

/-- Once a literal has a character, nothing depends on what follows. -/
theorem grow {c : Char} {s' : Sequence} (h : s.Reads (some c) t)
    (hgrows : s.Grows [c] s')
    (hplain : s.literal.head? = some marker → isNameStart c = false)
    (next : Option Char) : s'.Reads next (t ++ [c]) := by
  obtain ⟨before, hspells, ht⟩ := h.spells
  have hliteral : s'.literal = c :: s.literal := hgrows.literal
  have hfirst : s'.literal.getLast?.or next =
      s.literal.getLast?.or (some c) := by
    rw [hliteral, List.getLast?_cons]
    cases s.literal.getLast? <;> rfl
  have htext : literalText s.nodes.reverse ++ (c :: s.literal).reverse =
      literalText s.nodes.reverse ++ s.literal.reverse ++ [c] := by
    simp
  constructor
  · refine ⟨before, ?_, ?_⟩
    · rwa [hfirst, hgrows.nodes]
    · rw [hliteral, ← ht, List.reverse_cons, List.append_assoc]
  · rw [hgrows.nodes]
    exact h.normal
  · rw [hgrows.nodes]
    exact h.apart
  · rw [hliteral, List.reverse_cons]
    apply h.plain.snoc
    intro hlast
    rw [List.getLast?_reverse] at hlast
    exact hplain hlast
  · rw [hgrows.nodes, hliteral, htext, nesting_snoc c h.parens, hgrows.parens]
  · rw [hgrows.nodes, hliteral, htext, nesting_snoc c h.braces, hgrows.braces]

theorem flush (h : s.Reads next t) (hopen : s.IsOpen) :
    s.flush.Reads next t := by
  rw [Sequence.flush]
  by_cases hempty : s.literal.isEmpty = true
  · rwa [if_pos hempty]
  · rw [if_neg hempty]
    obtain ⟨before, hspells, ht⟩ := h.spells
    have hne : s.literal ≠ [] := by simpa using hempty
    have hnode : NormalNode (.literal s.literal.reverse) :=
      .literal (by simpa using hne) h.plain
    constructor
    · have hlast : Spells next [.literal s.literal.reverse]
          s.literal.reverse := by
        have hnil : Spells next [] [] := .nil
        simpa using hnil.literal
      refine ⟨t, ?_, by simp⟩
      rw [← follower_reversed hne next []] at hspells
      rw [← ht, List.reverse_cons]
      exact hspells.append hlast
    · intro node hmem
      rcases List.mem_cons.mp hmem with rfl | hmem
      · exact hnode
      · exact h.normal node hmem
    · rw [List.reverse_cons]
      apply List.IsChain.append h.apart (List.IsChain.singleton _)
      intro last hlast _ _
      rw [List.getLast?_reverse] at hlast
      exact apart_of_not_left (hopen last hlast) _
    · exact noReference_nil
    · simpa [literalText] using h.parens
    · simpa [literalText] using h.braces

/-- A sequence without open brackets is complete, and spelled. -/
theorem complete (h : s.Reads none t) (hopen : s.IsOpen)
    (hparens : s.parens = []) (hbraces : s.braces = []) :
    Normal s.complete ∧ Spells none s.complete t := by
  have hflush := h.flush hopen
  obtain ⟨before, hspells, ht⟩ := hflush.spells
  rw [flush_literal] at hspells ht
  refine ⟨⟨⟨hflush.apart, ?_, ?_⟩, ?_⟩, ?_⟩
  · rw [balanced_iff_nesting (by decide)]
    simpa [Sequence.complete, hparens] using hflush.parens
  · rw [balanced_iff_nesting (by decide)]
    simpa [Sequence.complete, hbraces] using hflush.braces
  · intro node hmem
    exact hflush.normal node (List.mem_reverse.mp hmem)
  · obtain rfl : before = t := by simpa using ht
    exact hspells

end Reads

end Sequence

namespace Head

/-- The reference is what has been read of the text. -/
structure Reads (head : Head) (t : Text) : Prop where
  spells : ∃ slots inner, slots.Nodup ∧
    (Slot.children ∈ slots ↔ head.children.isSome = true) ∧
    (Slot.options ∈ slots ↔ head.options.isSome = true) ∧
    Spells none (head.children.getD []) inner ∧
    marker :: head.name ++
      slotsText inner (Text.join [','] (head.options.getD [])) slots = t
  name : IsName head.name
  children : Normal (head.children.getD [])
  single : head.options.getD [] ≠ [[]]
  options : ∀ o ∈ head.options.getD [], NormalOption o

/-- The reference ends in front of the character. -/
structure EndsBefore (head : Head) (c : Char) : Prop where
  closed : head.opens c = false
  named : isNameChar c = true →
    head.children.isSome = true ∨ head.options.isSome = true

theorem reads_bare_iff (name t : Text) :
    Reads ⟨name, none, none⟩ t ↔ IsName name ∧ marker :: name = t := by
  constructor
  · rintro ⟨⟨slots, inner, -, hchildren, hoptions, -, ht⟩, hname, -, -, -⟩
    have hslots : slots = [] := by
      rw [List.eq_nil_iff_forall_not_mem]
      intro slot
      cases slot with
      | children => simpa using hchildren
      | options => simpa using hoptions
    subst hslots
    exact ⟨hname, by simpa [slotsText] using ht⟩
  · rintro ⟨hname, rfl⟩
    refine ⟨⟨[], [], ?_⟩, hname, normal_nil, by simp, by simp⟩
    exact ⟨by simp, by simp, by simp, .nil, by simp [slotsText]⟩

namespace Reads

variable {head : Head} {t : Text}

theorem giveChildren {nodes : List Node} {inner : Text} (h : head.Reads t)
    (hfree : head.children = none) (hnormal : Normal nodes)
    (hspells : Spells none nodes inner) :
    Reads { head with children := some nodes }
      (t ++ '(' :: inner ++ [')']) := by
  obtain ⟨slots, before, hdistinct, hchildren, hoptions, -, rfl⟩ := h.spells
  have hnew : Slot.children ∉ slots := by simp [hchildren, hfree]
  have hsame : slotsText inner (Text.join [','] (head.options.getD [])) slots =
      slotsText before (Text.join [','] (head.options.getD [])) slots :=
    slotsText_congr (fun hmem => absurd hmem hnew) fun _ => rfl
  refine ⟨⟨slots ++ [.children], inner, ?_⟩, h.name, hnormal, h.single,
    h.options⟩
  refine ⟨?_, by simp, by simpa using hoptions, hspells, ?_⟩
  · exact List.nodup_append_comm.mp (List.nodup_cons.mpr ⟨hnew, hdistinct⟩)
  · rw [slotsText_snoc, hsame]
    simp [Slot.text]

theorem giveOptions {raw : Text} (h : head.Reads t)
    (hfree : head.options = none)
    (hcloses : nesting '\x7b' '\x7d' 0 raw = some 0) :
    Reads { head with options := some (splitOptions raw) }
      (t ++ '\x7b' :: raw ++ ['\x7d']) := by
  obtain ⟨hjoin, hsingle, hall⟩ := splitOptions_spec hcloses
  obtain ⟨slots, inner, hdistinct, hchildren, hoptions, hspells, rfl⟩ :=
    h.spells
  have hnew : Slot.options ∉ slots := by simp [hoptions, hfree]
  have hsame : slotsText inner raw slots =
      slotsText inner (Text.join [','] (head.options.getD [])) slots :=
    slotsText_congr (fun _ => rfl) fun hmem => absurd hmem hnew
  refine ⟨⟨slots ++ [.options], inner, ?_⟩, h.name, h.children, hsingle,
    hall⟩
  refine ⟨?_, by simpa using hchildren, by simp, hspells, ?_⟩
  · exact List.nodup_append_comm.mp (List.nodup_cons.mpr ⟨hnew, hdistinct⟩)
  · rw [Option.getD_some, hjoin, slotsText_snoc, hsame]
    simp [Slot.text]

end Reads

end Head

/-- The text ends with the reference, behind what the sequence has read. -/
structure Pending (s : Sequence) (head : Head) (t : Text) : Prop where
  literal : s.literal = []
  parts : ∃ before own, s.Reads none before ∧ head.Reads own ∧
    before ++ own = t

namespace Pending

variable {s : Sequence} {head : Head} {t : Text}

theorem of_marker {c : Char} (h : s.Reads (some marker) t)
    (hopen : s.IsOpen) (hstart : isNameStart c = true) :
    Pending s.flush ⟨[c], none, none⟩ (t ++ [marker] ++ [c]) := by
  refine ⟨s.flush_literal, t, [marker, c], (h.flush hopen).atEnd, ?_, by simp⟩
  exact (Head.reads_bare_iff [c] _).mpr
    ⟨⟨c, [], rfl, hstart, by simp⟩, rfl⟩

theorem extendName {name : Text} {c : Char}
    (h : Pending s ⟨name, none, none⟩ t) (hname : isNameChar c = true) :
    Pending s ⟨name ++ [c], none, none⟩ (t ++ [c]) := by
  obtain ⟨hliteral, before, own, hbefore, hown, rfl⟩ := h
  obtain ⟨⟨first, rest, rfl, hfirst, hrest⟩, rfl⟩ :=
    (Head.reads_bare_iff name own).mp hown
  refine ⟨hliteral, before, marker :: (first :: rest ++ [c]), hbefore, ?_,
    by simp⟩
  have hlonger : ∀ d ∈ rest ++ [c], isNameChar d = true := by
    intro d hd
    rcases List.mem_append.mp hd with hd | hd
    · exact hrest d hd
    · rwa [List.mem_singleton.mp hd]
  rw [Head.reads_bare_iff]
  exact ⟨⟨first, rest ++ [c], rfl, hfirst, hlonger⟩, rfl⟩

theorem giveChildren {nodes : List Node} {inner : Text}
    (h : Pending s head t) (hfree : head.children = none)
    (hnormal : Normal nodes) (hspells : Spells none nodes inner) :
    Pending s { head with children := some nodes }
      (t ++ '(' :: inner ++ [')']) := by
  obtain ⟨hliteral, before, own, hbefore, hown, rfl⟩ := h
  exact ⟨hliteral, before, _, hbefore,
    hown.giveChildren hfree hnormal hspells, by simp⟩

theorem giveOptions {raw : Text} (h : Pending s head t)
    (hfree : head.options = none)
    (hcloses : nesting '\x7b' '\x7d' 0 raw = some 0) :
    Pending s { head with options := some (splitOptions raw) }
      (t ++ '\x7b' :: raw ++ ['\x7d']) := by
  obtain ⟨hliteral, before, own, hbefore, hown, rfl⟩ := h
  exact ⟨hliteral, before, _, hbefore, hown.giveOptions hfree hcloses,
    by simp⟩

/-- The reference becomes a node when a character ends it. -/
theorem attach {next : Option Char} (h : Pending s head t)
    (hends : ∀ c ∈ next, head.EndsBefore c) :
    (s.attach head).Reads next t := by
  obtain ⟨hliteral, before, own, hbefore, hown, rfl⟩ := h
  obtain ⟨start, hspells, hstart⟩ := hbefore.spells
  rw [hliteral] at hspells hstart
  obtain rfl : start = before := by simpa using hstart
  obtain ⟨slots, inner, hdistinct, hchildren, hoptions, hinner, rfl⟩ :=
    hown.spells
  have hcovers : Covers slots (head.options.getD [])
      (head.children.getD []) := by
    refine ⟨hdistinct, ?_, ?_⟩
    · intro hnot
      rw [hchildren, Option.not_isSome_iff_eq_none] at hnot
      rw [hnot, Option.getD_none]
    · intro hnot
      rw [hoptions, Option.not_isSome_iff_eq_none] at hnot
      rw [hnot, Option.getD_none]
  have hslots : ∀ c ∈ follower next [], EndsBefore slots c := by
    intro c hc
    obtain ⟨hclosed, hnamed⟩ := hends c hc
    simp only [Head.opens, Bool.or_eq_false_iff, Bool.and_eq_false_imp,
      beq_iff_eq] at hclosed
    constructor
    · rintro slot rfl
      cases slot with
      | children => exact hchildren.mpr (by simpa using hclosed.1 rfl)
      | options => exact hoptions.mpr (by simpa using hclosed.2 rfl)
    · intro hname
      rcases hnamed hname with hgiven | hgiven
      · exact List.ne_nil_of_mem (hchildren.mpr hgiven)
      · exact List.ne_nil_of_mem (hoptions.mpr hgiven)
  have hnode : Spells next
      [.converter head.name (head.options.getD []) (head.children.getD [])]
      (marker :: head.name ++
        slotsText inner (Text.join [','] (head.options.getD [])) slots) := by
    simpa using Spells.converter hinner hcovers hslots .nil
  have hnormal : NormalNode
      (.converter head.name (head.options.getD []) (head.children.getD [])) :=
    .converter hown.name hown.single hown.options hown.children.arranged
      hown.children.nodes
  constructor
  · refine ⟨_, ?_, by simp [Sequence.attach, hliteral]; rfl⟩
    simp only [Sequence.attach, hliteral, List.reverse_cons]
    exact Spells.append hspells hnode
  · intro node hmem
    rcases List.mem_cons.mp hmem with rfl | hmem
    · exact hnormal
    · exact hbefore.normal node hmem
  · simp only [Sequence.attach, List.reverse_cons]
    apply List.IsChain.append hbefore.apart (List.IsChain.singleton _)
    intro last _ node hmem
    obtain rfl : _ = node := by simpa using hmem
    exact apart_of_not_right last rfl
  · exact hbefore.plain
  · simpa [Sequence.attach, literalText] using hbefore.parens
  · simpa [Sequence.attach, literalText] using hbefore.braces

end Pending

end Logline.Pattern
