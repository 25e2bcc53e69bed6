import Mathlib.Data.List.Chain
import Logline.Proofs.Pattern.Nesting
/-!
The texts of a pattern.  A sequence of nodes is `Normal` if a text can say it
as it is.  It is then spelled literal by literal and reference by reference,
where a reference may leave out the slots that are empty, unless the text
behind it would be taken for one (`Spells`).  What `text` prints is one such
spelling of any nodes (`spells_text`).
-/
namespace Logline

namespace Node

def isLiteral : Node → Bool
  | literal _ => true
  | converter .. => false

/-- At most one of two neighbours is a literal. -/
def Apart (left right : Node) : Prop :=
  ¬ (left.isLiteral = true ∧ right.isLiteral = true)

theorem apart_of_not_left {left : Node} (h : left.isLiteral = false)
    (right : Node) : Apart left right := by
  simp [Apart, h]

theorem apart_of_not_right (left : Node) {right : Node}
    (h : right.isLiteral = false) : Apart left right := by
  simp [Apart, h]

end Node

namespace Pattern

open Node

/-! ### Normal nodes -/

/-- A letter or an underscore, then letters, digits and underscores. -/
def IsName (name : Text) : Prop :=
  ∃ first rest, name = first :: rest ∧ isNameStart first = true ∧
    ∀ c ∈ rest, isNameChar c = true

/-- No marker is directly followed by the first character of a name. -/
def NoReference (t : Text) : Prop :=
  t.IsChain fun c next => c = marker → isNameStart next = false

/-- The literals of a sequence in one text, without those of its children. -/
def literalText : List Node → Text
  | [] => []
  | .literal t :: rest => t ++ literalText rest
  | .converter .. :: rest => literalText rest

/-- The literals of a sequence are not adjacent, and their parentheses and,
separately, their braces are balanced. -/
structure Arranged (nodes : List Node) : Prop where
  apart : nodes.IsChain Apart
  parens : Balanced '(' ')' (literalText nodes)
  braces : Balanced '\x7b' '\x7d' (literalText nodes)

/-- Literals have text that begins no reference.  Converters have names,
options that can be cut apart again, and children that are normal. -/
inductive NormalNode : Node → Prop
  | literal {t : Text} (hne : t ≠ []) (hplain : NoReference t) :
      NormalNode (.literal t)
  | converter {name : Text} {options : List Text} {children : List Node}
      (hname : IsName name) (hsingle : options ≠ [[]])
      (hoptions : ∀ o ∈ options, NormalOption o)
      (harranged : Arranged children)
      (hchildren : ∀ child ∈ children, NormalNode child) :
      NormalNode (.converter name options children)

/-- Every level of the pattern is one that a text can say. -/
structure Normal (nodes : List Node) : Prop where
  arranged : Arranged nodes
  nodes : ∀ node ∈ nodes, NormalNode node

theorem normal_nil : Normal [] := by
  have hbalanced : ∀ opener closer, Balanced opener closer [] :=
    fun opener closer => ⟨by simp, rfl⟩
  exact ⟨⟨.nil, hbalanced .., hbalanced ..⟩, by simp⟩

@[simp] theorem literalText_append (left right : List Node) :
    literalText (left ++ right) = literalText left ++ literalText right := by
  induction left with
  | nil => rfl
  | cons node left ih =>
      cases node with
      | literal t => simp [literalText, ih]
      | converter name options children => simpa [literalText] using ih

theorem noReference_nil : NoReference [] := List.IsChain.nil

theorem noReference_cons_iff (c : Char) (t : Text) :
    NoReference (c :: t) ↔
      (∀ next ∈ t.head?, c = marker → isNameStart next = false) ∧
        NoReference t :=
  List.isChain_cons

theorem NoReference.snoc {t : Text} {c : Char} (h : NoReference t)
    (hlast : t.getLast? = some marker → isNameStart c = false) :
    NoReference (t ++ [c]) := by
  apply List.IsChain.append h (List.IsChain.singleton c)
  rintro last hmem next hnext rfl
  obtain rfl : c = next := by simpa using hnext
  exact hlast hmem

/-! ### Spellings -/

/-- A place in a reference for its children or for its options. -/
inductive Slot
  | children
  | options
deriving DecidableEq, Repr

/-- The character that opens a slot. -/
def Slot.opener : Slot → Char
  | children => '('
  | options => '\x7b'

/-- A slot with its brackets, given the text of either slot. -/
def Slot.text (inner raw : Text) : Slot → Text
  | children => '(' :: inner ++ [')']
  | options => '\x7b' :: raw ++ ['\x7d']

/-- Slots that are written one after the other. -/
def slotsText (inner raw : Text) (slots : List Slot) : Text :=
  slots.flatMap (Slot.text inner raw)

/-- The text of a slot that is not written does not matter. -/
theorem slotsText_congr {inner inner' raw raw' : Text} {slots : List Slot}
    (hchildren : .children ∈ slots → inner = inner')
    (hoptions : .options ∈ slots → raw = raw') :
    slotsText inner raw slots = slotsText inner' raw' slots := by
  apply List.flatMap_congr
  intro slot hslot
  cases slot with
  | children => rw [Slot.text, Slot.text, hchildren hslot]
  | options => rw [Slot.text, Slot.text, hoptions hslot]

theorem slotsText_snoc (inner raw : Text) (slots : List Slot) (slot : Slot) :
    slotsText inner raw (slots ++ [slot]) =
      slotsText inner raw slots ++ slot.text inner raw := by
  simp [slotsText]

/-- The slots that a reference may be written with: none twice, and only
an empty one is left out. -/
structure Covers (slots : List Slot) (options : List Text)
    (children : List Node) : Prop where
  distinct : slots.Nodup
  children : .children ∉ slots → children = []
  options : .options ∉ slots → options = []

/-- A reference written with these slots ends in front of the character: the
character would neither open another slot nor go on with the name. -/
structure EndsBefore (slots : List Slot) (next : Char) : Prop where
  closed : ∀ slot : Slot, next = slot.opener → slot ∈ slots
  named : isNameChar next = true → slots ≠ []

/-- The literal character that follows a reference in front of these nodes, if
any; `next` is the one behind them all. -/
def follower (next : Option Char) : List Node → Option Char
  | [] => next
  | .literal (c :: _) :: _ => some c
  | .literal [] :: _ => none
  | .converter .. :: _ => none

/-- The text is a spelling of the nodes in front of the character `next`, which
belongs to a literal; at the end of a pattern there is none. -/
inductive Spells : Option Char → List Node → Text → Prop
  | nil {next : Option Char} : Spells next [] []
  | literal {next : Option Char} {t rest : Text} {nodes : List Node}
      (hrest : Spells next nodes rest) :
      Spells next (.literal t :: nodes) (t ++ rest)
  | converter {next : Option Char} {name inner rest : Text}
      {options : List Text} {children nodes : List Node} {slots : List Slot}
      (hchildren : Spells none children inner)
      (hcovers : Covers slots options children)
      (hends : ∀ c ∈ follower next nodes, EndsBefore slots c)
      (hrest : Spells next nodes rest) :
      Spells next (.converter name options children :: nodes)
        (marker :: name ++ slotsText inner (Text.join [','] options) slots ++
          rest)

theorem follower_append (next : Option Char) (left right : List Node) :
    follower next (left ++ right) = follower (follower next right) left := by
  rcases left with _ | ⟨⟨_ | _⟩ | _, left⟩ <;> rfl

theorem follower_of_not_literal {nodes : List Node}
    (h : ∀ node ∈ nodes.head?, node.isLiteral = false) :
    follower none nodes = none := by
  rcases nodes with _ | ⟨⟨t⟩ | _, nodes⟩
  · rfl
  · exact absurd (h (.literal t) rfl) (by simp [isLiteral])
  · rfl

theorem follower_reversed {reversed : Text} (hne : reversed ≠ [])
    (next : Option Char) (nodes : List Node) :
    follower next (.literal reversed.reverse :: nodes) =
      reversed.getLast?.or next := by
  obtain ⟨rest, first, rfl⟩ :=
    List.eq_nil_or_concat reversed |>.resolve_left hne
  simp [follower]

theorem mem_follower {next : Option Char} {nodes : List Node} {c : Char}
    (h : c ∈ follower none nodes) : c ∈ follower next nodes := by
  rcases nodes with _ | ⟨⟨_ | _⟩ | _, nodes⟩
  · exact absurd h (by simp [follower])
  all_goals exact h

theorem spells_nil_iff (next : Option Char) (t : Text) :
    Spells next [] t ↔ t = [] := by
  constructor
  · intro h
    cases h
    rfl
  · rintro rfl
    exact .nil

theorem Spells.append {next : Option Char} {left right : List Node}
    {s t : Text} (hleft : Spells (follower next right) left s)
    (hright : Spells next right t) :
    Spells next (left ++ right) (s ++ t) := by
  induction left generalizing s with
  | nil =>
      rw [(spells_nil_iff _ s).mp hleft]
      exact hright
  | cons node left ih =>
      cases hleft with
      | literal hrest =>
          rw [List.append_assoc]
          exact .literal (ih hrest)
      | converter hchildren hcovers hends hrest =>
          rw [List.append_assoc]
          rw [← follower_append] at hends
          exact .converter hchildren hcovers hends (ih hrest)

/-- A spelling in front of a character is also one at the end. -/
theorem Spells.atEnd {next : Option Char} {nodes : List Node} {t : Text}
    (h : Spells next nodes t) : Spells none nodes t := by
  induction h with
  | nil => exact .nil
  | literal _ ih => exact .literal ih
  | converter hchildren hcovers hends _ _ ih =>
      exact .converter hchildren hcovers
        (fun c hc => hends c (mem_follower hc)) ih

/-! ### Printing -/

/-- The slots that are printed. -/
def printedSlots (closed : Bool) (options : List Text)
    (children : List Node) : List Slot :=
  (if closed || !children.isEmpty then [.children] else []) ++
    if closed || !options.isEmpty then [.options] else []

theorem nodeText_converter (closed : Bool) (name : Text)
    (options : List Text) (children : List Node) :
    nodeText closed (.converter name options children) =
      marker :: name ++ slotsText (text children) (Text.join [','] options)
        (printedSlots closed options children) := by
  rw [nodeText, slotsText, printedSlots, List.flatMap_append,
    List.append_assoc]
  split_ifs <;> simp [Slot.text]

theorem covers_printedSlots (closed : Bool) (options : List Text)
    (children : List Node) :
    Covers (printedSlots closed options children) options children := by
  rw [printedSlots]
  cases closed <;> cases options <;> cases children <;>
    exact ⟨by simp, by simp, by simp⟩

/-- The next character decides whether both slots are printed. -/
theorem endsBefore_printedSlots {rest : List Node} {c : Char}
    (hc : c ∈ follower none rest) (options : List Text)
    (children : List Node) :
    EndsBefore (printedSlots (extendsReference rest) options children) c := by
  rcases rest with _ | ⟨⟨_ | ⟨first, t⟩⟩ | _, rest⟩
  · exact absurd hc (by simp [follower])
  · exact absurd hc (by simp [follower])
  · obtain rfl : first = c := by simpa [follower] using hc
    cases hextends : extendsReference (.literal (first :: t) :: rest) with
    | true =>
        constructor
        · intro slot _
          cases slot <;> simp [printedSlots]
        · intro _
          simp [printedSlots]
    | false =>
        simp only [extendsReference, Bool.or_eq_false_iff,
          beq_eq_false_iff_ne] at hextends
        obtain ⟨⟨hparen, hbrace⟩, hname⟩ := hextends
        constructor
        · intro slot hopener
          cases slot with
          | children => exact absurd hopener hparen
          | options => exact absurd hopener hbrace
        · intro hnamed
          rw [hname] at hnamed
          contradiction
  · exact absurd hc (by simp [follower])

/-- The printed text spells the nodes, normal or not. -/
theorem spells_text : (nodes : List Node) → Spells none nodes (text nodes)
  | [] => .nil
  | .literal t :: rest => by
      rw [text, nodeText]
      exact .literal (spells_text rest)
  | .converter name options children :: rest => by
      rw [text, nodeText_converter]
      exact .converter (spells_text children)
        (covers_printedSlots _ options children)
        (fun c hc => endsBefore_printedSlots hc options children)
        (spells_text rest)

end Pattern

end Logline
