import Logline.Proofs.Converter.References
import Logline.Proofs.Pattern.Inside
import Logline.Proofs.Pattern.Soundness
/-!
Balance and acceptance.  A text whose brackets are nested is read, wherever
markers and names stand in it.  Conversely a text that is read has balanced
braces, and balanced parentheses too if none of its options has one: between
its literals, which are balanced together, there are only names, which have no
bracket, and slots, which close what they open (`Spells.nesting_eq`).
-/
namespace Logline.Pattern

namespace BracketPair

/-- The text leaves open what is open of this kind, whatever that is, and no
more. -/
def Neutral (b : BracketPair) (t : Text) : Prop :=
  ∀ depth, nesting b.opener b.closer depth t = some depth

theorem opener_ne_closer (b : BracketPair) : b.opener ≠ b.closer := by
  cases b <;> decide

section Neutral

variable {b : BracketPair} {s t : Text}

theorem neutral_nil (b : BracketPair) : b.Neutral [] :=
  nesting_nil

theorem Neutral.append (hs : b.Neutral s) (ht : b.Neutral t) :
    b.Neutral (s ++ t) := by
  intro depth
  rw [nesting_append, hs, Option.bind_some, ht]

theorem neutral_of_forall (h : ∀ c ∈ t, c ≠ b.opener ∧ c ≠ b.closer) :
    b.Neutral t := by
  induction t with
  | nil => exact b.neutral_nil
  | cons c t ih =>
      obtain ⟨⟨hopen, hclose⟩, hrest⟩ := List.forall_mem_cons.mp h
      have hfirst : b.Neutral [c] := nesting_singleton_other hopen hclose
      exact hfirst.append (ih hrest)

theorem neutral_of_balanced (h : Balanced b.opener b.closer t) :
    b.Neutral t := by
  intro depth
  rw [nesting_eq_some_iff b.opener_ne_closer]
  refine ⟨?_, by rw [h.total]⟩
  intro before hbefore
  exact (h.closes_le before hbefore).trans (Nat.le_add_left _ depth)

/-- Brackets around a neutral text, of whichever kind, close what they open. -/
theorem Neutral.enclosed (h : b.Neutral t) (b' : BracketPair) :
    b.Neutral (b'.opener :: t ++ [b'.closer]) := by
  intro depth
  by_cases hsame : b' = b
  · subst hsame
    rw [List.cons_append, nesting, if_pos rfl, nesting_append, h,
      Option.bind_some, nesting_singleton_closer b'.opener_ne_closer]
  · have hother : ∀ c, c = b'.opener ∨ c = b'.closer → c ≠ b.opener ∧
        c ≠ b.closer := by
      cases b <;> cases b' <;> simp_all [opener, closer]
    have hopen : b.Neutral [b'.opener] :=
      neutral_of_forall (by simpa using hother _ (.inl rfl))
    have hclose : b.Neutral [b'.closer] :=
      neutral_of_forall (by simpa using hother _ (.inr rfl))
    exact (hopen.append h).append hclose depth

end Neutral

end BracketPair

open BracketPair

theorem neutral_slotsText {b : BracketPair} {inner raw : Text}
    (slots : List Slot) (hinner : b.Neutral inner) (hraw : b.Neutral raw) :
    b.Neutral (slotsText inner raw slots) := by
  induction slots with
  | nil => exact b.neutral_nil
  | cons slot slots ih =>
      have hslot : b.Neutral (slot.text inner raw) := by
        cases slot with
        | children => exact hinner.enclosed .paren
        | options => exact hraw.enclosed .brace
      exact hslot.append ih

theorem neutral_name {name : Text} (h : IsName name) (b : BracketPair) :
    b.Neutral (marker :: name) := by
  obtain ⟨first, rest, rfl, hfirst, hrest⟩ := h
  apply neutral_of_forall
  have hfree : ∀ c, isNameChar c = true → c ≠ b.opener ∧ c ≠ b.closer := by
    intro c hc
    constructor <;> rintro rfl <;> cases b <;> contradiction
  refine List.forall_mem_cons.mpr ⟨?_, List.forall_mem_cons.mpr ⟨?_, ?_⟩⟩
  · cases b <;> decide
  · exact hfree first (isNameChar_of_isNameStart hfirst)
  · exact fun c hc => hfree c (hrest c hc)

theorem neutral_join {b : BracketPair} {options : List Text}
    (h : ∀ o ∈ options, b.Neutral o) :
    b.Neutral (Text.join [','] options) := by
  have hcomma : b.Neutral [','] := neutral_of_forall
    (List.forall_mem_singleton.mpr (by cases b <;> decide))
  induction options with
  | nil => exact b.neutral_nil
  | cons o options ih =>
      obtain ⟨hfirst, hrest⟩ := List.forall_mem_cons.mp h
      cases options with
      | nil => simpa [Text.join] using hfirst
      | cons next options =>
          rw [Text.join, List.intercalate_cons_cons]
          exact (hfirst.append hcomma).append (ih hrest)

mutual

theorem normalOption_of_mem_nodeReferences : ∀ node : Node, NormalNode node →
    ∀ r ∈ nodeReferences node, ∀ o ∈ r.options, NormalOption o
  | .literal _, _, r, hr => absurd hr List.not_mem_nil
  | .converter _ _ children, h, r, hr => by
      cases h with
      | converter _ _ hoptions _ hchildren =>
          rcases List.mem_cons.mp hr with rfl | hr
          · exact hoptions
          · exact normalOption_of_mem_references children hchildren r hr

/-- The options of normal nodes, at any depth, are normal. -/
theorem normalOption_of_mem_references :
    ∀ nodes : List Node, (∀ node ∈ nodes, NormalNode node) →
    ∀ r ∈ references nodes, ∀ o ∈ r.options, NormalOption o
  | [], _, r, hr => absurd hr List.not_mem_nil
  | node :: rest, h, r, hr => by
      obtain ⟨hnode, hrest⟩ := List.forall_mem_cons.mp h
      rcases List.mem_append.mp hr with hr | hr
      · exact normalOption_of_mem_nodeReferences node hnode r hr
      · exact normalOption_of_mem_references rest hrest r hr

end

theorem Arranged.neutral {nodes : List Node} (h : Arranged nodes)
    (b : BracketPair) :
    b.Neutral (literalText nodes) := by
  cases b with
  | paren => exact neutral_of_balanced h.parens
  | brace => exact neutral_of_balanced h.braces

/-- The brackets of a spelling are those of the literals of its sequence: all
others are closed where they open. -/
theorem Spells.nesting_eq {b : BracketPair} {next : Option Char}
    {nodes : List Node} {t : Text} (h : Spells next nodes t)
    (hnormal : ∀ node ∈ nodes, NormalNode node)
    (hoptions : ∀ r ∈ references nodes, ∀ o ∈ r.options, b.Neutral o)
    (depth : Nat) :
    nesting b.opener b.closer depth t =
      nesting b.opener b.closer depth (literalText nodes) := by
  induction h generalizing depth with
  | nil => rfl
  | @literal next t rest nodes _ ih =>
      rw [literalText, nesting_append, nesting_append]
      congr 1
      funext inner
      exact ih (List.forall_mem_cons.mp hnormal).2 hoptions inner
  | @converter next name inner rest options children nodes slots
      _ _ _ _ ihchildren ihrest =>
      obtain ⟨hnode, hnodes⟩ := List.forall_mem_cons.mp hnormal
      cases hnode with
      | converter hname _ _ harranged hchildren =>
          rw [references, nodeReferences, List.cons_append] at hoptions
          obtain ⟨hown, hoptions⟩ := List.forall_mem_cons.mp hoptions
          obtain ⟨hwithin, hbehind⟩ := List.forall_mem_append.mp hoptions
          have hinner : b.Neutral inner := by
            intro depth
            rw [ihchildren hchildren hwithin depth]
            exact harranged.neutral b depth
          have hreference := (neutral_name hname b).append
            (neutral_slotsText slots hinner (neutral_join hown))
          rw [literalText, nesting_append, hreference, Option.bind_some,
            ihrest hnodes hbehind depth]

/-- The brackets of a pattern are balanced where those of its options are. -/
theorem balanced_of_read {b : BracketPair} {t : Text} {nodes : List Node}
    (h : read t = .ok nodes)
    (hoptions : ∀ r ∈ references nodes, ∀ o ∈ r.options, b.Neutral o) :
    Balanced b.opener b.closer t := by
  obtain ⟨⟨harranged, hnormal⟩, hspells⟩ := read_sound h
  rw [balanced_iff_nesting b.opener_ne_closer,
    hspells.nesting_eq hnormal hoptions]
  exact harranged.neutral b 0

/-- A text with nested brackets is a pattern.  A pattern has balanced braces,
and balanced parentheses unless there is one in an option. -/
theorem read_balance :
    (∀ t, Nested t → ∃ nodes, read t = .ok nodes) ∧
      ∀ t nodes, read t = .ok nodes → Balanced '\x7b' '\x7d' t ∧
        ((∀ r ∈ references nodes, ∀ o ∈ r.options, '(' ∉ o ∧ ')' ∉ o) →
          Balanced '(' ')' t) := by
  refine ⟨?_, ?_⟩
  · intro t hnested
    obtain ⟨st, nodes, hleads, hfinish⟩ :=
      State.inside_start.accepts ((nested_iff t).mp hnested)
    exact ⟨nodes, read_eq_ok_iff_leads.mpr ⟨st, hleads, hfinish⟩⟩
  · intro t nodes hread
    refine ⟨balanced_of_read (b := .brace) hread ?_, fun hfree =>
      balanced_of_read (b := .paren) hread ?_⟩
    · intro r hr o ho
      have hnormal := normalOption_of_mem_references nodes
        (read_sound hread).1.nodes r hr o ho
      exact neutral_of_balanced hnormal.balanced
    · intro r hr o ho
      obtain ⟨hopen, hclose⟩ := hfree r hr o ho
      apply neutral_of_forall
      intro c hc
      exact ⟨ne_of_mem_of_not_mem hc hopen, ne_of_mem_of_not_mem hc hclose⟩

namespace BalanceWitness

/-- Brackets of every use: of literals and slots, in options and around
references. -/
def nested : Text :=
  "(é\x7b#a\x7b(\x7b,\x7d)\x7d(#b()(#_\x7bx\x7d))\x7d)##c1(\x7b\x7d)#".toList

/-- The brackets of the literals cross. -/
def crossed : Text :=
  "(\x7b)#a\x7b\x7bo\x7d\x7d(\x7b\x7d)\x7d".toList

def crossedNodes : List Node :=
  [.literal "(\x7b)".toList,
    .converter ['a'] ["\x7bo\x7d".toList] [.literal "\x7b\x7d".toList],
    .literal ['\x7d']]

theorem read_balance_sample :
    Nested nested ∧ (∃ nodes, read nested = .ok nodes) ∧
      ¬ Nested crossed ∧ read crossed = .ok crossedNodes ∧
      Balanced '\x7b' '\x7d' crossed ∧
      (∀ r ∈ references crossedNodes, ∀ o ∈ r.options, '(' ∉ o ∧ ')' ∉ o) ∧
      Balanced '(' ')' crossed := by
  have hnested : Nested nested := by decide
  have hread : read crossed = .ok crossedNodes := rfl
  have hfree : ∀ r ∈ references crossedNodes, ∀ o ∈ r.options, '(' ∉ o ∧
      ')' ∉ o := by decide
  obtain ⟨hbraces, hparens⟩ := read_balance.2 crossed crossedNodes hread
  exact ⟨hnested, read_balance.1 nested hnested, by decide, hread,
    hbraces, hfree, hparens hfree⟩

end BalanceWitness

end Logline.Pattern
