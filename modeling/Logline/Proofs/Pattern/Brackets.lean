import Logline.Text.Basic
/-!
Brackets of both kinds as a stack.  `openAfter` keeps the brackets that are
open, the innermost first, and gives no answer if one closes what it does not
fit.  The texts that lead from nothing open back to nothing are the `Nested`
ones (`nested_iff`).
-/
namespace Logline.Pattern

/-- The two kinds of brackets. -/
inductive BracketPair
  | paren
  | brace
deriving DecidableEq, Repr

namespace BracketPair

def opener : BracketPair → Char
  | paren => '('
  | brace => '\x7b'

def closer : BracketPair → Char
  | paren => ')'
  | brace => '\x7d'

/-- The brackets that are open after one more character. -/
def enter (opened : List BracketPair) (c : Char) : Option (List BracketPair) :=
  match c with
  | '(' => some (paren :: opened)
  | '\x7b' => some (brace :: opened)
  | ')' =>
    match opened with
    | paren :: outer => some outer
    | _ => none
  | '\x7d' =>
    match opened with
    | brace :: outer => some outer
    | _ => none
  | _ => some opened

/-- The brackets that are open after a text, the innermost first. -/
def openAfter (opened : List BracketPair) (t : Text) :
    Option (List BracketPair) :=
  t.foldlM enter opened

/-- The character is no bracket. -/
def Free (c : Char) : Prop :=
  ∀ b : BracketPair, c ≠ b.opener ∧ c ≠ b.closer

theorem enter_opener (opened : List BracketPair) (b : BracketPair) :
    enter opened b.opener = some (b :: opened) := by
  cases b <;> rfl

theorem enter_closer (opened : List BracketPair) (b : BracketPair) :
    enter (b :: opened) b.closer = some opened := by
  cases b <;> rfl

theorem enter_free (opened : List BracketPair) {c : Char} (hc : Free c) :
    enter opened c = some opened := by
  obtain ⟨hopen, hclose⟩ := hc .paren
  obtain ⟨hopen', hclose'⟩ := hc .brace
  rw [enter.eq_def]
  split
  · exact absurd rfl hopen
  · exact absurd rfl hopen'
  · exact absurd rfl hclose
  · exact absurd rfl hclose'
  · rfl

/-- What a character does to the open brackets. -/
theorem enter_cases {opened next : List BracketPair} {c : Char}
    (h : enter opened c = some next) :
    (∃ b : BracketPair, c = b.opener ∧ next = b :: opened) ∨
      (∃ b : BracketPair, c = b.closer ∧ opened = b :: next) ∨ Free c ∧
        next = opened := by
  rw [enter.eq_def] at h
  split at h
  · exact .inl ⟨.paren, rfl, (Option.some.inj h).symm⟩
  · exact .inl ⟨.brace, rfl, (Option.some.inj h).symm⟩
  · split at h
    · exact .inr (.inl ⟨.paren, rfl, by rw [Option.some.inj h]⟩)
    · contradiction
  · split at h
    · exact .inr (.inl ⟨.brace, rfl, by rw [Option.some.inj h]⟩)
    · contradiction
  · next hopen hopen' hclose hclose' =>
      refine .inr (.inr ⟨?_, (Option.some.inj h).symm⟩)
      intro b
      cases b with
      | paren => exact ⟨hopen, hclose⟩
      | brace => exact ⟨hopen', hclose'⟩

@[simp] theorem openAfter_nil (opened : List BracketPair) :
    openAfter opened [] = some opened := rfl

theorem openAfter_cons (opened : List BracketPair) (c : Char) (t : Text) :
    openAfter opened (c :: t) = (enter opened c).bind fun next =>
      openAfter next t := rfl

/-- The closing brackets of a stack close it. -/
theorem openAfter_closers (opened : List BracketPair) :
    openAfter opened (opened.map closer) = some [] := by
  induction opened with
  | nil => rfl
  | cons b opened ih =>
      rw [List.map_cons, openAfter_cons, enter_closer, Option.bind_some, ih]

/-! ### Nested texts -/

/-- The brackets of the text, all other characters left out, are a Dyck word
over the two kinds. -/
inductive Nested : Text → Prop
  | nil : Nested []
  | free {c : Char} {t : Text} (hc : Free c) (hrest : Nested t) :
      Nested (c :: t)
  | pair (b : BracketPair) {inner rest : Text} (hinner : Nested inner)
      (hrest : Nested rest) :
      Nested (b.opener :: inner ++ b.closer :: rest)

/-- The text closes the brackets of the stack, one after the other, and is
nested in between. -/
def Closes : List BracketPair → Text → Prop
  | [], t => Nested t
  | b :: outer, t =>
      ∃ inner rest, Nested inner ∧ Closes outer rest ∧
        inner ++ b.closer :: rest = t

theorem Nested.openAfter_append {t : Text} (h : Nested t)
    (opened : List BracketPair) (rest : Text) :
    openAfter opened (t ++ rest) = openAfter opened rest := by
  induction h generalizing opened rest with
  | nil => rfl
  | free hc _ ih =>
      rw [List.cons_append, openAfter_cons, enter_free opened hc,
        Option.bind_some, ih]
  | pair b _ _ ihinner ihrest =>
      rw [List.append_assoc, List.cons_append, List.cons_append,
        openAfter_cons, enter_opener, Option.bind_some, ihinner, openAfter_cons,
        enter_closer, Option.bind_some, ihrest]

theorem Closes.free {opened : List BracketPair} {c : Char} {t : Text}
    (hc : Free c) (h : Closes opened t) :
    Closes opened (c :: t) := by
  cases opened with
  | nil => exact Nested.free hc h
  | cons b outer =>
      obtain ⟨inner, rest, hinner, hrest, rfl⟩ := h
      exact ⟨c :: inner, rest, .free hc hinner, hrest, rfl⟩

theorem Closes.pair {opened : List BracketPair} {b : BracketPair} {t : Text}
    (h : Closes (b :: opened) t) : Closes opened (b.opener :: t) := by
  obtain ⟨inner, rest, hinner, hrest, rfl⟩ := h
  cases opened with
  | nil => exact Nested.pair b hinner hrest
  | cons outer opened =>
      obtain ⟨inner', rest', hinner', hrest', rfl⟩ := hrest
      exact ⟨_, rest', .pair b hinner hinner', hrest', by simp⟩

theorem closes_of_openAfter {opened : List BracketPair} {t : Text}
    (h : openAfter opened t = some []) : Closes opened t := by
  induction t generalizing opened with
  | nil =>
      obtain rfl := Option.some.inj h
      exact .nil
  | cons c t ih =>
      rw [openAfter_cons] at h
      obtain ⟨next, hnext, h⟩ := Option.bind_eq_some_iff.mp h
      have hcloses := ih h
      obtain ⟨b, rfl, rfl⟩ | ⟨b, rfl, rfl⟩ | ⟨hc, rfl⟩ := enter_cases hnext
      · exact hcloses.pair
      · exact ⟨[], t, .nil, hcloses, rfl⟩
      · exact hcloses.free hc

/-- Being nested is decided by the stack. -/
theorem nested_iff (t : Text) : Nested t ↔ openAfter [] t = some [] := by
  constructor
  · intro h
    have hopen := h.openAfter_append [] []
    rwa [List.append_nil] at hopen
  · exact closes_of_openAfter

instance (t : Text) : Decidable (Nested t) :=
  decidable_of_iff _ (nested_iff t).symm

end BracketPair

end Logline.Pattern
