import Mathlib.Data.Nat.Init
import Mathlib.Tactic.SplitIfs
import Logline.Converter.LoggerName
/-!
How much of the name of a logger is cut.  The part in front of the last slash
consists of segments with separators between them, and `initials` cuts the
first few of them to their first characters.  Of these names an abbreviation is
the one with the fewest cuts that is shorter than the width asked for, and the
one with all segments cut if none is (`abbreviate_fewest`).
-/
namespace Logline.LoggerName

/-! ### Segments -/

/-- The segments of a text, taken apart at every separator. -/
def segments (t : Text) : List Text :=
  t.splitOnP isSeparator

/-- Segments with separators between them. -/
def weave : List Text → Text → Text
  | [], _ => []
  | segment :: _, [] => segment
  | segment :: rest, c :: separators => segment ++ c :: weave rest separators

/-- The text with its first `count` segments cut to their first characters;
empty ones stay empty, and the separators and the segments behind are kept. -/
def initials (count : Nat) (t : Text) : Text :=
  weave (((segments t).take count).map (List.take 1) ++ (segments t).drop count)
    (t.filter isSeparator)

/-- The text has no separator, and so is a segment. -/
def IsSegment (t : Text) : Prop :=
  ∀ c ∈ t, isSeparator c = false

theorem isSegment_or_exists (t : Text) :
    IsSegment t ∨ ∃ segment c rest, IsSegment segment ∧ isSeparator c = true ∧
      t = segment ++ c :: rest := by
  induction t with
  | nil => exact .inl (List.forall_mem_nil _)
  | cons d t ih =>
      cases hd : isSeparator d with
      | true => exact .inr ⟨[], d, t, List.forall_mem_nil _, hd, rfl⟩
      | false =>
          obtain hsegment | ⟨segment, c, rest, hsegment, hc, rfl⟩ := ih
          · exact .inl (List.forall_mem_cons.mpr ⟨hd, hsegment⟩)
          · exact .inr ⟨d :: segment, c, rest,
              List.forall_mem_cons.mpr ⟨hd, hsegment⟩, hc, rfl⟩

/-- Segment by segment: a text is one, or a segment, a separator and another
text. -/
@[elab_as_elim]
theorem segment_induction {motive : Text → Prop}
    (last : ∀ segment, IsSegment segment → motive segment)
    (next : ∀ segment c rest, IsSegment segment →
      isSeparator c = true → motive rest →
      motive (segment ++ c :: rest)) (t : Text) : motive t := by
  induction hlength : t.length using Nat.strong_induction_on generalizing t with
  | h n ih =>
      obtain hsegment | ⟨segment, c, rest, hsegment, hc, rfl⟩ :=
        isSegment_or_exists t
      · exact last t hsegment
      · rw [List.length_append, List.length_cons] at hlength
        exact next segment c rest hsegment hc
          (ih rest.length (by omega) rest rfl)

variable {segment : Text} {c : Char}

theorem segments_of_isSegment (h : IsSegment segment) :
    segments segment = [segment] :=
  List.splitOnP_eq_singleton h

theorem segments_append (h : IsSegment segment) (hc : isSeparator c = true)
    (rest : Text) :
    segments (segment ++ c :: rest) = segment :: segments rest :=
  List.splitOnP_append_cons_of_forall_mem h c hc rest

theorem filter_of_isSegment (h : IsSegment segment) :
    segment.filter isSeparator = [] := by
  rw [List.filter_eq_nil_iff]
  intro c hc
  rw [h c hc]
  exact Bool.false_ne_true

theorem filter_append (h : IsSegment segment) (hc : isSeparator c = true)
    (rest : Text) :
    (segment ++ c :: rest).filter isSeparator =
      c :: rest.filter isSeparator := by
  rw [List.filter_append, filter_of_isSegment h, List.nil_append,
    List.filter_cons_of_pos hc]

theorem initials_of_isSegment (h : IsSegment segment) (count : Nat) :
    initials (count + 1) segment = segment.take 1 := by
  rw [initials, segments_of_isSegment h, filter_of_isSegment h]
  simp [weave]

theorem initials_append (h : IsSegment segment) (hc : isSeparator c = true)
    (rest : Text) (count : Nat) :
    initials (count + 1) (segment ++ c :: rest) =
      segment.take 1 ++ c :: initials count rest := by
  rw [initials, segments_append h hc, filter_append h hc]
  rfl

theorem initials_zero (t : Text) : initials 0 t = t := by
  induction t using segment_induction with
  | last segment h =>
      rw [initials, segments_of_isSegment h, filter_of_isSegment h]
      rfl
  | next segment c rest h hc ih =>
      rw [initials, segments_append h hc, filter_append h hc]
      exact congrArg (segment ++ c :: ·) ih

/-! ### Shortening segment by segment -/

variable {width used : Nat} {first : Option Char} {tail rest : Text}

/-- Of a segment only the first character is kept in mind. -/
theorem shorten_isSegment_append (h : IsSegment segment) :
    shorten width used first tail (segment ++ rest) =
      shorten width used (first.or segment.head?) tail rest := by
  induction segment generalizing first with
  | nil => rw [List.head?_nil, Option.or_none, List.nil_append]
  | cons d segment ih =>
      obtain ⟨hd, hrest⟩ := List.forall_mem_cons.mp h
      rw [List.cons_append, shorten,
        if_neg (by rw [hd]; exact Bool.false_ne_true), ih hrest,
        Option.or_assoc, Option.some_or, List.head?_cons]

theorem toList_head? (t : Text) : t.head?.toList = t.take 1 := by
  cases t <;> rfl

theorem shorten_of_isSegment (h : IsSegment segment) :
    shorten width used none tail segment = segment.take 1 ++ tail := by
  have hshort : shorten width used none tail (segment ++ []) = _ :=
    shorten_isSegment_append h
  rw [List.append_nil, Option.none_or, shorten, toList_head?] at hshort
  exact hshort

/-- A cut segment and its separator are followed by the rest as it is, if that
is short enough. -/
theorem shorten_append (h : IsSegment segment) (hc : isSeparator c = true) :
    shorten width used none tail (segment ++ c :: rest) =
      segment.take 1 ++ c ::
        if used + Text.size (segment.take 1 ++ [c]) + Text.size (rest ++ tail) <
          width then
          rest ++ tail
        else shorten width (used + Text.size (segment.take 1 ++ [c])) none
          tail rest := by
  rw [shorten_isSegment_append h, Option.none_or, shorten,
    if_pos hc, toList_head?, Text.size_append rest tail]
  dsimp only
  split_ifs <;> simp

/-! ### The fewest cuts -/

/-- The least number from one on that is enough, or `all` if none below it
is. -/
structure IsFewest (enough : Nat → Prop) (all count : Nat) : Prop where
  pos : 1 ≤ count
  le : count ≤ all
  suffices_below : count < all → enough count
  least : ∀ fewer, 1 ≤ fewer → fewer < count → ¬ enough fewer

namespace IsFewest

variable {enough : Nat → Prop} {all count : Nat}

theorem one (hall : 1 ≤ all) (hone : 1 < all → enough 1) :
    IsFewest enough all 1 :=
  ⟨Nat.le_refl 1, hall, hone, fun _ hpos hless =>
    absurd hpos (Nat.not_le_of_lt hless)⟩

theorem succ (hone : ¬ enough 1)
    (h : IsFewest (fun k => enough (k + 1)) all count) :
    IsFewest enough (all + 1) (count + 1) where
  pos := Nat.le_add_left 1 count
  le := Nat.succ_le_succ h.le
  suffices_below hless := h.suffices_below (Nat.lt_of_succ_lt_succ hless)
  least fewer hpos hless := by
    obtain ⟨fewer, rfl⟩ := Nat.exists_eq_add_of_le' hpos
    cases fewer with
    | zero => exact hone
    | succ fewer =>
        exact h.least (fewer + 1) (Nat.le_add_left 1 fewer)
          (Nat.lt_of_succ_lt_succ hless)

theorem eq {other : Nat} (h : IsFewest enough all count)
    (hother : IsFewest enough all other) :
    other = count := by
  obtain hless | heq | hless := Nat.lt_trichotomy other count
  · have henough := hother.suffices_below (Nat.lt_of_lt_of_le hless h.le)
    exact absurd henough (h.least other hother.pos hless)
  · exact heq
  · have henough := h.suffices_below (Nat.lt_of_lt_of_le hless hother.le)
    exact absurd henough (hother.least count h.pos hless)

end IsFewest

theorem size_initials_append (h : IsSegment segment) (hc : isSeparator c = true)
    (rest tail : Text) (count : Nat) :
    Text.size (initials (count + 1) (segment ++ c :: rest) ++ tail) =
      Text.size (segment.take 1 ++ [c]) +
        Text.size (initials count rest ++ tail) := by
  rw [initials_append h hc]
  simp only [Text.size_append, Text.size_cons, Text.size_nil]
  omega

/-- With `used` bytes written before, the fewest segments are cut that are
enough. -/
theorem exists_shorten (width used : Nat) (tail head : Text) :
    ∃ count,
      IsFewest (fun k => used + Text.size (initials k head ++ tail) < width)
        (segments head).length count ∧
      shorten width used none tail head = initials count head ++ tail := by
  induction head using segment_induction generalizing used with
  | last segment h =>
      have hlength : (segments segment).length = 1 :=
        congrArg List.length (segments_of_isSegment h)
      refine ⟨1, .one (Nat.le_of_eq hlength.symm) fun hless => ?_, ?_⟩
      · exact absurd hlength (Nat.ne_of_gt hless)
      · rw [shorten_of_isSegment h, initials_of_isSegment h 0]
  | next segment c rest h hc ih =>
      obtain ⟨count, hfewest, hshorten⟩ :=
        ih (used + Text.size (segment.take 1 ++ [c]))
      have hsize : ∀ k, used + Text.size
          (initials (k + 1) (segment ++ c :: rest) ++ tail) =
          used + Text.size (segment.take 1 ++ [c]) +
            Text.size (initials k rest ++ tail) :=
        fun k => by rw [size_initials_append h hc, Nat.add_assoc]
      rw [segments_append h hc, List.length_cons, shorten_append h hc]
      have hone := hsize 0
      rw [initials_zero] at hone
      split_ifs with hshort
      · refine ⟨1, .one (Nat.le_add_left 1 _) fun _ => ?_, ?_⟩
        · rw [← hone] at hshort
          exact hshort
        · rw [initials_append h hc, initials_zero, List.append_assoc,
            List.cons_append]
      · refine ⟨count + 1, .succ ?_ ?_, ?_⟩
        · rw [← hone] at hshort
          exact hshort
        · simp only [hsize]
          exact hfewest
        · rw [hshorten, initials_append h hc, List.append_assoc,
            List.cons_append]

/-! ### The last slash -/

theorem splitLastSlash?_eq_none {t : Text} (h : '/' ∉ t) :
    splitLastSlash? t = none := by
  induction t with
  | nil => rfl
  | cons d t ih =>
      rw [List.mem_cons, not_or] at h
      obtain ⟨hd, ht⟩ := h
      rw [splitLastSlash?, ih ht]
      exact if_neg (Ne.symm hd)

theorem splitLastSlash?_append (head : Text) {rest : Text} (h : '/' ∉ rest) :
    splitLastSlash? (head ++ '/' :: rest) = some (head, '/' :: rest) := by
  induction head with
  | nil =>
      rw [List.nil_append, splitLastSlash?, splitLastSlash?_eq_none h]
      rfl
  | cons d head ih => rw [List.cons_append, splitLastSlash?, ih]

/-- A name is left as it is if it fits into the width, or has no slash behind
its first character.  Of any other name the fewest segments in front of the last
slash are cut that bring it below the width, at least one, and all of them if
fewer do not. -/
theorem abbreviate_fewest (name : Text) (width : Nat) :
    (Text.size name ≤ width ∨ '/' ∉ name ∨
      (∃ rest, name = '/' :: rest ∧ '/' ∉ rest) →
      abbreviate name width = name) ∧
    ∀ head rest, name = head ++ '/' :: rest → '/' ∉ rest → head ≠ [] →
      width < Text.size name →
      ∃ count,
        IsFewest (fun k => Text.size (initials k head ++ '/' :: rest) < width)
          (segments head).length count ∧
        abbreviate name width = initials count head ++ '/' :: rest := by
  constructor
  · intro h
    rw [abbreviate]
    split_ifs with hfits
    · rfl
    · obtain hle | hnone | ⟨rest, rfl, hrest⟩ := h
      · exact absurd hle hfits
      · rw [splitLastSlash?_eq_none hnone]
      · have hsplit := splitLastSlash?_append [] hrest
        rw [List.nil_append] at hsplit
        rw [hsplit]
        rfl
  · rintro head rest rfl hrest hne hwidth
    obtain ⟨count, hfewest, hshorten⟩ :=
      exists_shorten width 0 ('/' :: rest) head
    refine ⟨count, ?_, ?_⟩
    · simpa only [Nat.zero_add] using hfewest
    · have hhead : head.isEmpty = false := by simpa using hne
      rw [abbreviate, if_neg (Nat.not_le_of_lt hwidth),
        splitLastSlash?_append head hrest]
      dsimp only
      rw [if_neg (by rw [hhead]; exact Bool.false_ne_true), hshorten]

namespace AbbreviatedWitness

/-- Segments that begin with a character of two bytes, are empty, or stand
behind dots. -/
def head : Text := "éa..bb/cc".toList

/-- Cutting an empty segment, the second one, gains nothing, and a name of
twelve bytes is not shorter than twelve. -/
theorem abbreviate_fewest_sample :
    '/' ∉ "dd".toList ∧ head ≠ [] ∧ 12 < Text.size (head ++ "/dd".toList) ∧
      IsFewest (fun k => Text.size (initials k head ++ "/dd".toList) < 12)
        (segments head).length 3 ∧
      abbreviate (head ++ "/dd".toList) 12 = "é..b/cc/dd".toList := by
  have hrest : '/' ∉ "dd".toList := by decide
  have hne : head ≠ [] := by decide
  have hwidth : 12 < Text.size (head ++ "/dd".toList) := by decide
  obtain ⟨count, hfewest, habbreviate⟩ :=
    (abbreviate_fewest (head ++ "/dd".toList) 12).2 head "dd".toList rfl
      hrest hne hwidth
  have hthree : IsFewest
      (fun k => Text.size (initials k head ++ "/dd".toList) < 12)
      (segments head).length 3 := by
    refine ⟨by decide, by decide, fun _ => by decide,
      fun fewer hpos hless => ?_⟩
    obtain rfl | rfl : fewer = 1 ∨ fewer = 2 := by omega
    · decide
    · decide
  obtain rfl := hthree.eq hfewest
  exact ⟨hrest, hne, hwidth, hthree, habbreviate⟩

end AbbreviatedWitness

end Logline.LoggerName
