import Logline.Proofs.Converter.Abbreviated
/-!
Abbreviations of one name to different widths.  An abbreviation is the name
itself or has the fewest segments cut that bring it below the width; the more
segments are cut, the shorter it is.  So a wider one is never shorter.  A name
in which every segment is cut has nothing left to cut, and any other
abbreviation fits into its width: abbreviating again changes nothing
(`abbreviate_stable_monotone`).
-/
namespace Logline.LoggerName

variable {segment : Text} {c : Char}

/-! ### Cutting more segments -/

theorem isSegment_take (h : IsSegment segment) (count : Nat) :
    IsSegment (segment.take count) :=
  fun c hc => h c (List.mem_of_mem_take hc)

theorem size_take_le (t : Text) (count : Nat) :
    Text.size (t.take count) ≤ Text.size t := by
  have hparts := congrArg Text.size (List.take_append_drop count t)
  rw [Text.size_append] at hparts
  omega

/-- The more segments are cut, the fewer bytes are left. -/
theorem size_initials_antitone (t : Text) {few many : Nat} (h : few ≤ many) :
    Text.size (initials many t) ≤ Text.size (initials few t) := by
  induction t using segment_induction generalizing few many with
  | last segment hsegment =>
      cases many with
      | zero =>
          obtain rfl := Nat.le_zero.mp h
          exact Nat.le_refl _
      | succ many =>
          have hmany := initials_of_isSegment hsegment many
          cases few with
          | zero =>
              rw [hmany, initials_zero]
              exact size_take_le segment 1
          | succ few =>
              have hfew := initials_of_isSegment hsegment few
              exact Nat.le_of_eq (congrArg Text.size (hmany.trans hfew.symm))
  | next segment c rest hsegment hc ih =>
      cases many with
      | zero =>
          obtain rfl := Nat.le_zero.mp h
          exact Nat.le_refl _
      | succ many =>
          rw [initials_append hsegment hc, Text.size_append, Text.size_cons]
          have htake := size_take_le segment 1
          cases few with
          | zero =>
              have hrest := ih (Nat.zero_le many)
              rw [initials_zero] at hrest ⊢
              rw [Text.size_append, Text.size_cons]
              omega
          | succ few =>
              have hrest := ih (Nat.le_of_succ_le_succ h)
              rw [initials_append hsegment hc, Text.size_append, Text.size_cons]
              omega

/-- In a text with all segments cut there is nothing left to cut. -/
theorem initials_initials_all (t : Text) (count : Nat) :
    initials count (initials (segments t).length t) =
      initials (segments t).length t := by
  induction t using segment_induction generalizing count with
  | last segment h =>
      rw [segments_of_isSegment h, List.length_singleton,
        initials_of_isSegment h 0]
      cases count with
      | zero => rw [initials_zero]
      | succ count => rw [initials_of_isSegment (isSegment_take h 1),
          List.take_take, Nat.min_self]
  | next segment c rest h hc ih =>
      rw [segments_append h hc, List.length_cons, initials_append h hc]
      cases count with
      | zero => rw [initials_zero]
      | succ count =>
          rw [initials_append (isSegment_take h 1) hc, List.take_take,
            Nat.min_self, ih]

/-- Something is left of a text with cut segments. -/
theorem initials_ne_nil {t : Text} (h : t ≠ []) (count : Nat) :
    initials count t ≠ [] := by
  cases count with
  | zero => rwa [initials_zero]
  | succ count =>
      induction t using segment_induction with
      | last segment hsegment =>
          rw [initials_of_isSegment hsegment]
          exact fun htake =>
            h ((List.take_eq_nil_iff.mp htake).resolve_left Nat.one_ne_zero)
      | next segment c rest hsegment hc _ =>
          rw [initials_append hsegment hc]
          exact List.append_ne_nil_of_right_ne_nil _ (List.cons_ne_nil _ _)

/-- Where less is enough, fewer cuts are. -/
theorem IsFewest.mono {enough easier : Nat → Prop} {all count fewer : Nat}
    (h : IsFewest enough all count) (heasier : IsFewest easier all fewer)
    (hle : ∀ k, enough k → easier k) : fewer ≤ count := by
  refine Nat.le_of_not_lt fun hless => ?_
  have henough := h.suffices_below (Nat.lt_of_lt_of_le hless heasier.le)
  exact heasier.least count h.pos hless (hle count henough)

/-! ### Names that are cut -/

/-- The part of the name in front of the last slash is not empty, so that its
segments are cut wherever the name does not fit. -/
structure Cuttable (name head rest : Text) : Prop where
  eq : name = head ++ '/' :: rest
  no_slash : '/' ∉ rest
  head_ne_nil : head ≠ []

theorem splitLastSlash?_cases (name : Text) :
    splitLastSlash? name = none ∨
      ∃ head rest, splitLastSlash? name = some (head, '/' :: rest) ∧
        '/' ∉ rest ∧
        name = head ++ '/' :: rest := by
  by_cases h : '/' ∈ name
  · obtain ⟨rest, head, hname, hrest⟩ :=
      List.eq_append_cons_of_mem (List.mem_reverse.mpr h)
    have hname : name = head.reverse ++ '/' :: rest.reverse := by
      rw [← List.reverse_reverse name, hname]
      simp
    have hrest : '/' ∉ rest.reverse :=
      fun hmem => hrest (List.mem_reverse.mp hmem)
    exact .inr ⟨head.reverse, rest.reverse,
      hname ▸ splitLastSlash?_append _ hrest, hrest, hname⟩
  · exact .inl (splitLastSlash?_eq_none h)

/-- A name stays as it is whatever the width, or it can be cut. -/
theorem constant_or_cuttable (name : Text) :
    (∀ width, abbreviate name width = name) ∨
      ∃ head rest, Cuttable name head rest := by
  obtain hnone | ⟨head, rest, hsplit, hrest, hname⟩ :=
    splitLastSlash?_cases name
  · refine .inl fun width => ?_
    rw [abbreviate, hnone]
    exact ite_self name
  · cases head with
    | nil =>
        refine .inl fun width => ?_
        rw [abbreviate, hsplit]
        exact ite_self name
    | cons c head => exact .inr ⟨c :: head, rest, hname, hrest,
        List.cons_ne_nil c head⟩

theorem abbreviate_of_size_le {name : Text} {width : Nat}
    (h : Text.size name ≤ width) :
    abbreviate name width = name :=
  if_pos h

namespace Cuttable

variable {name head rest : Text}

theorem exists_abbreviate (h : Cuttable name head rest) {width : Nat}
    (hwidth : width < Text.size name) :
    ∃ count,
      IsFewest (fun k => Text.size (initials k head ++ '/' :: rest) < width)
        (segments head).length count ∧
      abbreviate name width = initials count head ++ '/' :: rest := by
  obtain ⟨count, hfewest, hshorten⟩ := exists_shorten width 0 ('/' :: rest) head
  have hhead : head.isEmpty = false := by simpa using h.head_ne_nil
  refine ⟨count, by simpa only [Nat.zero_add] using hfewest, ?_⟩
  rw [abbreviate, if_neg (Nat.not_le_of_lt hwidth), h.eq,
    splitLastSlash?_append head h.no_slash, ← hshorten]
  exact if_neg (by rw [hhead]; exact Bool.false_ne_true)

/-- At any width some segments are cut, or none. -/
theorem exists_initials (h : Cuttable name head rest) (width : Nat) :
    ∃ count, abbreviate name width = initials count head ++ '/' :: rest := by
  by_cases hfits : Text.size name ≤ width
  · exact ⟨0, by rw [abbreviate_of_size_le hfits, initials_zero, h.eq]⟩
  · obtain ⟨count, -, hcut⟩ := h.exists_abbreviate (Nat.lt_of_not_le hfits)
    exact ⟨count, hcut⟩

theorem size_initials_le (h : Cuttable name head rest) (count : Nat) :
    Text.size (initials count head ++ '/' :: rest) ≤ Text.size name := by
  have hhead := size_initials_antitone head (Nat.zero_le count)
  rw [initials_zero] at hhead
  rw [h.eq, Text.size_append, Text.size_append]
  exact Nat.add_le_add_right hhead _

theorem size_abbreviate_mono (h : Cuttable name head rest) {narrow wide : Nat}
    (hle : narrow ≤ wide) :
    Text.size (abbreviate name narrow) ≤ Text.size (abbreviate name wide) := by
  by_cases hwide : Text.size name ≤ wide
  · obtain ⟨count, hcut⟩ := h.exists_initials narrow
    rw [abbreviate_of_size_le hwide, hcut]
    exact h.size_initials_le count
  · have hwide := Nat.lt_of_not_le hwide
    obtain ⟨count, hfewest, hcut⟩ :=
      h.exists_abbreviate (Nat.lt_of_le_of_lt hle hwide)
    obtain ⟨fewer, hfewer, hcut'⟩ := h.exists_abbreviate hwide
    have hcounts : fewer ≤ count :=
      hfewest.mono hfewer fun _ henough => Nat.lt_of_lt_of_le henough hle
    rw [hcut, hcut', Text.size_append, Text.size_append]
    exact Nat.add_le_add_right (size_initials_antitone head hcounts) _

theorem abbreviate_abbreviate (h : Cuttable name head rest) (width : Nat) :
    abbreviate (abbreviate name width) width = abbreviate name width := by
  by_cases hagain : Text.size (abbreviate name width) ≤ width
  · exact abbreviate_of_size_le hagain
  · have hagain := Nat.lt_of_not_le hagain
    have hwidth : width < Text.size name := by
      refine Nat.lt_of_not_le fun hfits => ?_
      rw [abbreviate_of_size_le hfits] at hagain
      exact Nat.not_le_of_lt hagain hfits
    obtain ⟨count, hfewest, hcut⟩ := h.exists_abbreviate hwidth
    -- An abbreviation that does not fit has all segments cut.
    have hall : count = (segments head).length := by
      refine Nat.le_antisymm hfewest.le (Nat.le_of_not_lt fun hless => ?_)
      have hshort := hfewest.suffices_below hless
      rw [← hcut] at hshort
      exact Nat.lt_asymm hshort hagain
    have hcuttable : Cuttable (abbreviate name width)
        (initials count head) rest :=
      ⟨hcut, h.no_slash, initials_ne_nil h.head_ne_nil count⟩
    obtain ⟨more, hmore⟩ := hcuttable.exists_initials width
    rw [hmore, hcut, hall, initials_initials_all]

end Cuttable

/-- Abbreviating a name again to the same width changes nothing; to a narrower
width, it never gets longer than to a wider one, nor than the name; and what
begins with the last slash is kept. -/
theorem abbreviate_stable_monotone (name : Text) {narrow wide : Nat}
    (h : narrow ≤ wide) :
    abbreviate (abbreviate name narrow) narrow = abbreviate name narrow ∧
      Text.size (abbreviate name narrow) ≤ Text.size (abbreviate name wide) ∧
      Text.size (abbreviate name wide) ≤ Text.size name ∧
      ∀ head rest, name = head ++ '/' :: rest → '/' ∉ rest →
        '/' :: rest <:+ abbreviate name narrow ∧
          '/' :: rest <:+ abbreviate name wide := by
  obtain hconstant | ⟨head, rest, hname⟩ := constant_or_cuttable name
  · simp only [hconstant, Nat.le_refl, true_and, and_self]
    rintro head rest hname -
    exact ⟨head, hname.symm⟩
  · refine ⟨hname.abbreviate_abbreviate narrow,
      hname.size_abbreviate_mono h, ?_, ?_⟩
    · obtain ⟨count, hcut⟩ := hname.exists_initials wide
      rw [hcut]
      exact hname.size_initials_le count
    · intro head' rest' hname' hrest'
      have hsplit := splitLastSlash?_append head' hrest'
      rw [← hname', hname.eq, splitLastSlash?_append head hname.no_slash]
        at hsplit
      obtain ⟨rfl, hrest⟩ := Prod.mk.inj (Option.some.inj hsplit)
      obtain rfl := (List.cons.inj hrest).2
      have hkept : ∀ width, '/' :: rest <:+ abbreviate name width := by
        intro width
        obtain ⟨count, hcut⟩ := hname.exists_initials width
        exact ⟨initials count head, hcut.symm⟩
      exact ⟨hkept narrow, hkept wide⟩

namespace WidthsWitness

/-- Segments that begin with a character of two bytes, are empty, or stand
behind dots. -/
def name : Text := "éa..bb/cc/dd".toList

/-- The thirteen bytes of the name fit into thirteen.  Without the second
character they are twelve, which are not below twelve, so that the empty
segment and the next one are cut too. -/
theorem abbreviate_stable_monotone_sample :
    12 ≤ 13 ∧ abbreviate name 12 = "é..b/cc/dd".toList ∧
      abbreviate name 13 = name ∧
      abbreviate (abbreviate name 12) 12 = abbreviate name 12 ∧
      Text.size (abbreviate name 12) ≤ Text.size (abbreviate name 13) ∧
      Text.size (abbreviate name 13) ≤ Text.size name ∧
      "/dd".toList <:+ abbreviate name 12 := by
  have hle : 12 ≤ 13 := by decide
  obtain ⟨hagain, hmono, hlength, hkept⟩ := abbreviate_stable_monotone name hle
  have hrest : '/' ∉ "dd".toList := by decide
  exact ⟨hle, by decide, by decide, hagain, hmono, hlength,
    (hkept "éa..bb/cc".toList "dd".toList rfl hrest).1⟩

end WidthsWitness

end Logline.LoggerName
