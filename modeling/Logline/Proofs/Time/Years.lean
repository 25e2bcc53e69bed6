import Logline.Proofs.Time.ByExample
/-!
Years in layouts by example.  In text that has no digit and no token, no token
begins, whatever stands behind the text, with one exception: an underscore at
its end and the first digit of a year are the token of a day.  So a year is
read as such exactly if no underscore stands in front of it
(`DateLayout.translateReference_year_iff`).
-/
namespace Logline

/-- The text with every percent sign written twice. -/
def Text.doublePercents (t : Text) : Text :=
  t.flatMap fun c => if c = '%' then ['%', '%'] else [c]

@[simp] theorem Text.doublePercents_nil : doublePercents [] = [] := rfl

theorem Text.doublePercents_cons (c : Char) (t : Text) :
    doublePercents (c :: t) = (DateLayout.Piece.other c).format ++
      doublePercents t := rfl

theorem Text.doublePercents_append (s t : Text) :
    doublePercents (s ++ t) = doublePercents s ++ doublePercents t :=
  List.flatMap_append

namespace DateLayout

/-! ### Where tokens begin -/

theorem take_prefix_of_prefix_append {s word rest : Text}
    (h : s <+: word ++ rest) :
    s.take word.length <+: word := by
  have htake := h.take word.length
  rwa [List.take_left] at htake

/-- An entry is the longest in front of any text if all others that agree with
it as far as it goes are no longer. -/
theorem isLongestToken_append {entry : Text × Text}
    (hmem : entry ∈ referenceTokens) (hlongest : ∀ other ∈ referenceTokens,
      other.1.take entry.1.length <+: entry.1 → other.1.length ≤ entry.1.length)
    (rest : Text) : IsLongestToken entry (entry.1 ++ rest) :=
  ⟨hmem, List.prefix_append _ _, fun other hother hprefix =>
    hlongest other hother (take_prefix_of_prefix_append hprefix)⟩

/-- Text without tokens is copied up to the character `c`, if no token has
characters from the end of the text in front of this character. -/
theorem translateReference_append {lead rest : Text} {c : Char}
    (htokens : ∀ entry ∈ referenceTokens, ¬ entry.1 <:+: lead)
    (hclear : ∀ entry ∈ referenceTokens, ∀ before behind, before ≠ [] →
      before <:+ lead →
      entry.1 ≠ before ++ c :: behind) :
    translateReference (lead ++ c :: rest) =
      lead.doublePercents ++ translateReference (c :: rest) := by
  induction lead with
  | nil => rfl
  | cons d lead ih =>
      have hnone : ∀ entry ∈ referenceTokens, ¬ entry.1 <+:
          d :: (lead ++ c :: rest) := by
        intro entry hentry hprefix
        obtain hinside | ⟨behind, hbehind⟩ :=
          List.prefix_or_prefix_of_prefix hprefix
            (List.prefix_append (d :: lead) (c :: rest))
        · exact htokens entry hentry hinside.isInfix
        · rw [← hbehind] at hprefix
          cases behind with
          | nil =>
              rw [List.append_nil] at hbehind
              exact htokens entry hentry (hbehind ▸ List.infix_rfl)
          | cons b behind =>
              have hcons : b :: behind <+: c :: rest :=
                (List.prefix_append_right_inj _).mp hprefix
              obtain ⟨rfl, -⟩ := List.cons_prefix_cons.mp hcons
              exact hclear entry hentry (d :: lead) behind
                (List.cons_ne_nil d lead)
                List.suffix_rfl hbehind.symm
      rw [List.cons_append, translateReference_other hnone, ih,
        Text.doublePercents_cons, List.append_assoc]
      · intro entry hentry hoccurs
        exact htokens entry hentry
          (hoccurs.trans (List.suffix_cons d lead).isInfix)
      · intro entry hentry before behind hne hsuffix
        exact hclear entry hentry before behind hne
          (hsuffix.trans (List.suffix_cons d lead))

/-! ### The token of the year -/

/-- Where the first digit of a token is a two, nothing or an underscore stands
in front of it. -/
theorem referenceTokens_up_to_two : ∀ entry ∈ referenceTokens,
    (entry.1.dropWhile fun c => !c.isDigit).head? = some '2' →
      (entry.1.takeWhile fun c => !c.isDigit) = [] ∨
        (entry.1.takeWhile fun c => !c.isDigit) = ['_'] := by
  decide

theorem underscore_not_behind_referenceTokens : ∀ entry ∈ referenceTokens,
    '_' ∉ entry.1.tail := by
  decide

theorem eq_underscore_of_two_behind {entry : Text × Text}
    (hentry : entry ∈ referenceTokens) {before behind : Text}
    (hne : before ≠ []) (hdigits : ∀ c ∈ before, c.isDigit = false)
    (h : entry.1 = before ++ '2' :: behind) : before = ['_'] := by
  have hskipped : ∀ c ∈ before, (!c.isDigit) = true :=
    fun c hc => by rw [hdigits c hc]; rfl
  have hdrop : (entry.1.dropWhile fun c => !c.isDigit) = '2' :: behind := by
    rw [h, List.dropWhile_append_of_pos hskipped]
    rfl
  have htake : (entry.1.takeWhile fun c => !c.isDigit) = before := by
    rw [h, List.takeWhile_append_of_pos hskipped]
    exact List.append_nil before
  obtain hnil | hunderscore :=
    referenceTokens_up_to_two entry hentry (by rw [hdrop]; rfl)
  · exact absurd (htake.symm.trans hnil) hne
  · exact htake.symm.trans hunderscore

theorem translateReference_two {lead rest : Text}
    (hdigits : ∀ c ∈ lead, c.isDigit = false)
    (htokens : ∀ entry ∈ referenceTokens, ¬ entry.1 <:+: lead)
    (hlast : lead.getLast? ≠ some '_') :
    translateReference (lead ++ '2' :: rest) =
      lead.doublePercents ++ translateReference ('2' :: rest) := by
  refine translateReference_append htokens
    fun entry hentry before behind hne hsuffix htoken => ?_
  obtain ⟨front, rfl⟩ := hsuffix
  have hbefore := eq_underscore_of_two_behind hentry hne
    (fun c hc => hdigits c (List.mem_append_right front hc)) htoken
  rw [hbefore, List.getLast?_concat] at hlast
  exact hlast rfl

theorem translateReference_underscore {lead rest : Text}
    (htokens : ∀ entry ∈ referenceTokens, ¬ entry.1 <:+: lead) :
    translateReference (lead ++ '_' :: rest) =
      lead.doublePercents ++ translateReference ('_' :: rest) := by
  refine translateReference_append htokens
    fun entry hentry before behind hne _ htoken => ?_
  obtain ⟨d, before, rfl⟩ := List.exists_cons_of_ne_nil hne
  apply underscore_not_behind_referenceTokens entry hentry
  rw [htoken]
  exact List.mem_append_right before List.mem_cons_self

theorem no_token_at_zeros :
    ∀ entry ∈ referenceTokens, ¬ entry.1.take 3 <+: "006".toList := by
  decide

theorem translateReference_year (rest : Text) :
    translateReference ("2006".toList ++ rest) =
      "%Y".toList ++ translateReference rest :=
  translateReference_token <|
    isLongestToken_append
      (show ("2006".toList, "%Y".toList) ∈ referenceTokens by decide)
      (by decide) rest

/-- With an underscore in front of it, a year is read as a day, a zero and a
year of the century. -/
theorem translateReference_underscore_year (rest : Text) :
    translateReference ("_2006".toList ++ rest) =
      "%e0%y".toList ++ translateReference rest := by
  have hday : translateReference ("_2".toList ++ ("006".toList ++ rest)) =
      "%e".toList ++ translateReference ("006".toList ++ rest) :=
    translateReference_token <|
      isLongestToken_append
        (show ("_2".toList, "%e".toList) ∈ referenceTokens by decide)
        (by decide) _
  have hzero : translateReference ('0' :: ("06".toList ++ rest)) =
      ['0'] ++ translateReference ("06".toList ++ rest) := by
    apply translateReference_other
    intro entry hentry hprefix
    have hthree : entry.1 <+: "006".toList ++ rest := hprefix
    exact no_token_at_zeros entry hentry (take_prefix_of_prefix_append hthree)
  have hyear : translateReference ("06".toList ++ rest) =
      "%y".toList ++ translateReference rest :=
    translateReference_token <|
      isLongestToken_append
        (show ("06".toList, "%y".toList) ∈ referenceTokens by decide)
        (by decide) rest
  rw [hyear] at hzero
  exact hday.trans (congrArg _ hzero)

/-- Behind text without digits and tokens, a year is read as the year, unless
the text ends in an underscore; then the underscore and the first digit of the
year are read as a day. -/
theorem translateReference_year_iff {lead : Text}
    (hdigits : ∀ c ∈ lead, c.isDigit = false)
    (htokens : ∀ entry ∈ referenceTokens, ¬ entry.1 <:+: lead) (rest : Text) :
    (translateReference (lead ++ "2006".toList ++ rest) =
        lead.doublePercents ++ "%Y".toList ++ translateReference rest ↔
      lead.getLast? ≠ some '_') ∧
    ∀ front, lead = front ++ ['_'] →
      translateReference (lead ++ "2006".toList ++ rest) =
        front.doublePercents ++ "%e0%y".toList ++ translateReference rest := by
  have hbehind : ∀ front, lead = front ++ ['_'] →
      translateReference (lead ++ "2006".toList ++ rest) =
        front.doublePercents ++ "%e0%y".toList ++ translateReference rest := by
    rintro front rfl
    have hfront : ∀ entry ∈ referenceTokens, ¬ entry.1 <:+: front :=
      fun entry hentry hoccurs => htokens entry hentry
        (hoccurs.trans (List.prefix_append front ['_']).isInfix)
    calc translateReference (front ++ ['_'] ++ "2006".toList ++ rest)
        = translateReference (front ++ '_' :: ("2006".toList ++ rest)) := by
          simp
      _ = front.doublePercents ++ translateReference ("_2006".toList ++ rest) :=
          translateReference_underscore hfront
      _ = front.doublePercents ++ "%e0%y".toList ++
      translateReference rest := by
          rw [translateReference_underscore_year, List.append_assoc]
  refine ⟨⟨fun hyear hlast => ?_, fun hlast => ?_⟩, hbehind⟩
  · obtain ⟨front, rfl⟩ := List.getLast?_eq_some_iff.mp hlast
    rw [hbehind front rfl, Text.doublePercents_append, List.append_assoc,
      List.append_assoc, List.append_assoc] at hyear
    -- one goes on with a directive, the other with the underscore
    exact absurd (List.cons.inj (List.append_cancel_left hyear)).1 (by decide)
  · rw [List.append_assoc, List.append_assoc, ← translateReference_year]
    exact translateReference_two hdigits htokens hlast

namespace YearsWitness

/-- Text with a percent sign, an underscore that is not its last character, and
beginnings of tokens. -/
def lead : Text := "%app_Mo Z-é.".toList

theorem translateReference_year_iff_sample :
    (∀ c ∈ lead, c.isDigit = false) ∧
      (∀ entry ∈ referenceTokens, ¬ entry.1 <:+: lead) ∧
      translateReference (lead ++ "2006".toList ++ "06_2".toList) =
        "%%app_Mo Z-é.%Y%y%e".toList := by
  have hdigits : ∀ c ∈ lead, c.isDigit = false :=
    List.forall_iff_forall_mem.mp (by decide)
  have htokens : ∀ entry ∈ referenceTokens, ¬ entry.1 <:+: lead := by
    decide +kernel
  have hyear :=
    (translateReference_year_iff hdigits htokens "06_2".toList).1.mpr
      (by decide)
  exact ⟨hdigits, htokens, hyear.trans (by decide +kernel)⟩

/-- A year behind an underscore is none, although the underscore is neither a
digit nor a token. -/
theorem year_behind_underscore :
    (∀ c ∈ ['_'], c.isDigit = false) ∧
      (∀ entry ∈ referenceTokens, ¬ entry.1 <:+: ['_']) ∧
      translateReference (['_'] ++ "2006".toList ++ []) = "%e0%y".toList ∧
      translateReference (['_'] ++ "2006".toList ++ []) ≠
        Text.doublePercents ['_'] ++ "%Y".toList ++ translateReference [] := by
  have hdigits : ∀ c ∈ ['_'], c.isDigit = false :=
    List.forall_mem_singleton.mpr rfl
  have htokens : ∀ entry ∈ referenceTokens, ¬ entry.1 <:+: ['_'] := by
    decide +kernel
  exact ⟨hdigits, htokens, by decide +kernel, by decide +kernel⟩

end YearsWitness

end DateLayout

end Logline
