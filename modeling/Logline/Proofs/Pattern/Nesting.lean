import Mathlib.Tactic.SplitIfs
import Logline.Pattern.Reader
/-!
Brackets in texts, and options between commas.  `nesting` counts the brackets
that are open, one character at a time, as the reader does; a text is
`Balanced` exactly if it leads from no open bracket back to none.  The options
of a reference are cut at the commas outside braces: `splitOptions_join` and
`splitOptions_spec` say that this undoes joining them.
-/
namespace Logline.Pattern

/-- No bracket of a text closes before one opens, and none stays open. -/
structure Balanced (opener closer : Char) (t : Text) : Prop where
  closes_le : ∀ before, before <+: t →
    before.count closer ≤ before.count opener
  total : t.count closer = t.count opener

/-- The brackets that are open after a text that begins inside of `depth` of
them; there is no answer if one closes nothing. -/
def nesting (opener closer : Char) (depth : Nat) : Text → Option Nat
  | [] => some depth
  | c :: rest =>
    if c = opener then nesting opener closer (depth + 1) rest
    else if c = closer then
      if depth = 0 then none else nesting opener closer (depth - 1) rest
    else nesting opener closer depth rest

section Brackets

variable {opener closer : Char}

@[simp] theorem nesting_nil (depth : Nat) :
    nesting opener closer depth [] = some depth := rfl

theorem nesting_append (depth : Nat) (s t : Text) :
    nesting opener closer depth (s ++ t) =
      (nesting opener closer depth s).bind
        fun inner => nesting opener closer inner t := by
  induction s generalizing depth with
  | nil => rfl
  | cons c s ih =>
      simp only [List.cons_append, nesting, ih]
      split_ifs <;> rfl

/-- Text in front of a text that stays inside its brackets does so too. -/
theorem exists_nesting_of_append {depth final : Nat} {s t : Text}
    (h : nesting opener closer depth (s ++ t) = some final) :
    ∃ inner, nesting opener closer depth s = some inner ∧
      nesting opener closer inner t = some final := by
  rw [nesting_append] at h
  exact Option.bind_eq_some_iff.mp h

theorem nesting_snoc {depth inner : Nat} {s : Text} (c : Char)
    (h : nesting opener closer depth s = some inner) :
    nesting opener closer depth (s ++ [c]) =
      nesting opener closer inner [c] := by
  rw [nesting_append, h, Option.bind_some]

theorem nesting_singleton_opener (depth : Nat) :
    nesting opener closer depth [opener] = some (depth + 1) := by
  simp [nesting]

theorem nesting_singleton_closer (hne : opener ≠ closer) (depth : Nat) :
    nesting opener closer (depth + 1) [closer] = some depth := by
  simp [nesting, hne.symm]

theorem nesting_singleton_other {c : Char} (hopener : c ≠ opener)
    (hcloser : c ≠ closer) (depth : Nat) :
    nesting opener closer depth [c] = some depth := by
  simp [nesting, hopener, hcloser]

theorem forall_prefix_cons_iff (P : Text → Prop) (c : Char) (t : Text) :
    (∀ before, before <+: c :: t → P before) ↔
      P [] ∧ ∀ before, before <+: t → P (c :: before) := by
  constructor
  · intro h
    refine ⟨h [] List.nil_prefix, ?_⟩
    intro before hbefore
    exact h _ (List.cons_prefix_cons.mpr ⟨rfl, hbefore⟩)
  · rintro ⟨hnil, hcons⟩ before hbefore
    rcases List.prefix_cons_iff.mp hbefore with rfl | ⟨s, rfl, hs⟩
    · exact hnil
    · exact hcons s hs

/-- What `nesting` counts, in terms of the brackets of each prefix. -/
theorem nesting_eq_some_iff (hne : opener ≠ closer) (depth final : Nat)
    (t : Text) :
    nesting opener closer depth t = some final ↔
      (∀ before, before <+: t →
        before.count closer ≤ depth + before.count opener) ∧
      depth + t.count opener = final + t.count closer := by
  induction t generalizing depth with
  | nil => simp
  | cons c t ih =>
      rw [forall_prefix_cons_iff, nesting]
      by_cases hopener : c = opener
      · subst hopener
        simp only [if_true, ih, List.count_cons_self,
          List.count_cons_of_ne hne, List.count_nil, Nat.zero_le, true_and]
        simp only [Nat.add_right_comm, Nat.add_assoc]
      · rw [if_neg hopener]
        by_cases hcloser : c = closer
        · subst hcloser
          simp only [if_true, List.count_cons_self,
            List.count_cons_of_ne hne.symm, List.count_nil, Nat.zero_le,
            true_and]
          rcases depth with _ | depth
          · simp only [if_true, reduceCtorEq, false_iff, not_and]
            intro hclose
            have := hclose [] List.nil_prefix
            simp at this
          · rw [if_neg (Nat.succ_ne_zero depth), ih]
            apply and_congr
            · apply forall₂_congr
              intro before _
              omega
            · omega
        · rw [if_neg hcloser, ih]
          simp [List.count_cons_of_ne (Ne.intro hopener),
            List.count_cons_of_ne (Ne.intro hcloser)]

theorem balanced_iff_nesting (hne : opener ≠ closer) (t : Text) :
    Balanced opener closer t ↔ nesting opener closer 0 t = some 0 := by
  rw [nesting_eq_some_iff hne]
  constructor
  · rintro ⟨hle, htotal⟩
    exact ⟨by simpa using hle, by simpa using htotal.symm⟩
  · rintro ⟨hle, htotal⟩
    exact ⟨by simpa using hle, by simpa using htotal.symm⟩

end Brackets

/-! ### Options -/

/-- The text of an option: its braces are balanced, and a comma in it stands
inside of braces. -/
structure NormalOption (t : Text) : Prop where
  balanced : Balanced '\x7b' '\x7d' t
  comma_inside : ∀ before after, t = before ++ ',' :: after →
    before.count '\x7d' < before.count '\x7b'

/-- What is left of an option inside of `depth` of its braces. -/
structure IsPiece (depth : Nat) (t : Text) : Prop where
  closes : nesting '\x7b' '\x7d' depth t = some 0
  comma_inside : ∀ before after, t = before ++ ',' :: after →
    nesting '\x7b' '\x7d' depth before ≠ some 0

theorem normalOption_iff_isPiece (t : Text) :
    NormalOption t ↔ IsPiece 0 t := by
  have hne : '\x7b' ≠ '\x7d' := by decide
  constructor
  · rintro ⟨hbalanced, hcomma⟩
    refine ⟨(balanced_iff_nesting hne t).mp hbalanced, ?_⟩
    intro before after ht hnone
    have htotal := ((nesting_eq_some_iff hne 0 0 before).mp hnone).2
    have hinside := hcomma before after ht
    omega
  · rintro ⟨hcloses, hcomma⟩
    refine ⟨(balanced_iff_nesting hne t).mpr hcloses, ?_⟩
    intro before after ht
    rw [ht] at hcloses
    obtain ⟨inner, hinner, -⟩ := exists_nesting_of_append hcloses
    have htotal := ((nesting_eq_some_iff hne 0 inner before).mp hinner).2
    have hpos : inner ≠ 0 := by
      rintro rfl
      exact hcomma before after ht hinner
    omega

/-- The depth after one more character, where braces that close nothing do not
count. -/
def depthAfter (c : Char) (depth : Nat) : Nat :=
  if c = '\x7b' then depth + 1 else if c = '\x7d' then depth - 1 else depth

theorem nesting_cons_of_closes (c : Char) {depth : Nat} (t : Text)
    (hclose : c = '\x7d' → depth ≠ 0) :
    nesting '\x7b' '\x7d' depth (c :: t) =
      nesting '\x7b' '\x7d' (depthAfter c depth) t := by
  rw [nesting, depthAfter]
  split_ifs with hopener hcloser hdepth
  · rfl
  · exact absurd hdepth (hclose hcloser)
  · rfl
  · rfl

theorem closes_of_nesting_cons {c : Char} {depth final : Nat} {t : Text}
    (h : nesting '\x7b' '\x7d' depth (c :: t) = some final) :
    c = '\x7d' → depth ≠ 0 := by
  rintro rfl rfl
  simp [nesting] at h

theorem isPiece_nil_iff (depth : Nat) : IsPiece depth [] ↔ depth = 0 := by
  constructor
  · rintro ⟨hcloses, -⟩
    exact Option.some.inj hcloses
  · rintro rfl
    exact ⟨rfl, by simp⟩

theorem isPiece_cons_iff (c : Char) (depth : Nat) (t : Text) :
    IsPiece depth (c :: t) ↔
      (c = ',' → depth ≠ 0) ∧ (c = '\x7d' → depth ≠ 0) ∧
        IsPiece (depthAfter c depth) t := by
  constructor
  · rintro ⟨hcloses, hcomma⟩
    have hclose := closes_of_nesting_cons hcloses
    refine ⟨?_, hclose, ?_, ?_⟩
    · rintro rfl rfl
      exact hcomma [] t rfl rfl
    · rwa [nesting_cons_of_closes c t hclose] at hcloses
    · rintro before after rfl
      have := hcomma (c :: before) after rfl
      rwa [nesting_cons_of_closes c before hclose] at this
  · rintro ⟨hfirst, hclose, hcloses, hcomma⟩
    constructor
    · rwa [nesting_cons_of_closes c t hclose]
    · intro before after ht
      rcases before with _ | ⟨b, before⟩
      · obtain ⟨rfl, -⟩ := List.cons.inj ht
        simpa using hfirst rfl
      · obtain ⟨rfl, hrest⟩ := List.cons.inj ht
        rw [nesting_cons_of_closes c before hclose]
        exact hcomma before after hrest

theorem splitPieces_cons (c : Char) (depth : Nat) (t : Text) :
    splitPieces depth (c :: t) =
      if c = ',' ∧ depth = 0 then
        ([], (splitPieces 0 t).1 :: (splitPieces 0 t).2)
      else
        (c :: (splitPieces (depthAfter c depth) t).1,
          (splitPieces (depthAfter c depth) t).2) := by
  rw [splitPieces, depthAfter]
  split_ifs with hcut
  · rw [hcut.2]
  all_goals rfl

theorem join_cons_cons (separator : Text) (c : Char) (first : Text)
    (rest : List Text) :
    Text.join separator ((c :: first) :: rest) =
      c :: Text.join separator (first :: rest) := by
  cases rest <;> simp [Text.join]

/-- A text is cut where its first piece ends, and on from there. -/
theorem splitPieces_append {depth : Nat} {piece : Text}
    (hpiece : IsPiece depth piece) (t : Text) :
    splitPieces depth (piece ++ t) =
      (piece ++ (splitPieces 0 t).1, (splitPieces 0 t).2) := by
  induction piece generalizing depth with
  | nil =>
      rw [(isPiece_nil_iff depth).mp hpiece]
      rfl
  | cons c piece ih =>
      obtain ⟨hcomma, -, hrest⟩ := (isPiece_cons_iff c depth piece).mp hpiece
      have hkeep : ¬ (c = ',' ∧ depth = 0) := fun hcut => hcomma hcut.1 hcut.2
      rw [List.cons_append, splitPieces_cons, if_neg hkeep, ih hrest]
      rfl

theorem splitPieces_join {piece : Text} {pieces : List Text}
    (hall : ∀ o ∈ piece :: pieces, IsPiece 0 o) :
    splitPieces 0 (Text.join [','] (piece :: pieces)) = (piece, pieces) := by
  induction pieces generalizing piece with
  | nil =>
      have hjoin : Text.join [','] [piece] = piece ++ [] := by
        simp [Text.join]
      rw [hjoin, splitPieces_append (hall piece List.mem_cons_self)]
      simp [splitPieces]
  | cons next pieces ih =>
      have hjoin : Text.join [','] (piece :: next :: pieces) =
          piece ++ ',' :: Text.join [','] (next :: pieces) := by
        simp [Text.join, List.intercalate_cons_cons]
      rw [hjoin, splitPieces_append (hall piece List.mem_cons_self),
        splitPieces_cons, if_pos ⟨rfl, rfl⟩,
        ih fun o ho => hall o (List.mem_cons_of_mem piece ho)]
      simp

/-- Cutting a text whose braces close gives pieces that join to it. -/
theorem splitPieces_spec {depth : Nat} {t : Text}
    (hcloses : nesting '\x7b' '\x7d' depth t = some 0) :
    Text.join [','] ((splitPieces depth t).1 :: (splitPieces depth t).2) = t ∧
      IsPiece depth (splitPieces depth t).1 ∧
      ∀ o ∈ (splitPieces depth t).2, IsPiece 0 o := by
  induction t generalizing depth with
  | nil =>
      have hdepth : depth = 0 := Option.some.inj hcloses
      refine ⟨rfl, (isPiece_nil_iff depth).mpr hdepth, ?_⟩
      simp [splitPieces]
  | cons c t ih =>
      have hclose := closes_of_nesting_cons hcloses
      rw [nesting_cons_of_closes c t hclose] at hcloses
      obtain ⟨hjoin, hfirst, hrest⟩ := ih hcloses
      rw [splitPieces_cons]
      by_cases hcut : c = ',' ∧ depth = 0
      · obtain ⟨rfl, rfl⟩ := hcut
        rw [if_pos ⟨rfl, rfl⟩]
        refine ⟨?_, (isPiece_nil_iff 0).mpr rfl, ?_⟩
        · rw [Text.join, List.intercalate_cons_cons]
          exact congrArg _ hjoin
        · intro o ho
          rcases List.mem_cons.mp ho with rfl | ho
          · exact hfirst
          · exact hrest o ho
      · rw [if_neg hcut]
        refine ⟨?_, (isPiece_cons_iff ..).mpr ⟨?_, hclose, hfirst⟩, hrest⟩
        · rw [join_cons_cons, hjoin]
        · intro hcomma hdepth
          exact hcut ⟨hcomma, hdepth⟩

theorem nesting_join {options : List Text}
    (hall : ∀ o ∈ options, NormalOption o) :
    nesting '\x7b' '\x7d' 0 (Text.join [','] options) = some 0 := by
  induction options with
  | nil => rfl
  | cons o options ih =>
      have hfirst := (balanced_iff_nesting (by decide) o).mp
        (hall o List.mem_cons_self).balanced
      rcases options with _ | ⟨next, options⟩
      · simpa [Text.join] using hfirst
      · have hrest := ih fun p hp => hall p (List.mem_cons_of_mem o hp)
        have hjoin : Text.join [','] (o :: next :: options) =
            o ++ ([','] ++ Text.join [','] (next :: options)) := by
          simp [Text.join, List.intercalate_cons_cons]
        rw [hjoin, nesting_append, hfirst, Option.bind_some, nesting_append,
          nesting_singleton_other (by decide) (by decide), Option.bind_some,
          hrest]

/-- Options come back from the text that joins them, unless there is just one
and it is empty. -/
theorem splitOptions_join {options : List Text} (hsingle : options ≠ [[]])
    (hall : ∀ o ∈ options, NormalOption o) :
    splitOptions (Text.join [','] options) = options := by
  rcases options with _ | ⟨piece, pieces⟩
  · rfl
  · have hpieces : splitPieces 0 (Text.join [','] (piece :: pieces)) =
        (piece, pieces) :=
      splitPieces_join fun o ho => (normalOption_iff_isPiece o).mp (hall o ho)
    have hraw : (Text.join [','] (piece :: pieces)).isEmpty = false := by
      rcases pieces with _ | ⟨next, pieces⟩
      · simpa [Text.join] using fun h => hsingle (by rw [h])
      · simp [Text.join]
    rw [splitOptions, hraw, hpieces]
    rfl

/-- The options between braces are normal and join to the text there. -/
theorem splitOptions_spec {raw : Text}
    (hcloses : nesting '\x7b' '\x7d' 0 raw = some 0) :
    Text.join [','] (splitOptions raw) = raw ∧ splitOptions raw ≠ [[]] ∧
      ∀ o ∈ splitOptions raw, NormalOption o := by
  rcases raw with _ | ⟨c, raw⟩
  · exact ⟨rfl, by simp [splitOptions], by simp [splitOptions]⟩
  · obtain ⟨hjoin, hfirst, hrest⟩ := splitPieces_spec hcloses
    have hsplit : splitOptions (c :: raw) =
        (splitPieces 0 (c :: raw)).1 :: (splitPieces 0 (c :: raw)).2 := rfl
    rw [hsplit]
    refine ⟨hjoin, ?_, ?_⟩
    · intro hsingle
      rw [hsingle] at hjoin
      exact absurd hjoin (List.cons_ne_nil c raw).symm
    · intro o ho
      rw [normalOption_iff_isPiece]
      rcases List.mem_cons.mp ho with rfl | ho
      · exact hfirst
      · exact hrest o ho

end Logline.Pattern
