import Mathlib.Data.List.Infix
import Mathlib.Data.List.Nodup
import Logline.Proofs.Time.Formats
/-!
Layouts by example.  A layout is split into parts of the reference moment, the
leftmost and among those the longest first, and other characters
(`DateLayout.Splits`).  Its format is the row of their directives, and no piece
takes characters of its neighbours: every layout is accepted, and a date in it
is the row of what its pieces show (`DateLayout.render_by_example`).  Of the
reference moment itself it is the layout (`DateLayout.render_reference`).
-/
namespace Logline

namespace DateLayout

/-! ### Splitting a layout -/

/-- A piece of a layout: an entry of the table, which is a part of the
reference moment with the directive that it stands for, or another
character. -/
inductive Piece
  | token (entry : Text × Text) (hmem : entry ∈ referenceTokens)
  | other (c : Char)
deriving DecidableEq

namespace Piece

/-- What the piece is in the layout. -/
def text : Piece → Text
  | token entry _ => entry.1
  | other c => [c]

/-- What the piece is in the format; a percent sign is not to be the start of a
directive. -/
def format : Piece → Text
  | token entry _ => entry.2
  | other c => if c = '%' then ['%', '%'] else [c]

/-- What the piece shows of a timestamp: a directive what it renders on its
own. -/
def render? (t : Timestamp) : Piece → Option Text
  | token entry _ => (Item.readAll? entry.2).bind (Item.renderAll? t)
  | other c => some [c]

end Piece

/-- The entry is the longest of the table that the text starts with. -/
def IsLongestToken (entry : Text × Text) (t : Text) : Prop :=
  entry ∈ referenceTokens ∧ entry.1 <+: t ∧
    ∀ other ∈ referenceTokens, other.1 <+: t → other.1.length ≤ entry.1.length

/-- The leftmost-longest split of a layout. -/
inductive Splits : Text → List Piece → Prop
  | nil : Splits [] []
  | token {entry : Text × Text} {rest : Text} {pieces : List Piece}
      (hlongest : IsLongestToken entry (entry.1 ++ rest))
      (hrest : Splits rest pieces) :
      Splits (entry.1 ++ rest) (.token entry hlongest.1 :: pieces)
  | other {c : Char} {rest : Text} {pieces : List Piece}
      (hnone : ∀ entry ∈ referenceTokens, ¬ entry.1 <+: c :: rest)
      (hrest : Splits rest pieces) :
      Splits (c :: rest) (.other c :: pieces)

/-! ### The table -/

theorem sorted_referenceTokens :
    referenceTokens.Pairwise fun longer shorter =>
      shorter.1.length ≤ longer.1.length := by
  decide

theorem nodup_referenceTokens : (referenceTokens.map Prod.fst).Nodup := by
  decide +kernel

theorem ne_nil_of_mem_referenceTokens :
    ∀ entry ∈ referenceTokens, entry.1 ≠ [] := by
  decide

theorem IsLongestToken.eq {entry other : Text × Text} {t : Text}
    (h : IsLongestToken entry t) (hother : IsLongestToken other t) :
    entry = other := by
  obtain ⟨hmem, hprefix, hlongest⟩ := h
  obtain ⟨hmem', hprefix', hlongest'⟩ := hother
  have hlength : entry.1.length = other.1.length :=
    Nat.le_antisymm (hlongest' entry hmem hprefix)
      (hlongest other hmem' hprefix')
  have htext : entry.1 = other.1 :=
    (List.prefix_of_prefix_length_le hprefix hprefix' hlength.le).eq_of_length
      hlength
  exact List.inj_on_of_nodup_map nodup_referenceTokens hmem hmem' htext

/-- The table has longer tokens first, so that the first one that fits is the
longest. -/
theorem referenceToken?_eq_some_iff {t : Text} {entry : Text × Text} :
    referenceToken? t = some entry ↔ IsLongestToken entry t := by
  have hlongest : ∀ found, referenceToken? t = some found →
      IsLongestToken found t := by
    intro found hfound
    have hmem := List.mem_of_find?_eq_some hfound
    obtain ⟨hfits, before, behind, htable, hbefore⟩ :=
      List.find?_eq_some_iff_append.mp hfound
    refine ⟨hmem, List.isPrefixOf_iff_prefix.mp hfits, ?_⟩
    intro other hother hprefix
    have hsorted := sorted_referenceTokens
    rw [htable] at hother hsorted
    -- an entry before the one that is found does not fit, and one behind it is
    -- not longer
    obtain hother | hother := List.mem_append.mp hother
    · have hnot := hbefore other hother
      simp [List.isPrefixOf_iff_prefix.mpr hprefix] at hnot
    · obtain rfl | hother := List.mem_cons.mp hother
      · exact Nat.le_refl _
      · exact List.rel_of_pairwise_cons
          (List.pairwise_append.mp hsorted).2.1 hother
  refine ⟨hlongest entry, fun h => ?_⟩
  cases hfound : referenceToken? t with
  | none =>
      have hnone := List.find?_eq_none.mp hfound entry h.1
      simp [List.isPrefixOf_iff_prefix.mpr h.2.1] at hnone
  | some found => rw [(hlongest found hfound).eq h]

theorem referenceToken?_eq_none_iff {t : Text} :
    referenceToken? t = none ↔ ∀ entry ∈ referenceTokens, ¬ entry.1 <+: t := by
  simp [referenceToken?, List.find?_eq_none]

/-! ### Translating piece by piece -/

theorem translateFrom_length_append (word rest : Text) :
    translateFrom word.length (word ++ rest) = translateReference rest := by
  induction word with
  | nil => rfl
  | cons c word ih => exact ih

theorem translateReference_token {entry : Text × Text} {rest : Text}
    (h : IsLongestToken entry (entry.1 ++ rest)) :
    translateReference (entry.1 ++ rest) =
      entry.2 ++ translateReference rest := by
  have hfound := referenceToken?_eq_some_iff.mpr h
  obtain ⟨_ | ⟨c, text⟩, directive⟩ := entry
  · exact absurd rfl (ne_nil_of_mem_referenceTokens _ h.1)
  · rw [translateReference, List.cons_append, translateFrom,
      ← List.cons_append, hfound]
    exact congrArg (directive ++ ·) (translateFrom_length_append text rest)

theorem translateReference_other {c : Char} {rest : Text}
    (h : ∀ entry ∈ referenceTokens, ¬ entry.1 <+: c :: rest) :
    translateReference (c :: rest) =
      (Piece.other c).format ++ translateReference rest := by
  rw [translateReference, translateFrom, referenceToken?_eq_none_iff.mpr h,
    Piece.format]
  split_ifs <;> rfl

namespace Splits

theorem translateReference_eq {layout : Text} {pieces : List Piece}
    (h : Splits layout pieces) :
    translateReference layout = pieces.flatMap Piece.format := by
  induction h with
  | nil => rfl
  | token hlongest _ ih =>
      rw [translateReference_token hlongest, ih, List.flatMap_cons]; rfl
  | other hnone _ ih =>
      rw [translateReference_other hnone, ih, List.flatMap_cons]

theorem flatMap_text {layout : Text} {pieces : List Piece}
    (h : Splits layout pieces) :
    pieces.flatMap Piece.text = layout := by
  induction h with
  | nil => rfl
  | token _ _ ih => rw [List.flatMap_cons, ih, Piece.text]
  | other _ _ ih => rw [List.flatMap_cons, ih, Piece.text,
      List.singleton_append]

/-- A layout is split in one way only. -/
theorem unique {layout : Text} {pieces others : List Piece}
    (h : Splits layout pieces) (hothers : Splits layout others) :
    others = pieces := by
  induction h generalizing others with
  -- the other split is taken apart at a variable, as its first token is not
  -- known to be the same
  | nil =>
      generalize hlayout : [] = layout at hothers
      cases hothers with
      | nil => rfl
      | token hlongest _ =>
          exact absurd (List.nil_eq_append_iff.mp hlayout).1
            (ne_nil_of_mem_referenceTokens _ hlongest.1)
      | other _ _ => contradiction
  | @token entry rest pieces hlongest _ ih =>
      generalize hlayout : entry.1 ++ rest = layout at hothers hlongest
      cases hothers with
      | nil =>
          exact absurd (List.append_eq_nil_iff.mp hlayout).1
            (ne_nil_of_mem_referenceTokens _ hlongest.1)
      | token hlongest' hrest' =>
          obtain rfl := hlongest.eq hlongest'
          obtain rfl := List.append_cancel_left hlayout
          rw [ih hrest']
      | other hnone _ => exact absurd hlongest.2.1 (hnone _ hlongest.1)
  | @other c rest pieces hnone _ ih =>
      generalize hlayout : c :: rest = layout at hothers hnone
      cases hothers with
      | nil => contradiction
      | token hlongest _ => exact absurd hlongest.2.1 (hnone _ hlongest.1)
      | other _ hrest' =>
          obtain ⟨rfl, rfl⟩ := List.cons.inj hlayout
          rw [ih hrest']

end Splits

theorem exists_splits (layout : Text) : ∃ pieces, Splits layout pieces := by
  induction hlength : layout.length using Nat.strong_induction_on
    generalizing layout with
  | h n ih =>
      cases hfound : referenceToken? layout with
      | some entry =>
          have hlongest := referenceToken?_eq_some_iff.mp hfound
          obtain ⟨rest, rfl⟩ := hlongest.2.1
          have hpos := List.length_pos_iff.mpr
            (ne_nil_of_mem_referenceTokens entry hlongest.1)
          rw [List.length_append] at hlength
          obtain ⟨pieces, hpieces⟩ := ih rest.length (by omega) rest rfl
          exact ⟨.token entry hlongest.1 :: pieces, .token hlongest hpieces⟩
      | none =>
          cases layout with
          | nil => exact ⟨[], .nil⟩
          | cons c rest =>
              rw [List.length_cons] at hlength
              obtain ⟨pieces, hpieces⟩ := ih rest.length (by omega) rest rfl
              exact ⟨.other c :: pieces,
                .other (referenceToken?_eq_none_iff.mp hfound) hpieces⟩

/-! ### Rendering piece by piece -/

/-- Every directive of the table can be read and rendered on its own. -/
theorem exists_items_of_mem_referenceTokens : ∀ entry ∈ referenceTokens,
    ∃ items ∈ Item.readAll? entry.2, Item.anyOffset ∉ items := by
  decide

namespace Piece

theorem exists_items (piece : Piece) :
    ∃ items, Item.Reads piece.format items ∧ Item.anyOffset ∉ items ∧
      ∀ t, Item.renderAll? t items = piece.render? t := by
  cases piece with
  | token entry hmem =>
      obtain ⟨items, hread, hrendered⟩ :=
        exists_items_of_mem_referenceTokens entry hmem
      have hread : Item.readAll? entry.2 = some items := hread
      refine ⟨items, Item.readAll?_eq_some_iff.mp hread, hrendered, fun t => ?_⟩
      rw [render?, hread, Option.bind_some]
  | other c =>
      refine ⟨[.literal c], ?_, by simp, fun t => rfl⟩
      rw [format]
      split_ifs with hc
      · subst hc
        have hpercent : Item.Directive ['%'] [.literal '%'] := .letter rfl
        exact .directive hpercent .nil
      · exact .literal hc .nil

/-- The formats of pieces, one behind the other, show what the pieces show. -/
theorem exists_items_flatMap (pieces : List Piece) :
    ∃ items, Item.Reads (pieces.flatMap format) items ∧ Item.anyOffset ∉ items ∧
      ∀ t, Item.renderAll? t items =
        (pieces.mapM (render? t)).map List.flatten := by
  induction pieces with
  | nil => exact ⟨[], .nil, by simp, fun t => rfl⟩
  | cons piece pieces ih =>
      obtain ⟨first, hfirst, hrendered, hshows⟩ := exists_items piece
      obtain ⟨more, hmore, hrendered', hshows'⟩ := ih
      refine ⟨first ++ more, ?_, ?_, fun t => ?_⟩
      · rw [List.flatMap_cons]
        exact hfirst.append hmore
      · rw [List.mem_append, not_or]
        exact ⟨hrendered, hrendered'⟩
      · rw [Item.renderAll?_append, hshows, hshows', List.mapM_cons]
        cases piece.render? t with
        | none => rfl
        | some text => cases pieces.mapM (render? t) <;> rfl

end Piece

namespace Splits

theorem infix_of_mem {layout : Text} {pieces : List Piece}
    (h : Splits layout pieces) :
    ∀ piece ∈ pieces, piece.text <:+: layout := by
  induction h with
  | nil => simp
  | token hlongest _ ih =>
      refine List.forall_mem_cons.mpr
        ⟨hlongest.2.1.isInfix, fun piece hpiece => ?_⟩
      exact (ih piece hpiece).trans (List.suffix_append _ _).isInfix
  | other _ _ ih =>
      refine List.forall_mem_cons.mpr ⟨(List.prefix_append [_] _).isInfix,
        fun piece hpiece => ?_⟩
      exact (ih piece hpiece).trans (List.suffix_cons _ _).isInfix

/-- The format of a layout by example is known, and dates in it are what the
pieces of the layout show. -/
theorem exists_layout {option : Text} {pieces : List Piece}
    (h : Splits option pieces) :
    ∃ layout : DateLayout, layout.format = translateReference option ∧
      ∀ t, ∃ texts, pieces.mapM (Piece.render? t) = some texts ∧
        layout.render? t = some texts.flatten := by
  obtain ⟨items, hread, hrendered, hshows⟩ := Piece.exists_items_flatMap pieces
  rw [← h.translateReference_eq] at hread
  refine ⟨⟨translateReference option, by rw [hread.readAll?]; rfl⟩,
    rfl, fun t => ?_⟩
  have hsome : Item.renderAll? t items ≠ none := fun hnone =>
    hrendered (Item.renderAll?_eq_none_iff.mp hnone)
  obtain ⟨text, htext⟩ := Option.ne_none_iff_exists'.mp hsome
  obtain ⟨texts, htexts, rfl⟩ :=
    Option.map_eq_some_iff.mp ((hshows t).symm.trans htext)
  refine ⟨texts, htexts, ?_⟩
  rw [DateLayout.render?, DateLayout.items]
  simp only [hread.readAll?, Option.get_some, htext]

end Splits

/-! ### Accepting a layout -/

theorem ofOption_by_example {option : Text} (hoption : option ≠ [])
    (hpercent : '%' ∉ option) {layout : DateLayout}
    (hformat : layout.format = translateReference option) :
    ofOption option = .ok layout := by
  have hempty : option.isEmpty = false := by simpa using hoption
  have hcontains : option.contains '%' = false := by simpa using hpercent
  obtain ⟨format, known⟩ := layout
  obtain rfl : format = translateReference option := hformat
  simp only [ofOption, hempty, hcontains, Bool.false_eq_true, if_false,
    known, dif_pos]

/-- A layout by example is accepted, whatever it is, and a date in it is what
the pieces of the layout show: its leftmost-longest split into parts of the
reference moment, each of which shows what its directive renders on its own,
and other characters, which stand for themselves. -/
theorem render_by_example {option : Text} (hoption : option ≠ [])
    (hpercent : '%' ∉ option) :
    ∃ layout pieces, ofOption option = .ok layout ∧ Splits option pieces ∧
      (∀ others, Splits option others → others = pieces) ∧
      ∀ t, ∃ texts, pieces.mapM (Piece.render? t) = some texts ∧
        layout.render? t = some texts.flatten := by
  obtain ⟨pieces, hpieces⟩ := exists_splits option
  obtain ⟨layout, hformat, hshows⟩ := hpieces.exists_layout
  exact ⟨layout, pieces, ofOption_by_example hoption hpercent hformat, hpieces,
    fun _ => hpieces.unique, hshows⟩

namespace ByExampleWitness

/-- Tokens side by side, one digit too many for each, and characters of two
bytes. -/
def option : Text := "20061é.0000_2Janu15:045".toList

/-- 2021-03-04T13:30:00.005, seven and a half hours west. -/
def time : Timestamp := ⟨1614891600, 5000000, -27000⟩

theorem render_by_example_sample :
    option ≠ [] ∧ '%' ∉ option ∧
      ∃ layout pieces, ofOption option = .ok layout ∧ Splits option pieces ∧
        layout.format = "%Y%-mé%.3f0%e%bu%H:%M%-S".toList ∧
        ∃ texts, pieces.mapM (Piece.render? time) = some texts ∧
          texts.flatten = "20213é.0050 4Maru13:300".toList := by
  have hoption : option ≠ [] := by decide
  have hpercent : '%' ∉ option := by decide
  obtain ⟨layout, pieces, hlayout, hpieces, -, hshows⟩ :=
    render_by_example hoption hpercent
  obtain ⟨texts, htexts, hrender⟩ := hshows time
  have haccepted : ofOption option =
      .ok ⟨"%Y%-mé%.3f0%e%bu%H:%M%-S".toList, by decide⟩ := rfl
  obtain rfl := Except.ok.inj (haccepted.symm.trans hlayout)
  refine ⟨hoption, hpercent, _, pieces, haccepted, hpieces, rfl,
    texts, htexts, ?_⟩
  exact Option.some.inj (hrender.symm.trans (by decide +kernel))

end ByExampleWitness

end DateLayout

/-! ### The reference moment -/

/-- Monday 2006-01-02, 15:04:05, seven hours west. -/
def Timestamp.reference : Timestamp where
  seconds := Date.toDays ⟨2006, 1, 2⟩ * secondsPerDay +
    (15 * 3600 + 4 * 60 + 5) + 7 * 3600
  nanos := 0
  offset := -(7 * 3600)

namespace DateLayout

/-- The tokens that are written in another way than dates show them: zones by
letters, and a day behind an underscore. -/
def symbolicTokens : List Text :=
  ["Z07:00".toList, "Z0700".toList, "MST".toList, "_2".toList]

/-- Every other token is what its directive shows of the reference moment. -/
theorem render?_token_reference :
    ∀ entry ∈ referenceTokens, entry.1 ∉ symbolicTokens →
    (Item.readAll? entry.2).bind (Item.renderAll? .reference) =
      some entry.1 := by
  decide +kernel

theorem Piece.mapM_render? {t : Timestamp} {pieces : List Piece}
    (h : ∀ piece ∈ pieces, piece.render? t = some piece.text) :
    pieces.mapM (render? t) = some (pieces.map text) := by
  induction pieces with
  | nil => rfl
  | cons piece pieces ih =>
      obtain ⟨hpiece, hrest⟩ := List.forall_mem_cons.mp h
      rw [List.mapM_cons, hpiece, ih hrest]
      rfl

theorem Splits.render?_reference {layout : Text} {pieces : List Piece}
    (h : Splits layout pieces)
    (hlayout : ∀ token ∈ symbolicTokens, ¬ token <:+: layout) :
    ∀ piece ∈ pieces, piece.render? .reference = some piece.text := by
  intro piece hpiece
  have hinfix := h.infix_of_mem piece hpiece
  cases piece with
  | token entry hmem =>
      exact render?_token_reference entry hmem fun hsymbolic =>
        hlayout _ hsymbolic hinfix
  | other c => rfl

/-- A layout by example shows the reference moment as the layout has it, if no
token in it is a symbol. -/
theorem render_reference {option : Text}
    (h : ∀ token ∈ symbolicTokens, ¬ token <:+: option) :
    ∃ layout : DateLayout, layout.format = translateReference option ∧
      layout.render? .reference = some option := by
  obtain ⟨pieces, hpieces⟩ := exists_splits option
  obtain ⟨layout, hformat, hshows⟩ := hpieces.exists_layout
  obtain ⟨texts, htexts, hrender⟩ := hshows .reference
  rw [Piece.mapM_render? (hpieces.render?_reference h)] at htexts
  obtain rfl := Option.some.inj htexts
  refine ⟨layout, hformat, ?_⟩
  rw [hrender, ← List.flatMap_def, hpieces.flatMap_text]

/-- Tokens between other characters, percent signs among them, and a digit
behind each. -/
theorem render_reference_sample :
    (∀ token ∈ symbolicTokens,
      ¬ token <:+: "%Mon%1 20062.0000 -07:00é002%%".toList) ∧
      ∃ layout : DateLayout, layout.format =
        "%%%a%%%-m %Y%-d%.3f0 %:zé%j%%%%".toList ∧
        layout.render? .reference =
          some "%Mon%1 20062.0000 -07:00é002%%".toList := by
  have h : ∀ token ∈ symbolicTokens,
      ¬ token <:+: "%Mon%1 20062.0000 -07:00é002%%".toList := by
    decide +kernel
  obtain ⟨layout, hformat, hrender⟩ := render_reference h
  exact ⟨h, layout, hformat.trans (by decide +kernel), hrender⟩

end DateLayout

end Logline
