import Mathlib.Data.List.Chain
import Logline.Proofs.Text.OneLine
import Logline.Proofs.Time.Visible
/-!
Dates in one line.  The directives `%n` and `%t` are the only ones that stand
for a break, so a format without breaks and without these two renders every
timestamp in one line (`oneLine_render`).  The format of a layout by example
has them no more than the layout has.
-/
namespace Logline

/-! ### Items -/

theorem Text.Visible.oneLine {t : Text} (h : t.Visible) : t.OneLine := by
  intro c hc
  have hvisible := h c hc
  refine ⟨?_, ?_, ?_⟩ <;> rintro rfl <;> exact absurd hvisible (by decide)

namespace Item

/-- The item does not copy a break. -/
def OneLine : Item → Prop
  | literal c => Text.OneLine [c]
  | offset separator => separator.OneLine
  | _ => True

instance (item : Item) : Decidable item.OneLine := by
  cases item <;> unfold OneLine <;> infer_instance

theorem oneLine_iff (item : Item) : item.OneLine ↔ item.copied.OneLine := by
  cases item <;> simp [OneLine, copied]

theorem oneLine_render {t : Timestamp} {item : Item} {text : Text}
    (hitem : item.OneLine) (h : item.render? t = some text) : text.OneLine := by
  intro c hc
  rcases mem_render h hc with hvisible | hcopied
  · refine ⟨?_, ?_, ?_⟩ <;> rintro rfl <;> exact absurd hvisible (by decide)
  · exact item.oneLine_iff.mp hitem c hcopied

end Item

/-! ### Formats -/

namespace Text

/-- The text is one line, and nothing in it is the directive for a line feed or
a tab. -/
structure Unbroken (t : Text) : Prop where
  oneLine : t.OneLine
  feed : ¬ ['%', 'n'] <:+: t
  tab : ¬ ['%', 't'] <:+: t

theorem Unbroken.of_infix {s t : Text} (h : t.Unbroken) (hst : s <:+: t) :
    s.Unbroken where
  oneLine := h.oneLine.of_subset hst.subset
  feed hfeed := h.feed (hfeed.trans hst)
  tab htab := h.tab (htab.trans hst)

/-- A percent sign is not followed by the letter of a line feed or a tab. -/
def FollowsUnbroken (c next : Char) : Prop :=
  c = '%' → next ≠ 'n' ∧ next ≠ 't'

instance (c next : Char) : Decidable (FollowsUnbroken c next) :=
  inferInstanceAs (Decidable (c = '%' → next ≠ 'n' ∧ next ≠ 't'))

theorem unbroken_of_isChain {t : Text} (h : t.OneLine)
    (hchain : t.IsChain FollowsUnbroken) :
    t.Unbroken where
  oneLine := h
  feed hfeed := by
    have hpair := List.isChain_pair.mp <| hchain.infix hfeed
    exact (hpair rfl).1 rfl
  tab htab := by
    have hpair := List.isChain_pair.mp <| hchain.infix htab
    exact (hpair rfl).2 rfl

end Text

namespace Item

theorem oneLine_directive {rest : Text} {items : List Item} {used : Nat}
    (h : directive? rest = some (items, used)) (hfeed : rest.head? ≠ some 'n')
    (htab : rest.head? ≠ some 't') : ∀ item ∈ items, item.OneLine := by
  intro item hitem
  rcases copied_directive h item hitem with hvisible | ⟨hhead, -⟩ | ⟨hhead, -⟩
  · exact item.oneLine_iff.mpr hvisible.oneLine
  · exact absurd hhead hfeed
  · exact absurd hhead htab

theorem oneLine_readFrom {format : Text} (hformat : format.Unbroken)
    {skip : Nat} {items : List Item} (h : readFrom? skip format = some items) :
    ∀ item ∈ items, item.OneLine := by
  refine forall_readFrom ?_ ?_ h
  · intro c hc
    exact Text.oneLine_cons_iff.mpr ⟨hformat.oneLine c hc, Text.oneLine_nil⟩
  · intro rest items used hinfix hdirective
    apply oneLine_directive hdirective
    · intro hhead
      obtain ⟨rest, rfl⟩ := List.head?_eq_some_iff.mp hhead
      exact hformat.feed
        ((List.prefix_append ['%', 'n'] rest).isInfix.trans hinfix)
    · intro hhead
      obtain ⟨rest, rfl⟩ := List.head?_eq_some_iff.mp hhead
      exact hformat.tab
        ((List.prefix_append ['%', 't'] rest).isInfix.trans hinfix)

theorem oneLine_renderAll {t : Timestamp} {items : List Item}
    (hitems : ∀ item ∈ items, item.OneLine) {text : Text}
    (h : renderAll? t items = some text) : text.OneLine := by
  obtain ⟨texts, htexts, rfl⟩ := Option.map_eq_some_iff.mp h
  intro c hc
  obtain ⟨part, hpart, hc⟩ := List.mem_flatten.mp hc
  obtain ⟨item, hitem, hrender⟩ := exists_render htexts part hpart
  exact oneLine_render (hitems item hitem) hrender c hc

end Item

/-! ### Layouts -/

/-- Every part of the reference moment stands for a directive that keeps the
line. -/
theorem unbroken_directives : ∀ entry ∈ referenceTokens, entry.2.OneLine ∧
    entry.2.IsChain Text.FollowsUnbroken ∧ entry.2.getLast? ≠ some '%' := by
  decide

theorem isChain_translateFrom {layout : Text} (hlayout : layout.OneLine)
    (hpercent : '%' ∉ layout) :
    ∀ skip : Nat, (translateFrom skip layout).OneLine ∧
      (translateFrom skip layout).IsChain Text.FollowsUnbroken := by
  induction layout with
  | nil =>
      intro skip
      rw [translateFrom]
      exact ⟨Text.oneLine_nil, .nil⟩
  | cons c rest ih =>
      obtain ⟨hc, hrest⟩ := Text.oneLine_cons_iff.mp hlayout
      have hnext := ih hrest fun hmem => hpercent (List.mem_cons_of_mem c hmem)
      intro skip
      cases skip with
      | succ skip => exact hnext skip
      | zero =>
          rw [translateFrom]
          cases htoken : referenceToken? (c :: rest) with
          | none =>
              have hne : c ≠ '%' := fun he => hpercent (by simp [he])
              obtain ⟨hline, hchain⟩ := hnext 0
              simp only [if_neg hne]
              refine ⟨Text.oneLine_cons_iff.mpr ⟨hc, hline⟩,
                List.isChain_cons.mpr ⟨?_, hchain⟩⟩
              intro next _ he
              exact absurd he hne
          | some entry =>
              obtain ⟨hline, hchain⟩ := hnext (entry.1.length - 1)
              obtain ⟨hline', hchain', hlast⟩ :=
                unbroken_directives entry (List.mem_of_find?_eq_some htoken)
              refine ⟨Text.oneLine_append_iff.mpr ⟨hline', hline⟩,
                List.isChain_append.mpr ⟨hchain', hchain, ?_⟩⟩
              intro d hd next _ he
              exact absurd (he ▸ hd) hlast

theorem unbroken_translateReference {layout : Text} (hlayout : layout.OneLine)
    (hpercent : '%' ∉ layout) : (translateReference layout).Unbroken := by
  obtain ⟨hline, hchain⟩ := isChain_translateFrom hlayout hpercent 0
  exact Text.unbroken_of_isChain hline hchain

namespace DateLayout

theorem unbroken_default : (default : DateLayout).format.Unbroken :=
  unbroken_translateReference (by decide) (by decide)

theorem unbroken_ofOption {option : Text} {layout : DateLayout}
    (hoption : option.Unbroken) (h : ofOption option = .ok layout) :
    layout.format.Unbroken := by
  obtain ⟨-, hformat⟩ | ⟨hpercent, hformat⟩ := ofOption_cases h
  · rwa [hformat]
  · rw [hformat]
    split_ifs
    · exact unbroken_default
    · exact unbroken_translateReference hoption.oneLine hpercent

theorem oneLine_render {layout : DateLayout} (h : layout.format.Unbroken)
    {t : Timestamp} {text : Text} (htext : layout.render? t = some text) :
    text.OneLine := by
  have hread : Item.readFrom? 0 layout.format = some layout.items :=
    (Option.some_get layout.known).symm
  exact Item.oneLine_renderAll (Item.oneLine_readFrom h hread) htext

end DateLayout

end Logline
