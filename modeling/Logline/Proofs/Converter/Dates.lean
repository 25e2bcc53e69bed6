import Logline.Converter.Samples
import Logline.Proofs.Time.ByExample
/-!
Dates of accepted layouts.  Accepting a layout means that its directives are
known, and of these one alone, `%#z`, cannot be rendered: a converter with any
other layout writes the date of every event, and one with this directive panics
on every event (`Converter.write_date_cases`).
-/
namespace Logline

namespace DateLayout

theorem render?_eq_none_iff {layout : DateLayout} {t : Timestamp} :
    layout.render? t = none ↔ Item.anyOffset ∈ layout.items :=
  Item.renderAll?_eq_none_iff

theorem anyOffset_not_mem_items {layout : DateLayout} {option : Text}
    (h : layout.format = translateReference option) :
    Item.anyOffset ∉ layout.items := by
  obtain ⟨pieces, hpieces⟩ := exists_splits option
  obtain ⟨⟨format, known⟩, hformat, hshows⟩ := hpieces.exists_layout
  obtain ⟨format', known'⟩ := layout
  obtain rfl : format' = format := Eq.trans h hformat.symm
  obtain ⟨texts, -, hrender⟩ := hshows .epoch
  intro hmem
  rw [render?_eq_none_iff.mpr hmem] at hrender
  contradiction

/-- The option has the directive `%#z`, which is for reading dates: it stands
behind a format of its own, so that its `%` does not belong to a directive
before it. -/
def ForReading (option : Text) : Prop :=
  ∃ before behind items, option = before ++ "%#z".toList ++ behind ∧
    Item.Reads before items

theorem anyOffset_mem_items_iff {option : Text} {layout : DateLayout}
    (h : ofOption option = .ok layout) :
    Item.anyOffset ∈ layout.items ↔ ForReading option := by
  rcases ofOption_cases h with ⟨-, hformat⟩ | ⟨hpercent, hformat⟩
  · rw [layout.reads_items.anyOffset_mem_iff, hformat, ForReading]
  · refine iff_of_false (anyOffset_not_mem_items hformat) ?_
    rintro ⟨before, behind, -, rfl, -⟩
    simp at hpercent

end DateLayout

namespace Converter

variable {κ : Type}

/-- A converter with an accepted layout writes the date of every event, unless
the layout is for reading; then it panics on every event. -/
theorem write_date_cases {option : Text} {layout : DateLayout}
    (h : DateLayout.ofOption option = .ok layout) (ext : Extension κ)
    (e : Event) (out : Bytes) :
    (¬ DateLayout.ForReading option →
      ∃ text, layout.render? e.time = some text ∧
      write ext e (.date layout) out = ⟨.date layout, out ++ text.utf8, none⟩) ∧
    (DateLayout.ForReading option → layout.render? e.time = none ∧
      write ext e (.date layout) out =
        ⟨.date layout, out, some (.message dateFailure)⟩) := by
  rw [← DateLayout.anyOffset_mem_items_iff h,
    ← DateLayout.render?_eq_none_iff (t := e.time), write]
  cases hrender : layout.render? e.time with
  | none => simp
  | some text => simp

namespace DatesWitness

def event : Event := .new .info ⟨1614891600, 5000000, -27000⟩ ['m']

/-- The letters of `%#z` behind a percent sign that is written twice. -/
theorem write_date_cases_sample :
    ∃ layout, DateLayout.ofOption "%%#z %-d%%".toList = .ok layout ∧
      ¬ DateLayout.ForReading "%%#z %-d%%".toList ∧
      write Sample.extension event (.date layout) [10] =
        ⟨.date layout, 10 :: Text.utf8 "%#z 4%".toList, none⟩ := by
  have hlayout : DateLayout.ofOption "%%#z %-d%%".toList =
      .ok ⟨"%%#z %-d%%".toList, by decide⟩ := rfl
  have hreading : ¬ DateLayout.ForReading "%%#z %-d%%".toList := by
    rw [← DateLayout.anyOffset_mem_items_iff hlayout]
    decide
  obtain ⟨text, hrender, hwrite⟩ :=
    (write_date_cases hlayout Sample.extension event [10]).1 hreading
  have hshown : DateLayout.render? ⟨"%%#z %-d%%".toList, by decide⟩ event.time =
      some "%#z 4%".toList := by
    decide +kernel
  obtain rfl := Option.some.inj (hrender.symm.trans hshown)
  exact ⟨_, hlayout, hreading, hwrite⟩

/-- The layout is accepted, and no date can be written in it. -/
theorem accepted_for_reading :
    ∃ layout, DateLayout.ofOption "%#z".toList = .ok layout ∧
      layout.render? event.time = none ∧
      (write Sample.extension event (.date layout) []).panic =
        some (.message dateFailure) :=
  ⟨⟨"%#z".toList, by decide⟩, rfl, rfl, rfl⟩

end DatesWitness

end Converter

end Logline
