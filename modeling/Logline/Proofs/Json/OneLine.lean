import Logline.Json.Value
import Logline.Proofs.Text.OneLine
/-!
The compact text of a JSON value is one line: strings are escaped, and
everything else consists of digits, words and brackets.
-/
namespace Logline

namespace Text

theorem oneLine_replicate {c : Char} (n : Nat) (h : OneLine [c]) :
    OneLine (List.replicate n c) := by
  intro d hd
  obtain rfl := List.eq_of_mem_replicate hd
  exact h d List.mem_cons_self

theorem dropTrailingZeros_subset (t : Text) : dropTrailingZeros t ⊆ t := by
  intro c hc
  rw [dropTrailingZeros, List.mem_reverse] at hc
  exact List.mem_reverse.mp (List.dropWhile_subset _ hc)

end Text

theorem Decimal.oneLine_text (d : Decimal) : d.text.OneLine :=
  (Text.oneLine_ofNat d.digits).of_subset (Text.dropTrailingZeros_subset _)

theorem Double.oneLine_positional {digits : Text} (h : digits.OneLine)
    (e : Int) :
    (positional digits e).1.OneLine ∧ (positional digits e).2.OneLine := by
  rw [positional]
  split_ifs
  · have hzeros := Text.oneLine_replicate (-e - 1).toNat
      (by decide : Text.OneLine ['0'])
    exact ⟨(by decide : Text.OneLine ['0']),
      Text.oneLine_append_iff.mpr ⟨hzeros, h⟩⟩
  · exact ⟨Text.oneLine_append_iff.mpr
      ⟨h.of_subset (List.take_subset _ _),
        Text.oneLine_replicate _ (by decide)⟩,
      h.of_subset (List.drop_subset _ _)⟩

namespace Json

theorem oneLine_escaped (c : Char) : (escaped c).OneLine := by
  rw [escaped]
  split_ifs with hquote hslash hfeed hreturn htab hback hform hcontrol
  · decide
  · decide
  · decide
  · decide
  · decide
  · decide
  · decide
  · have hdigits : ∀ n < 32, (hexByte n).OneLine := by decide
    simpa using hdigits c.toNat hcontrol
  · simpa using ⟨hfeed, hreturn, htab⟩

theorem oneLine_quoted (t : Text) : (quoted t).OneLine := by
  have hinner : Text.OneLine (t.flatMap escaped) :=
    Text.oneLine_flatMap fun c _ => oneLine_escaped c
  simpa [quoted] using hinner

theorem oneLine_finiteText (d : Double) : (finiteText d).OneLine := by
  have hdigits := (d.shortest .even).oneLine_text
  rw [finiteText]
  generalize (d.shortest .even).leadingExponent = e
  generalize (d.shortest .even).text = digits at hdigits ⊢
  obtain ⟨hwhole, hfraction⟩ := Double.oneLine_positional hdigits e
  have hfirst : Text.OneLine (digits.take 1) :=
    hdigits.of_subset (List.take_subset _ _)
  have hrest : Text.OneLine digits.tail :=
    hdigits.of_subset (List.tail_sublist digits).subset
  have hexponent := Text.oneLine_ofNat e.natAbs
  dsimp only
  split_ifs <;> simp [hwhole, hfraction, hfirst, hrest, hexponent]

theorem oneLine_doubleText (d : Double) : (doubleText d).OneLine := by
  have hfinite := oneLine_finiteText d
  rw [doubleText]
  split_ifs
  · decide
  · decide
  · simpa using hfinite
  · decide
  · simpa using hfinite

mutual

theorem oneLine_text : ∀ v : Json, v.text.OneLine
  | .null => by decide
  | .bool true => by decide
  | .bool false => by decide
  | .number (.integer n) => Text.oneLine_ofInt n
  | .number (.double d) => oneLine_doubleText d
  | .string t => oneLine_quoted t
  | .array items => by
      have hitems := Text.oneLine_join (by decide : Text.OneLine [','])
        (oneLine_itemTexts items)
      simpa [text, commaJoin] using hitems
  | .object entries => by
      have hentries :=
        Text.oneLine_join (by decide : Text.OneLine [','])
          (oneLine_entryTexts entries)
      simpa [text, commaJoin] using hentries

theorem oneLine_itemTexts :
    ∀ items : List Json, ∀ t ∈ itemTexts items, t.OneLine
  | [] => by simp [itemTexts]
  | v :: rest => by
      rw [itemTexts]
      exact List.forall_mem_cons.mpr ⟨oneLine_text v, oneLine_itemTexts rest⟩

theorem oneLine_entryTexts :
    ∀ entries : List (Text × Json), ∀ t ∈ entryTexts entries, t.OneLine
  | [] => by simp [entryTexts]
  | (key, v) :: rest => by
      rw [entryTexts]
      refine List.forall_mem_cons.mpr ⟨?_, oneLine_entryTexts rest⟩
      have hv := oneLine_text v
      have hkey := oneLine_quoted key
      simp [hkey, hv]

end

end Json

end Logline
