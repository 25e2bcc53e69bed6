import Logline.Proofs.Converter.Compiled
import Logline.Proofs.Pattern.RoundTrip
/-!
Layouts of dates in patterns.  What stands between the braces of a `#date` is
cut at the commas outside inner braces, and the date is shown in the layout up
to the first of them (`Pattern.date_up_to_comma`): a layout means the same in a
pattern as by itself, unless it has such a comma.
-/
namespace Logline.Pattern

/-- The text up to its first comma outside braces; all of it if there is
none. -/
structure UpToComma (t first : Text) : Prop where
  normal : NormalOption first
  cut : t = first ∨ ∃ behind, t = first ++ ',' :: behind

theorem UpToComma.splitPieces {t first : Text} (h : UpToComma t first) :
    (splitPieces 0 t).1 = first := by
  obtain ⟨hnormal, hcut⟩ := h
  have hpiece := (normalOption_iff_isPiece first).mp hnormal
  obtain rfl | ⟨behind, rfl⟩ := hcut
  · have hsplit := splitPieces_append hpiece []
    rw [List.append_nil] at hsplit
    rw [hsplit]
    exact List.append_nil t
  · rw [splitPieces_append hpiece]
    exact List.append_nil first

theorem upToComma_splitPieces {t : Text} (h : Balanced '\x7b' '\x7d' t) :
    UpToComma t (splitPieces 0 t).1 := by
  obtain ⟨hjoin, hfirst, -⟩ :=
    splitPieces_spec ((balanced_iff_nesting (by decide) t).mp h)
  refine ⟨(normalOption_iff_isPiece _).mpr hfirst, ?_⟩
  generalize (splitPieces 0 t).1 = first at hjoin
  generalize (splitPieces 0 t).2 = pieces at hjoin
  cases pieces with
  | nil => exact .inl (by simpa [Text.join] using hjoin.symm)
  | cons next pieces =>
      rw [Text.join, List.intercalate_cons_cons, List.append_assoc] at hjoin
      exact .inr ⟨_, hjoin.symm⟩

/-- The pattern that is a date with `raw` between its braces. -/
def dateText (raw : Text) : Text :=
  marker :: "date".toList ++ '\x7b' :: raw ++ ['\x7d']

theorem read_dateText {raw : Text} (h : Balanced '\x7b' '\x7d' raw) :
    read (dateText raw) =
      .ok [.converter "date".toList (splitOptions raw) []] := by
  obtain ⟨hjoin, hsingle, hoptions⟩ :=
    splitOptions_spec ((balanced_iff_nesting (by decide) raw).mp h)
  have hname : IsName "date".toList :=
    ⟨'d', "ate".toList, rfl, rfl, List.all_eq_true.mp (by decide)⟩
  have hnode : NormalNode (.converter "date".toList (splitOptions raw) []) :=
    .converter hname hsingle hoptions normal_nil.arranged normal_nil.nodes
  have htext : marker :: "date".toList ++
      slotsText [] (Text.join [','] (splitOptions raw)) [.options] ++ [] =
        dateText raw := by
    rw [hjoin, dateText]
    simp [slotsText, Slot.text]
  have hspells : Spells none [.converter "date".toList (splitOptions raw) []]
      (dateText raw) := by
    rw [← htext]
    exact .converter .nil
      ⟨by decide, fun _ => rfl, fun hnot => absurd List.mem_cons_self hnot⟩
      (fun _ hnone => absurd hnone (Option.not_mem_none _)) .nil
  have harranged : Arranged [.converter "date".toList (splitOptions raw) []] :=
    ⟨.singleton _, normal_nil.arranged.parens, normal_nil.arranged.braces⟩
  exact (read_eq_ok_iff _ _).mpr
    ⟨⟨harranged, List.forall_mem_singleton.mpr hnode⟩, hspells⟩

theorem splitOptions_eq_cons {raw : Text} (hne : raw ≠ []) :
    splitOptions raw = (splitPieces 0 raw).1 :: (splitPieces 0 raw).2 := by
  rw [splitOptions, if_neg (by simpa using hne)]

variable {κ : Type}

theorem compile_date (ext : Extension κ) (option : Text) (options : List Text) :
    compile ext Registry.builtins
      [.converter "date".toList (option :: options) []] =
      (DateLayout.ofOption option).map fun layout => [.date layout] := by
  have hmake : (Registry.builtins : Registry κ).make? "date".toList =
      some .newDate := rfl
  have hattach : (Converter.newDate : Converter κ).attachOptions ext
      (option :: options) =
      (DateLayout.ofOption option).map .date := rfl
  rw [compile, compileNode, hmake]
  dsimp only
  rw [Except.ok_bind, if_neg (by simp), hattach]
  cases DateLayout.ofOption option <;> rfl

theorem meaning_date {option : Text} {layout : DateLayout}
    (h : DateLayout.ofOption option = .ok layout) (options : List Text)
    (e : Event) :
    meaning e [.converter "date".toList (option :: options) []] =
      layout.text e.time := by
  have hname : Builtin.ofName? "date".toList = some .date := by decide
  have hlayout : DateLayout.ofOptions (option :: options) = .ok layout := h
  rw [meaning, nodeMeaning, hname]
  dsimp only
  rw [hlayout, meaning]
  dsimp only
  cases layout.text e.time with
  | error p => rfl
  | ok t => exact congrArg Except.ok (List.append_nil t)

/-- A pattern that is a date is read and compiled exactly if the text between
its braces, up to the first comma outside inner braces, is accepted as a
layout, and with the same error if not; whatever it has written before, the
converter then shows every timestamp in this layout. -/
theorem date_up_to_comma (ext : Extension κ) {raw : Text} (hne : raw ≠ [])
    (hbalanced : Balanced '\x7b' '\x7d' raw) :
    ∃ first nodes, UpToComma raw first ∧
      (∀ other, UpToComma raw other → other = first) ∧
      read (dateText raw) = .ok nodes ∧
      compile ext Registry.builtins nodes =
        (DateLayout.ofOption first).map (fun layout => [.date layout]) ∧
      ∀ layout, DateLayout.ofOption first = .ok layout → ∀ history e out,
        (Converter.writeAll ext e
            (Converter.after ext history [.date layout]) out).Appends out
          (layout.text e.time) := by
  have hread := read_dateText hbalanced
  rw [splitOptions_eq_cons hne] at hread
  have hcompile := compile_date ext (splitPieces 0 raw).1 (splitPieces 0 raw).2
  refine ⟨_, _, upToComma_splitPieces hbalanced,
    fun other h => h.splitPieces.symm, hread, hcompile,
    fun layout hlayout history e out => ?_⟩
  have hcompiled := hcompile.trans (congrArg _ hlayout)
  have happends := writeAll_after_appends hcompiled history e out
  rwa [meaning_date hlayout] at happends

namespace DateOptionsWitness

/-- A layout with a comma inside braces, in front of two other options. -/
def raw : Text := "\x7bJan, é\x7d 02,x,".toList

/-- 2021-03-04, seven and a half hours west. -/
def event : Event := .new .info ⟨1614891600, 0, -27000⟩ ['x']

theorem date_up_to_comma_sample :
    raw ≠ [] ∧ Balanced '\x7b' '\x7d' raw ∧
      ∃ nodes layout, read (dateText raw) = .ok nodes ∧
        compile Sample.extension Registry.builtins nodes = .ok [.date layout] ∧
        layout.format = "\x7b%b, é\x7d %d".toList ∧
        (Converter.writeAll Sample.extension event [.date layout] [7]).out =
          7 :: Text.utf8 "\x7bMar, é\x7d 04".toList := by
  have hne : raw ≠ [] := by decide
  have hbalanced : Balanced '\x7b' '\x7d' raw :=
    (balanced_iff_nesting (by decide) raw).mpr (by decide)
  obtain ⟨first, nodes, hfirst, -, hread, hcompile, hshows⟩ :=
    date_up_to_comma Sample.extension hne hbalanced
  obtain rfl : first = "\x7bJan, é\x7d 02".toList :=
    hfirst.splitPieces.symm.trans (by decide)
  have haccepted : DateLayout.ofOption "\x7bJan, é\x7d 02".toList =
      .ok ⟨"\x7b%b, é\x7d %d".toList, by decide⟩ := rfl
  have hout := hshows _ haccepted [] event [7]
  have hcompiled := hcompile.trans (congrArg (Except.map _) haccepted)
  exact ⟨hne, hbalanced, nodes, _, hread, hcompiled, rfl, hout.1⟩

/-- Of a layout with a comma that is not inside braces, a pattern shows the
part in front of the comma only. -/
theorem layout_cut_at_comma :
    "Mon, 02 Jan 2006".toList ≠ [] ∧
      Balanced '\x7b' '\x7d' "Mon, 02 Jan 2006".toList ∧
      ∃ nodes whole cut, DateLayout.ofOption "Mon, 02 Jan 2006".toList =
        .ok whole ∧
        read (dateText "Mon, 02 Jan 2006".toList) = .ok nodes ∧
        compile Sample.extension Registry.builtins nodes = .ok [.date cut] ∧
        whole.render? .epoch = some "Thu, 01 Jan 1970".toList ∧
        cut.render? .epoch = some "Thu".toList := by
  have hbalanced : Balanced '\x7b' '\x7d' "Mon, 02 Jan 2006".toList :=
    (balanced_iff_nesting (by decide) _).mpr (by decide)
  have hwhole : DateLayout.ofOption "Mon, 02 Jan 2006".toList =
      .ok ⟨"%a, %d %b %Y".toList, by decide⟩ := rfl
  have hcut : DateLayout.ofOption "Mon".toList = .ok ⟨"%a".toList, by decide⟩ :=
    rfl
  have hcompile : compile Sample.extension Registry.builtins
      [.converter "date".toList ["Mon".toList, " 02 Jan 2006".toList] []] =
      .ok [.date ⟨"%a".toList, by decide⟩] :=
    (compile_date _ _ _).trans (congrArg _ hcut)
  exact ⟨by decide, hbalanced, _, _, _, hwhole,
    read_dateText hbalanced, hcompile, by decide +kernel, by decide +kernel⟩

end DateOptionsWitness

end Logline.Pattern
