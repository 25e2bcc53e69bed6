import Logline.Time.Directive
import Logline.Error
/-!
Layouts of dates.  A layout is written as a `strftime` format or by example:
the reference moment `Mon Jan 2 15:04:05 MST 2006` is shown the way dates shall
look, and each of its parts stands for that component (`referenceTokens`).
-/
namespace Logline

/-- The parts of the reference moment and the directives they stand for, longer
ones before those that they start with. -/
def referenceTokens : List (Text × Text) :=
  [(".000000000".toList, "%.9f".toList), (".000000".toList, "%.6f".toList),
    ("January".toList, "%B".toList), ("Monday".toList, "%A".toList),
    ("-07:00".toList, "%:z".toList), ("Z07:00".toList, "%:z".toList),
    ("-0700".toList, "%z".toList), ("Z0700".toList, "%z".toList),
    (".000".toList, "%.3f".toList), ("2006".toList, "%Y".toList),
    ("Jan".toList, "%b".toList), ("Mon".toList, "%a".toList),
    ("MST".toList, "%Z".toList),
    ("002".toList, "%j".toList), ("01".toList, "%m".toList),
    ("02".toList, "%d".toList),
    ("_2".toList, "%e".toList), ("06".toList, "%y".toList),
    ("15".toList, "%H".toList),
    ("03".toList, "%I".toList), ("04".toList, "%M".toList),
    ("05".toList, "%S".toList),
    ("PM".toList, "%p".toList), ("pm".toList, "%P".toList),
    ("1".toList, "%-m".toList),
    ("2".toList, "%-d".toList), ("3".toList, "%-I".toList),
    ("4".toList, "%-M".toList),
    ("5".toList, "%-S".toList)]

/-- The first token in the order of the table that the text starts with. -/
def referenceToken? (t : Text) : Option (Text × Text) :=
  referenceTokens.find? fun (token, _) => token.isPrefixOf t

/-- The format of a layout by example, after its first `skip` characters, which
an earlier token has used. -/
def translateFrom : Nat → Text → Text
  | _, [] => []
  | skip + 1, _ :: rest => translateFrom skip rest
  | 0, c :: rest =>
    match referenceToken? (c :: rest) with
    | some (token, directive) =>
      directive ++ translateFrom (token.length - 1) rest
    | none =>
      if c = '%' then '%' :: '%' :: translateFrom 0 rest
        else c :: translateFrom 0 rest

/-- The format that a layout by example stands for. -/
def translateReference (layout : Text) : Text :=
  translateFrom 0 layout

/-- A date format whose directives are all known. -/
structure DateLayout where
  format : Text
  known : (Item.readAll? format).isSome
deriving DecidableEq

namespace DateLayout

/-- The layout by example that is used where none is given. -/
def defaultText : Text := "2006-01-02".toList

instance : Inhabited DateLayout where
  default := ⟨translateReference defaultText, by decide⟩

/-- The layout that an option asks for: the default for an empty option, a
format as it stands if there is a `%` in it, and else a layout by example. -/
def ofOption (option : Text) : Except Error DateLayout :=
  let option := if option.isEmpty then defaultText else option
  let format := if option.contains '%' then option
    else translateReference option
  if known : (Item.readAll? format).isSome then .ok ⟨format, known⟩
  else .error <| .invalidConfiguration "date".toList
    ("invalid date layout '".toList ++ option ++ ['\''])

/-- The format of an accepted layout: the option itself if there is a `%` in
it, and else what the option, or the default for an empty one, stands for. -/
theorem ofOption_cases {option : Text} {layout : DateLayout}
    (h : ofOption option = .ok layout) :
    '%' ∈ option ∧ layout.format = option ∨
      '%' ∉ option ∧
        layout.format = translateReference
          (if option.isEmpty then defaultText else option) := by
  have hempty : '%' ∉ defaultText := by decide
  rw [ofOption] at h
  generalize hgiven : (if option.isEmpty then defaultText else option) =
    given at h ⊢
  have hpercent : '%' ∈ given ∧ given = option ∨ '%' ∉ given ∧
      '%' ∉ option := by
    cases option with
    | nil => exact .inr ⟨hgiven ▸ hempty, List.not_mem_nil⟩
    | cons c rest =>
        obtain rfl : c :: rest = given := hgiven
        exact (Decidable.em _).imp (⟨·, rfl⟩) fun hnot => ⟨hnot, hnot⟩
  generalize hformat :
    (if given.contains '%' then given else translateReference given) = format
    at h
  split at h
  · obtain rfl := Except.ok.inj h
    obtain ⟨hmem, rfl⟩ | ⟨hnot, hoption⟩ := hpercent
    · rw [if_pos (List.contains_iff_mem.mpr hmem)] at hformat
      exact .inl ⟨hmem, hformat.symm⟩
    · rw [if_neg (mt List.contains_iff_mem.mp hnot)] at hformat
      exact .inr ⟨hoption, hformat.symm⟩
  · contradiction

/-- The items of the layout. -/
def items (layout : DateLayout) : List Item :=
  (Item.readAll? layout.format).get layout.known

/-- A timestamp in the layout, if all items can be rendered. -/
def render? (layout : DateLayout) (t : Timestamp) : Option Text :=
  Item.renderAll? t layout.items

example : (default : DateLayout).format = "%Y-%m-%d".toList := by decide

end DateLayout

end Logline
