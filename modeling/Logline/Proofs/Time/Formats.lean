import Mathlib.Data.List.Basic
import Logline.Time.Layout
/-!
The grammar of formats.  A format is a row of literal characters and directives
(`Item.readAll?_eq_some_iff`), and no directive is the beginning of another, so
that formats can be read and rendered piece by piece.  Every item but that of
`%#z` can be rendered, whatever the timestamp (`Item.renderAll?_eq_none_iff`).
-/
namespace Logline

namespace Item

/-! ### Directives -/

/-- What stands behind the `%` of a directive, and its items. -/
inductive Directive : Text → List Item → Prop
  | anyOffset : Directive "#z".toList [anyOffset]
  | offsetHours : Directive ":::z".toList [offsetHours]
  | offsetSeconds : Directive "::z".toList [offsetSeconds]
  | offset : Directive ":z".toList [offset [':']]
  | fraction : Directive ".f".toList [fraction]
  | point {digit : Char} {places : Nat} (hdigit : places? digit = some places) :
      Directive ['.', digit, 'f'] [fractionOf places true]
  | places {digit : Char} {places : Nat}
      (hdigit : places? digit = some places) :
      Directive [digit, 'f'] [fractionOf places false]
  | padded {flag letter : Char} {padding : Padding} {items : List Item}
      (hflag : padding? flag = some padding)
      (hletter : withPadding? padding letter = some items) :
      Directive [flag, letter] items
  | letter {letter : Char} {items : List Item}
      (hletter : ofLetter? letter = some items) :
      Directive [letter] items

theorem places?_cases {digit : Char} {places : Nat}
    (h : places? digit = some places) :
    digit = '3' ∨ digit = '6' ∨ digit = '9' := by
  rw [places?.eq_def] at h
  split at h <;> simp_all

theorem padding?_cases {flag : Char} {padding : Padding}
    (h : padding? flag = some padding) :
    flag = '-' ∨ flag = '0' ∨ flag = '_' := by
  rw [padding?.eq_def] at h
  split at h <;> simp_all

/-- No letter begins another directive: offsets and fractions begin with
signs. -/
theorem directive?_letter {letter : Char} {items : List Item}
    (h : ofLetter? letter = some items) (rest : Text) :
    directive? (letter :: rest) = some (items, 1) := by
  rw [ofLetter?.eq_def] at h
  split at h
  all_goals
    first
    | contradiction
    | obtain rfl := Option.some.inj h
      rfl

/-- A directive is read the same, whatever comes behind it. -/
theorem Directive.directive?_append {word : Text} {items : List Item}
    (h : Directive word items) (rest : Text) :
    directive? (word ++ rest) = some (items, word.length) := by
  cases h with
  | anyOffset | offsetHours | offsetSeconds | offset | fraction => rfl
  | point hdigit =>
      have hread :=
        congrArg (Option.map fun n => ([fractionOf n true], 3)) hdigit
      obtain rfl | rfl | rfl := places?_cases hdigit <;> exact hread
  | places hdigit =>
      obtain rfl | rfl | rfl := places?_cases hdigit <;>
        obtain rfl := Option.some.inj hdigit <;> rfl
  | @padded flag letter padding items hflag hletter =>
      have hread := congrArg (Option.map (·, 2)) hletter
      obtain rfl | rfl | rfl := padding?_cases hflag <;>
        obtain rfl := Option.some.inj hflag <;> exact hread
  | letter hletter => exact directive?_letter hletter rest

theorem exists_directive {t : Text} {items : List Item} {used : Nat}
    (h : directive? t = some (items, used)) :
    ∃ word rest, t = word ++ rest ∧ Directive word items ∧
      used = word.length := by
  rw [directive?.eq_def] at h
  split at h
  · cases h
    exact ⟨_, _, rfl, .anyOffset, rfl⟩
  · cases h
    exact ⟨_, _, rfl, .offsetHours, rfl⟩
  · cases h
    exact ⟨_, _, rfl, .offsetSeconds, rfl⟩
  · cases h
    exact ⟨_, _, rfl, .offset, rfl⟩
  · cases h
    exact ⟨_, _, rfl, .fraction, rfl⟩
  · obtain ⟨places, hdigit, h⟩ := Option.map_eq_some_iff.mp h
    cases h
    exact ⟨_, _, rfl, .point hdigit, rfl⟩
  · split at h
    · rename padding? _ = some _ => hflag
      obtain ⟨items, hletter, h⟩ := Option.map_eq_some_iff.mp h
      cases h
      exact ⟨_, _, rfl, .padded hflag hletter, rfl⟩
    · contradiction
    · rename places? _ = some _ => hdigit
      cases h
      exact ⟨_, _, rfl, .places hdigit, rfl⟩
    · contradiction
    · obtain ⟨items, hletter, h⟩ := Option.map_eq_some_iff.mp h
      cases h
      exact ⟨_, _, rfl, .letter hletter, rfl⟩
  · contradiction

/-! ### Formats -/

/-- The items of a format: a literal character stands for itself, and a
directive for its items. -/
inductive Reads : Text → List Item → Prop
  | nil : Reads [] []
  | literal {c : Char} {rest : Text} {items : List Item} (hc : c ≠ '%')
      (hrest : Reads rest items) :
      Reads (c :: rest) (literal c :: items)
  | directive {word rest : Text} {first items : List Item}
      (hword : Directive word first) (hrest : Reads rest items) :
      Reads ('%' :: (word ++ rest)) (first ++ items)

theorem readFrom?_length_append (word rest : Text) :
    readFrom? word.length (word ++ rest) = readAll? rest := by
  induction word with
  | nil => rfl
  | cons c word ih => exact ih

/-- Behind a format that can be read on its own, reading goes on as at the
start. -/
theorem Reads.readAll?_append {s : Text} {items : List Item}
    (hs : Reads s items) (t : Text) :
    Item.readAll? (s ++ t) = (Item.readAll? t).map (items ++ ·) := by
  induction hs with
  | nil => simp
  | literal hc _ ih =>
      rw [Item.readAll?] at ih ⊢
      rw [List.cons_append, readFrom?, if_neg hc, ih, Option.map_map]
      rfl
  | directive hword _ ih =>
      rw [List.cons_append, List.append_assoc, Item.readAll?,
        readFrom?, if_pos rfl, hword.directive?_append]
      dsimp only
      rw [readFrom?_length_append, ih, Option.map_map]
      simp [Function.comp_def]

theorem Reads.readAll? {format : Text} {items : List Item}
    (h : Reads format items) :
    Item.readAll? format = some items := by
  have hread := h.readAll?_append []
  have hnil : Item.readAll? [] = some [] := rfl
  rwa [List.append_nil, hnil, Option.map_some, List.append_nil] at hread

/-- What is read behind `skip` characters, which an earlier directive has used,
is a format. -/
theorem reads_of_readFrom? {format : Text} : ∀ {skip : Nat} {items : List Item},
    readFrom? skip format = some items → Reads (format.drop skip) items := by
  induction format with
  | nil =>
      intro skip items h
      rw [readFrom?] at h
      cases h
      rw [List.drop_nil]
      exact .nil
  | cons c rest ih =>
      intro skip items h
      cases skip with
      | succ skip => exact ih h
      | zero =>
          rw [readFrom?] at h
          split_ifs at h with hc
          · subst hc
            cases hfound : directive? rest with
            | none =>
                rw [hfound] at h
                contradiction
            | some found =>
                obtain ⟨first, used⟩ := found
                rw [hfound] at h
                obtain ⟨more, hmore, rfl⟩ := Option.map_eq_some_iff.mp h
                obtain ⟨word, behind, rfl, hword, rfl⟩ :=
                  exists_directive hfound
                have hbehind := ih hmore
                rw [List.drop_left] at hbehind
                exact .directive hword hbehind
          · obtain ⟨more, hmore, rfl⟩ := Option.map_eq_some_iff.mp h
            exact .literal hc (ih hmore)

theorem readAll?_eq_some_iff {format : Text} {items : List Item} :
    readAll? format = some items ↔ Reads format items :=
  ⟨reads_of_readFrom?, Reads.readAll?⟩

theorem Reads.append {s t : Text} {items more : List Item} (hs : Reads s items)
    (ht : Reads t more) : Reads (s ++ t) (items ++ more) := by
  rw [← readAll?_eq_some_iff, hs.readAll?_append, ht.readAll?]
  rfl

/-! ### Rendering -/

theorem render?_eq_none_iff {t : Timestamp} {item : Item} :
    item.render? t = none ↔ item = anyOffset := by
  cases item <;> simp [render?]

theorem renderAll?_append (t : Timestamp) (items more : List Item) :
    renderAll? t (items ++ more) =
      (renderAll? t items).bind fun text =>
        (renderAll? t more).map (text ++ ·) := by
  rw [renderAll?, renderAll?, renderAll?, List.mapM_append]
  cases items.mapM (render? t) with
  | none => rfl
  | some texts => cases more.mapM (render? t) <;> simp

theorem renderAll?_singleton (t : Timestamp) (item : Item) :
    renderAll? t [item] = item.render? t := by
  cases h : item.render? t <;> simp [renderAll?, h]

/-- The items of a date are rendered, whatever the timestamp, unless one of
them is for reading only. -/
theorem renderAll?_eq_none_iff {t : Timestamp} {items : List Item} :
    renderAll? t items = none ↔ anyOffset ∈ items := by
  induction items with
  | nil => simp [renderAll?]
  | cons item rest ih =>
      rw [← List.singleton_append, renderAll?_append, renderAll?_singleton,
        List.mem_append, List.mem_singleton, ← ih]
      cases hitem : item.render? t with
      | none => simp [render?_eq_none_iff.mp hitem]
      | some text =>
          have hne : anyOffset ≠ item := by
            rintro rfl
            contradiction
          cases renderAll? t rest <;> simp [hne]

theorem anyOffset_not_mem_of_ofLetter? {letter : Char} {items : List Item}
    (h : ofLetter? letter = some items) : anyOffset ∉ items := by
  rw [ofLetter?.eq_def] at h
  split at h
  all_goals
    first
    | contradiction
    | obtain rfl := Option.some.inj h
      decide

theorem anyOffset_not_mem_of_withPadding? {padding : Padding} {letter : Char}
    {items : List Item} (h : withPadding? padding letter = some items) :
    anyOffset ∉ items := by
  rw [withPadding?] at h
  split at h
  · obtain rfl := Option.some.inj h
    simp
  · contradiction

/-- Only one directive stands for an item that cannot be rendered. -/
theorem Directive.eq_of_anyOffset_mem {word : Text} {items : List Item}
    (h : Directive word items) (hmem : Item.anyOffset ∈ items) :
    word = "#z".toList := by
  cases h with
  | anyOffset => rfl
  | offsetHours | offsetSeconds | offset | fraction | point | places =>
      simp at hmem
  | padded _ hletter =>
      exact absurd hmem (anyOffset_not_mem_of_withPadding? hletter)
  | letter hletter => exact absurd hmem (anyOffset_not_mem_of_ofLetter? hletter)

/-- An item that cannot be rendered comes from `%#z`, behind a format of its
own. -/
theorem Reads.anyOffset_mem_iff {format : Text} {items : List Item}
    (h : Reads format items) :
    anyOffset ∈ items ↔ ∃ before behind first, format =
      before ++ "%#z".toList ++ behind ∧
      Reads before first := by
  constructor
  · intro hmem
    induction h with
    | nil => contradiction
    | literal hc hrest ih =>
        obtain hliteral | hmem := List.mem_cons.mp hmem
        · contradiction
        · obtain ⟨before, behind, first, rfl, hbefore⟩ := ih hmem
          exact ⟨_ :: before, behind, _, rfl, .literal hc hbefore⟩
    | directive hword hrest ih =>
        obtain hfirst | hmem := List.mem_append.mp hmem
        · obtain rfl := hword.eq_of_anyOffset_mem hfirst
          exact ⟨[], _, [], rfl, .nil⟩
        · obtain ⟨before, behind, first, rfl, hbefore⟩ := ih hmem
          refine ⟨_, behind, _, ?_, .directive hword hbefore⟩
          simp
  · rintro ⟨before, behind, first, rfl, hbefore⟩
    have hread := h.readAll?
    rw [List.append_assoc, hbefore.readAll?_append] at hread
    -- what is read behind `before` begins with the directive
    obtain ⟨more, hmore, rfl⟩ := Option.map_eq_some_iff.mp hread
    have hoffset : Reads "%#z".toList [anyOffset] := .directive .anyOffset .nil
    rw [hoffset.readAll?_append] at hmore
    obtain ⟨last, -, rfl⟩ := Option.map_eq_some_iff.mp hmore
    simp

end Item

namespace DateLayout

theorem reads_items (layout : DateLayout) :
    Item.Reads layout.format layout.items :=
  Item.readAll?_eq_some_iff.mp (Option.some_get layout.known).symm

end DateLayout

end Logline
