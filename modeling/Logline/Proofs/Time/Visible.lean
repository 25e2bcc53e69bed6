import Mathlib.Data.List.Infix
import Mathlib.Tactic.SplitIfs
import Logline.Time.Layout
/-!
The characters of a date.  Numbers, signs and names are visible, so that every
other character of a date is one that an item copies (`Item.mem_render`), and a
copied one comes from the format or from the directives `%n` and `%t`
(`DateLayout.mem_render`).
-/
namespace Logline

namespace Text

/-- No character comes before the blank. -/
def Visible (t : Text) : Prop :=
  ∀ c ∈ t, 32 ≤ c.toNat

instance (t : Text) : Decidable (Visible t) :=
  List.decidableBAll _ t

@[simp] theorem visible_nil : Visible [] := by
  simp [Visible]

@[simp] theorem visible_cons_iff {c : Char} {t : Text} :
    Visible (c :: t) ↔ 32 ≤ c.toNat ∧ Visible t :=
  List.forall_mem_cons

@[simp] theorem visible_append_iff {s t : Text} :
    Visible (s ++ t) ↔ Visible s ∧ Visible t :=
  List.forall_mem_append

theorem visible_ofNat (n : Nat) : Visible (ofNat n) := by
  intro c hc
  have hdigit : c.isDigit = true :=
    Nat.isDigit_of_mem_toDigits (by decide) (by decide) hc
  obtain ⟨hlow, -⟩ := Char.isDigit_iff_toNat.mp hdigit
  exact Nat.le_trans (by decide) hlow

theorem visible_padLeft {fill : Char} (width : Nat) {t : Text}
    (hfill : 32 ≤ fill.toNat) (h : Visible t) :
    Visible (padLeft fill width t) := by
  refine visible_append_iff.mpr ⟨?_, h⟩
  intro c hc
  rw [List.eq_of_mem_replicate hc]
  exact hfill

theorem visible_zeroPadded (width n : Nat) : Visible (zeroPadded width n) :=
  visible_padLeft width (by decide) (visible_ofNat n)

end Text

/-! ### Components -/

theorem Padding.visible_apply (padding : Padding) (width : Nat)
    {sign digits : Text} (hsign : sign.Visible) (hdigits : digits.Visible) :
    (padding.apply width sign digits).Visible := by
  have hnumber := Text.visible_append_iff.mpr ⟨hsign, hdigits⟩
  cases padding with
  | none => exact hnumber
  | zeros =>
      exact Text.visible_append_iff.mpr
        ⟨hsign, Text.visible_padLeft _ (by decide) hdigits⟩
  | spaces => exact Text.visible_padLeft _ (by decide) hnumber

theorem Padding.visible_number (padding : Padding) (width : Nat) (n : Int) :
    (padding.number width n).Visible := by
  apply padding.visible_apply width _ (Text.visible_ofNat _)
  split_ifs <;> decide

theorem Padding.visible_year (padding : Padding) (y : Int) :
    (padding.year y).Visible := by
  rw [Padding.year]
  split_ifs
  · exact padding.visible_apply 4 (by decide) (Text.visible_ofNat _)
  · exact padding.visible_apply 5 (by decide) (Text.visible_ofNat _)
  · exact padding.visible_apply 5 (by decide) (Text.visible_ofNat _)

namespace Offset

theorem visible_sign (offset : Int) : 32 ≤ (sign offset).toNat := by
  rw [sign]
  split_ifs <;> decide

theorem visible_two (n : Nat) : (two n).Visible :=
  Text.visible_zeroPadded 2 n

theorem visible_toSeconds (offset : Int) : (toSeconds offset).Visible := by
  simp [toSeconds, visible_two, visible_sign]

theorem visible_toHours (offset : Int) : (toHours offset).Visible := by
  simp [toHours, visible_two, visible_sign]

/-- Between the hours and the minutes stands the separator. -/
theorem mem_toMinutes {separator : Text} {offset : Int} {c : Char}
    (hc : c ∈ toMinutes separator offset) : 32 ≤ c.toNat ∨ c ∈ separator := by
  simp only [toMinutes, List.cons_append, List.mem_cons, List.mem_append] at hc
  rcases hc with rfl | (hhours | hseparator) | hminutes
  · exact .inl (visible_sign offset)
  · exact .inl (visible_two _ c hhours)
  · exact .inr hseparator
  · exact .inl (visible_two _ c hminutes)

theorem visible_name (offset : Int) : (name offset).Visible := by
  rw [name]
  split_ifs
  · intro c hc
    rcases mem_toMinutes hc with hvisible | hcolon
    · exact hvisible
    · rw [List.mem_singleton.mp hcolon]
      decide
  · exact visible_toSeconds offset

end Offset

theorem Timestamp.visible_fraction (t : Timestamp) : t.fraction.Visible := by
  rw [fraction]
  split_ifs <;> simp [Text.visible_zeroPadded]

namespace Component

/-- Tens go beyond nine, up to 25, since numbers are kept in a byte. -/
theorem visible_two (padding : Padding) (n : Int) :
    (two padding n).Visible := by
  have htens : ∀ m < 26, Text.Visible [Char.ofNat (48 + m)] := by decide
  have hunits : ∀ m < 10, Text.Visible [Nat.digitChar m] := by decide
  simp only [two]
  generalize hm : (n % 256).toNat = m
  have hten := htens (m / 10) (by omega)
  have hunit := hunits (m % 10) (by omega)
  apply Text.visible_append_iff.mpr ⟨?_, hunit⟩
  cases padding with
  | none =>
      dsimp only
      split_ifs
      · exact Text.visible_nil
      · exact hten
  | zeros => exact hten
  | spaces =>
      dsimp only
      split_ifs
      · decide
      · exact hten

theorem visible_render (c : Component) (padding : Padding) (t : Timestamp) :
    (c.render padding t).Visible := by
  cases c with
  | year | isoYear => exact padding.visible_year _
  | quarter | daysFromSunday | weekdayFromMonday => exact Text.visible_ofNat _
  | ordinal | nanos | unixSeconds => exact padding.visible_number _ _
  | _ => exact visible_two padding _

end Component

/-! ### Items -/

namespace Item

/-- What the item copies into the date. -/
def copied : Item → Text
  | literal c => [c]
  | offset separator => separator
  | _ => []

theorem visible_getD {names : List Text} (h : ∀ name ∈ names, name.Visible)
    (n : Nat) :
    Text.Visible (names.getD n []) := by
  rw [List.getD_eq_getElem?_getD]
  cases hname : names[n]? with
  | none => exact Text.visible_nil
  | some name => exact h name (List.mem_of_getElem? hname)

theorem mem_render {t : Timestamp} {item : Item} {text : Text}
    (h : item.render? t = some text) {c : Char} (hc : c ∈ text) :
    32 ≤ c.toNat ∨ c ∈ item.copied := by
  cases item with
  | literal l =>
      obtain rfl := Option.some.inj h
      exact .inr hc
  | number component padding =>
      obtain rfl := Option.some.inj h
      exact .inl (component.visible_render padding t c hc)
  | monthName long =>
      obtain rfl := Option.some.inj h
      have hname : Text.Visible
          (Component.monthNames.getD (t.date.month - 1) []) :=
        visible_getD (by decide) _
      left
      split_ifs at hc
      · exact hname c hc
      · exact hname c (List.take_subset _ _ hc)
  | weekdayName long =>
      obtain rfl := Option.some.inj h
      have hname : Text.Visible
          (Component.weekdayNames.getD (Date.daysFromSunday t.day) []) :=
        visible_getD (by decide) _
      left
      split_ifs at hc
      · exact hname c hc
      · exact hname c (List.take_subset _ _ hc)
  | meridiem upper =>
      obtain rfl := Option.some.inj h
      have hnames : ∀ name ∈
          ["PM".toList, "pm".toList, "AM".toList, "am".toList],
          Text.Visible name := by
        decide
      left
      generalize t.isAfternoon = afternoon at hc
      cases afternoon <;> cases upper <;> exact hnames _ (by simp) c hc
  | fraction =>
      obtain rfl := Option.some.inj h
      exact .inl (t.visible_fraction c hc)
  | fractionOf places point =>
      obtain rfl := Option.some.inj h
      have hdigits := Text.visible_zeroPadded places
        (t.subsecond / Nat.pow 10 (9 - places))
      left
      split_ifs at hc
      · rcases List.mem_cons.mp hc with rfl | hc
        · decide
        · exact hdigits c hc
      · exact hdigits c hc
  | zoneName =>
      obtain rfl := Option.some.inj h
      exact .inl (Offset.visible_name _ c hc)
  | offset separator =>
      obtain rfl := Option.some.inj h
      exact Offset.mem_toMinutes hc
  | offsetSeconds =>
      obtain rfl := Option.some.inj h
      exact .inl (Offset.visible_toSeconds _ c hc)
  | offsetHours =>
      obtain rfl := Option.some.inj h
      exact .inl (Offset.visible_toHours _ c hc)
  | anyOffset => contradiction

/-- Every part of a date is the text of an item. -/
theorem exists_render {t : Timestamp} {items : List Item} {texts : List Text}
    (h : items.mapM (render? t) = some texts) :
    ∀ text ∈ texts, ∃ item ∈ items, item.render? t = some text := by
  induction items generalizing texts with
  | nil =>
      cases h
      simp
  | cons item items ih =>
      rw [List.mapM_cons] at h
      obtain ⟨first, hfirst, h⟩ := Option.bind_eq_some_iff.mp h
      obtain ⟨more, hmore, h⟩ := Option.bind_eq_some_iff.mp h
      cases h
      refine List.forall_mem_cons.mpr ⟨⟨item, List.mem_cons_self, hfirst⟩, ?_⟩
      intro text htext
      obtain ⟨other, hother, hrender⟩ := ih hmore text htext
      exact ⟨other, List.mem_cons_of_mem item hother, hrender⟩

theorem mem_renderAll {t : Timestamp} {items : List Item} {text : Text}
    (h : renderAll? t items = some text) {c : Char} (hc : c ∈ text) :
    32 ≤ c.toNat ∨ ∃ item ∈ items, c ∈ item.copied := by
  obtain ⟨texts, htexts, rfl⟩ := Option.map_eq_some_iff.mp h
  obtain ⟨part, hpart, hc⟩ := List.mem_flatten.mp hc
  obtain ⟨item, hitem, hrender⟩ := exists_render htexts part hpart
  exact (mem_render hrender hc).imp id fun hcopied => ⟨item, hitem, hcopied⟩

/-! ### Formats -/

/-- A directive copies nothing invisible, unless it stands for a line feed or a
tab. -/
theorem copied_ofLetter {letter : Char} {items : List Item}
    (h : ofLetter? letter = some items) :
    ∀ item ∈ items, item.copied.Visible ∨
      letter = 'n' ∧ item = literal '\n' ∨ letter = 't' ∧
        item = literal '\t' := by
  rw [ofLetter?.eq_def] at h
  split at h
  all_goals
    first
    | contradiction
    | obtain rfl := Option.some.inj h
      decide

/-- With a padding flag only numbers are accepted. -/
theorem copied_withPadding {padding : Padding} {letter : Char}
    {items : List Item} (h : withPadding? padding letter = some items) :
    ∀ item ∈ items, item.copied.Visible := by
  rw [withPadding?] at h
  split at h
  · obtain rfl := Option.some.inj h
    simp [copied]
  · contradiction

theorem copied_directive {rest : Text} {items : List Item} {used : Nat}
    (h : directive? rest = some (items, used)) :
    ∀ item ∈ items, item.copied.Visible ∨
      rest.head? = some 'n' ∧ item = literal '\n' ∨
      rest.head? = some 't' ∧ item = literal '\t' := by
  rw [directive?.eq_def] at h
  split at h
  · cases h; simp [copied]
  · cases h; simp [copied]
  · cases h; simp [copied]
  · cases h; simp [copied]
  · cases h; simp [copied]
  · obtain ⟨places, -, h⟩ := Option.map_eq_some_iff.mp h
    cases h; simp [copied]
  · split at h
    · obtain ⟨items, hitems, h⟩ := Option.map_eq_some_iff.mp h
      cases h
      exact fun item hitem => .inl (copied_withPadding hitems item hitem)
    · contradiction
    · cases h; simp [copied]
    · contradiction
    · obtain ⟨items, hitems, h⟩ := Option.map_eq_some_iff.mp h
      cases h
      simpa using copied_ofLetter hitems
  · contradiction

/-- The items of a format are its literal characters and what its directives
stand for. -/
theorem forall_readFrom {P : Item → Prop} {format : Text}
    (hliteral : ∀ c ∈ format, P (literal c))
    (hdirective : ∀ rest items used, '%' :: rest <:+: format →
      directive? rest = some (items, used) → ∀ item ∈ items, P item) :
    ∀ {skip : Nat} {items : List Item}, readFrom? skip format = some items →
      ∀ item ∈ items, P item := by
  induction format with
  | nil =>
      intro skip items h
      rw [readFrom?] at h
      cases h
      simp
  | cons c rest ih =>
      have hrest : ∀ {skip : Nat} {items : List Item}, readFrom? skip rest =
          some items →
          ∀ item ∈ items, P item :=
        ih (fun d hd => hliteral d (List.mem_cons_of_mem c hd))
          fun t items used ht =>
          hdirective t items used (ht.trans (List.suffix_cons c rest).isInfix)
      intro skip items h
      cases skip with
      | succ skip => exact hrest h
      | zero =>
          rw [readFrom?] at h
          split_ifs at h with hc
          · subst hc
            cases hfound : directive? rest with
            | none =>
                rw [hfound] at h
                contradiction
            | some found =>
                obtain ⟨first, used⟩ := found
                rw [hfound] at h
                obtain ⟨more, hmore, rfl⟩ := Option.map_eq_some_iff.mp h
                exact List.forall_mem_append.mpr
                  ⟨hdirective rest first used (List.infix_refl _) hfound,
                    hrest hmore⟩
          · obtain ⟨more, hmore, rfl⟩ := Option.map_eq_some_iff.mp h
            exact List.forall_mem_cons.mpr
              ⟨hliteral c List.mem_cons_self, hrest hmore⟩

theorem mem_copied_readFrom {format : Text} {skip : Nat} {items : List Item}
    (h : readFrom? skip format = some items) :
    ∀ item ∈ items, ∀ c ∈ item.copied, 32 ≤ c.toNat ∨ c ∈ format ∨ c = '\n' ∨
      c = '\t' := by
  refine forall_readFrom ?_ ?_ h
  · intro l hl c hc
    rw [copied, List.mem_singleton] at hc
    exact .inr (.inl (hc ▸ hl))
  · intro rest items used _ hdirective item hitem c hc
    rcases copied_directive hdirective item hitem with
      hvisible | ⟨-, rfl⟩ | ⟨-, rfl⟩
    · exact .inl (hvisible c hc)
    · exact .inr (.inr (.inl (List.mem_singleton.mp hc)))
    · exact .inr (.inr (.inr (List.mem_singleton.mp hc)))

end Item

/-! ### Layouts -/

theorem visible_directives : ∀ entry ∈ referenceTokens, entry.2.Visible := by
  decide

theorem mem_translateFrom {layout : Text} {c : Char} :
    ∀ {skip : Nat}, c ∈ translateFrom skip layout → 32 ≤ c.toNat ∨
      c ∈ layout := by
  induction layout with
  | nil =>
      intro skip hc
      rw [translateFrom] at hc
      contradiction
  | cons first rest ih =>
      have hnext : ∀ {skip : Nat}, c ∈ translateFrom skip rest →
          32 ≤ c.toNat ∨ c ∈ first :: rest :=
        fun hc => (ih hc).imp id (List.mem_cons_of_mem first)
      intro skip hc
      cases skip with
      | succ skip => exact hnext hc
      | zero =>
          rw [translateFrom] at hc
          cases htoken : referenceToken? (first :: rest) with
          | some entry =>
              rw [htoken] at hc
              rcases List.mem_append.mp hc with hdirective | hc
              · have hentry := List.mem_of_find?_eq_some htoken
                exact .inl (visible_directives entry hentry c hdirective)
              · exact hnext hc
          | none =>
              rw [htoken] at hc
              dsimp only at hc
              split_ifs at hc with hpercent
              · simp only [List.mem_cons] at hc
                rcases hc with rfl | rfl | hc
                · exact .inl (by decide)
                · exact .inl (by decide)
                · exact hnext hc
              · rcases List.mem_cons.mp hc with rfl | hc
                · exact .inr List.mem_cons_self
                · exact hnext hc

namespace DateLayout

theorem mem_format {option : Text} {layout : DateLayout}
    (h : ofOption option = .ok layout) {c : Char} (hc : c ∈ layout.format) :
    32 ≤ c.toNat ∨ c ∈ option := by
  obtain ⟨-, hformat⟩ | ⟨-, hformat⟩ := ofOption_cases h
  · rw [hformat] at hc
    exact .inr hc
  · rw [hformat] at hc
    obtain hvisible | hgiven := mem_translateFrom hc
    · exact .inl hvisible
    · split_ifs at hgiven
      · have hdefault : defaultText.Visible := by decide
        exact .inl (hdefault c hgiven)
      · exact .inr hgiven

/-- Where the characters of a date come from. -/
theorem mem_render {layout : DateLayout} {t : Timestamp} {text : Text}
    (h : layout.render? t = some text) {c : Char} (hc : c ∈ text) :
    32 ≤ c.toNat ∨ c ∈ layout.format ∨ c = '\n' ∨ c = '\t' := by
  have hread : Item.readFrom? 0 layout.format = some layout.items :=
    (Option.some_get layout.known).symm
  rcases Item.mem_renderAll h hc with hvisible | ⟨item, hitem, hcopied⟩
  · exact .inl hvisible
  · exact Item.mem_copied_readFrom hread item hitem c hcopied

end DateLayout

end Logline
