import Logline.Proofs.Converter.Compiled
import Logline.Proofs.Time.Visible
/-!
Texts without escapes.  A converter copies the texts of an event and of its
layout, leaves some of their characters out, and adds visible ones, so that an
escape in what it writes is one of the event or of the layout; only colors
write escapes of their own.
-/
namespace Logline

/-- No escape sequence begins in the text. -/
def Text.EscapeFree (t : Text) : Prop :=
  '\x1b' ∉ t

instance (t : Text) : Decidable t.EscapeFree :=
  inferInstanceAs (Decidable ('\x1b' ∉ t))

namespace Text

@[simp] theorem escapeFree_nil : EscapeFree [] := by
  simp [EscapeFree]

@[simp] theorem escapeFree_cons_iff {c : Char} {t : Text} :
    EscapeFree (c :: t) ↔ '\x1b' ≠ c ∧ EscapeFree t := by
  simp [EscapeFree]

@[simp] theorem escapeFree_append_iff {s t : Text} :
    EscapeFree (s ++ t) ↔ EscapeFree s ∧ EscapeFree t := by
  simp [EscapeFree]

theorem EscapeFree.of_subset {s t : Text} (h : t.EscapeFree) (hst : s ⊆ t) :
    s.EscapeFree :=
  fun hmem => h (hst hmem)

/-- The escape character is a byte of its own. -/
theorem EscapeFree.not_mem_utf8 {t : Text} (h : t.EscapeFree) :
    (0x1b : UInt8) ∉ t.utf8 := by
  intro hmem
  obtain ⟨c, hc, hb⟩ := List.mem_flatMap.mp hmem
  by_cases hlow : c.toNat < 0x80
  · rw [Text.utf8EncodeChar_of_lt hlow, List.mem_singleton, ← UInt8.toNat_inj,
      UInt8.toNat_ofNat'] at hb
    have hescape : '\x1b'.toNat = c.toNat :=
      hb.trans (Nat.mod_eq_of_lt (by omega))
    exact h (Char.toNat_inj.mp hescape ▸ hc)
  · have hle := Text.le_of_mem_utf8EncodeChar (Nat.le_of_not_lt hlow) hb
    exact absurd hle (by decide)

end Text

/-! ### Texts of an event -/

namespace Text

theorem escapeFree_sanitize {t : Text} (h : t.EscapeFree) :
    Text.EscapeFree (Event.sanitize t) := by
  intro hmem
  obtain ⟨c, hc, hescape⟩ := List.mem_flatMap.mp hmem
  rw [Event.escapeBreak] at hescape
  split_ifs at hescape
  · exact absurd hescape (by decide)
  · exact absurd hescape (by decide)
  · exact absurd hescape (by decide)
  · exact h (List.mem_singleton.mp hescape ▸ hc)

end Text

namespace LoggerName

theorem eq_of_splitLastSlash {name head tail : Text}
    (h : splitLastSlash? name = some (head, tail)) : name = head ++ tail := by
  induction name generalizing head tail with
  | nil => contradiction
  | cons c rest ih =>
      rw [splitLastSlash?] at h
      cases hrest : splitLastSlash? rest with
      | some split =>
          obtain ⟨before, behind⟩ := split
          rw [hrest] at h
          obtain ⟨rfl, rfl⟩ := Prod.mk.inj (Option.some.inj h)
          rw [ih hrest, List.cons_append]
      | none =>
          rw [hrest] at h
          dsimp only at h
          split_ifs at h
          obtain ⟨rfl, rfl⟩ := Prod.mk.inj (Option.some.inj h)
          rfl

theorem mem_shorten {width used : Nat} {first : Option Char} {tail rest : Text}
    {c : Char} (h : c ∈ shorten width used first tail rest) :
    c ∈ first ∨ c ∈ rest ∨ c ∈ tail := by
  induction rest generalizing used first with
  | nil => simpa [shorten] using h
  | cons d rest ih =>
      rw [shorten] at h
      dsimp only at h
      split_ifs at h
      · simp only [List.mem_append, List.mem_singleton, Option.mem_toList] at h
        rcases h with ((hfirst | rfl) | hrest) | htail
        · exact .inl hfirst
        · exact .inr (.inl List.mem_cons_self)
        · exact .inr (.inl (List.mem_cons_of_mem d hrest))
        · exact .inr (.inr htail)
      · simp only [List.mem_append, List.mem_singleton, Option.mem_toList] at h
        rcases h with (hfirst | rfl) | hrest
        · exact .inl hfirst
        · exact .inr (.inl List.mem_cons_self)
        · rcases ih hrest with hnone | hrest | htail
          · contradiction
          · exact .inr (.inl (List.mem_cons_of_mem d hrest))
          · exact .inr (.inr htail)
      · rcases ih h with hfirst | hrest | htail
        · cases first with
          | none =>
              obtain rfl := Option.some.inj hfirst
              exact .inr (.inl List.mem_cons_self)
          | some f => exact .inl hfirst
        · exact .inr (.inl (List.mem_cons_of_mem d hrest))
        · exact .inr (.inr htail)

/-- Abbreviating only leaves characters out. -/
theorem abbreviate_subset (name : Text) (width : Nat) :
    abbreviate name width ⊆ name := by
  rw [abbreviate]
  split_ifs
  · exact List.Subset.refl name
  · cases hsplit : splitLastSlash? name with
    | none => exact List.Subset.refl name
    | some split =>
        obtain ⟨head, tail⟩ := split
        dsimp only
        split_ifs
        · exact List.Subset.refl name
        · intro c hc
          rw [eq_of_splitLastSlash hsplit]
          rcases mem_shorten hc with hnone | hhead | htail
          · contradiction
          · exact List.mem_append_left tail hhead
          · exact List.mem_append_right head htail

end LoggerName

namespace Event

/-- No escape sequence begins in the texts of the event. -/
structure EscapeFree (e : Event) : Prop where
  message : e.message.EscapeFree
  logger : ∀ logger ∈ e.logger, logger.EscapeFree
  fields : ∀ entry ∈ e.fields, entry.1.EscapeFree ∧ entry.2.text.EscapeFree

namespace EscapeFree

variable {e : Event}

theorem messageText (h : e.EscapeFree) :
    (Event.messageText e.message).EscapeFree := by
  rw [Event.messageText]
  split_ifs
  · decide
  · exact h.message

theorem loggerText (h : e.EscapeFree) (width : Option Nat) :
    (Event.loggerText width e.logger).EscapeFree := by
  have hdash : Text.EscapeFree ['-'] := by decide
  cases hlogger : e.logger with
  | none => exact hdash
  | some logger =>
      have hfree := h.logger logger (by rw [hlogger]; rfl)
      cases logger with
      | nil => exact hdash
      | cons c rest =>
          apply Text.escapeFree_sanitize
          cases width with
          | none => exact hfree
          | some n => exact hfree.of_subset (LoggerName.abbreviate_subset _ n)

theorem fieldsText (h : e.EscapeFree) :
    Text.EscapeFree (Event.sanitize e.fields.text) := by
  apply Text.escapeFree_sanitize
  intro hmem
  rcases Text.mem_join hmem with hblank | ⟨part, hpart, hmem⟩
  · exact absurd hblank (by decide)
  · obtain ⟨entry, hentry, rfl⟩ := List.mem_map.mp hpart
    obtain ⟨hkey, hvalue⟩ := h.fields entry hentry
    have htext : (Fields.entryText entry).EscapeFree :=
      Text.escapeFree_append_iff.mpr
        ⟨hkey, Text.escapeFree_cons_iff.mpr ⟨by decide, hvalue⟩⟩
    exact htext hmem

end EscapeFree

end Event

theorem Level.escapeFree_name (level : Level) : level.name.EscapeFree := by
  cases level <;> decide

theorem DateLayout.escapeFree_format {options : List Text} {layout : DateLayout}
    (hoptions : ∀ o ∈ options, o.EscapeFree)
    (h : DateLayout.ofOptions options = .ok layout) :
    layout.format.EscapeFree := by
  cases options with
  | nil =>
      obtain rfl := Except.ok.inj h
      decide
  | cons option options =>
      intro hmem
      rcases DateLayout.mem_format h hmem with hvisible | hoption
      · exact absurd hvisible (by decide)
      · exact hoptions option List.mem_cons_self hoption

theorem DateLayout.escapeFree_text {layout : DateLayout}
    (hlayout : layout.format.EscapeFree) {t : Timestamp} {text : Text}
    (h : layout.text t = .ok text) : text.EscapeFree := by
  rw [DateLayout.text] at h
  cases hrender : layout.render? t with
  | none =>
      rw [hrender] at h
      contradiction
  | some rendered =>
      rw [hrender] at h
      obtain rfl := Except.ok.inj h
      intro hmem
      rcases DateLayout.mem_render hrender hmem with
        hvisible | hformat | hfeed | htab
      · exact absurd hvisible (by decide)
      · exact hlayout hformat
      · exact absurd hfeed (by decide)
      · exact absurd htab (by decide)

end Logline
