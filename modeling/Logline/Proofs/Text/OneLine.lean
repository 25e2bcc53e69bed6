import Mathlib.Tactic.SplitIfs
import Logline.Converter.Basic
/-!
Texts in one line.  A text is `OneLine` if it has no line feed, carriage return
or tab; `sanitize` makes it one.  Escaping breaks in a buffer, byte by byte and
from some place on, is sanitizing the text that was written there
(`escapeBreaksFrom_utf8`): in UTF-8 a byte below `0x80` stands for a character
of its own, so that no part of a longer character is taken for a break.
-/
namespace Logline

namespace Text

theorem utf8EncodeChar_of_lt {c : Char} (h : c.toNat < 0x80) :
    String.utf8EncodeChar c = [UInt8.ofNat c.toNat] := by
  have hle : c.val.toNat ≤ 0x7f := Nat.le_of_lt_succ h
  rw [String.utf8EncodeChar]
  exact if_pos hle

theorem le_of_mem_utf8EncodeChar {c : Char} (h : 0x80 ≤ c.toNat) {b : UInt8}
    (hb : b ∈ String.utf8EncodeChar c) : 0x80 ≤ b.toNat := by
  have hgt : ¬ c.val.toNat ≤ 0x7f := Nat.not_le_of_lt h
  simp only [String.utf8EncodeChar, if_neg hgt] at hb
  split_ifs at hb
  all_goals
    simp only [List.mem_cons, List.not_mem_nil, or_false] at hb
    rcases hb with rfl | rfl | rfl | rfl <;> rw [UInt8.toNat_ofNat'] <;> omega

/-- The text has no line feed, carriage return or tab. -/
def OneLine (t : Text) : Prop :=
  ∀ c ∈ t, c ≠ '\n' ∧ c ≠ '\r' ∧ c ≠ '\t'

instance (t : Text) : Decidable (OneLine t) :=
  List.decidableBAll _ t

@[simp] theorem oneLine_nil : OneLine [] := by
  simp [OneLine]

@[simp] theorem oneLine_cons_iff {c : Char} {t : Text} :
    OneLine (c :: t) ↔ (c ≠ '\n' ∧ c ≠ '\r' ∧ c ≠ '\t') ∧ OneLine t := by
  simp [OneLine]

@[simp] theorem oneLine_append_iff {s t : Text} :
    OneLine (s ++ t) ↔ OneLine s ∧ OneLine t :=
  List.forall_mem_append

theorem OneLine.of_subset {s t : Text} (h : OneLine t) (hst : s ⊆ t) :
    OneLine s :=
  fun c hc => h c (hst hc)

theorem oneLine_flatMap {α : Type} {f : α → Text} {xs : List α}
    (h : ∀ x ∈ xs, OneLine (f x)) : OneLine (xs.flatMap f) := by
  intro c hc
  obtain ⟨x, hx, hc⟩ := List.mem_flatMap.mp hc
  exact h x hx c hc

/-- Between the separators stand the parts. -/
theorem mem_join {separator : Text} {parts : List Text} {c : Char}
    (h : c ∈ join separator parts) :
    c ∈ separator ∨ ∃ part ∈ parts, c ∈ part := by
  induction parts with
  | nil => contradiction
  | cons part parts ih =>
      cases parts with
      | nil => exact .inr ⟨part, List.mem_cons_self, by simpa [join] using h⟩
      | cons next parts =>
          rw [join, List.intercalate_cons_cons, List.mem_append,
            List.mem_append] at h
          rcases h with (hpart | hseparator) | hrest
          · exact .inr ⟨part, List.mem_cons_self, hpart⟩
          · exact .inl hseparator
          · refine (ih hrest).imp_right ?_
            rintro ⟨other, hother, hc⟩
            exact ⟨other, List.mem_cons_of_mem part hother, hc⟩

theorem oneLine_join {separator : Text} {parts : List Text}
    (hseparator : OneLine separator) (hparts : ∀ part ∈ parts, OneLine part) :
    OneLine (join separator parts) := by
  intro c hc
  rcases mem_join hc with hc | ⟨part, hpart, hc⟩
  · exact hseparator c hc
  · exact hparts part hpart c hc

theorem oneLine_of_isDigit {t : Text} (h : ∀ c ∈ t, c.isDigit = true) :
    OneLine t := by
  intro c hc
  have hdigit := h c hc
  refine ⟨?_, ?_, ?_⟩ <;> rintro rfl <;> exact absurd hdigit (by decide)

theorem isDigit_of_mem_ofNat {n : Nat} {c : Char} (h : c ∈ ofNat n) :
    c.isDigit = true :=
  Nat.isDigit_of_mem_toDigits (by decide) (by decide) h

theorem oneLine_ofNat (n : Nat) : OneLine (ofNat n) :=
  oneLine_of_isDigit fun _ => isDigit_of_mem_ofNat

theorem oneLine_ofInt (n : Int) : OneLine (ofInt n) := by
  cases n with
  | ofNat n => exact oneLine_ofNat n
  | negSucc n => exact oneLine_cons_iff.mpr ⟨by decide, oneLine_ofNat _⟩

theorem sanitize_cons (c : Char) (t : Text) :
    Event.sanitize (c :: t) = Event.escapeBreak c ++ Event.sanitize t := rfl

theorem oneLine_sanitize (t : Text) : OneLine (Event.sanitize t) := by
  apply oneLine_flatMap
  intro c _
  rw [Event.escapeBreak]
  split_ifs with hfeed hreturn htab
  · decide
  · decide
  · decide
  · exact oneLine_cons_iff.mpr ⟨⟨hfeed, hreturn, htab⟩, oneLine_nil⟩

theorem sanitize_of_oneLine {t : Text} (h : OneLine t) :
    Event.sanitize t = t := by
  induction t with
  | nil => rfl
  | cons c t ih =>
      obtain ⟨⟨hfeed, hreturn, htab⟩, hrest⟩ := oneLine_cons_iff.mp h
      have hc : Event.escapeBreak c = [c] := by
        rw [Event.escapeBreak, if_neg hfeed, if_neg hreturn, if_neg htab]
      rw [sanitize_cons, hc, ih hrest, List.singleton_append]

theorem sanitize_append (s t : Text) :
    Event.sanitize (s ++ t) = Event.sanitize s ++ Event.sanitize t :=
  List.flatMap_append

end Text

namespace Converter

theorem escapeBreakByte_of_not_isBreak {b : UInt8} (h : isBreak b = false) :
    escapeBreakByte b = [b] := by
  simp only [isBreak, Bool.or_eq_false_iff, beq_eq_false_iff_ne] at h
  rw [escapeBreakByte, if_neg h.1.1, if_neg h.1.2, if_neg h.2]

theorem flatMap_escapeBreakByte_of_not_isBreak {bytes : Bytes}
    (h : ∀ b ∈ bytes, isBreak b = false) :
    bytes.flatMap escapeBreakByte = bytes := by
  induction bytes with
  | nil => rfl
  | cons b bytes ih =>
      rw [List.flatMap_cons,
        escapeBreakByte_of_not_isBreak (h b List.mem_cons_self),
        ih fun x hx => h x (List.mem_cons_of_mem b hx), List.singleton_append]

/-- The bytes of a character that is no break are none. -/
theorem not_isBreak_of_mem_utf8EncodeChar {c : Char}
    (h : c ≠ '\n' ∧ c ≠ '\r' ∧ c ≠ '\t') {b : UInt8}
    (hb : b ∈ String.utf8EncodeChar c) : isBreak b = false := by
  simp only [isBreak, Bool.or_eq_false_iff, beq_eq_false_iff_ne, ne_eq,
    ← UInt8.toNat_inj, UInt8.reduceToNat]
  by_cases hlow : c.toNat < 0x80
  · rw [Text.utf8EncodeChar_of_lt hlow, List.mem_singleton] at hb
    have hne : c.toNat ≠ 10 ∧ c.toNat ≠ 13 ∧ c.toNat ≠ 9 :=
      ⟨fun he => h.1 (Char.toNat_inj.mp he),
        fun he => h.2.1 (Char.toNat_inj.mp he),
        fun he => h.2.2 (Char.toNat_inj.mp he)⟩
    rw [hb, UInt8.toNat_ofNat']
    omega
  · have hle := Text.le_of_mem_utf8EncodeChar (Nat.le_of_not_lt hlow) hb
    omega

theorem not_isBreak_of_mem_utf8 {t : Text} (h : t.OneLine) {b : UInt8}
    (hb : b ∈ t.utf8) : isBreak b = false := by
  obtain ⟨c, hc, hb⟩ := List.mem_flatMap.mp hb
  exact not_isBreak_of_mem_utf8EncodeChar (h c hc) hb

theorem flatMap_escapeBreakByte_utf8 (t : Text) :
    t.utf8.flatMap escapeBreakByte = (Event.sanitize t).utf8 := by
  induction t with
  | nil => rfl
  | cons c t ih =>
      rw [Text.utf8_cons, List.flatMap_append, ih, Text.sanitize_cons,
        Text.utf8_append]
      congr 1
      rw [Event.escapeBreak]
      split_ifs with hfeed hreturn htab
      · rw [hfeed]
        rfl
      · rw [hreturn]
        rfl
      · rw [htab]
        rfl
      · rw [Text.utf8_cons, Text.utf8_nil, List.append_nil]
        exact flatMap_escapeBreakByte_of_not_isBreak fun b hb =>
          not_isBreak_of_mem_utf8EncodeChar ⟨hfeed, hreturn, htab⟩ hb

/-- What is in front of the start stays as it is; whether the rest is looked
through for breaks first makes no difference. -/
theorem escapeBreaksFrom_eq (start : Nat) (out : Bytes) :
    escapeBreaksFrom start out = out.take start ++
      (out.drop start).flatMap escapeBreakByte := by
  rw [escapeBreaksFrom]
  split_ifs with hany
  · rfl
  · have hnone : ∀ b ∈ out.drop start, isBreak b = false := by
      simpa using hany
    rw [flatMap_escapeBreakByte_of_not_isBreak hnone, List.take_append_drop]

theorem escapeBreaksFrom_append (out added : Bytes) :
    escapeBreaksFrom out.length (out ++ added) =
      out ++ added.flatMap escapeBreakByte := by
  rw [escapeBreaksFrom_eq, List.drop_left, List.take_left]

theorem escapeBreaksFrom_utf8 (out : Bytes) (t : Text) :
    escapeBreaksFrom out.length (out ++ t.utf8) =
      out ++ (Event.sanitize t).utf8 := by
  rw [escapeBreaksFrom_append, flatMap_escapeBreakByte_utf8]

end Converter

end Logline
