import Logline.Event.Value
import Logline.Proofs.Json.Steps
/-!
What JSON keeps of field values.  A duration and an error are their text in it,
and a float that is infinite or no number is null; all else comes back as it
was, at any depth of lists (`kept`).  In a log line the two texts of a duration
or an error are one, so that a value is written after its way through JSON as
before just if its floats are finite (`ofJson_toJson_keeps`).
-/
namespace Logline

theorem Text.join_blank_cons (t : Text) (rest : List Text) :
    Text.join [' '] (t :: rest) = t ++ rest.flatMap (' ' :: ·) :=
  Json.intercalate_cons ' ' t rest

theorem Double.plainText_of_not_isFinite {d : Double} (h : d.isFinite = false) :
    d.plainText = "NaN".toList ∨ d.plainText = "inf".toList ∨
      d.plainText = "-inf".toList := by
  rw [plainText, h]
  cases d.isNaN with
  | true => exact .inl rfl
  | false => cases d.isNegative <;> simp

namespace FieldValue

mutual

/-- The value as JSON keeps it. -/
def kept : FieldValue → FieldValue
  | float d => if d.isFinite then float d else null
  | duration d => string d.text
  | error message => string message
  | list items => list (allKept items)
  | v => v

def allKept : List FieldValue → List FieldValue
  | [] => []
  | v :: rest => kept v :: allKept rest

end

mutual

/-- No float in the value, at any depth, is infinite or no number. -/
def FiniteFloats : FieldValue → Prop
  | float d => d.isFinite = true
  | list items => AllFiniteFloats items
  | _ => True

def AllFiniteFloats : List FieldValue → Prop
  | [] => True
  | v :: rest => FiniteFloats v ∧ AllFiniteFloats rest

end

/-- An integer of 64 bits is one in JSON too. -/
theorem ofNumber_toInt (n : Int64) : ofNumber (.integer n.toInt) = int n := by
  have hrange : Int64.minValue.toInt ≤ n.toInt ∧
      n.toInt ≤ Int64.maxValue.toInt :=
    ⟨n.minValue_le_toInt, n.toInt_le⟩
  rw [ofNumber, if_pos hrange, Int64.ofInt_toInt]

mutual

theorem ofJson_toJson_eq_kept : ∀ v : FieldValue, ofJson v.toJson = v.kept
  | string _ | bool _ | duration _ | error _ | null => rfl
  | int n => ofNumber_toInt n
  | float d => by
      rw [toJson, kept]
      cases d.isFinite <;> rfl
  | list items => by rw [toJson, ofJson, kept, ofJsons_toJsons_eq_allKept items]

theorem ofJsons_toJsons_eq_allKept : ∀ items : List FieldValue,
    ofJsons (toJsons items) = allKept items
  | [] => rfl
  | v :: rest => by
      rw [toJsons, ofJsons, allKept, ofJson_toJson_eq_kept v,
        ofJsons_toJsons_eq_allKept rest]

end

/-! ### Texts -/

mutual

theorem text_kept : ∀ v : FieldValue, v.FiniteFloats → v.kept.text = v.text
  | string _, _ | int _, _ | bool _, _
  | duration _, _ | error _, _ | null, _ => rfl
  | float d, h => by
      have hfinite : d.isFinite = true := h
      rw [kept, if_pos hfinite]
  | list items, h => by rw [kept, text, text, texts_allKept items h]

theorem texts_allKept : ∀ items : List FieldValue, AllFiniteFloats items →
    texts (allKept items) = texts items
  | [], _ => rfl
  | v :: rest, h => by
    rw [allKept, texts, texts, text_kept v h.1, texts_allKept rest h.2]

end

mutual

/-- Two texts that are one, of which the first begins with a value and the
second with what is kept of it, part nowhere: a float that is kept as null
would do so at its first character. -/
theorem finiteFloats_of_append : ∀ (v : FieldValue) {s t : Text},
    v.text ++ s = v.kept.text ++ t → v.FiniteFloats ∧ s = t
  | string _, _, _, h | int _, _, _, h | bool _, _, _, h
  | duration _, _, _, h | error _, _, _, h
  | null, _, _, h => ⟨trivial, List.append_cancel_left h⟩
  | float d, _, _, h => by
      cases hfinite : d.isFinite with
      | true =>
          rw [kept, if_pos hfinite] at h
          exact ⟨hfinite, List.append_cancel_left h⟩
      | false =>
          rw [kept, if_neg (by simp [hfinite]), text, text] at h
          rcases Double.plainText_of_not_isFinite hfinite with
            hd | hd | hd <;> simp [hd] at h
  | list [], _, _, h => ⟨trivial, List.append_cancel_left h⟩
  | list (v :: rest), _, _, h => by
      simp only [kept, allKept, text, texts, Text.join_blank_cons,
        List.cons_append, List.append_assoc, List.cons.injEq, true_and] at h
      obtain ⟨hv, hrest⟩ := finiteFloats_of_append v h
      obtain ⟨hvs, hend⟩ := allFiniteFloats_of_append rest hrest
      exact ⟨⟨hv, hvs⟩, hend⟩

theorem allFiniteFloats_of_append : ∀ (items : List FieldValue) {s t : Text},
    (texts items).flatMap (' ' :: ·) ++ ']' :: s =
      (texts (allKept items)).flatMap (' ' :: ·) ++ ']' :: t →
    AllFiniteFloats items ∧ s = t
  | [], _, _, h => ⟨trivial, (List.cons.inj h).2⟩
  | v :: rest, _, _, h => by
      simp only [allKept, texts, List.flatMap_cons, List.cons_append,
        List.append_assoc, List.cons.injEq, true_and] at h
      obtain ⟨hv, hrest⟩ := finiteFloats_of_append v h
      obtain ⟨hvs, hend⟩ := allFiniteFloats_of_append rest hrest
      exact ⟨⟨hv, hvs⟩, hend⟩

end

/-- A value comes back from JSON as it is kept there, and it has the same text
in a log line as before exactly if none of its floats is infinite or no
number. -/
theorem ofJson_toJson_keeps (v : FieldValue) :
    ofJson v.toJson = v.kept ∧
      ((ofJson v.toJson).text = v.text ↔ v.FiniteFloats) := by
  rw [ofJson_toJson_eq_kept]
  refine ⟨rfl, fun h => ?_, text_kept v⟩
  have hends : v.text ++ [] = v.kept.text ++ [] := congrArg (· ++ []) h.symm
  exact (finiteFloats_of_append v hends).1

end FieldValue

end Logline
