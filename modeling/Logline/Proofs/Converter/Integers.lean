import Logline.Converter.Samples
import Logline.Proofs.Converter.Rendered
import Logline.Proofs.Event.Kept
import Logline.Proofs.Event.Lifted
import Logline.Proofs.Json.Integers
import Logline.Proofs.Number.Integers
/-!
How the integers of a payload are written in a log line.  A field value keeps
an integer in 64 bits with a sign, and one that does not fit as its nearest
double.  So from the 63rd power of two on the digits are those of a multiple of
1000 (`FieldValue.written`), unless the integer is in an object, of which the
text is kept.  The fields are written with these digits in the place of the
integers, and a field has its exact text just if each of its integers is
written as itself (`write_fields_integers`).
-/
namespace Logline

namespace Json

/-! ### Values in a log line -/

mutual

/-- The value in a log line, with each integer outside of objects changed. -/
def textWith (change : Int → Int) : Json → Text
  | .null => "null".toList
  | .bool b => if b then "true".toList else "false".toList
  | .number (.integer n) => Text.ofInt (change n)
  | .number (.double d) => d.plainText
  | .string t => t
  | .array items => '[' :: Text.join [' '] (textsWith change items) ++ [']']
  | .object entries => text (.object entries)

def textsWith (change : Int → Int) : List Json → List Text
  | [] => []
  | v :: rest => textWith change v :: textsWith change rest

end

section

variable {f g : Int → Int}

mutual

theorem textWith_congr : ∀ (v : Json), (∀ n ∈ v.integers, f n = g n) →
    v.textWith f = v.textWith g
  | .null, _ => rfl
  | .bool _, _ => rfl
  | .number (.integer n), h => congrArg Text.ofInt (h n List.mem_cons_self)
  | .number (.double _), _ => rfl
  | .string _, _ => rfl
  | .array items, h => by rw [textWith, textWith, textsWith_congr items h]
  | .object _, _ => rfl

theorem textsWith_congr :
    ∀ (items : List Json), (∀ n ∈ integersAll items, f n = g n) →
    textsWith f items = textsWith g items
  | [], _ => rfl
  | v :: rest, h => by
      rw [integersAll, List.forall_mem_append] at h
      rw [textsWith, textsWith, textWith_congr v h.1, textsWith_congr rest h.2]

end

theorem endsDigits_rest (rest : List Text) (s : Text) :
    Text.EndsDigits (rest.flatMap (' ' :: ·) ++ ']' :: s) := by
  cases rest <;> rintro c ⟨⟩ <;> rfl

mutual

/-- A text in which no digit follows begins with a value in one way only. -/
theorem textWith_append_inj : ∀ (v : Json) {s t : Text}, Text.EndsDigits s →
    Text.EndsDigits t →
    v.textWith f ++ s = v.textWith g ++ t →
    (∀ n ∈ v.integers, f n = g n) ∧ s = t
  | .null, _, _, _, _, h => ⟨List.forall_mem_nil _, List.append_cancel_left h⟩
  | .bool _, _, _, _, _, h => ⟨List.forall_mem_nil _, List.append_cancel_left h⟩
  | .number (.integer n), _, _, hs, ht, h =>
      (Text.ofInt_append_inj hs ht h).imp List.forall_mem_singleton.mpr id
  | .number (.double _), _, _, _, _, h =>
      ⟨List.forall_mem_nil _, List.append_cancel_left h⟩
  | .string _, _, _, _, _, h =>
      ⟨List.forall_mem_nil _, List.append_cancel_left h⟩
  | .object _, _, _, _, _, h =>
      ⟨List.forall_mem_nil _, List.append_cancel_left h⟩
  | .array [], _, _, _, _, h =>
      ⟨List.forall_mem_nil _, List.append_cancel_left h⟩
  | .array (v :: rest), s, t, _, _, h => by
      -- Behind an item stands a blank or the bracket, so its digits end there
      -- on both sides.
      simp only [textWith, textsWith, Text.join_blank_cons, List.cons_append,
        List.append_assoc, List.cons.injEq, true_and] at h
      obtain ⟨hv, hrest⟩ :=
        textWith_append_inj v (endsDigits_rest _ s) (endsDigits_rest _ t) h
      obtain ⟨hvs, rfl⟩ := textsWith_append_inj rest hrest
      exact ⟨List.forall_mem_append.mpr ⟨hv, hvs⟩, rfl⟩

theorem textsWith_append_inj : ∀ (items : List Json) {s t : Text},
    (textsWith f items).flatMap (' ' :: ·) ++ ']' :: s =
      (textsWith g items).flatMap (' ' :: ·) ++ ']' :: t →
    (∀ n ∈ integersAll items, f n = g n) ∧ s = t
  | [], _, _, h => ⟨List.forall_mem_nil _, (List.cons.inj h).2⟩
  | v :: rest, s, t, h => by
      simp only [textsWith, List.flatMap_cons, List.cons_append,
        List.append_assoc, List.cons.injEq, true_and] at h
      obtain ⟨hv, hrest⟩ :=
        textWith_append_inj v (endsDigits_rest _ s) (endsDigits_rest _ t) h
      obtain ⟨hvs, rfl⟩ := textsWith_append_inj rest hrest
      exact ⟨List.forall_mem_append.mpr ⟨hv, hvs⟩, rfl⟩

end

/-- Two ways of writing integers give a value the same text exactly if they
agree on all its integers. -/
theorem textWith_eq_iff (v : Json) :
    v.textWith f = v.textWith g ↔ ∀ n ∈ v.integers, f n = g n := by
  have hend : Text.EndsDigits [] := fun c hc => by contradiction
  refine ⟨fun h => ?_, textWith_congr v⟩
  exact (textWith_append_inj v hend hend (congrArg (· ++ []) h)).1

end

end Json

namespace FieldValue

/-- The integer whose digits are written for one of at most 64 bits: itself up
to the largest one with a sign, and beyond it what its nearest double is
written as. -/
def written (n : Int) : Int :=
  if n ≤ Int64.maxValue.toInt then n
    else ((Double.ofNat n.toNat).shortest .up).toNat

theorem written_eq_self {n : Int} (h : n ≤ Int64.maxValue.toInt) :
    written n = n :=
  if_pos h

theorem isHigh_toNat {n : Int} (hn : Json.InRange n)
    (h : Int64.maxValue.toInt < n) :
    Double.IsHigh n.toNat := by
  have hmax : Int64.maxValue.toInt = 0x7fff_ffff_ffff_ffff := rfl
  rw [hmax] at h
  have hhigh := hn.2
  constructor <;> omega

theorem text_ofNumber {n : Int} (hn : Json.InRange n) :
    (ofNumber (.integer n)).text = Text.ofInt (written n) := by
  have hmin : Int64.minValue.toInt = -0x8000_0000_0000_0000 := rfl
  rw [ofNumber, written]
  by_cases h : n ≤ Int64.maxValue.toInt
  · rw [if_pos ⟨hmin ▸ hn.1, h⟩, if_pos h, text,
      Int64.toInt_ofInt_of_le hn.1 (Int.lt_of_le_of_lt h (by decide))]
  · have hhigh := isHigh_toNat hn (Int.not_le.mp h)
    have hpos : ¬ n < 0 := by
      have := hhigh.1
      omega
    have hdouble : Double.ofRatio (decide (n < 0)) n.natAbs 1 =
        Double.ofNat n.toNat := by
      rw [decide_eq_false hpos, Double.ofNat]
      congr 1
      omega
    rw [if_neg fun hfits => h hfits.2, if_neg h, text, hdouble,
      (Double.plainText_ofNat hhigh).1]
    rfl

theorem thousands_dvd_written {n : Int} (hn : Json.InRange n)
    (h : Int64.maxValue.toInt < n) :
    1000 ∣ written n := by
  rw [written, if_neg (Int.not_le.mpr h)]
  exact Int.natCast_dvd_natCast.mpr
    (Double.plainText_ofNat (isHigh_toNat hn h)).2

mutual

theorem text_ofJson : ∀ (v : Json), (∀ n ∈ v.integers, Json.InRange n) →
    (ofJson v).text = v.textWith written
  | .null, _ => rfl
  | .bool _, _ => rfl
  | .number (.integer n), h => text_ofNumber (h n List.mem_cons_self)
  | .number (.double _), _ => rfl
  | .string _, _ => rfl
  | .array items, h => by
      rw [ofJson, text, Json.textWith, texts_ofJsons items h]
  | .object _, _ => rfl

theorem texts_ofJsons :
    ∀ (items : List Json), (∀ n ∈ Json.integersAll items, Json.InRange n) →
    texts (ofJsons items) = Json.textsWith written items
  | [], _ => rfl
  | v :: rest, h => by
      rw [Json.integersAll, List.forall_mem_append] at h
      rw [ofJsons, texts, Json.textsWith, text_ofJson v h.1,
        texts_ofJsons rest h.2]

end

end FieldValue

namespace Converter

open Event

variable {κ : Type}

/-- The fields of a decoded payload are written behind the buffer, each integer
of theirs as the one that is kept for it.  This one is itself up to the largest
integer with a sign, and beyond it a multiple of 1000; and a field is written
as it would be with exact integers only if each of its integers is kept as
itself. -/
theorem write_fields_integers (ext : Extension κ) {now : Timestamp}
    {payload : Bytes} {e : Event} (h : ofPayload now payload = .ok e)
    (out : Bytes) :
    ∃ entries, Json.read payload = .ok (.object entries) ∧
      write ext e .fields out =
        ⟨.fields, out ++ Text.utf8 (sanitize (Text.join [' ']
        ((plainEntries entries).map fun entry =>
          entry.1 ++ '=' :: entry.2.textWith FieldValue.written))), none⟩ ∧
      ∀ entry ∈ plainEntries entries,
        (entry.2.textWith FieldValue.written = entry.2.textWith id ↔
          ∀ n ∈ entry.2.integers, FieldValue.written n = n) ∧
        ∀ n ∈ entry.2.integers,
          (n ≤ Int64.maxValue.toInt → FieldValue.written n = n) ∧
          (Int64.maxValue.toInt < n → 1000 ∣ FieldValue.written n) := by
  obtain ⟨entries, hread, -, he⟩ := ofPayload_cases h
  have hrange : ∀ entry ∈ plainEntries entries, ∀ n ∈ entry.2.integers,
      Json.InRange n :=
    fun entry hentry =>
      Json.inRange_of_read hread entry (List.mem_filter.mp hentry).1
  have hfields : e.fields =
      (plainEntries entries).map fun entry =>
        (entry.1, FieldValue.ofJson entry.2) :=
    (congrArg Event.fields he).trans (fieldsOf_eq (nodup_of_read hread))
  have htext : e.fields.text =
      Text.join [' '] ((plainEntries entries).map fun entry =>
      entry.1 ++ '=' :: entry.2.textWith FieldValue.written) := by
    rw [hfields, Fields.text, List.map_map]
    refine congrArg (Text.join [' '])
      (List.map_congr_left fun entry hentry => ?_)
    exact congrArg (entry.1 ++ '=' :: ·)
      (FieldValue.text_ofJson entry.2 (hrange entry hentry))
  refine ⟨entries, hread, ?_, fun entry hentry =>
    ⟨entry.2.textWith_eq_iff, fun n hn =>
      ⟨FieldValue.written_eq_self, fun hhigh => ?_⟩⟩⟩
  · rw [write, writeFields_eq, htext]
    simp
  · exact FieldValue.thousands_dvd_written (hrange entry hentry n hn) hhigh

namespace IntegersWitness

/-- The largest integers with and without sign, the latter also in an object. -/
def limits : Bytes :=
  Text.utf8 <|
    "\x7b\"time\":\"1970-01-01T00:00:00Z\",\"a\":9223372036854775807,".toList ++
    "\"b\":18446744073709551615,\"c\":\x7b\"n\":18446744073709551615\x7d\x7d".toList

theorem exists_event : ∃ e, ofPayload .epoch limits = .ok e := by
  have hdecoded : (ofPayload .epoch limits).isOk = true := by decide +kernel
  cases h : ofPayload .epoch limits with
  | error error =>
      rw [h] at hdecoded
      contradiction
  | ok e => exact ⟨e, rfl⟩

theorem write_fields_integers_sample :
    ∃ e entries, ofPayload .epoch limits = .ok e ∧
      Json.read limits = .ok (.object entries) ∧
      (write Sample.extension e .fields [10]).out =
        [10] ++ Text.utf8 (sanitize (Text.join [' ']
          ((plainEntries entries).map fun entry =>
            entry.1 ++ '=' :: entry.2.textWith FieldValue.written))) := by
  obtain ⟨e, hevent⟩ := exists_event
  obtain ⟨entries, hread, hwrite, -⟩ :=
    write_fields_integers Sample.extension hevent [10]
  exact ⟨e, entries, hevent, hread, congrArg Written.out hwrite⟩

/-- The largest integer without sign loses its last digits, but not inside of
an object. -/
theorem unsigned_rounded :
    (ofPayload .epoch limits).toOption.map
      (fun e => (write Sample.extension e .fields []).out) =
      some (Text.utf8 ("a=9223372036854775807 b=18446744073709552000 ".toList ++
        "c=\x7b\"n\":18446744073709551615\x7d".toList)) := by
  decide +kernel

end IntegersWitness

end Converter

end Logline
