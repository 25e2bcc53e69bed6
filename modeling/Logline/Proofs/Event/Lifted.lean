import Logline.Event.Payload
import Logline.Proofs.Entries
import Logline.Proofs.Json.Exact
/-!
Which entries of a document become the fields of its event: those under keys
that are not reserved, in document order.  The reserved entries say the level,
the time, the message and the logger wherever they stand, so that a payload
with a time decodes in the same way with its reserved entries at any other
places (`ofPayload_lifts`).
-/
namespace Logline.Event

open Json

/-- The entries that say what an event is besides its fields. -/
def reservedEntries (entries : Entries Json) : Entries Json :=
  entries.filter fun entry => reservedKeys.contains entry.1

/-- The entries that become fields. -/
def plainEntries (entries : Entries Json) : Entries Json :=
  entries.filter fun entry => !reservedKeys.contains entry.1

variable {payload : Bytes} {a b entries : Entries Json}

theorem nodup_of_read (h : Json.read payload = .ok (.object entries)) :
    (entries.map Prod.fst).Nodup := by
  obtain ⟨members, -, -, rfl⟩ := ofTokens_eq_object_iff.mp h
  have hnone : (([] : Entries Json).map Prod.fst).Nodup := List.nodup_nil
  exact Entries.nodup_insertAll hnone _

theorem fieldsOf_eq (h : (entries.map Prod.fst).Nodup) :
    fieldsOf entries =
      (plainEntries entries).map fun entry =>
        (entry.1, FieldValue.ofJson entry.2) := by
  have hplain : ((plainEntries entries).map Prod.fst).Nodup :=
    h.sublist (List.filter_sublist.map _)
  have hkeys : (plainEntries entries).map Prod.fst =
      ((plainEntries entries).map fun entry =>
      (entry.1, FieldValue.ofJson entry.2)).map Prod.fst := by
    rw [List.map_map]
    rfl
  rw [fieldsOf, Entries.foldl_erase]
  exact Entries.insertAll_nil (hkeys ▸ hplain)

/-- Where the same reserved entries stand, each reserved key has the same
value. -/
theorem get?_eq_of_reservedEntries (ha : (a.map Prod.fst).Nodup)
    (h : (reservedEntries a).Perm (reservedEntries b)) {key : Text}
    (hkey : key ∈ reservedKeys) :
    a.get? key = b.get? key := by
  have hreserved : reservedKeys.contains key = true :=
    List.contains_iff_mem.mpr hkey
  rw [← Entries.get?_filter hreserved a, ← Entries.get?_filter hreserved b]
  exact Entries.get?_eq_of_perm h (ha.sublist (List.filter_sublist.map _)) key

theorem ofDocument_eq_map (now : Timestamp) (entries : Entries Json) :
    ofDocument now (.object entries) = (timeOf now entries).map fun time =>
      ⟨levelOf entries, time, messageOf entries, loggerOf entries,
        fieldsOf entries⟩ := by
  rw [ofDocument]
  cases timeOf now entries <;> rfl

/-- A document that has a time has the same one whenever it is decoded. -/
theorem timeOf_congr (h : a.get? timeKey = b.get? timeKey)
    (htimed : (a.get? timeKey).isSome = true) (now now' : Timestamp) :
    timeOf now a = timeOf now' b := by
  obtain ⟨time, hfound⟩ := Option.isSome_iff_exists.mp htimed
  rw [timeOf, timeOf, ← h, hfound]
  cases time <;> rfl

theorem ofDocument_congr
    (hreserved : ∀ key ∈ reservedKeys, a.get? key = b.get? key)
    (hfields : fieldsOf a = fieldsOf b)
    (htimed : (a.get? timeKey).isSome = true) (now now' : Timestamp) :
    ofDocument now (.object a) = ofDocument now' (.object b) := by
  have hlevel : levelOf a = levelOf b := by
    rw [levelOf, levelOf, hreserved levelKey (by decide)]
  have htime : timeOf now a = timeOf now' b :=
    timeOf_congr (hreserved timeKey (by decide)) htimed now now'
  have hmessage : messageOf a = messageOf b := by
    rw [messageOf, messageOf, hreserved messageKey (by decide)]
  have hlogger : loggerOf a = loggerOf b := by
    rw [loggerOf, loggerOf, hreserved loggerKey (by decide)]
  rw [ofDocument_eq_map, ofDocument_eq_map, hlevel, htime, hmessage,
    hlogger, hfields]

/-- A payload that is an object with a time has the entries that its members
leave, the last value of each key in the place of the first.  It is decoded to
the event whose fields are the entries under keys that are not reserved, in
order, or refused for its time.  And wherever the reserved entries stand among
the others, the result is the same. -/
theorem ofPayload_lifts (hread : Json.read payload = .ok (.object entries))
    (htimed : (entries.get? timeKey).isSome = true) :
    (∃ members : List (Text × List Token × Json),
      tokens payload =
        objectTokens (members.map fun member =>
          memberTokens (.ok member.1) member.2.1) ∧
      (∀ member ∈ members, Spells innerDepth member.2.1 member.2.2) ∧
      entries = Entries.insertAll []
        (members.map fun member => (member.1, member.2.2))) ∧
    (∀ now, ofPayload now payload = (timeOf now entries).map fun time =>
      ⟨levelOf entries, time, messageOf entries, loggerOf entries,
        (plainEntries entries).map fun entry =>
          (entry.1, FieldValue.ofJson entry.2)⟩) ∧
    ∀ (other : Bytes) (entries' : Entries Json),
      Json.read other = .ok (.object entries') →
      (reservedEntries entries').Perm (reservedEntries entries) →
      plainEntries entries' = plainEntries entries →
      ∀ now now', ofPayload now' other = ofPayload now payload := by
  have hnodup := nodup_of_read hread
  refine ⟨ofTokens_eq_object_iff.mp hread, fun now => ?_, ?_⟩
  · rw [ofPayload, hread, ← fieldsOf_eq hnodup]
    exact ofDocument_eq_map now entries
  · intro other entries' hother hreserved hplain now now'
    have hsame : ∀ key ∈ reservedKeys, entries.get? key = entries'.get? key :=
      fun key hkey =>
        get?_eq_of_reservedEntries hnodup hreserved.symm hkey
    have hfields : fieldsOf entries = fieldsOf entries' := by
      rw [fieldsOf_eq hnodup, fieldsOf_eq (nodup_of_read hother), hplain]
    rw [ofPayload, ofPayload, hread, hother]
    exact (ofDocument_congr hsame hfields htimed now now').symm

namespace LiftedWitness

/-- A key twice, and reserved keys among the others. -/
def mixed : Bytes :=
  Text.utf8 <| "\x7b\"b\":1,\"level\":\"warn\",\"a\":[2],".toList ++
    "\"time\":\"1970-01-01T00:00:00Z\",\"b\":3\x7d".toList

/-- The reserved keys come first, in another order. -/
def arranged : Bytes :=
  Text.utf8 <| "\x7b\"time\":\"1970-01-01T00:00:00Z\",".toList ++
    "\"level\":\"warn\",\"b\":3,\"a\":[2]\x7d".toList

def level : Text × Json := (levelKey, .string "warn".toList)

def time : Text × Json := (timeKey, .string "1970-01-01T00:00:00Z".toList)

def three : Text × Json := ("b".toList, .number (.integer 3))

def listed : Text × Json := ("a".toList, .array [.number (.integer 2)])

theorem read_mixed :
    Json.read mixed = .ok (.object [three, level, listed, time]) := rfl

theorem read_arranged :
    Json.read arranged = .ok (.object [time, level, three, listed]) := rfl

/-- Both have the fields `b` and `a`, and are decoded to the same event. -/
theorem ofPayload_lifts_sample :
    Json.read mixed = .ok (.object [three, level, listed, time]) ∧
      Json.read arranged = .ok (.object [time, level, three, listed]) ∧
      (∃ e, ofPayload .epoch mixed = .ok e ∧
        e.fields = [("b".toList, .int 3), ("a".toList, .list [.int 2])]) ∧
      ∀ now now', ofPayload now' arranged = ofPayload now mixed := by
  obtain ⟨-, hevent, hsame⟩ := ofPayload_lifts read_mixed rfl
  have hreserved : (reservedEntries [time, level, three, listed]).Perm
      (reservedEntries [three, level, listed, time]) :=
    List.Perm.swap level time []
  exact ⟨read_mixed, read_arranged, ⟨_, hevent .epoch, rfl⟩,
    hsame arranged _ read_arranged hreserved rfl⟩

end LiftedWitness

end Logline.Event
