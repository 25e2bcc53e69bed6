import Logline.Proofs.Filter.Severity
import Logline.Proofs.Json.Exact
import Logline.Proofs.Json.Records
/-!
Payloads that the filter drops although they are no documents.  A payload that
cannot be decoded should be kept for the encoder to report.  But the filter
only skips the values that it does not want, and skipping does not mind a
number or a string without a value, nor how deep the value is nested.  Such a
value under another key than the level, and a level below the minimum, are
exactly what makes it drop a payload that cannot be decoded
(`dropped_undecodable_iff`).
-/
namespace Logline

namespace Json

/-- The value could be read, but not in an object. -/
def TooDeep (value : List Token) : Prop :=
  (∃ depth, Readable depth value) ∧ ∀ depth, Readable depth value →
    innerDepth < depth

/-- Only the skipper takes the value: it has a number or a string without a
value, or is too deep. -/
def Unreadable (value : List Token) : Prop :=
  (∃ token ∈ value, token.isValueless = true) ∨ TooDeep value

theorem Skippable.unreadable_iff {value : List Token} (h : Skippable value) :
    Unreadable value ↔ ¬ Readable innerDepth value := by
  constructor
  · rintro (⟨token, hmem, hvalueless⟩ | ⟨-, hdeep⟩) hread
    · obtain ⟨v, hv⟩ := hread
      have hvalue := hv.isValueless_eq_false token hmem
      rw [hvalueless] at hvalue
      contradiction
    · exact Nat.lt_irrefl _ (hdeep _ hread)
  · intro hread
    by_cases hvalueless : ∃ token ∈ value, token.isValueless = true
    · exact .inl hvalueless
    · have hvalues : ∀ token ∈ value, token.isValueless = false := by
        simpa using hvalueless
      refine .inr ⟨h.exists_readable hvalues, fun depth hdepth => ?_⟩
      exact Nat.lt_of_not_le fun hle => hread (hdepth.mono hle)

/-- An object whose members can be skipped is a document exactly if they can be
read. -/
theorem isOk_ofTokens_iff {members : List (Text × List Token)}
    (h : ∀ member ∈ members, Skippable member.2) :
    (∃ document, ofTokens (objectTokens (members.map namedTokens)) =
      .ok document) ↔
      ∀ member ∈ members, Readable innerDepth member.2 := by
  have htokens : members.map namedTokens =
      (members.map fun member =>
        ((.ok member.1 : Except Fault Text), member.2)).map
        fun member => memberTokens member.1 member.2 := by
    rw [List.map_map]
    rfl
  constructor
  · rintro ⟨document, hdocument⟩
    obtain ⟨last, hleads, -⟩ := Except.bind_eq_ok hdocument
    rw [htokens] at hleads
    have hall := Reader.readable_of_leads_object
      (List.forall_mem_map.mpr fun member hmember =>
      (h member hmember).onlyReadable innerDepth) hleads rfl
    exact fun member hmember => (List.forall_mem_map.mp hall member hmember).2
  · intro hread
    obtain ⟨document, hspells⟩ :
        Readable (innerDepth + 1) (objectTokens (members.map namedTokens)) := by
      rw [htokens]
      exact readable_objectTokens <|
        List.forall_mem_map.mpr fun member hmember =>
          ⟨⟨member.1, rfl⟩, hread member hmember⟩
    exact ⟨document, ofTokens_eq_ok_iff.mpr hspells⟩

end Json

namespace LevelFilter

open Json

/-- The values under the level key name this level. -/
inductive Names : List (List Token) → Option Text → Prop
  | missing : Names [] none
  | null : Names [[.null]] none
  | string (t : Text) : Names [[.string (.ok t)]] (some t)

/-- The values of the members with the level key. -/
def levelValues (members : List (Text × List Token)) : List (List Token) :=
  (members.filter fun member => member.1 = Event.levelKey).map Prod.snd

/-- The filter finds this level in an object: it is named once at most, and the
values under other keys can be skipped. -/
structure Finds (members : List (Text × List Token)) (level : Option Text) :
    Prop where
  names : Names (levelValues members) level
  others : ∀ member ∈ members, member.1 ≠ Event.levelKey → Skippable member.2

/-- A token that the level takes. -/
theorem names_of_assign {index : Nat} {before after : Header} {token : Token}
    (h : RecordReader.assign headerFields index before token = .ok after) :
    Names [[token]] after.level := by
  cases index with
  | zero =>
      cases token with
      | null =>
          obtain rfl := Except.ok.inj h
          exact .null
      | string value =>
          cases value with
          | ok t =>
              obtain rfl := Except.ok.inj h
              exact .string t
          | error fault => contradiction
      | number value => cases value <;> contradiction
      | _ => contradiction
  | succ index => contradiction

theorem Names.assign {token : Token} {level : Option Text}
    (h : Names [[token]] level) (header : Header) :
    RecordReader.assign headerFields 0 header token = .ok ⟨level⟩ := by
  cases h <;> rfl

theorem Names.single {value : List Token} {values : List (List Token)}
    {level : Option Text} (h : Names (value :: values) level) :
    values = [] ∧ ∃ token, value = [token] := by
  cases h <;> exact ⟨rfl, _, rfl⟩

theorem Names.skippable {values : List (List Token)} {level : Option Text}
    (h : Names values level) : ∀ value ∈ values, Skippable value := by
  cases h with
  | missing => exact List.forall_mem_nil _
  | null | string => exact List.forall_mem_singleton.mpr (.scalar rfl)

theorem Names.readable {values : List (List Token)} {level : Option Text}
    (h : Names values level) (depth : Nat) :
    ∀ value ∈ values, Readable depth value := by
  cases h with
  | missing => exact List.forall_mem_nil _
  | null | string => exact List.forall_mem_singleton.mpr ⟨_, .scalar rfl⟩

theorem levelValues_cons_level (value : List Token)
    (members : List (Text × List Token)) :
    levelValues ((Event.levelKey, value) :: members) =
      value :: levelValues members := by
  rw [levelValues, List.filter_cons_of_pos (by simp),
    List.map_cons, levelValues]

theorem levelValues_cons_other {key : Text} (hkey : key ≠ Event.levelKey)
    (value : List Token) (members : List (Text × List Token)) :
    levelValues ((key, value) :: members) = levelValues members := by
  rw [levelValues, List.filter_cons_of_neg (by simpa using hkey), levelValues]

theorem eq_levelKey_of_findIdx? {key : Text} {index : Nat}
    (h : headerFields.findIdx? (·.key = key) = some index) :
    key = Event.levelKey ∧ index = 0 := by
  rw [findIdx?_headerFields] at h
  split at h
  · rename_i hkey
    exact ⟨hkey, (Option.some.inj h).symm⟩
  · contradiction

theorem findIdx?_eq_none_iff {key : Text} :
    headerFields.findIdx? (·.key = key) = none ↔ key ≠ Event.levelKey := by
  rw [findIdx?_headerFields]
  split <;> simp_all

section

variable {members : List (Text × List Token)} {record last : Header}
  {level : Option Text}

/-- Behind the level there must not be another one. -/
theorem tells_named
    (h : RecordReader.Tells headerFields [0] record members last) :
    record = last ∧ levelValues members = [] ∧
      ∀ member ∈ members, member.1 ≠ Event.levelKey → Skippable member.2 := by
  induction members with
  | nil =>
      cases h
      exact ⟨rfl, rfl, List.forall_mem_nil _⟩
  | cons member members ih =>
      cases h with
      | field hkey hnew hassign hrest =>
          -- The level has been given, and a second one is refused.
          obtain ⟨-, rfl⟩ := eq_levelKey_of_findIdx? hkey
          contradiction
      | @other _ _ _ key value _ hkey hvalue hrest =>
          obtain ⟨hlast, hlevels, hothers⟩ := ih hrest
          refine ⟨hlast, ?_,
            List.forall_mem_cons.mpr ⟨fun _ => hvalue, hothers⟩⟩
          rw [levelValues_cons_other (findIdx?_eq_none_iff.mp hkey), hlevels]

theorem finds_of_tells
    (h : RecordReader.Tells headerFields [] ⟨none⟩ members last) :
    Finds members last.level := by
  induction members with
  | nil =>
      cases h
      exact ⟨.missing, List.forall_mem_nil _⟩
  | cons member members ih =>
      cases h with
      | @field _ _ next _ key index token _ hkey hnew hassign hrest =>
          obtain ⟨rfl, rfl⟩ := eq_levelKey_of_findIdx? hkey
          obtain ⟨rfl, hlevels, hothers⟩ := tells_named hrest
          refine ⟨?_, List.forall_mem_cons.mpr
            ⟨fun hkey => absurd rfl hkey, hothers⟩⟩
          rw [levelValues_cons_level, hlevels]
          exact names_of_assign hassign
      | @other _ _ _ key value _ hkey hvalue hrest =>
          obtain ⟨hnames, hothers⟩ := ih hrest
          refine ⟨?_, List.forall_mem_cons.mpr ⟨fun _ => hvalue, hothers⟩⟩
          rw [levelValues_cons_other (findIdx?_eq_none_iff.mp hkey)]
          exact hnames

theorem tells_of_named (hlevels : levelValues members = [])
    (hothers : ∀ member ∈ members, member.1 ≠ Event.levelKey →
      Skippable member.2)
    (given : List Nat) (record : Header) :
    RecordReader.Tells headerFields given record members record := by
  induction members with
  | nil => exact .done
  | cons member members ih =>
      obtain ⟨key, value⟩ := member
      obtain ⟨hother, hothers⟩ := List.forall_mem_cons.mp hothers
      by_cases hkey : key = Event.levelKey
      · subst hkey
        rw [levelValues_cons_level] at hlevels
        contradiction
      · rw [levelValues_cons_other hkey] at hlevels
        exact .other (findIdx?_eq_none_iff.mpr hkey) (hother hkey)
          (ih hlevels hothers)

theorem Finds.tells (h : Finds members level) :
    RecordReader.Tells headerFields [] ⟨none⟩ members ⟨level⟩ := by
  induction members with
  | nil =>
      obtain ⟨hnames, -⟩ := h
      cases hnames
      exact .done
  | cons member members ih =>
      obtain ⟨hnames, hall⟩ := h
      obtain ⟨key, value⟩ := member
      obtain ⟨hother, hothers⟩ := List.forall_mem_cons.mp hall
      by_cases hkey : key = Event.levelKey
      · subst hkey
        rw [levelValues_cons_level] at hnames
        obtain ⟨hnone, token, rfl⟩ := hnames.single
        rw [hnone] at hnames
        exact .field rfl rfl (hnames.assign _)
          (tells_of_named hnone hothers _ _)
      · rw [levelValues_cons_other hkey] at hnames
        exact .other (findIdx?_eq_none_iff.mpr hkey) (hother hkey)
          (ih ⟨hnames, hothers⟩)

theorem mem_levelValues {member : Text × List Token}
    (hmember : member ∈ members) (hkey : member.1 = Event.levelKey) :
    member.2 ∈ levelValues members :=
  List.mem_map_of_mem (List.mem_filter.mpr ⟨hmember, decide_eq_true hkey⟩)

theorem Finds.skippable (h : Finds members level) :
    ∀ member ∈ members, Skippable member.2 := by
  intro member hmember
  by_cases hkey : member.1 = Event.levelKey
  · exact h.names.skippable _ (mem_levelValues hmember hkey)
  · exact h.others member hmember hkey

end

/-- An array from which a header is read is a document. -/
theorem isOk_ofTokens_array {items : List Token}
    (h : ∀ item ∈ items, RecordReader.Suits headerFields item) :
    ∃ document, ofTokens (arrayTokens (items.map fun item => [item])) =
      .ok document := by
  have hread : ∀ item ∈ items.map fun item => [item],
      Readable innerDepth item := by
    rw [List.forall_mem_map]
    intro item hitem
    obtain ⟨index, before, after, hassign⟩ := h item hitem
    exact (names_of_assign hassign).readable innerDepth
      [item] List.mem_cons_self
  obtain ⟨document, hspells⟩ := readable_arrayTokens hread
  exact ⟨document, ofTokens_eq_ok_iff.mpr hspells⟩

theorem shouldDrop_eq_true_iff_header (f : LevelFilter) (payload : Bytes) :
    f.shouldDrop payload = true ↔ ∃ h, header payload = .ok h ∧
      h.severity < f.minimum := by
  rw [shouldDrop]
  cases header payload <;> simp

/-- Where the filter finds a level, only a value under another key can be in
the way of decoding. -/
theorem Finds.undecodable_iff {members : List (Text × List Token)}
    {level : Option Text} (h : Finds members level) :
    (∃ fault, ofTokens (objectTokens (members.map namedTokens)) =
      .error fault) ↔
      ∃ member ∈ members, member.1 ≠ Event.levelKey ∧ Unreadable member.2 := by
  have hdecoded := isOk_ofTokens_iff h.skippable
  constructor
  · rintro ⟨fault, hfault⟩
    have hunread : ¬ ∀ member ∈ members, Readable innerDepth member.2 := by
      intro hread
      obtain ⟨document, hdocument⟩ := hdecoded.mpr hread
      rw [hdocument] at hfault
      contradiction
    obtain ⟨member, hmember, hunread⟩ :
        ∃ member ∈ members, ¬ Readable innerDepth member.2 := by
      simpa using hunread
    have hkey : member.1 ≠ Event.levelKey := fun hkey =>
      hunread (h.names.readable innerDepth _ (mem_levelValues hmember hkey))
    exact ⟨member, hmember, hkey,
      (h.skippable member hmember).unreadable_iff.mpr hunread⟩
  · rintro ⟨member, hmember, -, hunread⟩
    cases hread : ofTokens (objectTokens (members.map namedTokens)) with
    | error fault => exact ⟨fault, rfl⟩
    | ok document =>
        have hvalue := hdecoded.mp ⟨document, hread⟩ member hmember
        exact absurd hvalue
          ((h.skippable member hmember).unreadable_iff.mp hunread)

/-- The filter drops a payload that is no document exactly if it finds a level
below the minimum in an object that has under another key a value which only
skipping takes. -/
theorem dropped_undecodable_iff (f : LevelFilter) (now : Timestamp)
    (payload : Bytes) :
    (f.shouldDrop payload = true ∧
        ∃ fault, Event.ofPayload now payload = .error (.json fault)) ↔
      ∃ members level, tokens payload = objectTokens (members.map namedTokens) ∧
        Finds members level ∧ (Header.mk level).severity < f.minimum ∧
        ∃ member ∈ members, member.1 ≠ Event.levelKey ∧
        Unreadable member.2 := by
  simp only [Event.ofPayload_eq_json_iff, shouldDrop_eq_true_iff_header,
    Json.read]
  constructor
  · rintro ⟨⟨h, hheader, hseverity⟩, hundecodable⟩
    obtain ⟨members, htells, htokens⟩ | ⟨items, hitems, htokens⟩ :=
      RecordReader.records_of_recordOfTokens hheader
    · have hfinds : Finds members h.level := finds_of_tells htells
      rw [htokens] at hundecodable
      exact ⟨members, h.level, htokens, hfinds, hseverity,
        hfinds.undecodable_iff.mp hundecodable⟩
    · -- An array with a level is a document, though not of an event.
      obtain ⟨document, hdocument⟩ := isOk_ofTokens_array hitems
      rw [htokens, hdocument] at hundecodable
      obtain ⟨fault, hfault⟩ := hundecodable
      contradiction
  · rintro ⟨members, level, htokens, hfinds, hseverity, hunread⟩
    have hheader : header payload = .ok ⟨level⟩ := by
      rw [header, readRecord, htokens, hfinds.tells.recordOfTokens_eq]
    rw [htokens]
    exact ⟨⟨⟨level⟩, hheader, hseverity⟩, hfinds.undecodable_iff.mpr hunread⟩

theorem undecodable_of_isOk_eq_false {payload : Bytes}
    (h : (Json.read payload).isOk = false) (now : Timestamp) :
    ∃ fault, Event.ofPayload now payload = .error (.json fault) := by
  simp only [Event.ofPayload_eq_json_iff]
  cases hread : Json.read payload with
  | error fault => exact ⟨fault, rfl⟩
  | ok document =>
      rw [hread] at h
      contradiction

namespace OverlookedWitness

/-- An event of level `debug` with this message. -/
def debugging (message : Bytes) : Bytes :=
  Text.utf8 "\x7b\"level\":\"debug\",\"message\":".toList ++ message ++
    Text.utf8 ['\x7d']

/-- The message is a string with a byte that is no UTF-8. -/
def garbled : Bytes := debugging [0x22, 0xff, 0x22]

/-- The message is a number that no double is close to. -/
def oversized : Bytes := debugging (Text.utf8 "1e999".toList)

/-- Neither is a document, and a filter for warnings drops both. -/
theorem dropped_undecodable :
    (LevelFilter.mk .warn).shouldDrop garbled = true ∧
      (∃ fault, Event.ofPayload .epoch garbled = .error (.json fault)) ∧
      (LevelFilter.mk .warn).shouldDrop oversized = true ∧
      ∃ fault, Event.ofPayload .epoch oversized = .error (.json fault) :=
  ⟨by decide +kernel, undecodable_of_isOk_eq_false (by decide +kernel) .epoch,
    by decide +kernel, undecodable_of_isOk_eq_false (by decide +kernel) .epoch⟩

end OverlookedWitness

end LevelFilter

end Logline
