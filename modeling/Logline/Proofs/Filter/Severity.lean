import Logline.Event.Payload
import Logline.Filter
import Logline.Proofs.Entries
import Logline.Proofs.Json.Steps
/-!
The severity that the filter sees.  Filter and encoder read a payload in two
ways: the filter wants a header whose only field is the level, the encoder the
whole document.  Both read the same tokens, so on a payload that the encoder
accepts they can be run side by side.  They agree as long as the payload names
a level at most once, by a string or null (`Legible`); any other level makes
the header unreadable, and the payload is kept whatever its severity
(`shouldDrop_eq_true_iff`).
-/
namespace Logline

namespace Json.Reader

/-- The reader waits for the value of this key in the outermost object. -/
def AwaitsValueOf (key : Text) (r : Reader) : Prop :=
  match r.awaiting, r.frames with
  | .value false, [.object _ k] => k = key
  | _, _ => False

instance (key : Text) (r : Reader) : Decidable (r.AwaitsValueOf key) := by
  unfold AwaitsValueOf
  split <;> infer_instance

theorem not_awaitsValueOf {key : Text} {awaiting : Awaiting}
    {frames : List Frame} (h : awaiting ≠ .value false) :
    ¬ (Reader.mk awaiting frames).AwaitsValueOf key := by
  unfold AwaitsValueOf
  split
  · contradiction
  · exact fun h => h

/-- The tokens with which the values of a key of the outermost object begin. -/
def heads (key : Text) (r : Reader) : List Token → List Token
  | [] => []
  | token :: rest =>
    (if r.AwaitsValueOf key then [token] else []) ++
      match r.step token with
      | .ok next => heads key next rest
      | .error _ => []

theorem heads_cons {key : Text} {r next : Reader} {token : Token}
    (rest : List Token) (h : r.step token = .ok next) :
    r.heads key (token :: rest) =
      (if r.AwaitsValueOf key then [token] else []) ++ next.heads key rest := by
  rw [heads, h]

/-- A key of the outermost object gets a value. -/
theorem heads_ne_nil {entries : Entries Json} {key : Text} {tokens : List Token}
    {document : Json}
    (h : (Reader.mk .colon [.object entries key]).Ends tokens document) :
    (Reader.mk .colon [.object entries key]).heads key tokens ≠ [] := by
  have hvalue : (Reader.mk (.value false) [.object entries key]).AwaitsValueOf
      key := rfl
  cases tokens with
  | nil => exact absurd (ends_nil_iff.mp h) (by simp)
  | cons token tokens =>
      obtain ⟨next, hstep, hnext⟩ := h.cons
      rw [heads_cons tokens hstep, if_neg (not_awaitsValueOf (by simp))]
      cases takes_of_step hstep with
      | colon =>
          cases tokens with
          | nil => exact absurd (ends_nil_iff.mp hnext) (by simp)
          | cons token tokens =>
              obtain ⟨behind, hstep, -⟩ := hnext.cons
              rw [heads_cons tokens hstep, if_pos hvalue]
              simp

end Json.Reader

namespace LevelFilter

open Json

/-- The tokens with which the levels of a payload begin. -/
def levelHeads (payload : Bytes) : List Token :=
  Reader.start.heads Event.levelKey (tokens payload)

/-- There is at most one level, a string or null. -/
def Legible (heads : List Token) : Prop :=
  heads = [] ∨ heads = [.null] ∨ ∃ t, heads = [.string (.ok t)]

theorem not_legible_of_two {first : List Token} {more : List Token}
    (hfirst : first ≠ []) (hmore : more ≠ []) : ¬ Legible (first ++ more) := by
  rcases first with _ | ⟨a, first⟩
  · contradiction
  · rcases more with _ | ⟨b, more⟩
    · contradiction
    · rintro (h | h | ⟨t, h⟩) <;> simp at h

theorem findIdx?_headerFields (key : Text) :
    headerFields.findIdx? (·.key = key) = if key = Event.levelKey then some 0
      else none := by
  by_cases h : key = Event.levelKey
  · subst h
    rfl
  · rw [if_neg h, List.findIdx?_eq_none_iff]
    intro field hfield
    obtain rfl := List.mem_singleton.mp hfield
    exact decide_eq_false fun he => h he.symm

/-- The header so far says of the level what the entries so far do, after the
level has begun with these tokens. -/
inductive Agrees : List Token → Entries Json → List Nat → Header → Prop
  | missing {entries : Entries Json} (h : entries.get? Event.levelKey = none) :
      Agrees [] entries [] ⟨none⟩
  | null {entries : Entries Json}
      (h : entries.get? Event.levelKey = some .null) :
      Agrees [.null] entries [0] ⟨none⟩
  | string {entries : Entries Json} {t : Text}
      (h : entries.get? Event.levelKey = some (.string t)) :
      Agrees [.string (.ok t)] entries [0] ⟨some t⟩

variable {before : List Token} {entries : Entries Json} {given : List Nat}
  {header : Header}

theorem Agrees.legible (h : Agrees before entries given header) :
    Legible before := by
  cases h with
  | missing => exact .inl rfl
  | null => exact .inr (.inl rfl)
  | string => exact .inr (.inr ⟨_, rfl⟩)

theorem Agrees.severity (h : Agrees before entries given header) :
    header.severity = Event.levelOf entries := by
  cases h with
  | missing h | null h | string h =>
      rw [Event.levelOf, h]
      rfl

/-- Other keys do not matter. -/
theorem Agrees.insert {key : Text} (h : Agrees before entries given header)
    (hkey : key ≠ Event.levelKey) (v : Json) :
    Agrees before (entries.insert key v) given header := by
  have hsame : (entries.insert key v).get? Event.levelKey =
      entries.get? Event.levelKey := by
    rw [Entries.get?_insert, if_neg hkey]
  cases h with
  | missing h => exact .missing (hsame.trans h)
  | null h => exact .null (hsame.trans h)
  | string h => exact .string (hsame.trans h)

/-- The header reader stands where the document reader does. -/
inductive Follows : List Token → Reader → RecordReader Header → Prop
  | key {before : List Token} {entries : Entries Json} {given : List Nat}
      {header : Header} {opened : Bool} {old : Text}
      (hopened : opened = true → entries = [])
      (h : Agrees before entries given header) :
      Follows before ⟨.key opened, [.object entries old]⟩
        ⟨.key opened, given, header⟩
  | levelColon {entries : Entries Json} :
      Follows [] ⟨.colon, [.object entries Event.levelKey]⟩
        ⟨.colon (some 0), [0], ⟨none⟩⟩
  | level {entries : Entries Json} :
      Follows [] ⟨.value false, [.object entries Event.levelKey]⟩
        ⟨.value 0, [0], ⟨none⟩⟩
  | colon {before : List Token} {entries : Entries Json} {given : List Nat}
      {header : Header} {key : Text} (hkey : key ≠ Event.levelKey)
      (h : Agrees before entries given header) :
      Follows before ⟨.colon, [.object entries key]⟩
        ⟨.colon none, given, header⟩
  | skipped {before : List Token} {entries : Entries Json} {given : List Nat}
      {header : Header} {key : Text} {awaiting : Awaiting}
      {frames : List Frame} {k : Skipper} (hkey : key ≠ Event.levelKey)
      (h : Agrees before entries given header)
      (hskips : Skips awaiting frames k) :
      Follows before ⟨awaiting, frames ++ [.object entries key]⟩
        ⟨.skipped k, given, header⟩
  | separator {before : List Token} {entries : Entries Json} {given : List Nat}
      {header : Header} {key : Text} (h : Agrees before entries given header) :
      Follows before ⟨.separator, [.object entries key]⟩
        ⟨.separator, given, header⟩
  | nothing {before : List Token} {entries : Entries Json} {given : List Nat}
      {header : Header} (h : Agrees before entries given header) :
      Follows before ⟨.nothing (.object entries), []⟩ ⟨.nothing, given, header⟩

/-- The levels cannot be legible any more: one is of another kind, or another
one begins. -/
def Spoiled (before : List Token) (r : Reader) : Prop :=
  (∃ token ∈ before, token ≠ .null ∧ ∀ t, token ≠ .string (.ok t)) ∨
    (before ≠ [] ∧ ∃ entries, r = ⟨.colon, [.object entries Event.levelKey]⟩)

theorem Spoiled.not_legible {r : Reader} {tokens : List Token} {document : Json}
    (h : Spoiled before r) (hends : r.Ends tokens document) :
    ¬ Legible (before ++ r.heads Event.levelKey tokens) := by
  obtain ⟨token, hmem, hnull, hstring⟩ | ⟨hbefore, entries, rfl⟩ := h
  · have hmem := List.mem_append_left (r.heads Event.levelKey tokens) hmem
    rintro (hlegible | hlegible | ⟨t, hlegible⟩)
    · rw [hlegible] at hmem
      contradiction
    · rw [hlegible] at hmem
      exact hnull (List.mem_singleton.mp hmem)
    · rw [hlegible] at hmem
      exact hstring t (List.mem_singleton.mp hmem)
  · exact not_legible_of_two hbefore (Reader.heads_ne_nil hends)

/-- The levels after one more token. -/
def headsAfter (before : List Token) (r : Reader) (token : Token) :
    List Token :=
  before ++ if r.AwaitsValueOf Event.levelKey then [token] else []

theorem headsAfter_of_not {r : Reader} {token : Token}
    (h : ¬ r.AwaitsValueOf Event.levelKey) :
    headsAfter before r token = before := by
  rw [headsAfter, if_neg h, List.append_nil]

/-- After a token of the document, the header reader still follows, or it fails
on levels that are spoiled. -/
inductive Goes (before : List Token) (next : Reader) :
    Except Fault (RecordReader Header) → Prop
  | on {r : RecordReader Header} (h : Follows before next r) :
      Goes before next (.ok r)
  | off {fault : Fault} (h : Spoiled before next) :
      Goes before next (.error fault)

theorem Agrees.goes_key {opened : Bool} {key : Text}
    (h : Agrees before entries given header) :
    Goes before ⟨.colon, [.object entries key]⟩
      (RecordReader.stepKey headerFields opened ⟨.key opened, given, header⟩
        (.string (.ok key))) := by
  rw [RecordReader.stepKey, findIdx?_headerFields]
  by_cases hkey : key = Event.levelKey
  · subst hkey
    cases h with
    | missing => exact .on .levelColon
    | null | string => exact .off (.inr ⟨by simp, entries, rfl⟩)
  · rw [if_neg hkey]
    exact .on (.colon hkey h)

/-- The level itself, where none has been before. -/
theorem goes_level {token : Token} {next : Reader}
    (hstep : Reader.step ⟨.value false, [.object entries Event.levelKey]⟩
      token = .ok next) :
    Goes [token] next
      (RecordReader.step headerFields ⟨.value 0, [0], ⟨none⟩⟩ token) := by
  have hgot : ∀ v, (entries.insert Event.levelKey v).get? Event.levelKey =
      some v := by
    intro v
    rw [Entries.get?_insert, if_pos rfl]
  cases Reader.takes_of_step hstep with
  | scalar hscalar =>
      rw [Token.scalar?.eq_def] at hscalar
      split at hscalar
      · cases hscalar
        exact .on (.separator (.null (hgot _)))
      · exact .off (.inl ⟨_, List.mem_cons_self, by simp, by simp⟩)
      · exact .off (.inl ⟨_, List.mem_cons_self, by simp, by simp⟩)
      · cases hscalar
        exact .on (.separator (.string (hgot _)))
      · contradiction
  | openArray => exact .off (.inl ⟨_, List.mem_cons_self, by simp, by simp⟩)
  | openObject => exact .off (.inl ⟨_, List.mem_cons_self, by simp, by simp⟩)

theorem goes_skipped {key : Text} {awaiting : Awaiting} {frames : List Frame}
    {k : Skipper} {token : Token} {next : Reader} (hkey : key ≠ Event.levelKey)
    (h : Agrees before entries given header) (hskips : Skips awaiting frames k)
    (hstep : Reader.step ⟨awaiting, frames ++ [.object entries key]⟩ token =
      .ok next) :
    Goes before next
      (RecordReader.stepSkipped k
        (⟨.skipped k, given, header⟩ : RecordReader Header) token) := by
  obtain ⟨k', hk', ⟨hnothing, v, rfl⟩ | ⟨hgoing, frames', hnext, hskips'⟩⟩ :=
    hskips.step hstep
  · rw [RecordReader.stepSkipped, hk', Except.map, if_pos hnothing]
    exact .on (.separator (h.insert hkey v))
  · rw [RecordReader.stepSkipped, hk', Except.map, if_neg hgoing, hnext]
    exact .on (.skipped hkey h hskips')

/-- Inside of a value under another key, no level begins. -/
theorem not_awaitsValueOf_above {awaiting : Awaiting} {frames : List Frame}
    {k : Skipper} {key : Text} (hskips : Skips awaiting frames k)
    (hkey : key ≠ Event.levelKey) :
    ¬ (Reader.mk awaiting (frames ++ [.object entries key])).AwaitsValueOf
      Event.levelKey := by
  cases hskips with
  | value hopened =>
      rename_i opened
      cases opened with
      | true => exact Reader.not_awaitsValueOf (by simp)
      | false =>
          rcases frames with _ | ⟨frame, _ | ⟨next, frames⟩⟩
          · exact hkey
          · cases frame <;> exact fun h => h
          · cases frame <;> exact fun h => h
  | key | colon | separator => exact Reader.not_awaitsValueOf (by simp)

theorem Follows.step {r next : Reader} {reader : RecordReader Header}
    {token : Token} (h : Follows before r reader)
    (hstep : r.step token = .ok next) :
    Goes (headsAfter before r token) next (reader.step headerFields token) := by
  cases h with
  | key hopened h =>
      rw [headsAfter_of_not (Reader.not_awaitsValueOf (by simp))]
      cases Reader.takes_of_step hstep with
      | key => exact h.goes_key
      | emptyObject =>
          obtain rfl := hopened rfl
          exact .on (.nothing h)
  | levelColon =>
      rw [headsAfter_of_not (Reader.not_awaitsValueOf (by simp))]
      cases Reader.takes_of_step hstep with
      | colon => exact .on .level
  | level => exact goes_level hstep
  | colon hkey h =>
      rw [headsAfter_of_not (Reader.not_awaitsValueOf (by simp))]
      cases Reader.takes_of_step hstep with
      | colon =>
          have hskips : Skips (.value false) [] .start := .value (by simp)
          exact .on (.skipped hkey h hskips)
  | skipped hkey h hskips =>
      rw [headsAfter_of_not (not_awaitsValueOf_above hskips hkey)]
      exact goes_skipped hkey h hskips hstep
  | separator h =>
      rw [headsAfter_of_not (Reader.not_awaitsValueOf (by simp))]
      cases Reader.takes_of_step hstep with
      | nextKey => exact .on (.key (by simp) h)
      | closeObject => exact .on (.nothing h)
  | nothing _ => cases Reader.takes_of_step hstep

/-- The header that tokens spell, and the fault of a header that is spoiled. -/
theorem Follows.run {tokens : List Token} {r : Reader}
    {reader : RecordReader Header} (h : Follows before r reader)
    (hends : r.Ends tokens (.object entries)) :
    (∃ header, tokens.foldlM (RecordReader.step headerFields) reader >>=
      RecordReader.finish =
          .ok header ∧
        Legible (before ++ r.heads Event.levelKey tokens) ∧
        header.severity = Event.levelOf entries) ∨
      ((∃ fault, tokens.foldlM (RecordReader.step headerFields) reader >>=
        RecordReader.finish =
          .error fault) ∧
        ¬ Legible (before ++ r.heads Event.levelKey tokens)) := by
  induction tokens generalizing before r reader with
  | nil =>
      have hnothing := Reader.ends_nil_iff.mp hends
      cases h with
      | nothing h =>
          obtain rfl := Json.object.inj (Awaiting.nothing.inj hnothing)
          refine .inl ⟨_, rfl, ?_, h.severity⟩
          rw [Reader.heads, List.append_nil]
          exact h.legible
      | skipped _ _ hskips => cases hskips <;> contradiction
      | _ => contradiction
  | cons token tokens ih =>
      obtain ⟨next, hstep, hnext⟩ := hends.cons
      have hheads : before ++ r.heads Event.levelKey (token :: tokens) =
          headsAfter before r token ++ next.heads Event.levelKey tokens := by
        rw [Reader.heads_cons tokens hstep, headsAfter, List.append_assoc]
      have hgoes := h.step hstep
      rw [hheads, List.foldlM_cons]
      generalize reader.step headerFields token = result at hgoes ⊢
      cases hgoes with
      | on hfollows => exact ih hfollows hnext
      | off hspoiled => exact .inr ⟨⟨_, rfl⟩, hspoiled.not_legible hnext⟩

/-- The filter drops a payload that is accepted exactly if its severity is
below the minimum and its level is legible. -/
theorem shouldDrop_eq_true_iff {now : Timestamp} {payload : Bytes} {e : Event}
    (h : Event.ofPayload now payload = .ok e) (f : LevelFilter) :
    f.shouldDrop payload = true ↔ Legible (levelHeads payload) ∧
      e.level < f.minimum := by
  obtain ⟨entries, hread, -, he⟩ := Event.ofPayload_cases h
  have hlevel : e.level = Event.levelOf entries := congrArg Event.level he
  obtain ⟨rest, htokens, hends⟩ := Reader.Ends.openObject hread
  have hfollows : Follows [] ⟨.key true, [.object [] []]⟩
      ⟨.key true, [], ⟨none⟩⟩ :=
    .key (fun _ => rfl) (.missing rfl)
  have hheads : levelHeads payload =
      [] ++ (Reader.mk (.key true) [.object [] []]).heads
        Event.levelKey rest := by
    rw [levelHeads, htokens, Reader.heads_cons rest rfl]
    rfl
  have hheader : header payload = rest.foldlM (RecordReader.step headerFields)
      ⟨.key true, [], ⟨none⟩⟩ >>= RecordReader.finish := by
    rw [header, readRecord, recordOfTokens, htokens]
    rfl
  rw [shouldDrop, hheader, hheads, hlevel]
  obtain ⟨found, hfound, hlegible, hseverity⟩ | ⟨⟨fault, hfault⟩, hillegible⟩ :=
    hfollows.run hends
  · simp only [hfound, hseverity, decide_eq_true_eq, hlegible, true_and]
  · simp only [hfault, hillegible, false_and, Bool.false_eq_true]

namespace SeverityWitness

def named : Bytes :=
  Text.utf8 "\x7b\"message\":\x7b\"level\":5\x7d,\"level\":\"debug\"\x7d".toList

/-- The level is a number, and the encoder takes the default in its place. -/
def numbered : Bytes :=
  Text.utf8 "\x7b\"level\":5,\"time\":\"2021-03-04T05:06:07Z\"\x7d".toList

theorem shouldDrop_named :
    ∃ e, Event.ofPayload .epoch named = .ok e ∧
      (LevelFilter.mk .warn).shouldDrop named = true ∧
      ((LevelFilter.mk .warn).shouldDrop named = true ↔
        Legible (levelHeads named) ∧ e.level < Level.warn) := by
  have hread : (Event.ofPayload .epoch named).isOk = true := by decide +kernel
  cases h : Event.ofPayload .epoch named with
  | error error =>
      rw [h] at hread
      contradiction
  | ok e => exact ⟨e, rfl, by decide +kernel, shouldDrop_eq_true_iff h ⟨.warn⟩⟩

/-- Below the minimum, and kept. -/
theorem shouldDrop_numbered :
    ∃ e, Event.ofPayload .epoch numbered = .ok e ∧ e.level < Level.warn ∧
      (LevelFilter.mk .warn).shouldDrop numbered = false := by
  have hlevel : (Event.ofPayload .epoch numbered).toOption.map Event.level =
      some .info := by
    decide +kernel
  cases h : Event.ofPayload .epoch numbered with
  | error error =>
      rw [h] at hlevel
      contradiction
  | ok e =>
      rw [h] at hlevel
      refine ⟨e, rfl, ?_, by decide +kernel⟩
      rw [Option.some.inj hlevel]
      decide

end SeverityWitness

end LevelFilter

end Logline
