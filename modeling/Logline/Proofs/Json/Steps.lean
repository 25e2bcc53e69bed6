import Mathlib.Tactic.SplitIfs
import Logline.Json.Reader
import Logline.Json.Record
import Logline.Outcome
/-!
The steps of the document reader, one rule for each of them (`Takes`), and what
follows from the rules.  The brackets that a document begins with decide
whether it is an object (`Takes.begins`); and a reader that skips values goes
along with one that reads them, token by token, up to the end of each value
(`Skips.step`).
-/
namespace Logline.Json

/-- Rows with a separator between neighbours are the first one and, behind a
separator each, the others. -/
theorem intercalate_cons {α : Type} (separator : α) (row : List α)
    (rows : List (List α)) :
    List.intercalate [separator] (row :: rows) =
      row ++ rows.flatMap (separator :: ·) := by
  induction rows generalizing row with
  | nil => simp
  | cons next rows ih =>
      rw [List.intercalate_cons_cons, List.flatMap_cons, List.append_assoc]
      exact congrArg (row ++ separator :: ·) (ih next)

def isObject : Json → Bool
  | .object _ => true
  | _ => false

def Frame.isObject : Frame → Bool
  | .array _ => false
  | .object .. => true

/-- The value that the token is by itself. -/
def Token.scalar? : Token → Option Json
  | .null => some .null
  | .bool b => some (.bool b)
  | .number (.ok n) => some (.number n)
  | .string (.ok t) => some (.string t)
  | _ => none

namespace Reader

/-- The reader goes over to the next one with a token. -/
inductive Takes : Reader → Token → Reader → Prop
  | scalar {opened : Bool} {frames : List Frame} {token : Token} {v : Json}
      (hscalar : token.scalar? = some v) :
      Takes ⟨.value opened, frames⟩ token (complete v frames)
  | openArray {opened : Bool} {frames : List Frame}
      (hdepth : frames.length < maxDepth) :
      Takes ⟨.value opened, frames⟩ .openArray
        ⟨.value true, .array [] :: frames⟩
  | openObject {opened : Bool} {frames : List Frame}
      (hdepth : frames.length < maxDepth) :
      Takes ⟨.value opened, frames⟩ .openObject
        ⟨.key true, .object [] [] :: frames⟩
  | emptyArray {items : List Json} {frames : List Frame} :
      Takes ⟨.value true, .array items :: frames⟩ .closeArray
        (complete (.array []) frames)
  | key {opened : Bool} {entries : Entries Json} {old key : Text}
      {frames : List Frame} :
      Takes ⟨.key opened, .object entries old :: frames⟩ (.string (.ok key))
        ⟨.colon, .object entries key :: frames⟩
  | emptyObject {entries : Entries Json} {old : Text} {frames : List Frame} :
      Takes ⟨.key true, .object entries old :: frames⟩ .closeObject
        (complete (.object []) frames)
  | colon {frames : List Frame} :
      Takes ⟨.colon, frames⟩ .colon ⟨.value false, frames⟩
  | nextItem {items : List Json} {frames : List Frame} :
      Takes ⟨.separator, .array items :: frames⟩ .comma
        ⟨.value false, .array items :: frames⟩
  | closeArray {items : List Json} {frames : List Frame} :
      Takes ⟨.separator, .array items :: frames⟩ .closeArray
        (complete (.array items.reverse) frames)
  | nextKey {entries : Entries Json} {key : Text} {frames : List Frame} :
      Takes ⟨.separator, .object entries key :: frames⟩ .comma
        ⟨.key false, .object entries key :: frames⟩
  | closeObject {entries : Entries Json} {key : Text} {frames : List Frame} :
      Takes ⟨.separator, .object entries key :: frames⟩ .closeObject
        (complete (.object entries) frames)

theorem takes_of_stepValue {opened : Bool} {frames : List Frame} {token : Token}
    {next : Reader} (h : stepValue opened frames token = .ok next) :
    Takes ⟨.value opened, frames⟩ token next := by
  rw [stepValue.eq_def] at h
  split at h
  · obtain rfl := Except.ok.inj h
    exact .scalar rfl
  · obtain rfl := Except.ok.inj h
    exact .scalar rfl
  · rename_i value
    cases value with
    | error fault => contradiction
    | ok n =>
        obtain rfl := Except.ok.inj h
        exact .scalar rfl
  · rename_i value
    cases value with
    | error fault => contradiction
    | ok t =>
        obtain rfl := Except.ok.inj h
        exact .scalar rfl
  · rw [descend] at h
    split_ifs at h with hdepth
    obtain rfl := Except.ok.inj h
    exact .openArray (Nat.lt_of_not_le hdepth)
  · rw [descend] at h
    split_ifs at h with hdepth
    obtain rfl := Except.ok.inj h
    exact .openObject (Nat.lt_of_not_le hdepth)
  · split at h
    · obtain rfl := Except.ok.inj h
      exact .emptyArray
    · contradiction
  all_goals contradiction

theorem takes_of_stepKey {opened : Bool} {frames : List Frame} {token : Token}
    {next : Reader} (h : stepKey opened frames token = .ok next) :
    Takes ⟨.key opened, frames⟩ token next := by
  rw [stepKey.eq_def] at h
  split at h
  · rename_i value
    split at h
    · cases value with
      | error fault => contradiction
      | ok t =>
          obtain rfl := Except.ok.inj h
          exact .key
    · contradiction
  · split at h
    · obtain rfl := Except.ok.inj h
      exact .emptyObject
    · contradiction
  all_goals contradiction

theorem takes_of_stepSeparator {frames : List Frame} {token : Token}
    {next : Reader} (h : stepSeparator frames token = .ok next) :
    Takes ⟨.separator, frames⟩ token next := by
  rw [stepSeparator.eq_def] at h
  split at h
  · obtain rfl := Except.ok.inj h
    exact .nextItem
  · obtain rfl := Except.ok.inj h
    exact .closeArray
  · obtain rfl := Except.ok.inj h
    exact .nextKey
  · obtain rfl := Except.ok.inj h
    exact .closeObject
  · contradiction

/-- A step that succeeds follows one of the rules. -/
theorem takes_of_step {r next : Reader} {token : Token}
    (h : r.step token = .ok next) :
    Takes r token next := by
  obtain ⟨awaiting, frames⟩ := r
  cases awaiting with
  | value opened => exact takes_of_stepValue h
  | key opened => exact takes_of_stepKey h
  | colon =>
      cases token with
      | colon =>
          obtain rfl := Except.ok.inj h
          exact .colon
      | _ => contradiction
  | separator => exact takes_of_stepSeparator h
  | nothing document => contradiction

theorem step_openArray (opened : Bool) (frames : List Frame)
    (h : frames.length < maxDepth) :
    (Reader.mk (.value opened) frames).step .openArray =
      .ok ⟨.value true, .array [] :: frames⟩ :=
  if_neg (Nat.not_le_of_lt h)

theorem step_openObject (opened : Bool) (frames : List Frame)
    (h : frames.length < maxDepth) :
    (Reader.mk (.value opened) frames).step .openObject =
      .ok ⟨.key true, .object [] [] :: frames⟩ :=
  if_neg (Nat.not_le_of_lt h)

/-- The tokens bring the reader to the end of this document. -/
def Ends (r : Reader) (tokens : List Token) (document : Json) : Prop :=
  tokens.foldlM step r >>= finish = .ok document

theorem ends_nil_iff {r : Reader} {document : Json} :
    r.Ends [] document ↔ r.awaiting = .nothing document := by
  rw [Ends, List.foldlM_nil, pure_bind, finish]
  cases r.awaiting <;> simp

theorem Ends.cons {r : Reader} {token : Token} {tokens : List Token}
    {document : Json} (h : r.Ends (token :: tokens) document) :
    ∃ next, r.step token = .ok next ∧ next.Ends tokens document := by
  rw [Ends, List.foldlM_cons, bind_assoc] at h
  exact Except.bind_eq_ok h

/-! ### What the document begins with -/

/-- Whether the outermost of the frames is an object; without frames it is the
value itself. -/
def outermost (object : Bool) : List Frame → Bool
  | [] => object
  | frame :: frames => outermost frame.isObject frames

/-- The reader is inside of, or behind, a document that is an object or none. -/
def Begins (object : Bool) (r : Reader) : Prop :=
  match r.awaiting, r.frames with
  | .nothing document, _ => document.isObject = object
  | _, [] => False
  | _, frame :: frames => outermost frame.isObject frames = object

theorem begins_complete (v : Json) (frames : List Frame) :
    (complete v frames).Begins (outermost v.isObject frames) := by
  cases frames with
  | nil => rfl
  | cons frame frames => cases frame <;> rfl

theorem Takes.begins {r next : Reader} {token : Token} {object : Bool}
    (h : Takes r token next) (hbegins : r.Begins object) :
    next.Begins object := by
  cases h with
  | scalar hscalar =>
      rename_i frames v
      cases frames with
      | nil => contradiction
      | cons frame frames =>
          obtain rfl := hbegins
          exact begins_complete v (frame :: frames)
  | openArray | openObject =>
      rename_i frames _
      cases frames with
      | nil => contradiction
      | cons frame frames => exact hbegins
  | emptyArray | emptyObject | closeArray | closeObject =>
      obtain rfl := hbegins
      exact begins_complete _ _
  | colon =>
      rename_i frames
      cases frames with
      | nil => contradiction
      | cons frame frames => exact hbegins
  | key | nextItem | nextKey => exact hbegins

theorem Ends.isObject_eq {r : Reader} {tokens : List Token} {document : Json}
    {object : Bool} (h : r.Ends tokens document) (hbegins : r.Begins object) :
    document.isObject = object := by
  induction tokens generalizing r with
  | nil =>
      obtain ⟨awaiting, frames⟩ := r
      obtain rfl := ends_nil_iff.mp h
      exact hbegins
  | cons token tokens ih =>
      obtain ⟨next, hstep, hnext⟩ := h.cons
      exact ih hnext ((takes_of_step hstep).begins hbegins)

/-- A document that is an object begins with its brace. -/
theorem Ends.openObject {tokens : List Token} {entries : Entries Json}
    (h : start.Ends tokens (.object entries)) :
    ∃ rest, tokens = .openObject :: rest ∧
      (Reader.mk (.key true) [.object [] []]).Ends rest (.object entries) := by
  cases tokens with
  | nil =>
      have hnothing := ends_nil_iff.mp h
      contradiction
  | cons token rest =>
      obtain ⟨next, hstep, hnext⟩ := h.cons
      cases takes_of_step hstep with
      | openObject => exact ⟨rest, rfl, hnext⟩
      | openArray =>
          have hobject := hnext.isObject_eq (show Begins false _ from rfl)
          contradiction
      | scalar hscalar =>
          rename_i v
          have hv : v.isObject = false := by
            rw [Token.scalar?.eq_def] at hscalar
            split at hscalar <;> cases hscalar <;> rfl
          have hobject := hnext.isObject_eq (begins_complete v [])
          rw [outermost, hv] at hobject
          contradiction

end Reader

/-! ### Skipping -/

/-- The skipper waits for the same as the reader, which has these frames inside
the value that is skipped. -/
inductive Skips : Awaiting → List Frame → Skipper → Prop
  | value {opened : Bool} {frames : List Frame}
      (hopened : opened = true → frames ≠ []) :
      Skips (.value opened) frames ⟨.value opened, frames.map Frame.isObject⟩
  | key {opened : Bool} {frame : Frame} {frames : List Frame} :
      Skips (.key opened) (frame :: frames)
        ⟨.key opened, (frame :: frames).map Frame.isObject⟩
  | colon {frame : Frame} {frames : List Frame} :
      Skips .colon (frame :: frames)
        ⟨.colon, (frame :: frames).map Frame.isObject⟩
  | separator {frame : Frame} {frames : List Frame} :
      Skips .separator (frame :: frames)
        ⟨.separator, (frame :: frames).map Frame.isObject⟩

/-- The skipper is at the end of the value, where the reader has it complete;
or it goes on as the reader does, which keeps what is around the value. -/
def Skips.After (outer : List Frame) (r : Reader) (k : Skipper) : Prop :=
  (k.awaiting = .nothing ∧ ∃ v, r = Reader.complete v outer) ∨
    (k.awaiting ≠ .nothing ∧ ∃ frames, r = ⟨r.awaiting, frames ++ outer⟩ ∧
      Skips r.awaiting frames k)

theorem Skips.after_complete (outer : List Frame) (v : Json)
    (frames : List Frame) :
    After outer (Reader.complete v (frames ++ outer))
      (Skipper.complete (frames.map Frame.isObject)) := by
  cases frames with
  | nil => exact .inl ⟨rfl, v, rfl⟩
  | cons frame frames =>
      refine .inr ⟨by simp [Skipper.complete], ?_⟩
      cases frame with
      | array items => exact ⟨.array (v :: items) :: frames, rfl, .separator⟩
      | object entries key =>
          exact ⟨.object (entries.insert key v) key :: frames, rfl, .separator⟩

theorem Skips.step {awaiting : Awaiting} {frames outer : List Frame}
    {k : Skipper} {token : Token} {next : Reader} (h : Skips awaiting frames k)
    (hstep : Reader.step ⟨awaiting, frames ++ outer⟩ token = .ok next) :
    ∃ k', k.step token = .ok k' ∧ After outer next k' := by
  have htakes := Reader.takes_of_step hstep
  cases h with
  | value hopened =>
      rename_i opened
      cases frames with
      | nil =>
          have hclosed : opened = false := by
            simpa using hopened
          subst hclosed
          cases htakes with
          | scalar hscalar =>
              rw [Token.scalar?.eq_def] at hscalar
              split at hscalar <;> cases hscalar <;>
                exact ⟨_, rfl, after_complete outer _ []⟩
          | openArray =>
              exact ⟨_, rfl, .inr ⟨by simp, [.array []], rfl, .value (by simp)⟩⟩
          | openObject => exact ⟨_, rfl,
              .inr ⟨by simp, [.object [] []], rfl, .key⟩⟩
      | cons frame frames =>
          cases htakes with
          | scalar hscalar =>
              rw [Token.scalar?.eq_def] at hscalar
              split at hscalar <;> cases hscalar <;>
                exact ⟨_, rfl, after_complete outer _ (frame :: frames)⟩
          | openArray =>
              exact ⟨_, rfl, .inr ⟨by simp, .array [] :: frame :: frames, rfl,
                .value (by simp)⟩⟩
          | openObject =>
              exact ⟨_, rfl,
                .inr ⟨by simp, .object [] [] :: frame :: frames, rfl, .key⟩⟩
          | emptyArray => exact ⟨_, rfl, after_complete outer _ frames⟩
  | key =>
      cases htakes with
      | key => exact ⟨_, rfl, .inr ⟨by simp, .object _ _ :: _, rfl, .colon⟩⟩
      | emptyObject => exact ⟨_, rfl, after_complete outer _ _⟩
  | colon =>
      cases htakes with
      | colon => exact ⟨_, rfl, .inr ⟨by simp, _ :: _, rfl, .value (by simp)⟩⟩
  | separator =>
      cases htakes with
      | nextItem =>
          exact ⟨_, rfl, .inr ⟨by simp, .array _ :: _, rfl, .value (by simp)⟩⟩
      | closeArray => exact ⟨_, rfl, after_complete outer _ _⟩
      | nextKey => exact ⟨_, rfl, .inr ⟨by simp, .object _ _ :: _, rfl, .key⟩⟩
      | closeObject => exact ⟨_, rfl, after_complete outer _ _⟩

end Logline.Json
