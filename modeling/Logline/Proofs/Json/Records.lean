import Logline.Proofs.Json.Skipping
/-!
What a record is read from.  In an object, every known key stands once at most
and its value is a single token that the field accepts; the values under other
keys are only skipped (`Tells`).  In an array, every item is a single token
that some field accepts.  `RecordReader.Expects` says of every state what has
to come, as `Skipper.Expects` does of a value that is skipped.
-/
namespace Logline.Json

/-- A member of an object under a key that can be read. -/
def namedTokens (member : Text × List Token) : List Token :=
  memberTokens (.ok member.1) member.2

namespace RecordReader

variable {σ : Type} {fields : List (Field σ)} {given : List Nat}
  {record last : σ} {members : List (Text × List Token)} {ts : List Token}

/-- The members take a record, of which these fields have been given, to the
last one. -/
inductive Tells (fields : List (Field σ)) :
    List Nat → σ → List (Text × List Token) → σ → Prop
  | done {given : List Nat} {record : σ} : Tells fields given record [] record
  | field {given : List Nat} {record next last : σ} {key : Text} {index : Nat}
      {token : Token} {members : List (Text × List Token)}
      (hkey : fields.findIdx? (·.key = key) = some index)
      (hnew : given.contains index = false)
      (hassign : assign fields index record token = .ok next)
      (hrest : Tells fields (index :: given) next members last) :
      Tells fields given record ((key, [token]) :: members) last
  | other {given : List Nat} {record last : σ} {key : Text} {value : List Token}
      {members : List (Text × List Token)}
      (hkey : fields.findIdx? (·.key = key) = none) (hvalue : Skippable value)
      (hrest : Tells fields given record members last) :
      Tells fields given record ((key, value) :: members) last

/-! ### Reading members that tell a record -/

theorem leads_skipped {k end_ : Skipper} (h : Leads Skipper.step k ts end_)
    (hk : k.awaiting ≠ .nothing) (hend : end_.awaiting = .nothing) :
    Leads (step fields) ⟨.skipped k, given, record⟩ ts
      ⟨.separator, given, record⟩ := by
  induction ts generalizing k with
  | nil =>
      obtain rfl := leads_nil_iff.mp h
      contradiction
  | cons token ts ih =>
      obtain ⟨next, hstep, hrest⟩ := leads_cons_iff.mp h
      have hskip : step fields ⟨.skipped k, given, record⟩ token =
          .ok ⟨if next.awaiting = .nothing then .separator else .skipped next,
            given, record⟩ := by
        change (k.step token).map _ = _
        rw [hstep]
        rfl
      by_cases hnext : next.awaiting = .nothing
      · cases ts with
        | nil =>
            rw [if_pos hnext] at hskip
            exact .cons hskip (.done _)
        | cons token ts =>
            -- The value is at an end, and the skipper takes no token behind it.
            obtain ⟨_, hbehind, -⟩ := leads_cons_iff.mp hrest
            simp only [Skipper.step, hnext, reduceCtorEq] at hbehind
      · rw [if_neg hnext] at hskip
        exact .cons hskip (ih hrest hnext)

/-- The first member is read in the place of a key, and the others tell what is
left. -/
theorem Tells.leads_member {member : Text × List Token} (opened : Bool)
    (h : Tells fields given record (member :: members) last) :
    ∃ given' next, Leads (step fields) ⟨.key opened, given, record⟩
      (namedTokens member)
        ⟨.separator, given', next⟩ ∧ Tells fields given' next members last := by
  cases h with
  | @field _ _ next _ key index token _ hkey hnew hassign hrest =>
      have hnamed : step fields ⟨.key opened, given, record⟩
          (.string (.ok key)) =
          .ok ⟨.colon (some index), index :: given, record⟩ := by
        simp only [step, stepKey, hkey, hnew]
        rfl
      have hvalue : step fields ⟨.value index, index :: given, record⟩ token =
          .ok ⟨.separator, index :: given, next⟩ := by
        change (assign fields index record token).map _ = _
        rw [hassign]
        rfl
      exact ⟨_, _, .cons hnamed (.cons rfl (.cons hvalue (.done _))), hrest⟩
  | @other _ _ _ key value _ hkey hvalue hrest =>
      have hnamed : step fields ⟨.key opened, given, record⟩
          (.string (.ok key)) =
          .ok ⟨.colon none, given, record⟩ := by
        simp only [step, stepKey, hkey]
      have hskipped : Leads (step fields) ⟨.skipped .start, given, record⟩ value
          ⟨.separator, given, record⟩ :=
        leads_skipped (hvalue.completes false []) (by decide) rfl
      exact ⟨_, _, .cons hnamed (.cons rfl hskipped), hrest⟩

theorem Tells.leads_members (h : Tells fields given record members last) :
    ∃ given', Leads (step fields) ⟨.separator, given, record⟩
      ((members.map namedTokens).flatMap (.comma :: ·))
      ⟨.separator, given', last⟩ := by
  induction members generalizing given record with
  | nil =>
      cases h
      exact ⟨given, .done _⟩
  | cons member members ih =>
      obtain ⟨given', next, hmember, hrest⟩ := h.leads_member false
      obtain ⟨given'', hmembers⟩ := ih hrest
      rw [List.map_cons, List.flatMap_cons]
      exact ⟨given'', .append (.cons rfl hmember) hmembers⟩

/-- Members that tell a record are read as it. -/
theorem Tells.recordOfTokens_eq (h : Tells fields [] record members last) :
    recordOfTokens fields record (objectTokens (members.map namedTokens)) =
      .ok last := by
  have hleads : ∃ given', Leads (step fields) ⟨.record, [], record⟩
      (objectTokens (members.map namedTokens)) ⟨.nothing, given', last⟩ := by
    cases members with
    | nil =>
        cases h
        exact ⟨[], .cons rfl (.cons rfl (.done _))⟩
    | cons member members =>
        obtain ⟨given', next, hmember, hrest⟩ := h.leads_member true
        obtain ⟨given'', hmembers⟩ := hrest.leads_members
        rw [List.map_cons, objectTokens_cons]
        exact ⟨given'',
          .cons rfl (.append hmember (.append hmembers (.cons rfl (.done _))))⟩
  obtain ⟨given', hleads⟩ := hleads
  rw [recordOfTokens, hleads]
  rfl

/-! ### What a record is read from -/

/-- The token is the value of some field. -/
def Suits (fields : List (Field σ)) (token : Token) : Prop :=
  ∃ index before after, assign fields index before token = .ok after

/-- What has to come behind a member: the others, which tell the rest, and the
end. -/
def ClosesObject (fields : List (Field σ)) (given : List Nat) (record last : σ)
    (ts : List Token) : Prop :=
  ∃ members, Tells fields given record members last ∧
    ts = (members.map namedTokens).flatMap (.comma :: ·) ++ [.closeObject]

/-- What has to come behind an item. -/
def ClosesArray (fields : List (Field σ)) (ts : List Token) : Prop :=
  ∃ items : List Token, (∀ item ∈ items, Suits fields item) ∧
    ts = (items.map fun item => [item]).flatMap (.comma :: ·) ++ [.closeArray]

/-- The tokens of an object or array from which the last record is read. -/
def Records (fields : List (Field σ)) (record last : σ) (ts : List Token) :
    Prop :=
  (∃ members, Tells fields [] record members last ∧
      ts = objectTokens (members.map namedTokens)) ∨
    ∃ items : List Token, (∀ item ∈ items, Suits fields item) ∧
      ts = arrayTokens (items.map fun item => [item])

/-- What the tokens have to be arranged like in this state, for the last record
to be read. -/
def Expects (fields : List (Field σ)) (last : σ) (r : RecordReader σ)
    (ts : List Token) : Prop :=
  match r.awaiting with
  | .record => r.given = [] → Records fields r.record last ts
  | .key opened =>
    (∃ member members, Tells fields r.given r.record (member :: members) last ∧
        ts = namedTokens member ++
          ((members.map namedTokens).flatMap (.comma :: ·) ++ [.closeObject])) ∨
      (opened = true ∧ ts = [.closeObject] ∧ r.record = last)
  | .colon (some index) => ∃ token rest next, ts = .colon :: token :: rest ∧
      assign fields index r.record token = .ok next ∧
      ClosesObject fields r.given next last rest
  | .colon none =>
      ∃ value rest, ts = .colon :: (value ++ rest) ∧ Skippable value ∧
      ClosesObject fields r.given r.record last rest
  | .value index => ∃ token rest next, ts = token :: rest ∧
      assign fields index r.record token = .ok next ∧
      ClosesObject fields r.given next last rest
  | .skipped k => k.Expects (ClosesObject fields r.given r.record last) ts
  | .separator => ClosesObject fields r.given r.record last ts
  | .item _ opened =>
    (∃ item rest, ts = item :: rest ∧ Suits fields item ∧
      ClosesArray fields rest) ∨
      (opened = true ∧ ts = [.closeArray])
  | .itemSeparator _ => ClosesArray fields ts
  | .nothing => ts = [] ∧ r.record = last

variable {r next : RecordReader σ} {token : Token}

theorem expects_of_stepRecord
    (hstep : stepRecord ⟨.record, given, record⟩ token = .ok next)
    (h : next.Expects fields last ts) :
    Expects fields last ⟨.record, given, record⟩ (token :: ts) := by
  intro hgiven
  obtain rfl : given = [] := hgiven
  cases token with
  | openObject =>
      obtain rfl := Except.ok.inj hstep
      obtain ⟨member, members, htells, rfl⟩ | ⟨-, rfl, rfl⟩ := h
      · exact .inl ⟨member :: members, htells, (objectTokens_cons _ _).symm⟩
      · exact .inl ⟨[], .done, rfl⟩
  | openArray =>
      obtain rfl := Except.ok.inj hstep
      obtain ⟨item, _, rfl, hitem, items, hitems, rfl⟩ | ⟨-, rfl⟩ := h
      · exact .inr ⟨item :: items, List.forall_mem_cons.mpr ⟨hitem, hitems⟩,
          (arrayTokens_cons [item] _).symm⟩
      · exact .inr ⟨[], List.forall_mem_nil _, rfl⟩
  | _ => contradiction

theorem expects_of_stepKey {opened : Bool}
    (hstep : stepKey fields opened ⟨.key opened, given, record⟩ token =
      .ok next)
    (h : next.Expects fields last ts) :
    Expects fields last ⟨.key opened, given, record⟩ (token :: ts) := by
  rw [stepKey.eq_def] at hstep
  split at hstep
  · rename_i key
    split at hstep
    · rename_i index hkey
      split at hstep
      · contradiction
      · rename_i hnew
        obtain rfl := Except.ok.inj hstep
        obtain ⟨token, _, next, rfl, hassign, members, hrest, rfl⟩ := h
        exact .inl ⟨(key, [token]), members,
          .field hkey (Bool.eq_false_iff.mpr hnew) hassign hrest, rfl⟩
    · rename_i hkey
      obtain rfl := Except.ok.inj hstep
      obtain ⟨value, _, rfl, hvalue, members, hrest, rfl⟩ := h
      exact .inl ⟨(key, value), members, .other hkey hvalue hrest, rfl⟩
  · contradiction
  · contradiction
  · split at hstep
    · rename_i hopened
      obtain rfl := Except.ok.inj hstep
      obtain ⟨rfl, hlast⟩ := h
      exact .inr ⟨hopened, rfl, hlast⟩
    · contradiction
  · contradiction

theorem expects_of_stepItem {index : Nat} {opened : Bool}
    (hstep : stepItem fields index opened ⟨.item index opened, given, record⟩
      token = .ok next)
    (h : next.Expects fields last ts) :
    Expects fields last ⟨.item index opened, given, record⟩ (token :: ts) := by
  rw [stepItem.eq_def] at hstep
  split at hstep
  · obtain rfl := Except.ok.inj hstep
    obtain ⟨rfl, -⟩ := h
    exact .inr ⟨rfl, rfl⟩
  · obtain ⟨after, hassign, rfl⟩ := Except.map_eq_ok hstep
    exact .inl ⟨token, ts, rfl, ⟨index, record, after, hassign⟩, h⟩

theorem expects_of_stepItemSeparator {count : Nat}
    (hstep : stepItemSeparator fields count
      ⟨.itemSeparator count, given, record⟩ token = .ok next)
    (h : next.Expects fields last ts) : ClosesArray fields (token :: ts) := by
  rw [stepItemSeparator.eq_def] at hstep
  split at hstep
  · obtain rfl := Except.ok.inj hstep
    obtain ⟨rfl, -⟩ := h
    exact ⟨[], List.forall_mem_nil _, rfl⟩
  · split at hstep
    · obtain rfl := Except.ok.inj hstep
      obtain ⟨item, _, rfl, hitem, items, hitems, rfl⟩ | ⟨hopened, -⟩ := h
      · exact ⟨item :: items, List.forall_mem_cons.mpr ⟨hitem, hitems⟩, rfl⟩
      · contradiction
    · contradiction
  · contradiction

/-- What a state expects after a token, it expects with the token in front
before. -/
theorem expects_of_step (hstep : r.step fields token = .ok next)
    (h : next.Expects fields last ts) :
    r.Expects fields last (token :: ts) := by
  obtain ⟨awaiting, given, record⟩ := r
  cases awaiting with
  | record => exact expects_of_stepRecord hstep h
  | key opened => exact expects_of_stepKey hstep h
  | colon field =>
      cases token with
      | colon =>
          obtain rfl := Except.ok.inj hstep
          cases field with
          | some index =>
              obtain ⟨token, rest, next, rfl, hassign, hrest⟩ := h
              exact ⟨token, rest, next, rfl, hassign, hrest⟩
          | none =>
              obtain ⟨value, rest, hvalue, rfl, hrest⟩ | ⟨hopened, -⟩ := h
              · exact ⟨value, rest, rfl, hvalue, hrest⟩
              · contradiction
      | _ => contradiction
  | value index =>
      obtain ⟨next, hassign, rfl⟩ := Except.map_eq_ok hstep
      exact ⟨token, ts, next, rfl, hassign, h⟩
  | skipped k =>
      obtain ⟨k', hk', rfl⟩ := Except.map_eq_ok hstep
      apply Skipper.expects_of_step hk'
      by_cases hnothing : k'.awaiting = .nothing
      · rw [if_pos hnothing] at h
        rw [Skipper.Expects, hnothing]
        exact h
      · rw [if_neg hnothing] at h
        exact h
  | separator =>
      cases token with
      | comma =>
          obtain rfl := Except.ok.inj hstep
          obtain ⟨member, members, htells, rfl⟩ | ⟨hopened, -⟩ := h
          · exact ⟨member :: members, htells, by simp⟩
          · contradiction
      | closeObject =>
          obtain rfl := Except.ok.inj hstep
          obtain ⟨rfl, rfl⟩ := h
          exact ⟨[], .done, rfl⟩
      | _ => contradiction
  | item index opened => exact expects_of_stepItem hstep h
  | itemSeparator count => exact expects_of_stepItemSeparator hstep h
  | nothing => contradiction

/-- A record is read only from an object whose members tell it, or from an
array of values of fields. -/
theorem records_of_recordOfTokens
    (h : recordOfTokens fields record ts = .ok last) :
    Records fields record last ts := by
  obtain ⟨r, hleads, hfinish⟩ := Except.bind_eq_ok h
  rw [finish] at hfinish
  split at hfinish
  · rename_i hnothing
    obtain rfl := Except.ok.inj hfinish
    have hdone : r.Expects fields r.record [] := by
      rw [Expects, hnothing]
      exact ⟨rfl, rfl⟩
    exact Leads.back expects_of_step hleads hdone rfl
  · contradiction

end RecordReader

end Logline.Json
