import Logline.Proofs.Json.Grammar
/-!
The skipper takes exactly what is arranged like a value.  One direction is a
run over such tokens.  For the other one, `Skipper.Expects` says of every state
what the tokens to come must be arranged like, the brackets that are open
included; a state that a token leads to expects what is left
(`expects_of_step`), and so the first state expects the whole row.
-/
namespace Logline.Json

/-! ### Skipping what is arranged like a value -/

namespace Skipper

theorem step_scalar {token : Token} (h : token.isScalar = true) (opened : Bool)
    (frames : List Bool) :
    (Skipper.mk (.value opened) frames).step token = .ok (complete frames) := by
  cases token with
  | null | bool | number | string => rfl
  | _ => contradiction

/-- At any place the tokens are skipped as one value. -/
def Completes (ts : List Token) : Prop :=
  ∀ opened frames, Leads step ⟨.value opened, frames⟩ ts (complete frames)

theorem leads_items {items : List (List Token)}
    (h : ∀ item ∈ items, Completes item) (frames : List Bool) :
    Leads step ⟨.separator, false :: frames⟩ (items.flatMap (.comma :: ·))
      ⟨.separator, false :: frames⟩ := by
  induction items with
  | nil => exact .done _
  | cons item items ih =>
      obtain ⟨hitem, hitems⟩ := List.forall_mem_cons.mp h
      rw [List.flatMap_cons]
      exact .append (.cons rfl (hitem false (false :: frames))) (ih hitems)

theorem leads_members {members : List (Except Fault Text × List Token)}
    (h : ∀ member ∈ members, Completes member.2) (frames : List Bool) :
    Leads step ⟨.separator, true :: frames⟩
      ((members.map fun member => memberTokens member.1 member.2).flatMap
        (.comma :: ·))
      ⟨.separator, true :: frames⟩ := by
  induction members with
  | nil => exact .done _
  | cons member members ih =>
      obtain ⟨hmember, hmembers⟩ := List.forall_mem_cons.mp h
      rw [List.map_cons, List.flatMap_cons]
      exact .append
        (.cons rfl (.cons rfl (.cons rfl (hmember false (true :: frames)))))
        (ih hmembers)

end Skipper

open Skipper in
theorem Skippable.completes {ts : List Token} (h : Skippable ts) :
    Completes ts := by
  induction h with
  | scalar hscalar =>
      intro opened frames
      exact .cons (step_scalar hscalar opened frames) (.done _)
  | @array items _ ih =>
      intro opened frames
      cases items with
      | nil => exact .cons rfl (.cons rfl (.done _))
      | cons item items =>
          obtain ⟨hitem, hitems⟩ := List.forall_mem_cons.mp ih
          rw [arrayTokens_cons]
          exact .cons rfl (.append (hitem true (false :: frames))
            (.append (leads_items hitems frames) (.cons rfl (.done _))))
  | @object members _ ih =>
      intro opened frames
      cases members with
      | nil => exact .cons rfl (.cons rfl (.done _))
      | cons member members =>
          obtain ⟨hmember, hmembers⟩ := List.forall_mem_cons.mp ih
          rw [List.map_cons, objectTokens_cons]
          exact .cons rfl (.append
            (.cons rfl (.cons rfl (hmember false (true :: frames))))
            (.append (leads_members hmembers frames) (.cons rfl (.done _))))

/-! ### What is skipped is arranged like a value -/

namespace Skipper

variable {P : List Token → Prop} {ts : List Token} {frames : List Bool}

/-- What has to come behind a value inside of these brackets: the rest of every
array and object, and then something with `P`. -/
def Closes (P : List Token → Prop) : List Bool → List Token → Prop
  | [], ts => P ts
  | false :: frames, ts => ∃ items : List (List Token), ∃ rest,
      (∀ item ∈ items, Skippable item) ∧
      ts = items.flatMap (.comma :: ·) ++ .closeArray :: rest ∧
      Closes P frames rest
  | true :: frames, ts =>
      ∃ members : List (Except Fault Text × List Token), ∃ rest,
      (∀ member ∈ members, Skippable member.2) ∧
      ts = (members.map fun member => memberTokens member.1 member.2).flatMap
        (.comma :: ·) ++
        .closeObject :: rest ∧ Closes P frames rest

/-- A value, and what has to come behind it. -/
def Continues (P : List Token → Prop) (frames : List Bool) (ts : List Token) :
    Prop :=
  ∃ value rest, Skippable value ∧ ts = value ++ rest ∧ Closes P frames rest

/-- What the tokens have to be arranged like in this state. -/
def Expects (P : List Token → Prop) (k : Skipper) (ts : List Token) : Prop :=
  match k.awaiting with
  | .value opened => Continues P k.frames ts ∨ (opened = true ∧
      ∃ frames rest, k.frames = false :: frames ∧ ts = .closeArray :: rest ∧
      Closes P frames rest)
  | .key opened => (∃ key rest, ts = .string key :: .colon :: rest ∧
      Continues P k.frames rest) ∨
      (opened = true ∧
        ∃ frames rest, k.frames = true :: frames ∧ ts = .closeObject :: rest ∧
          Closes P frames rest)
  | .colon => ∃ rest, ts = .colon :: rest ∧ Continues P k.frames rest
  | .separator => Closes P k.frames ts
  | .nothing => P ts

theorem closes_of_complete (h : (complete frames).Expects P ts) :
    Closes P frames ts := by
  cases frames <;> exact h

theorem closes_comma_array (h : Continues P (false :: frames) ts) :
    Closes P (false :: frames) (.comma :: ts) := by
  obtain ⟨value, rest, hvalue, rfl, items, after, hitems, rfl, hafter⟩ := h
  exact ⟨value :: items, after, List.forall_mem_cons.mpr ⟨hvalue, hitems⟩,
    by simp, hafter⟩

theorem closes_comma_object (key : Except Fault Text)
    (h : Continues P (true :: frames) ts) :
    Closes P (true :: frames) (.comma :: .string key :: .colon :: ts) := by
  obtain ⟨value, rest, hvalue, rfl, members, after, hmembers, rfl, hafter⟩ := h
  exact ⟨(key, value) :: members, after,
    List.forall_mem_cons.mpr ⟨hvalue, hmembers⟩, by simp [memberTokens], hafter⟩

theorem continues_openArray (h : Expects P ⟨.value true, false :: frames⟩ ts) :
    Continues P frames (.openArray :: ts) := by
  obtain ⟨value, rest, hvalue, rfl, items, after, hitems, rfl, hafter⟩ |
    ⟨-, frames', rest, heq, rfl, hrest⟩ := h
  · refine ⟨arrayTokens (value :: items), after,
      .array (List.forall_mem_cons.mpr ⟨hvalue, hitems⟩), ?_, hafter⟩
    simp [arrayTokens_cons]
  · obtain rfl := (List.cons.inj heq).2
    exact ⟨arrayTokens [], rest, .array (List.forall_mem_nil _), rfl, hrest⟩

theorem continues_openObject (h : Expects P ⟨.key true, true :: frames⟩ ts) :
    Continues P frames (.openObject :: ts) := by
  obtain ⟨key, rest, rfl, value, rest, hvalue, rfl, members, after, hmembers,
    rfl, hafter⟩ |
    ⟨-, frames', rest, heq, rfl, hrest⟩ := h
  · have hall : ∀ member ∈ (key, value) :: members, Skippable member.2 :=
      List.forall_mem_cons.mpr ⟨hvalue, hmembers⟩
    refine ⟨_, after, .object hall, ?_, hafter⟩
    simp [objectTokens_cons, memberTokens]
  · have hnone : ∀ member ∈ ([] : List (Except Fault Text × List Token)),
        Skippable member.2 :=
      List.forall_mem_nil _
    obtain rfl := (List.cons.inj heq).2
    exact ⟨_, rest, .object hnone, rfl, hrest⟩

section

variable {next : Skipper} {token : Token} {opened : Bool}

theorem expects_of_stepValue (hstep : stepValue opened frames token = .ok next)
    (h : next.Expects P ts) :
    Expects P ⟨.value opened, frames⟩ (token :: ts) := by
  have hscalar : token.isScalar = true → next = complete frames →
      Expects P ⟨.value opened, frames⟩ (token :: ts) := fun htoken hnext =>
    .inl ⟨[token], ts, .scalar htoken, rfl, closes_of_complete (hnext ▸ h)⟩
  rw [stepValue.eq_def] at hstep
  split at hstep
  · exact hscalar rfl (Except.ok.inj hstep).symm
  · exact hscalar rfl (Except.ok.inj hstep).symm
  · exact hscalar rfl (Except.ok.inj hstep).symm
  · exact hscalar rfl (Except.ok.inj hstep).symm
  · obtain rfl := Except.ok.inj hstep
    exact .inl (continues_openArray h)
  · obtain rfl := Except.ok.inj hstep
    exact .inl (continues_openObject h)
  · split at hstep
    · obtain rfl := Except.ok.inj hstep
      exact .inr ⟨rfl, _, ts, rfl, rfl, closes_of_complete h⟩
    · contradiction
  all_goals contradiction

theorem expects_of_stepKey (hstep : stepKey opened frames token = .ok next)
    (h : next.Expects P ts) :
    Expects P ⟨.key opened, frames⟩ (token :: ts) := by
  rw [stepKey.eq_def] at hstep
  split at hstep
  · obtain rfl := Except.ok.inj hstep
    obtain ⟨rest, rfl, hrest⟩ := h
    exact .inl ⟨_, rest, rfl, hrest⟩
  · split at hstep
    · obtain rfl := Except.ok.inj hstep
      exact .inr ⟨rfl, _, ts, rfl, rfl, closes_of_complete h⟩
    · contradiction
  all_goals contradiction

theorem expects_of_stepSeparator (hstep : stepSeparator frames token = .ok next)
    (h : next.Expects P ts) : Closes P frames (token :: ts) := by
  rw [stepSeparator.eq_def] at hstep
  split at hstep
  · obtain rfl := Except.ok.inj hstep
    obtain hvalue | ⟨hopened, -⟩ := h
    · exact closes_comma_array hvalue
    · contradiction
  · obtain rfl := Except.ok.inj hstep
    exact ⟨[], ts, List.forall_mem_nil _, rfl, closes_of_complete h⟩
  · obtain rfl := Except.ok.inj hstep
    obtain ⟨key, rest, rfl, hrest⟩ | ⟨hopened, -⟩ := h
    · exact closes_comma_object key hrest
    · contradiction
  · obtain rfl := Except.ok.inj hstep
    exact ⟨[], ts, List.forall_mem_nil _, rfl, closes_of_complete h⟩
  · contradiction

/-- What a state expects after a token, it expects with the token in front
before. -/
theorem expects_of_step {k : Skipper} (hstep : k.step token = .ok next)
    (h : next.Expects P ts) : k.Expects P (token :: ts) := by
  obtain ⟨awaiting, frames⟩ := k
  cases awaiting with
  | value opened => exact expects_of_stepValue hstep h
  | key opened => exact expects_of_stepKey hstep h
  | colon =>
      cases token with
      | colon =>
          obtain rfl := Except.ok.inj hstep
          obtain hvalue | ⟨hopened, -⟩ := h
          · exact ⟨ts, rfl, hvalue⟩
          · contradiction
      | _ => contradiction
  | separator => exact expects_of_stepSeparator hstep h
  | nothing => contradiction

end

end Skipper

theorem skippable_of_leads {ts : List Token} {last : Skipper}
    (h : Leads Skipper.step .start ts last) (hlast : last.awaiting = .nothing) :
    Skippable ts := by
  have hdone : last.Expects (· = []) [] := by
    rw [Skipper.Expects, hlast]
  have hexpects : Skipper.Expects (· = []) .start ts :=
    h.back Skipper.expects_of_step hdone
  obtain ⟨value, rest, hvalue, rfl, hrest⟩ | ⟨hopened, -⟩ := hexpects
  · obtain rfl : rest = [] := hrest
    rw [List.append_nil]
    exact hvalue
  · contradiction

end Logline.Json
