import Logline.Proofs.Json.Steps
/-!
Which tokens a document and a skipped value consist of.  Two grammars say it,
without the readers: `Spells` gives tokens their value, and `Skippable` asks
for their arrangement only, whatever numbers and strings stand for and however
deep they are nested.  The document reader takes exactly what spells a document
(`ofTokens_eq_ok_iff`), and the skipper exactly what is skippable
(`Skippable.completes`, `skippable_of_leads`).
-/
namespace Logline.Json

/-! ### The grammars -/

/-- Rows of tokens with commas between them. -/
def separated (rows : List (List Token)) : List Token :=
  List.intercalate [.comma] rows

def arrayTokens (items : List (List Token)) : List Token :=
  .openArray :: (separated items ++ [.closeArray])

/-- The tokens of an object, by those of its members. -/
def objectTokens (members : List (List Token)) : List Token :=
  .openObject :: (separated members ++ [.closeObject])

/-- A member of an object: its key, which may be unreadable, and the tokens of
its value. -/
def memberTokens (key : Except Fault Text) (value : List Token) : List Token :=
  .string key :: .colon :: value

/-- The tokens spell a value in which at most `depth` arrays and objects are
open at once.  An object has the last one of the values under a key, in the
place of the first. -/
inductive Spells : Nat → List Token → Json → Prop
  | scalar {depth : Nat} {token : Token} {v : Json}
      (h : token.scalar? = some v) :
      Spells depth [token] v
  | array {depth : Nat} {items : List (List Token × Json)}
      (h : ∀ item ∈ items, Spells depth item.1 item.2) :
      Spells (depth + 1) (arrayTokens (items.map Prod.fst))
        (.array (items.map Prod.snd))
  | object {depth : Nat} {members : List (Text × List Token × Json)}
      (h : ∀ member ∈ members, Spells depth member.2.1 member.2.2) :
      Spells (depth + 1)
        (objectTokens (members.map fun member =>
          memberTokens (.ok member.1) member.2.1))
        (.object (Entries.insertAll []
          (members.map fun member => (member.1, member.2.2))))

/-- The token is a value by itself, or would be one if its number or string had
a value. -/
def Token.isScalar : Token → Bool
  | .null => true
  | .bool _ => true
  | .number _ => true
  | .string _ => true
  | _ => false

/-- The tokens are arranged like those of a value. -/
inductive Skippable : List Token → Prop
  | scalar {token : Token} (h : token.isScalar = true) : Skippable [token]
  | array {items : List (List Token)} (h : ∀ item ∈ items, Skippable item) :
      Skippable (arrayTokens items)
  | object {members : List (Except Fault Text × List Token)}
      (h : ∀ member ∈ members, Skippable member.2) :
      Skippable
        (objectTokens (members.map fun member =>
          memberTokens member.1 member.2))

theorem arrayTokens_cons (item : List Token) (items : List (List Token)) :
    arrayTokens (item :: items) =
      .openArray ::
        (item ++ (items.flatMap (.comma :: ·) ++ [.closeArray])) := by
  rw [arrayTokens, separated, intercalate_cons, List.append_assoc]

theorem objectTokens_cons (member : List Token) (members : List (List Token)) :
    objectTokens (member :: members) =
      .openObject ::
        (member ++ (members.flatMap (.comma :: ·) ++ [.closeObject])) := by
  rw [objectTokens, separated, intercalate_cons, List.append_assoc]

/-! ### Runs -/

section

variable {σ : Type} {step : σ → Token → Except Fault σ} {s next last : σ}
  {token : Token} {ts us : List Token}

/-- The tokens take a reader with this step from one state to another. -/
def Leads (step : σ → Token → Except Fault σ) (s : σ) (ts : List Token)
    (next : σ) : Prop :=
  ts.foldlM step s = .ok next

theorem leads_nil_iff : Leads step s [] next ↔ s = next := by
  rw [Leads, List.foldlM_nil]
  exact ⟨Except.ok.inj, congrArg Except.ok⟩

theorem leads_cons_iff :
    Leads step s (token :: ts) last ↔
      ∃ next, step s token = .ok next ∧ Leads step next ts last := by
  rw [Leads, List.foldlM_cons]
  refine ⟨Except.bind_eq_ok, ?_⟩
  rintro ⟨next, hstep, h⟩
  rw [hstep, Except.ok_bind]
  exact h

theorem leads_append_iff :
    Leads step s (ts ++ us) last ↔ ∃ next, Leads step s ts next ∧
      Leads step next us last := by
  rw [Leads, List.foldlM_append]
  refine ⟨Except.bind_eq_ok, ?_⟩
  rintro ⟨next, hfirst, h⟩
  rw [hfirst, Except.ok_bind]
  exact h

theorem Leads.done (s : σ) : Leads step s [] s :=
  leads_nil_iff.mpr rfl

theorem Leads.cons (hstep : step s token = .ok next)
    (h : Leads step next ts last) :
    Leads step s (token :: ts) last :=
  leads_cons_iff.mpr ⟨next, hstep, h⟩

theorem Leads.append (h : Leads step s ts next)
    (hrest : Leads step next us last) :
    Leads step s (ts ++ us) last :=
  leads_append_iff.mpr ⟨next, h, hrest⟩

/-- What a step takes back over its token, a run takes back over all of its
tokens. -/
theorem Leads.back {P : σ → List Token → Prop}
    (hback : ∀ {s next : σ} {token : Token} {us : List Token},
      step s token = .ok next → P next us → P s (token :: us))
    (h : Leads step s ts last) (hlast : P last []) : P s ts := by
  induction ts generalizing s with
  | nil =>
      obtain rfl := leads_nil_iff.mp h
      exact hlast
  | cons token ts ih =>
      obtain ⟨next, hstep, hrest⟩ := leads_cons_iff.mp h
      exact hback hstep (ih hrest)

theorem Leads.eq (h : Leads step s ts next) (hlast : Leads step s ts last) :
    next = last :=
  Except.ok.inj (h.symm.trans hlast)

end

/-! ### Reading what spells a value -/

namespace Reader

theorem step_scalar {token : Token} {v : Json} (h : token.scalar? = some v)
    (opened : Bool) (frames : List Frame) :
    (Reader.mk (.value opened) frames).step token =
      .ok (complete v frames) := by
  rw [Token.scalar?.eq_def] at h
  split at h <;> cases h <;> rfl

/-- Wherever there is room for a value of this depth, the tokens are read as
this one. -/
def Completes (depth : Nat) (ts : List Token) (v : Json) : Prop :=
  ∀ opened frames, frames.length + depth ≤ maxDepth →
    Leads step ⟨.value opened, frames⟩ ts (complete v frames)

theorem leads_items {depth : Nat} {frames : List Frame}
    (hroom : frames.length + 1 + depth ≤ maxDepth)
    {items : List (List Token × Json)}
    (h : ∀ item ∈ items, Completes depth item.1 item.2)
    (done : List Json) :
    Leads step ⟨.separator, .array done :: frames⟩
      ((items.map Prod.fst).flatMap (.comma :: ·))
      ⟨.separator, .array ((items.map Prod.snd).reverse ++ done) ::
        frames⟩ := by
  induction items generalizing done with
  | nil => exact .done _
  | cons item items ih =>
      obtain ⟨hitem, hitems⟩ := List.forall_mem_cons.mp h
      have hfirst := hitem false (.array done :: frames) hroom
      have hrest := ih hitems (item.2 :: done)
      rw [List.map_cons, List.map_cons, List.flatMap_cons, List.reverse_cons,
        List.append_assoc]
      exact .append (.cons rfl hfirst) hrest

theorem leads_members {depth : Nat} {frames : List Frame}
    (hroom : frames.length + 1 + depth ≤ maxDepth)
    {members : List (Text × List Token × Json)}
    (h : ∀ member ∈ members, Completes depth member.2.1 member.2.2)
    (entries : Entries Json) (key : Text) :
    ∃ last, Leads step ⟨.separator, .object entries key :: frames⟩
      ((members.map fun member =>
        memberTokens (.ok member.1) member.2.1).flatMap (.comma :: ·))
      ⟨.separator, .object (Entries.insertAll entries
        (members.map fun member => (member.1, member.2.2)))
        last :: frames⟩ := by
  induction members generalizing entries key with
  | nil => exact ⟨key, .done _⟩
  | cons member members ih =>
      obtain ⟨hmember, hmembers⟩ := List.forall_mem_cons.mp h
      have hfirst := hmember false (.object entries member.1 :: frames) hroom
      obtain ⟨last, hrest⟩ :=
        ih hmembers (entries.insert member.1 member.2.2) member.1
      refine ⟨last, ?_⟩
      rw [List.map_cons, List.map_cons, List.flatMap_cons]
      exact .append (.cons rfl (.cons rfl (.cons rfl hfirst))) hrest

end Reader

open Reader in
theorem Spells.completes {depth : Nat} {ts : List Token} {v : Json}
    (h : Spells depth ts v) :
    Completes depth ts v := by
  induction h with
  | scalar hscalar =>
      intro opened frames _
      exact .cons (step_scalar hscalar opened frames) (.done _)
  | @array depth items _ ih =>
      intro opened frames hroom
      have hinside : frames.length + 1 + depth ≤ maxDepth := by omega
      have hopen := step_openArray opened frames (by omega)
      cases items with
      | nil => exact .cons hopen (.cons rfl (.done _))
      | cons item items =>
          obtain ⟨hitem, hitems⟩ := List.forall_mem_cons.mp ih
          have hfirst := hitem true (.array [] :: frames) hinside
          have hrest := leads_items hinside hitems [item.2]
          have hvalues : (.array ((item :: items).map Prod.snd) : Json) =
              .array ((items.map Prod.snd).reverse ++ [item.2]).reverse := by
                simp
          rw [List.map_cons, arrayTokens_cons, hvalues]
          exact .cons hopen
            (.append hfirst (.append hrest (.cons rfl (.done _))))
  | @object depth members _ ih =>
      intro opened frames hroom
      have hinside : frames.length + 1 + depth ≤ maxDepth := by omega
      have hopen := step_openObject opened frames (by omega)
      cases members with
      | nil => exact .cons hopen (.cons rfl (.done _))
      | cons member members =>
          obtain ⟨hmember, hmembers⟩ := List.forall_mem_cons.mp ih
          have hfirst := hmember false (.object [] member.1 :: frames) hinside
          obtain ⟨last, hrest⟩ :=
            leads_members hinside hmembers [(member.1, member.2.2)] member.1
          rw [List.map_cons, objectTokens_cons]
          exact .cons hopen (.append (.cons rfl (.cons rfl hfirst))
            (.append hrest (.cons rfl (.done _))))

end Logline.Json
