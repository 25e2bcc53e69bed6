import Logline.Proofs.Json.Skipping
/-!
The document reader takes exactly the tokens that spell a document
(`ofTokens_eq_ok_iff`).  A document that is read could as well be skipped, so
its tokens are arranged like a value; and where tokens so arranged are read,
every number and string in them has a value, and there is room for every array
and object (`Skippable.onlyReadable`).
-/
namespace Logline.Json

/-- Partners for all elements of a list make a list of pairs. -/
theorem exists_pairs {α β : Type} {R : α → β → Prop} {as : List α}
    (h : ∀ a ∈ as, ∃ b, R a b) :
    ∃ pairs : List (α × β), pairs.map Prod.fst = as ∧
      ∀ pair ∈ pairs, R pair.1 pair.2 := by
  induction as with
  | nil => exact ⟨[], rfl, List.forall_mem_nil _⟩
  | cons a as ih =>
      obtain ⟨⟨b, hb⟩, has⟩ := List.forall_mem_cons.mp h
      obtain ⟨pairs, rfl, hpairs⟩ := ih has
      exact ⟨(a, b) :: pairs, rfl, List.forall_mem_cons.mpr ⟨hb, hpairs⟩⟩

/-- The tokens spell some value. -/
def Readable (depth : Nat) (ts : List Token) : Prop :=
  ∃ v, Spells depth ts v

theorem readable_arrayTokens {depth : Nat} {items : List (List Token)}
    (h : ∀ item ∈ items, Readable depth item) :
    Readable (depth + 1) (arrayTokens items) := by
  obtain ⟨pairs, rfl, hpairs⟩ := exists_pairs h
  exact ⟨_, .array hpairs⟩

/-- The key and the value of a member can be read. -/
def ReadableMember (depth : Nat) (member : Except Fault Text × List Token) :
    Prop :=
  (∃ key, member.1 = .ok key) ∧ Readable depth member.2

theorem readable_objectTokens {depth : Nat}
    {members : List (Except Fault Text × List Token)}
    (h : ∀ member ∈ members, ReadableMember depth member) :
    Readable (depth + 1)
      (objectTokens (members.map fun member =>
        memberTokens member.1 member.2)) := by
  have hkeyed : ∀ member ∈ members, ∃ entry : Text × Json,
      member.1 = .ok entry.1 ∧ Spells depth member.2 entry.2 := by
    intro member hmember
    obtain ⟨⟨key, hkey⟩, v, hv⟩ := h member hmember
    exact ⟨(key, v), hkey, hv⟩
  obtain ⟨pairs, rfl, hpairs⟩ := exists_pairs hkeyed
  have hspelled :
      ∀ member ∈ pairs.map fun pair => (pair.2.1, pair.1.2, pair.2.2),
        Spells depth member.2.1 member.2.2 := by
    rw [List.forall_mem_map]
    exact fun pair hpair => (hpairs pair hpair).2
  have htokens : (pairs.map fun pair => (pair.2.1, pair.1.2, pair.2.2)).map
        (fun member => memberTokens (.ok member.1) member.2.1) =
      (pairs.map Prod.fst).map fun member =>
        memberTokens member.1 member.2 := by
    rw [List.map_map, List.map_map]
    exact List.map_congr_left fun pair hpair =>
      congrArg (memberTokens · pair.1.2) (hpairs pair hpair).1.symm
  rw [← htokens]
  exact ⟨_, .object hspelled⟩

/-! ### What is read -/

namespace Reader

/-- Wherever there is room for exactly this depth, the tokens are read only if
they spell a value. -/
def OnlyReadable (depth : Nat) (ts : List Token) : Prop :=
  ∀ opened frames next, Leads step ⟨.value opened, frames⟩ ts next →
    frames.length + depth = maxDepth → Readable depth ts

theorem eq_complete_of_leads {depth : Nat} {ts : List Token} {opened : Bool}
    {frames : List Frame} {next : Reader} (h : OnlyReadable depth ts)
    (hleads : Leads step ⟨.value opened, frames⟩ ts next)
    (hroom : frames.length + depth = maxDepth) :
    Readable depth ts ∧ ∃ v, next = complete v frames := by
  obtain ⟨v, hv⟩ := h opened frames next hleads hroom
  exact ⟨⟨v, hv⟩, v,
    hleads.eq (hv.completes opened frames (Nat.le_of_eq hroom))⟩

theorem readable_of_leads_items {depth : Nat} {frames : List Frame}
    (hroom : frames.length + 1 + depth = maxDepth) {items : List (List Token)}
    (h : ∀ item ∈ items, OnlyReadable depth item) {done : List Json}
    {us : List Token} {last : Reader}
    (hleads : Leads step ⟨.separator, .array done :: frames⟩
      (items.flatMap (.comma :: ·) ++ us) last) :
    ∀ item ∈ items, Readable depth item := by
  induction items generalizing done with
  | nil => exact List.forall_mem_nil _
  | cons item items ih =>
      obtain ⟨hitem, hitems⟩ := List.forall_mem_cons.mp h
      rw [List.flatMap_cons, List.append_assoc, List.cons_append,
        leads_cons_iff] at hleads
      obtain ⟨_, hcomma, hleads⟩ := hleads
      obtain rfl := Except.ok.inj hcomma
      obtain ⟨next, hfirst, hrest⟩ := leads_append_iff.mp hleads
      obtain ⟨hread, v, rfl⟩ := eq_complete_of_leads hitem hfirst hroom
      exact List.forall_mem_cons.mpr ⟨hread, ih hitems hrest⟩

/-- A member is read as its key and its value. -/
theorem readable_of_leads_member {depth : Nat} {frames : List Frame}
    (hroom : frames.length + 1 + depth = maxDepth)
    {member : Except Fault Text × List Token} (h : OnlyReadable depth member.2)
    {opened : Bool} {entries : Entries Json} {old : Text} {next : Reader}
    (hleads : Leads step ⟨.key opened, .object entries old :: frames⟩
      (memberTokens member.1 member.2) next) :
    ReadableMember depth member ∧
      ∃ entries key, next = ⟨.separator, .object entries key :: frames⟩ := by
  obtain ⟨key, value⟩ := member
  obtain ⟨_, hkey, hleads⟩ := leads_cons_iff.mp hleads
  cases key with
  | error fault => contradiction
  | ok key =>
      obtain rfl := Except.ok.inj hkey
      obtain ⟨_, hcolon, hleads⟩ := leads_cons_iff.mp hleads
      obtain rfl := Except.ok.inj hcolon
      obtain ⟨hread, v, rfl⟩ := eq_complete_of_leads h hleads hroom
      exact ⟨⟨⟨key, rfl⟩, hread⟩, _, _, rfl⟩

theorem readable_of_leads_members {depth : Nat} {frames : List Frame}
    (hroom : frames.length + 1 + depth = maxDepth)
    {members : List (Except Fault Text × List Token)}
    (h : ∀ member ∈ members, OnlyReadable depth member.2)
    {entries : Entries Json} {key : Text} {us : List Token} {last : Reader}
    (hleads : Leads step ⟨.separator, .object entries key :: frames⟩
      ((members.map fun member => memberTokens member.1 member.2).flatMap
        (.comma :: ·) ++ us)
      last) :
    ∀ member ∈ members, ReadableMember depth member := by
  induction members generalizing entries key with
  | nil => exact List.forall_mem_nil _
  | cons member members ih =>
      obtain ⟨hmember, hmembers⟩ := List.forall_mem_cons.mp h
      rw [List.map_cons, List.flatMap_cons, List.append_assoc, List.cons_append,
        leads_cons_iff] at hleads
      obtain ⟨_, hcomma, hleads⟩ := hleads
      obtain rfl := Except.ok.inj hcomma
      obtain ⟨next, hfirst, hrest⟩ := leads_append_iff.mp hleads
      obtain ⟨hread, entries', key', rfl⟩ :=
        readable_of_leads_member hroom hmember hfirst
      exact List.forall_mem_cons.mpr ⟨hread, ih hmembers hrest⟩

theorem readable_of_leads_array {depth : Nat} {items : List (List Token)}
    (h : ∀ item ∈ items, OnlyReadable depth item) {opened : Bool}
    {frames : List Frame} {next : Reader}
    (hleads : Leads step ⟨.value opened, frames⟩ (arrayTokens items) next)
    (hroom : frames.length + 1 + depth = maxDepth) :
    ∀ item ∈ items, Readable depth item := by
  obtain ⟨inside, hstep, hleads⟩ := leads_cons_iff.mp hleads
  cases takes_of_step hstep with
  | scalar hscalar => contradiction
  | openArray hdepth =>
      cases items with
      | nil => exact List.forall_mem_nil _
      | cons item items =>
          obtain ⟨hitem, hitems⟩ := List.forall_mem_cons.mp h
          rw [separated, intercalate_cons, List.append_assoc] at hleads
          obtain ⟨_, hfirst, hrest⟩ := leads_append_iff.mp hleads
          obtain ⟨hread, v, rfl⟩ := eq_complete_of_leads hitem hfirst hroom
          exact List.forall_mem_cons.mpr
            ⟨hread, readable_of_leads_items hroom hitems hrest⟩

theorem readable_of_leads_object {depth : Nat}
    {members : List (Except Fault Text × List Token)}
    (h : ∀ member ∈ members, OnlyReadable depth member.2) {opened : Bool}
    {frames : List Frame} {next : Reader}
    (hleads : Leads step ⟨.value opened, frames⟩
      (objectTokens (members.map fun member => memberTokens member.1 member.2))
      next)
    (hroom : frames.length + 1 + depth = maxDepth) :
    ∀ member ∈ members, ReadableMember depth member := by
  obtain ⟨inside, hstep, hleads⟩ := leads_cons_iff.mp hleads
  cases takes_of_step hstep with
  | scalar hscalar => contradiction
  | openObject hdepth =>
      cases members with
      | nil => exact List.forall_mem_nil _
      | cons member members =>
          obtain ⟨hmember, hmembers⟩ := List.forall_mem_cons.mp h
          rw [List.map_cons, separated, intercalate_cons, List.append_assoc]
            at hleads
          obtain ⟨_, hfirst, hrest⟩ := leads_append_iff.mp hleads
          obtain ⟨hread, entries, key, rfl⟩ :=
            readable_of_leads_member hroom hmember hfirst
          exact List.forall_mem_cons.mpr
            ⟨hread, readable_of_leads_members hroom hmembers hrest⟩

/-- Nothing is read from a bracket on where there is no room for it. -/
theorem exists_depth_of_leads {token : Token} {ts : List Token} {opened : Bool}
    {frames : List Frame} {next : Reader} {depth : Nat}
    (hleads : Leads step ⟨.value opened, frames⟩ (token :: ts) next)
    (htoken : token = .openArray ∨ token = .openObject)
    (hroom : frames.length + depth = maxDepth) : ∃ less, depth = less + 1 := by
  obtain ⟨inside, hstep, -⟩ := leads_cons_iff.mp hleads
  have hdepth : frames.length < maxDepth := by
    obtain rfl | rfl := htoken
    · cases takes_of_step hstep with
      | scalar hscalar => contradiction
      | openArray hdepth => exact hdepth
    · cases takes_of_step hstep with
      | scalar hscalar => contradiction
      | openObject hdepth => exact hdepth
  exact Nat.exists_eq_add_of_le' (show 1 ≤ depth by omega)

end Reader

open Reader in
theorem Skippable.onlyReadable {ts : List Token} (h : Skippable ts) :
    ∀ depth, OnlyReadable depth ts := by
  induction h with
  | @scalar token hscalar =>
      intro depth opened frames next hleads hroom
      obtain ⟨_, hstep, -⟩ := leads_cons_iff.mp hleads
      cases takes_of_step hstep with
      | scalar h => exact ⟨_, .scalar h⟩
      | openArray | openObject | emptyArray => contradiction
  | array _ ih =>
      intro depth opened frames next hleads hroom
      obtain ⟨less, rfl⟩ := exists_depth_of_leads hleads (.inl rfl) hroom
      exact readable_arrayTokens
        (readable_of_leads_array (fun item hitem => ih item hitem less)
        hleads (by omega))
  | object _ ih =>
      intro depth opened frames next hleads hroom
      obtain ⟨less, rfl⟩ := exists_depth_of_leads hleads (.inr rfl) hroom
      exact readable_objectTokens (readable_of_leads_object
        (fun member hmember => ih member hmember less) hleads (by omega))

/-- Where a document is read, the skipper gets to its end too. -/
theorem Skips.leads {awaiting : Awaiting} {frames : List Frame} {k : Skipper}
    {ts : List Token} {last : Reader} {document : Json}
    (h : Skips awaiting frames k)
    (hleads : Leads Reader.step ⟨awaiting, frames⟩ ts last)
    (hlast : last.awaiting = .nothing document) :
    ∃ k', Leads Skipper.step k ts k' ∧ k'.awaiting = .nothing := by
  induction ts generalizing awaiting frames k with
  | nil =>
      obtain rfl := leads_nil_iff.mp hleads
      cases h <;> contradiction
  | cons token ts ih =>
      obtain ⟨next, hstep, hrest⟩ := leads_cons_iff.mp hleads
      rw [← List.append_nil frames] at hstep
      obtain ⟨k', hk', ⟨hnothing, v, rfl⟩ | ⟨-, inner, hnext, hskips⟩⟩ :=
        h.step hstep
      · cases ts with
        | nil => exact ⟨k', .cons hk' (.done k'), hnothing⟩
        | cons token ts =>
            obtain ⟨_, hbehind, -⟩ := leads_cons_iff.mp hrest
            contradiction
      · rw [List.append_nil] at hnext
        rw [hnext] at hrest
        obtain ⟨k'', hk'', hnothing⟩ := ih hskips hrest
        exact ⟨k'', .cons hk' hk'', hnothing⟩

/-- A document is read from the tokens that spell it, and from no others. -/
theorem ofTokens_eq_ok_iff {ts : List Token} {document : Json} :
    ofTokens ts = .ok document ↔ Spells Reader.maxDepth ts document := by
  constructor
  · intro h
    obtain ⟨last, hleads, hfinish⟩ := Except.bind_eq_ok h
    have hlast : last.awaiting = .nothing document :=
      Reader.ends_nil_iff.mp hfinish
    have hskips : Skips (.value false) [] .start := .value (by simp)
    obtain ⟨k, hk, hnothing⟩ := hskips.leads hleads hlast
    obtain ⟨v, hv⟩ := (skippable_of_leads hk hnothing).onlyReadable
      Reader.maxDepth _ _ _ hleads
      (Nat.zero_add _)
    obtain rfl :=
      Leads.eq hleads (hv.completes false [] (Nat.le_of_eq (Nat.zero_add _)))
    obtain rfl := Awaiting.nothing.inj hlast
    exact hv
  · intro h
    have hleads : Leads Reader.step .start ts ⟨.nothing document, []⟩ :=
      h.completes false [] (Nat.le_of_eq (Nat.zero_add _))
    rw [ofTokens, hleads]
    rfl

/-- The room that there is for a value under a key of the outermost object. -/
def innerDepth : Nat := Reader.maxDepth - 1

/-- A document is an object if the values of its members are spelled; of the
values under one key it has the last, in the place of the first. -/
theorem ofTokens_eq_object_iff {ts : List Token} {entries : Entries Json} :
    ofTokens ts = .ok (.object entries) ↔
      ∃ members : List (Text × List Token × Json),
        ts = objectTokens (members.map fun member =>
          memberTokens (.ok member.1) member.2.1) ∧
        (∀ member ∈ members, Spells innerDepth member.2.1 member.2.2) ∧
        entries = Entries.insertAll []
          (members.map fun member => (member.1, member.2.2)) := by
  rw [ofTokens_eq_ok_iff]
  constructor
  · intro h
    cases h with
    | @scalar _ token _ hscalar =>
        rw [Token.scalar?.eq_def] at hscalar
        split at hscalar <;> cases hscalar
    | object h => exact ⟨_, rfl, h, rfl⟩
  · rintro ⟨members, rfl, h, rfl⟩
    exact .object h

/-! ### What can be skipped only -/

/-- The token is a number or a string without a value: a number out of range,
or a string with a lone surrogate or with bytes that are no UTF-8. -/
def Token.isValueless : Token → Bool
  | .number (.error _) => true
  | .string (.error _) => true
  | _ => false

theorem Spells.mono {depth more : Nat} {ts : List Token} {v : Json}
    (h : Spells depth ts v) (hle : depth ≤ more) : Spells more ts v := by
  induction h generalizing more with
  | scalar hscalar => exact .scalar hscalar
  | array _ ih =>
      obtain ⟨more, rfl⟩ := Nat.exists_eq_add_of_le' (show 1 ≤ more by omega)
      exact .array fun item hitem => ih item hitem (Nat.le_of_succ_le_succ hle)
  | object _ ih =>
      obtain ⟨more, rfl⟩ := Nat.exists_eq_add_of_le' (show 1 ≤ more by omega)
      exact .object fun member hmember =>
        ih member hmember (Nat.le_of_succ_le_succ hle)

theorem Readable.mono {depth more : Nat} {ts : List Token}
    (h : Readable depth ts) (hle : depth ≤ more) : Readable more ts :=
  h.imp fun _ hv => hv.mono hle

theorem exists_depth {rows : List (List Token)}
    (h : ∀ row ∈ rows, ∃ depth, Readable depth row) :
    ∃ depth, ∀ row ∈ rows, Readable depth row := by
  induction rows with
  | nil => exact ⟨0, List.forall_mem_nil _⟩
  | cons row rows ih =>
      obtain ⟨⟨first, hfirst⟩, hrows⟩ := List.forall_mem_cons.mp h
      obtain ⟨rest, hrest⟩ := ih hrows
      exact ⟨max first rest,
        List.forall_mem_cons.mpr ⟨hfirst.mono (Nat.le_max_left _ _),
        fun row hrow => (hrest row hrow).mono (Nat.le_max_right _ _)⟩⟩

theorem subset_separated {row : List Token} {rows : List (List Token)}
    (h : row ∈ rows) :
    row ⊆ separated rows := by
  intro token htoken
  cases rows with
  | nil => contradiction
  | cons first rows =>
      rw [separated, intercalate_cons, List.mem_append]
      obtain rfl | hrow := List.mem_cons.mp h
      · exact .inl htoken
      · exact .inr (List.mem_flatMap.mpr
          ⟨row, hrow, List.mem_cons_of_mem _ htoken⟩)

theorem forall_separated {P : Token → Prop} (hcomma : P .comma)
    {rows : List (List Token)} (h : ∀ row ∈ rows, ∀ token ∈ row, P token) :
    ∀ token ∈ separated rows, P token := by
  cases rows with
  | nil => exact List.forall_mem_nil _
  | cons row rows =>
      obtain ⟨hrow, hrows⟩ := List.forall_mem_cons.mp h
      rw [separated, intercalate_cons, List.forall_mem_append,
        List.forall_mem_flatMap]
      exact ⟨hrow, fun row hmem =>
        List.forall_mem_cons.mpr ⟨hcomma, hrows row hmem⟩⟩

theorem Spells.isValueless_eq_false {depth : Nat} {ts : List Token} {v : Json}
    (h : Spells depth ts v) : ∀ token ∈ ts, token.isValueless = false := by
  induction h with
  | @scalar _ token _ hscalar =>
      rw [List.forall_mem_singleton]
      rw [Token.scalar?.eq_def] at hscalar
      split at hscalar <;> trivial
  | array _ ih =>
      rw [arrayTokens, List.forall_mem_cons, List.forall_mem_append,
        List.forall_mem_singleton]
      refine ⟨rfl, forall_separated (P := (·.isValueless = false)) rfl ?_, rfl⟩
      rw [List.forall_mem_map]
      exact ih
  | object _ ih =>
      rw [objectTokens, List.forall_mem_cons, List.forall_mem_append,
        List.forall_mem_singleton]
      refine ⟨rfl, forall_separated (P := (·.isValueless = false)) rfl ?_, rfl⟩
      rw [List.forall_mem_map]
      exact fun member hmember => List.forall_mem_cons.mpr
        ⟨rfl, List.forall_mem_cons.mpr ⟨rfl, ih member hmember⟩⟩

/-- What is arranged like a value spells one of some depth, if its numbers and
strings have values; and the keys are among the strings. -/
theorem Skippable.exists_readable {ts : List Token} (h : Skippable ts)
    (hvalues : ∀ token ∈ ts, token.isValueless = false) :
    ∃ depth, Readable depth ts := by
  induction h with
  | @scalar token hscalar =>
      have hvalue := hvalues token List.mem_cons_self
      cases token with
      | null => exact ⟨0, _, .scalar rfl⟩
      | bool b => exact ⟨0, _, .scalar rfl⟩
      | number value =>
          cases value with
          | ok n => exact ⟨0, _, .scalar rfl⟩
          | error fault => contradiction
      | string value =>
          cases value with
          | ok t => exact ⟨0, _, .scalar rfl⟩
          | error fault => contradiction
      | _ => contradiction
  | @array items _ ih =>
      have hinside : ∀ item ∈ items, ∃ depth, Readable depth item :=
        fun item hitem => ih item hitem fun token htoken =>
          hvalues token <| List.mem_cons_of_mem _
            (List.mem_append_left _ (subset_separated hitem htoken))
      obtain ⟨depth, hdepth⟩ := exists_depth hinside
      exact ⟨depth + 1, readable_arrayTokens hdepth⟩
  | @object members _ ih =>
      have hmembers : ∀ member ∈ members,
          ∀ token ∈ memberTokens member.1 member.2, token.isValueless = false :=
        fun member hmember token htoken => hvalues token <|
          List.mem_cons_of_mem _ <| List.mem_append_left _
            (subset_separated (List.mem_map_of_mem hmember) htoken)
      have hinside : ∀ value ∈ members.map Prod.snd, ∃ depth,
          Readable depth value := by
        rw [List.forall_mem_map]
        exact fun member hmember => ih member hmember fun token htoken =>
          hmembers member hmember token
            (List.mem_cons_of_mem _ (List.mem_cons_of_mem _ htoken))
      obtain ⟨depth, hdepth⟩ := exists_depth hinside
      refine ⟨depth + 1, readable_objectTokens fun member hmember => ⟨?_, ?_⟩⟩
      · have hkey := hmembers member hmember _ List.mem_cons_self
        cases hfound : member.1 with
        | ok key => exact ⟨key, rfl⟩
        | error fault =>
            rw [hfound] at hkey
            contradiction
      · exact hdepth member.2 (List.mem_map_of_mem hmember)

end Logline.Json
