import Mathlib.Data.List.Forall2
import Logline.Proofs.Converter.Compiled
/-!
What compiling asks of a pattern.  The references of a pattern, depth first,
are looked at one after the other; compiling succeeds if each of them is
accepted, and else fails with the error of the first one that is not
(`compile_eq_error_iff`).  Where a reference stands has no part in that: the
children of converters that ignore them are looked at like all others.
-/
namespace Logline

/-- The error that a computation fails with. -/
def failure? {ε α : Type} : Except ε α → Option ε
  | .ok _ => none
  | .error e => some e

section Failure

variable {ε α β : Type}

theorem failure?_eq_none_iff {x : Except ε α} :
    failure? x = none ↔ ∃ a, x = .ok a := by
  cases x <;> simp [failure?]

theorem failure?_eq_some_iff {x : Except ε α} {e : ε} :
    failure? x = some e ↔ x = .error e := by
  cases x <;> simp [failure?]

/-- The first of two steps that fails decides. -/
theorem failure?_bind {first : Except ε α} {next : α → Except ε β}
    {later : Option ε}
    (hnext : ∀ a, first = .ok a → failure? (next a) = later) :
    failure? (first >>= next) = (failure? first).or later := by
  cases first with
  | error e => rfl
  | ok a => exact hnext a rfl

theorem failure?_bind_ok (first : Except ε α) (f : α → β) :
    failure? (first >>= fun a => .ok (f a)) = failure? first := by
  cases first <;> rfl

theorem eq_error_of_bind_ok {first : Except ε α} {f : α → β} {e : ε}
    (h : (first >>= fun a => .ok (f a)) = .error e) : first = .error e := by
  rwa [← failure?_eq_some_iff, failure?_bind_ok, failure?_eq_some_iff] at h

end Failure

namespace Pattern

variable {κ : Type}

/-- A converter that a pattern refers to, and the options that it is given. -/
structure Reference where
  name : Text
  options : List Text
deriving DecidableEq, Repr

mutual

/-- The references of a node, its own before those of its children. -/
def nodeReferences : Node → List Reference
  | .literal _ => []
  | .converter name options children => ⟨name, options⟩ :: references children

/-- The references of a pattern, depth first. -/
def references : List Node → List Reference
  | [] => []
  | node :: rest => nodeReferences node ++ references rest

end

mutual

theorem map_name_nodeReferences : ∀ node : Node,
    (nodeReferences node).map Reference.name = nodeNames node
  | .literal t => rfl
  | .converter name options children => by
      rw [nodeReferences, nodeNames, List.map_cons,
        map_name_references children]

theorem map_name_references : ∀ nodes : List Node,
    (references nodes).map Reference.name = names nodes
  | [] => rfl
  | node :: rest => by
      rw [references, names, List.map_append, map_name_nodeReferences node,
        map_name_references rest]

end

namespace Reference

/-- The registry has a converter of this name, and it takes the options if there
are some. -/
def Accepted (ext : Extension κ) (registry : Registry κ) (r : Reference) :
    Prop :=
  ∃ new, registry.make? r.name = some new ∧
    (r.options ≠ [] →
      ∃ configured, new.attachOptions ext r.options = .ok configured)

/-- What is wrong with a reference. -/
inductive Fails (ext : Extension κ) (registry : Registry κ) (r : Reference) :
    Error → Prop
  | unknown : registry.make? r.name = none →
      Fails ext registry r (.unknownConverter r.name)
  | refused {new : Converter κ} {e : Error} : registry.make? r.name = some new →
      r.options ≠ [] → new.attachOptions ext r.options = .error e →
      Fails ext registry r e

/-- The converter of a reference, before children. -/
def configure (ext : Extension κ) (registry : Registry κ) (r : Reference) :
    Except Error (Converter κ) :=
  match registry.make? r.name with
  | none => .error (.unknownConverter r.name)
  | some new =>
      if r.options.isEmpty then .ok new else new.attachOptions ext r.options

section Configure

variable {ext : Extension κ} {registry : Registry κ} {r : Reference}

theorem accepted_iff :
    r.Accepted ext registry ↔ failure? (r.configure ext registry) = none := by
  rw [failure?_eq_none_iff, Accepted, configure]
  cases registry.make? r.name with
  | none => simp
  | some new => cases hoptions : r.options <;> simp

theorem fails_iff {e : Error} :
    r.Fails ext registry e ↔ failure? (r.configure ext registry) = some e := by
  rw [failure?_eq_some_iff, configure]
  constructor
  · rintro (hname | ⟨hname, hoptions, hattach⟩)
    · rw [hname]
    · simp only [hname, List.isEmpty_iff, hoptions, if_false, hattach]
  · cases hname : registry.make? r.name with
    | none =>
        intro h
        obtain rfl := Except.error.inj h
        exact .unknown hname
    | some new =>
        intro h
        by_cases hoptions : r.options = []
        · simp [hoptions] at h
        · simp only [List.isEmpty_iff, hoptions, if_false] at h
          exact .refused hname hoptions h

end Configure

end Reference

/-! ### Compiling -/

section Compile

variable {ext : Extension κ} {registry : Registry κ}

theorem compileNode_reference (ext : Extension κ) (registry : Registry κ)
    (name : Text) (options : List Text) (children : List Node) :
    compileNode ext registry (.converter name options children) =
      (Reference.configure ext registry ⟨name, options⟩ >>= fun configured =>
        if children.isEmpty then .ok configured
        else compile ext registry children >>= fun cs =>
          .ok (configured.attachChildren cs)) := by
  rw [compileNode, Reference.configure]
  cases registry.make? name with
  | none => rfl
  | some new => cases options <;> rfl

theorem compileNode_configured {name : Text} {options : List Text}
    {children : List Node} {c : Converter κ}
    (h : compileNode ext registry (.converter name options children) = .ok c) :
    ∃ configured, Reference.configure ext registry ⟨name, options⟩ =
      .ok configured ∧
      (children = [] ∧ c = configured ∨
        children ≠ [] ∧ ∃ inner, compile ext registry children = .ok inner ∧
          c = configured.attachChildren inner) := by
  rw [compileNode_reference] at h
  obtain ⟨configured, hconfigured, h⟩ := Except.bind_eq_ok h
  refine ⟨configured, hconfigured, ?_⟩
  cases children with
  | nil => exact .inl ⟨rfl, (Except.ok.inj h).symm⟩
  | cons child rest =>
      obtain ⟨inner, hinner, hc⟩ := Except.bind_eq_ok h
      exact .inr ⟨List.cons_ne_nil child rest, inner, hinner,
        (Except.ok.inj hc).symm⟩

mutual

theorem failure?_compileNode (ext : Extension κ) (registry : Registry κ) :
    ∀ node : Node,
    failure? (compileNode ext registry node) =
      (nodeReferences node).findSome? fun r =>
        failure? (r.configure ext registry)
  | .literal t => by
      rw [compileNode, nodeReferences]
      rfl
  | .converter name options children => by
      rw [compileNode_reference, nodeReferences, ← List.singleton_append,
        List.findSome?_append, List.findSome?_singleton,
        ← failure?_compile ext registry children]
      apply failure?_bind
      intro configured _
      cases children with
      | nil => rfl
      | cons child rest => exact failure?_bind_ok _ configured.attachChildren

theorem failure?_compile (ext : Extension κ) (registry : Registry κ) :
    ∀ nodes : List Node,
    failure? (compile ext registry nodes) =
      (references nodes).findSome? fun r => failure? (r.configure ext registry)
  | [] => by
      rw [compile, references]
      rfl
  | node :: rest => by
      rw [compile, references, List.findSome?_append,
        ← failure?_compileNode ext registry node,
        ← failure?_compile ext registry rest]
      apply failure?_bind
      intro c _
      exact failure?_bind_ok _ (c :: ·)

end

/-- A pattern compiles exactly if each of its references is accepted. -/
theorem exists_compile_iff {nodes : List Node} :
    (∃ cs, compile ext registry nodes = .ok cs) ↔
      ∀ r ∈ references nodes, r.Accepted ext registry := by
  rw [← failure?_eq_none_iff, failure?_compile, List.findSome?_eq_none_iff]
  exact forall₂_congr fun _ _ => Reference.accepted_iff.symm

/-- A pattern that does not compile fails with the error of its first reference
that is not accepted. -/
theorem compile_eq_error_iff {nodes : List Node} {e : Error} :
    compile ext registry nodes = .error e ↔
      ∃ before r after, references nodes = before ++ r :: after ∧
        r.Fails ext registry e ∧
        ∀ earlier ∈ before, earlier.Accepted ext registry := by
  simp only [← failure?_eq_some_iff, failure?_compile,
    List.findSome?_eq_some_iff, Reference.fails_iff, Reference.accepted_iff]

theorem forall₂_of_compile : ∀ {nodes : List Node} {cs : List (Converter κ)},
    compile ext registry nodes = .ok cs →
      List.Forall₂ (fun node c => compileNode ext registry node = .ok c)
        nodes cs
  | [], cs, h => by
      rw [compile] at h
      obtain rfl := Except.ok.inj h
      exact .nil
  | node :: rest, cs, h => by
      obtain ⟨c, more, hc, hmore, rfl⟩ := compile_cons_cases h
      exact .cons hc (forall₂_of_compile hmore)

theorem isEmpty_compile {nodes : List Node} {cs : List (Converter κ)}
    (h : compile ext registry nodes = .ok cs) : cs.isEmpty = nodes.isEmpty := by
  cases forall₂_of_compile h <;> rfl

theorem compile_append (ext : Extension κ) (registry : Registry κ)
    (first second : List Node) :
    compile ext registry (first ++ second) =
      (compile ext registry first >>= fun cs =>
        compile ext registry second >>= fun more => .ok (cs ++ more)) := by
  induction first with
  | nil =>
      rw [List.nil_append, compile, Except.ok_bind]
      cases compile ext registry second <;> rfl
  | cons node rest ih =>
      rw [List.cons_append, compile, compile, ih]
      cases compileNode ext registry node with
      | error e => rfl
      | ok c =>
          cases compile ext registry rest with
          | error e => rfl
          | ok cs => cases compile ext registry second <;> rfl

end Compile

end Pattern

end Logline
