import Logline.Proofs.Pattern.RoundTrip
/-!
Patterns that are built by hand.  Their literals may be empty and stand side by
side, which no text can say; `merged` joins neighbours and drops the empty
ones, at every level.  The printed text of such a pattern is read as the merged
one (`read_text_eq_merged`), where no name of a reference runs on into a
literal behind it (`Sealed`).
-/
namespace Logline.Pattern

open Node

/-! ### Merging -/

/-- The nodes with one more in front: a literal joins one that they begin with,
and an empty one is left out. -/
def prepend : Node → List Node → List Node
  | .literal [], nodes => nodes
  | .literal t, .literal u :: rest => .literal (t ++ u) :: rest
  | node, nodes => node :: nodes

mutual

/-- The node with its children merged. -/
def mergedNode : Node → Node
  | .literal t => .literal t
  | .converter name options children =>
      .converter name options (merged children)

/-- The nodes with neighbouring literals in one and without empty ones, at
every level. -/
def merged : List Node → List Node
  | [] => []
  | node :: rest => prepend (mergedNode node) (merged rest)

end

example : merged [.literal ['a'], .literal [], .literal ['b'],
    .converter ['n'] [] [.literal []], .literal []] =
    [.literal ['a', 'b'], .converter ['n'] [] []] := by decide

/-- Neither a marker nor a bracket. -/
def IsPlain (c : Char) : Prop :=
  c ∉ [marker, '(', ')', '\x7b', '\x7d']

instance (c : Char) : Decidable (IsPlain c) :=
  inferInstanceAs (Decidable (c ∉ _))

/-- A node that can be printed, up to what merging does: literals are plain,
converters have names and options that can be cut apart again. -/
inductive Printable : Node → Prop
  | literal {t : Text} (hplain : ∀ c ∈ t, IsPlain c) : Printable (.literal t)
  | converter {name : Text} {options : List Text} {children : List Node}
      (hname : IsName name) (hsingle : options ≠ [[]])
      (hoptions : ∀ o ∈ options, NormalOption o)
      (hchildren : ∀ child ∈ children, Printable child) :
      Printable (.converter name options children)

/-- The text of the literals that the nodes begin with. -/
def leadingText : List Node → Text
  | .literal t :: rest => t ++ leadingText rest
  | _ => []

/-- A reference without slots is followed by an empty literal, and the literals
behind that begin with a character that its name could go on with. -/
def runsOn : Node → List Node → Bool
  | .converter _ [] [], .literal [] :: rest =>
      (leadingText rest).head?.any isNameChar
  | _, _ => false

mutual

/-- No name among the children runs on into literals. -/
def SealedNode : Node → Prop
  | .literal _ => True
  | .converter _ _ children => Sealed children

/-- No name runs on into literals, at any level. -/
def Sealed : List Node → Prop
  | [] => True
  | node :: rest => runsOn node rest = false ∧ SealedNode node ∧ Sealed rest

end

/-! ### Merged nodes are normal -/

theorem prepend_converter (name : Text) (options : List Text)
    (children nodes : List Node) :
    prepend (.converter name options children) nodes =
      .converter name options children :: nodes := by
  rw [prepend]
  · intro h; contradiction
  · intro t u rest h; contradiction

theorem prepend_literal_cases (t : Text) (nodes : List Node) :
    t = [] ∧ prepend (.literal t) nodes = nodes ∨
      t ≠ [] ∧ ((∃ u rest, nodes = .literal u :: rest ∧
          prepend (.literal t) nodes = .literal (t ++ u) :: rest) ∨
        (∀ node ∈ nodes.head?, node.isLiteral = false) ∧
          prepend (.literal t) nodes = .literal t :: nodes) := by
  cases t with
  | nil => exact .inl ⟨rfl, rfl⟩
  | cons c t =>
      refine .inr ⟨List.cons_ne_nil c t, ?_⟩
      rcases nodes with _ | ⟨⟨u⟩ | _, rest⟩
      · exact .inr ⟨by simp, rfl⟩
      · exact .inl ⟨u, rest, rfl, rfl⟩
      · exact .inr ⟨by simp [isLiteral], rfl⟩

theorem isChain_prepend (node : Node) {nodes : List Node}
    (h : nodes.IsChain Apart) :
    (prepend node nodes).IsChain Apart := by
  cases node with
  | converter name options children =>
      rw [prepend_converter]
      exact List.isChain_cons.mpr ⟨fun next _ => apart_of_not_left rfl next, h⟩
  | literal t =>
      obtain ⟨rfl, heq⟩ | ⟨-, ⟨u, rest, rfl, heq⟩ | ⟨hhead, heq⟩⟩ :=
        prepend_literal_cases t nodes
      · rwa [heq]
      · obtain ⟨hfirst, hrest⟩ := List.isChain_cons.mp h
        rw [heq]
        exact List.isChain_cons.mpr ⟨hfirst, hrest⟩
      · rw [heq]
        exact List.isChain_cons.mpr
          ⟨fun next hnext => apart_of_not_right _ (hhead next hnext), h⟩

theorem isChain_merged (nodes : List Node) : (merged nodes).IsChain Apart := by
  induction nodes with
  | nil => exact .nil
  | cons node rest ih => exact isChain_prepend _ ih

theorem noReference_of_plain {t : Text} (h : ∀ c ∈ t, IsPlain c) :
    NoReference t := by
  induction t with
  | nil => exact noReference_nil
  | cons c t ih =>
      obtain ⟨hc, ht⟩ := List.forall_mem_cons.mp h
      refine (noReference_cons_iff c t).mpr ⟨fun _ _ hmarker => ?_, ih ht⟩
      exact absurd (hmarker ▸ List.mem_cons_self) hc

theorem balanced_of_plain {t : Text} (h : ∀ c ∈ t, IsPlain c)
    {opener closer : Char} (hopener : ¬ IsPlain opener)
    (hcloser : ¬ IsPlain closer) : Balanced opener closer t where
  closes_le before hbefore := by
    rw [List.count_eq_zero.mpr fun hmem =>
      hcloser (h closer (hbefore.subset hmem))]
    exact Nat.zero_le _
  total := by
    rw [List.count_eq_zero.mpr fun hmem => hcloser (h closer hmem),
      List.count_eq_zero.mpr fun hmem => hopener (h opener hmem)]

/-- A normal node that, if it is a literal, is a plain one. -/
structure Clean (node : Node) : Prop where
  normal : NormalNode node
  plain : ∀ t, node = .literal t → ∀ c ∈ t, IsPlain c

theorem clean_literal {t : Text} (hne : t ≠ []) (hplain : ∀ c ∈ t, IsPlain c) :
    Clean (.literal t) where
  normal := .literal hne (noReference_of_plain hplain)
  plain _ heq := Node.literal.inj heq ▸ hplain

theorem clean_converter {name : Text} {options : List Text}
    {children : List Node} (h : NormalNode (.converter name options children)) :
    Clean (.converter name options children) where
  normal := h
  plain _ heq := by contradiction

theorem forall_clean_prepend {t : Text} {nodes : List Node}
    (hplain : ∀ c ∈ t, IsPlain c) (hnodes : ∀ node ∈ nodes, Clean node) :
    ∀ node ∈ prepend (.literal t) nodes, Clean node := by
  obtain ⟨-, heq⟩ | ⟨hne, ⟨u, rest, rfl, heq⟩ | ⟨-, heq⟩⟩ :=
    prepend_literal_cases t nodes
  · rwa [heq]
  · obtain ⟨hu, hrest⟩ := List.forall_mem_cons.mp hnodes
    have hjoined : ∀ c ∈ t ++ u, IsPlain c :=
      List.forall_mem_append.mpr ⟨hplain, hu.plain u rfl⟩
    rw [heq]
    exact List.forall_mem_cons.mpr
      ⟨clean_literal (List.append_ne_nil_of_left_ne_nil hne u) hjoined, hrest⟩
  · rw [heq]
    exact List.forall_mem_cons.mpr ⟨clean_literal hne hplain, hnodes⟩

theorem forall_plain_literalText {nodes : List Node}
    (h : ∀ node ∈ nodes, Clean node) :
    ∀ c ∈ literalText nodes, IsPlain c := by
  induction nodes with
  | nil => exact List.forall_mem_nil _
  | cons node rest ih =>
      obtain ⟨hnode, hrest⟩ := List.forall_mem_cons.mp h
      cases node with
      | literal t =>
          exact List.forall_mem_append.mpr ⟨hnode.plain t rfl, ih hrest⟩
      | converter name options children => exact ih hrest

theorem arranged_merged {nodes : List Node}
    (h : ∀ node ∈ merged nodes, Clean node) :
    Arranged (merged nodes) where
  apart := isChain_merged nodes
  parens := balanced_of_plain (forall_plain_literalText h)
    (by decide) (by decide)
  braces := balanced_of_plain (forall_plain_literalText h)
    (by decide) (by decide)

theorem forall_clean_merged : (nodes : List Node) →
    (∀ node ∈ nodes, Printable node) →
    ∀ node ∈ merged nodes, Clean node
  | [], _ => by
      rw [merged]
      exact List.forall_mem_nil _
  | .literal t :: rest, h => by
      obtain ⟨hnode, hrest⟩ := List.forall_mem_cons.mp h
      cases hnode with
      | literal hplain =>
          rw [merged, mergedNode]
          exact forall_clean_prepend hplain (forall_clean_merged rest hrest)
  | .converter name options children :: rest, h => by
      obtain ⟨hnode, hrest⟩ := List.forall_mem_cons.mp h
      cases hnode with
      | converter hname hsingle hoptions hchildren =>
          have hclean := forall_clean_merged children hchildren
          have hnormal : NormalNode
              (.converter name options (merged children)) :=
            .converter hname hsingle hoptions (arranged_merged hclean)
              fun child hchild =>
              (hclean child hchild).normal
          rw [merged, mergedNode, prepend_converter]
          exact List.forall_mem_cons.mpr
            ⟨clean_converter hnormal, forall_clean_merged rest hrest⟩

theorem normal_merged {nodes : List Node} (h : ∀ node ∈ nodes, Printable node) :
    Normal (merged nodes) where
  arranged := arranged_merged (forall_clean_merged nodes h)
  nodes node hnode := (forall_clean_merged nodes h node hnode).normal

/-! ### The printed text spells the merged nodes -/

theorem follower_merged (nodes : List Node) :
    follower none (merged nodes) = (leadingText nodes).head? := by
  induction nodes with
  | nil => rfl
  | cons node rest ih =>
      cases node with
      | converter name options children =>
          rw [merged, mergedNode, prepend_converter]
          rfl
      | literal t =>
          rw [merged, mergedNode, leadingText]
          obtain ⟨rfl, heq⟩ | ⟨hne, h⟩ := prepend_literal_cases t (merged rest)
          · rw [heq, ih, List.nil_append]
          · obtain ⟨c, t, rfl⟩ := List.exists_cons_of_ne_nil hne
            obtain ⟨u, more, -, heq⟩ | ⟨-, heq⟩ := h
            · rw [heq]; rfl
            · rw [heq]; rfl

theorem forall_plain_leadingText {nodes : List Node}
    (h : ∀ node ∈ nodes, Printable node) :
    ∀ c ∈ leadingText nodes, IsPlain c := by
  induction nodes with
  | nil => exact List.forall_mem_nil _
  | cons node rest ih =>
      obtain ⟨hnode, hrest⟩ := List.forall_mem_cons.mp h
      cases hnode with
      | literal hplain => exact List.forall_mem_append.mpr ⟨hplain, ih hrest⟩
      | converter _ _ _ _ => exact List.forall_mem_nil _

theorem Spells.prepend {next : Option Char} {nodes : List Node} {s : Text}
    (t : Text) (h : Spells next nodes s) :
    Spells next (Pattern.prepend (.literal t) nodes) (t ++ s) := by
  obtain ⟨rfl, heq⟩ | ⟨-, ⟨u, rest, rfl, heq⟩ | ⟨-, heq⟩⟩ :=
    prepend_literal_cases t nodes
  · rwa [heq]
  · cases h with
    | literal hrest =>
        rw [heq, ← List.append_assoc]
        exact .literal hrest
  · rw [heq]
    exact .literal h

theorem printedSlots_eq_nil_iff {closed : Bool} {options : List Text}
    {children : List Node} :
    printedSlots closed options children = [] ↔
      closed = false ∧ options = [] ∧ children = [] := by
  rw [printedSlots]
  cases closed <;> cases options <;> cases children <;> simp

/-- The slots that are printed end a reference in front of a plain character,
if the name does not run on into it. -/
theorem endsBefore_leadingText {name : Text} {options : List Text}
    {children rest : List Node} {c : Char} (hc : c ∈ (leadingText rest).head?)
    (hplain : IsPlain c)
    (hends : runsOn (.converter name options children) rest = false) :
    EndsBefore (printedSlots (extendsReference rest) options children) c where
  closed slot hopener := by
    subst hopener
    cases slot <;> exact absurd hplain (by decide)
  named hnamed := by
    intro hslots
    obtain ⟨hopen, rfl, rfl⟩ := printedSlots_eq_nil_iff.mp hslots
    rcases rest with _ | ⟨⟨_ | ⟨first, t⟩⟩ | _, rest⟩
    · contradiction
    · have hhead : (leadingText rest).head? = some c := hc
      rw [runsOn, hhead, Option.any_some, hnamed] at hends
      contradiction
    · obtain rfl : first = c := Option.some.inj hc
      simp [extendsReference, hnamed] at hopen
    · contradiction

theorem spells_merged : (nodes : List Node) → (∀ node ∈ nodes, Printable node) →
    Sealed nodes →
    Spells none (merged nodes) (text nodes)
  | [], _, _ => by
      rw [merged, text]
      exact .nil
  | .literal t :: rest, h, hsealed => by
      rw [merged, mergedNode, text, nodeText]
      exact (spells_merged rest (List.forall_mem_cons.mp h).2
        hsealed.2.2).prepend t
  | .converter name options children :: rest, h, hsealed => by
      obtain ⟨hnode, hrest⟩ := List.forall_mem_cons.mp h
      have hchildren : ∀ child ∈ children, Printable child := by
        cases hnode with
        | converter _ _ _ hchildren => exact hchildren
      obtain ⟨hends, hinner, hbehind⟩ := hsealed
      have hcovers := covers_printedSlots (extendsReference rest)
        options children
      rw [merged, mergedNode, prepend_converter, text, nodeText_converter]
      refine .converter (spells_merged children hchildren hinner)
        ⟨hcovers.distinct, fun hnot => ?_, hcovers.options⟩ (fun c hc => ?_)
        (spells_merged rest hrest hbehind)
      · rw [hcovers.children hnot, merged]
      · rw [follower_merged] at hc
        exact endsBefore_leadingText hc
          (forall_plain_leadingText hrest c (List.mem_of_mem_head? hc)) hends

/-- The printed text of nodes is read as the merged nodes. -/
theorem read_text_eq_merged {nodes : List Node}
    (h : ∀ node ∈ nodes, Printable node) (hsealed : Sealed nodes) :
    read (text nodes) = .ok (merged nodes) :=
  (read_eq_ok_iff _ _).mpr ⟨normal_merged h, spells_merged nodes h hsealed⟩

end Logline.Pattern
