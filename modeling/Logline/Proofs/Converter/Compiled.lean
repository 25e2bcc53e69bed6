import Logline.Converter.Compile
import Logline.Converter.Samples
import Logline.Proofs.Converter.History
/-!
The meaning of patterns.  `meaning` says what the line of an event is, by
recursion on the pattern and the names of the built-in converters in it.
Compiled converters write this text behind any buffer, and panic where it
cannot be given, whatever they have converted before (`writeAll_compiled`).
-/
namespace Logline

/-- The built-in converters. -/
inductive Builtin
  | color
  | level
  | date
  | logger
  | message
  | fields
deriving DecidableEq, Repr

namespace Builtin

/-- The names of the built-in converters. -/
def named : Entries Builtin :=
  [("color".toList, color), ("level".toList, level), ("date".toList, date),
    ("logger".toList, logger), ("message".toList, message),
    ("fields".toList, fields)]

/-- The built-in converter of this name. -/
def ofName? (name : Text) : Option Builtin :=
  named.get? name

end Builtin

/-- The color that options ask for: the first one names it, and white stands
for all unknown names. -/
def Color.ofOptions : List Text → Option Color
  | option :: _ => some ((Color.ofName? option).getD .white)
  | [] => none

/-- The layout that options ask for. -/
def DateLayout.ofOptions : List Text → Except Error DateLayout
  | option :: _ => DateLayout.ofOption option
  | [] => .ok default

/-- The width that options ask for; zero asks for none. -/
def LoggerName.widthOf : List Text → Option Nat
  | option :: _ => (Converter.width? option).filter (0 < ·)
  | [] => none

namespace Pattern

/-- A reference to the built-in level. -/
def isLevel : Node → Bool
  | .literal _ => false
  | .converter name _ _ => Builtin.ofName? name == some .level

mutual

/-- The text of a node for an event, or the panic of a date that cannot be
rendered.  Unknown references and options say nothing: they do not compile. -/
def nodeMeaning (e : Event) : Node → Except Panic Text
  | .literal t => .ok t
  | .converter name options children =>
      match Builtin.ofName? name with
      | some .color => do
          let inner ← coloredMeaning e (Color.ofOptions options) children
          return Color.startText (Color.ofOptions options) ++
            inner ++ Color.reset
      | some .level => .ok e.level.name
      | some .date =>
          match DateLayout.ofOptions options with
          | .ok layout => layout.text e.time
          | .error _ => .ok []
      | some .logger =>
          .ok (Event.loggerText (LoggerName.widthOf options) e.logger)
      | some .message => .ok (Event.messageText e.message)
      | some .fields => .ok (Event.sanitize e.fields.text)
      | none => .ok []

/-- The text of a pattern for an event. -/
def meaning (e : Event) : List Node → Except Panic Text
  | [] => .ok []
  | node :: rest => do
      let text ← nodeMeaning e node
      let more ← meaning e rest
      return text ++ more

/-- The text of the children of a color: a level among them has the color of its
severity, and a next child the color around again. -/
def coloredMeaning (e : Event) (c : Option Color) :
    List Node → Except Panic Text
  | [] => .ok []
  | node :: rest => do
      let text ← if isLevel node then
          .ok (e.level.coloredName ++ if rest.isEmpty then []
            else Color.startText c)
        else nodeMeaning e node
      let more ← coloredMeaning e c rest
      return text ++ more

end

end Pattern

/-! ### Compiling -/

theorem Entries.get?_map {α β : Type} (f : α → β) (key : Text)
    (entries : Entries α) :
    Entries.get? key (entries.map fun entry => (entry.1, f entry.2)) =
      (entries.get? key).map f := by
  induction entries with
  | nil => rfl
  | cons entry rest ih =>
      rw [List.map_cons, Entries.get?, Entries.get?, ih]
      split_ifs <;> rfl

namespace Builtin

variable {κ : Type}

/-- The converter as it is before options and children. -/
def fresh : Builtin → Converter κ
  | color => .newColor
  | level => .level
  | date => .newDate
  | logger => .newLogger
  | message => .message
  | fields => .fields

theorem make?_builtins (name : Text) :
    Registry.builtins.make? name =
      (ofName? name).map (fresh : Builtin → Converter κ) :=
  Entries.get?_map fresh name named

theorem attachOptions_nil (ext : Extension κ) (b : Builtin) :
    b.fresh.attachOptions ext [] = .ok b.fresh := by
  cases b <;> rfl

/-- The converter with its options, before children. -/
inductive Configured (options : List Text) : Builtin → Converter κ → Prop
  | color : Configured options .color (.color (Color.ofOptions options) [] [])
  | level : Configured options .level .level
  | date {layout : DateLayout}
      (hlayout : DateLayout.ofOptions options = .ok layout) :
      Configured options .date (.date layout)
  | logger : Configured options .logger (.logger (LoggerName.widthOf options))
  | message : Configured options .message .message
  | fields : Configured options .fields .fields

theorem configured_of_attachOptions {ext : Extension κ} {b : Builtin}
    {options : List Text} {c : Converter κ}
    (h : b.fresh.attachOptions ext options = .ok c) :
    Configured options b c := by
  rcases options with _ | ⟨option, options⟩
  · rw [attachOptions_nil] at h
    obtain rfl := Except.ok.inj h
    cases b with
    | date => exact .date rfl
    | color | level | logger | message | fields => constructor
  · cases b with
    | date =>
        rw [fresh, Converter.newDate, Converter.attachOptions] at h
        cases hlayout : DateLayout.ofOption option with
        | error e =>
            rw [hlayout] at h
            contradiction
        | ok layout =>
            rw [hlayout] at h
            obtain rfl := Except.ok.inj h
            exact .date hlayout
    | logger =>
        rw [fresh, Converter.newLogger, Converter.attachOptions] at h
        cases hwidth : Converter.width? option with
        | none =>
            rw [hwidth] at h
            contradiction
        | some n =>
            rw [hwidth] at h
            obtain rfl := Except.ok.inj h
            have hwidthOf : LoggerName.widthOf (option :: options) =
                if n = 0 then none else some n := by
              rw [LoggerName.widthOf, hwidth]
              cases n <;> simp
            rw [← hwidthOf]
            exact .logger
    | color =>
        obtain rfl := Except.ok.inj h
        exact .color
    | level | message | fields =>
        obtain rfl := Except.ok.inj h
        constructor

theorem Configured.attachChildren_nil {options : List Text} {b : Builtin}
    {c : Converter κ} (h : Configured options b c) :
    c.attachChildren [] = c := by
  cases h <;> rfl

end Builtin

namespace Pattern

variable {κ : Type}

/-- A compiled reference is the new converter of its name, with the options and
the compiled children that it is given. -/
theorem compileNode_reference_cases {ext : Extension κ} {registry : Registry κ}
    {name : Text} {options : List Text} {children : List Node} {c : Converter κ}
    (h : compileNode ext registry (.converter name options children) = .ok c) :
    ∃ new configured, registry.make? name = some new ∧
      (options = [] ∧ configured = new ∨
        new.attachOptions ext options = .ok configured) ∧
      (children = [] ∧ c = configured ∨
        ∃ cs, compile ext registry children = .ok cs ∧
          c = configured.attachChildren cs) := by
  rw [compileNode] at h
  cases hname : registry.make? name with
  | none =>
      rw [hname] at h
      contradiction
  | some new =>
      rw [hname] at h
      obtain ⟨configured, hattach, h⟩ : ∃ configured,
          (options = [] ∧ configured = new ∨
            new.attachOptions ext options = .ok configured) ∧
          (if children.isEmpty then .ok configured
            else compile ext registry children >>= fun cs =>
              .ok (configured.attachChildren cs)) = Except.ok c := by
        cases options with
        | nil => exact ⟨new, .inl ⟨rfl, rfl⟩, h⟩
        | cons option options =>
            change new.attachOptions ext (option :: options) >>= _ = _ at h
            obtain ⟨configured, hattach, h⟩ := Except.bind_eq_ok h
            exact ⟨configured, .inr hattach, h⟩
      refine ⟨new, configured, rfl, hattach, ?_⟩
      cases children with
      | nil => exact .inl ⟨rfl, (Except.ok.inj h).symm⟩
      | cons child children =>
          obtain ⟨cs, hcs, hc⟩ := Except.bind_eq_ok h
          exact .inr ⟨cs, hcs, (Except.ok.inj hc).symm⟩

/-- A compiled reference is a built-in converter with the options and the
compiled children. -/
theorem compileNode_cases {ext : Extension κ} {name : Text}
    {options : List Text} {children : List Node} {c : Converter κ}
    (h : compileNode ext Registry.builtins (.converter name options children) =
      .ok c) :
    ∃ b configured cs, Builtin.ofName? name = some b ∧
      Builtin.Configured options b configured ∧
      compile ext Registry.builtins children = .ok cs ∧
      c = configured.attachChildren cs := by
  obtain ⟨new, configured, hmake, hattach, hchildren⟩ :=
    compileNode_reference_cases h
  rw [Builtin.make?_builtins] at hmake
  obtain ⟨b, hname, rfl⟩ := Option.map_eq_some_iff.mp hmake
  have hconfigured : Builtin.Configured options b configured := by
    obtain ⟨rfl, rfl⟩ | hattach := hattach
    · exact Builtin.configured_of_attachOptions (b.attachOptions_nil ext)
    · exact Builtin.configured_of_attachOptions hattach
  obtain ⟨rfl, rfl⟩ | ⟨cs, hcs, rfl⟩ := hchildren
  · exact ⟨b, c, [], hname, hconfigured, by rw [compile],
      hconfigured.attachChildren_nil.symm⟩
  · exact ⟨b, configured, cs, hname, hconfigured, hcs, rfl⟩

theorem compile_cons_cases {ext : Extension κ} {registry : Registry κ}
    {node : Node} {rest : List Node} {cs : List (Converter κ)}
    (h : compile ext registry (node :: rest) = .ok cs) :
    ∃ c more, compileNode ext registry node = .ok c ∧
      compile ext registry rest = .ok more ∧ cs = c :: more := by
  rw [compile] at h
  obtain ⟨c, hc, h⟩ := Except.bind_eq_ok h
  obtain ⟨more, hmore, h⟩ := Except.bind_eq_ok h
  exact ⟨c, more, hc, hmore, (Except.ok.inj h).symm⟩

/-- The converter writes what the node means, also as the child of a color. -/
structure NodeMeans (ext : Extension κ) (c : Converter κ)
    (node : Node) : Prop where
  rendered : ∀ e, c.rendered ext e = nodeMeaning e node
  level : c = .level ↔ isLevel node = true
  steady : c.Steady ext

/-- The converters write what the pattern means, also as children of a color. -/
structure Means (ext : Extension κ) (cs : List (Converter κ))
    (nodes : List Node) : Prop where
  rendered : ∀ e, Converter.renderedAll ext e cs = meaning e nodes
  colored : ∀ e c, Converter.renderedColored ext e c cs =
    coloredMeaning e c nodes
  empty : cs.isEmpty = nodes.isEmpty
  steady : Converter.AllSteady ext cs

theorem means_nil (ext : Extension κ) : Means ext [] [] :=
  ⟨fun _ => rfl, fun _ _ => rfl, rfl, trivial⟩

theorem Means.cons {ext : Extension κ} {c : Converter κ} {node : Node}
    {cs : List (Converter κ)} {nodes : List Node} (hnode : NodeMeans ext c node)
    (hrest : Means ext cs nodes) : Means ext (c :: cs) (node :: nodes) where
  rendered e := by
    rw [Converter.renderedAll, meaning, hnode.rendered, hrest.rendered]
  colored e color := by
    rw [coloredMeaning]
    by_cases hlevel : c = .level
    · rw [if_pos (hnode.level.mp hlevel), hlevel, Converter.renderedColored,
        hrest.colored, hrest.empty]
      rfl
    · rw [if_neg (fun h => hlevel (hnode.level.mpr h)),
        Converter.renderedColored, hnode.rendered, hrest.colored]
      exact hlevel
  empty := rfl
  steady := ⟨hnode.steady, hrest.steady⟩

theorem nodeMeans_literal (ext : Extension κ) (t : Text) :
    NodeMeans ext (.literal t) (.literal t) where
  rendered _ := by rw [Converter.rendered, nodeMeaning]
  level := by simp [isLevel]
  steady := trivial

theorem NodeMeans.reference {ext : Extension κ} {name : Text}
    {options : List Text} {children : List Node} {b : Builtin} {c : Converter κ}
    {cs : List (Converter κ)} (hname : Builtin.ofName? name = some b)
    (hconfigured : Builtin.Configured options b c)
    (hchildren : Means ext cs children) :
    NodeMeans ext (c.attachChildren cs) (.converter name options children) := by
  refine ⟨fun e => ?_, ?_, ?_⟩
  · rw [nodeMeaning, hname]
    cases hconfigured with
    | color => rw [Converter.attachChildren, Converter.rendered,
        hchildren.colored]
    | date hlayout =>
        rw [hlayout]
        rfl
    | level | logger | message | fields => rfl
  · rw [isLevel, hname]
    cases hconfigured <;> simp [Converter.attachChildren]
  · cases hconfigured with
    | color => exact hchildren.steady
    | level | date | logger | message | fields => trivial

mutual

theorem nodeMeans_of_compileNode {ext : Extension κ} :
    ∀ (node : Node) (c : Converter κ),
    compileNode ext Registry.builtins node = .ok c → NodeMeans ext c node
  | .literal t, c, h => by
      rw [compileNode] at h
      obtain rfl := Except.ok.inj h
      exact nodeMeans_literal ext t
  | .converter name options children, c, h => by
      obtain ⟨b, configured, cs, hname, hconfigured, hcs, rfl⟩ :=
        compileNode_cases h
      exact .reference hname hconfigured (means_of_compile children cs hcs)

theorem means_of_compile {ext : Extension κ} :
    ∀ (nodes : List Node) (cs : List (Converter κ)),
    compile ext Registry.builtins nodes = .ok cs → Means ext cs nodes
  | [], cs, h => by
      rw [compile] at h
      obtain rfl := Except.ok.inj h
      exact means_nil ext
  | node :: rest, cs, h => by
      obtain ⟨c, more, hc, hmore, rfl⟩ := compile_cons_cases h
      exact .cons (nodeMeans_of_compileNode node c hc)
        (means_of_compile rest more hmore)

end

/-- The compiled converters of a pattern, whatever they have converted before,
write its meaning behind any buffer. -/
theorem writeAll_after_appends {ext : Extension κ} {nodes : List Node}
    {cs : List (Converter κ)} (h : compile ext Registry.builtins nodes = .ok cs)
    (history : List (Event × Bytes)) (e : Event) (out : Bytes) :
    (Converter.writeAll ext e (Converter.after ext history cs) out).Appends out
      (meaning e nodes) := by
  have hmeans := means_of_compile nodes cs h
  have hwritten := Converter.writeAll_appends ext e
    (Converter.after ext history cs) out
  rwa [Converter.renderedAll_after hmeans.steady, hmeans.rendered] at hwritten

/-! ### Dates -/

mutual

/-- The layouts of the dates in the line of a node.  Only the children of a
color have a place in the line. -/
def nodeLayouts : Node → List DateLayout
  | .literal _ => []
  | .converter name options children =>
      match Builtin.ofName? name with
      | some .color => layouts children
      | some .date => (DateLayout.ofOptions options).toOption.toList
      | _ => []

def layouts : List Node → List DateLayout
  | [] => []
  | node :: rest => nodeLayouts node ++ layouts rest

end

/-- The dates of these layouts can be rendered for the event. -/
def Dated (e : Event) (layouts : List DateLayout) : Prop :=
  ∀ layout ∈ layouts, (layout.render? e.time).isSome = true

instance (e : Event) (layouts : List DateLayout) :
    Decidable (Dated e layouts) :=
  List.decidableBAll _ layouts

mutual

theorem exists_nodeMeaning {e : Event} :
    ∀ node : Node, Dated e (nodeLayouts node) →
    ∃ t, nodeMeaning e node = .ok t
  | .literal t, _ => ⟨t, by rw [nodeMeaning]⟩
  | .converter name options children, h => by
      rw [nodeLayouts] at h
      rw [nodeMeaning]
      cases hname : Builtin.ofName? name with
      | none => exact ⟨[], rfl⟩
      | some b =>
          rw [hname] at h
          cases b with
          | color =>
              obtain ⟨inner, hinner⟩ :=
                exists_coloredMeaning (Color.ofOptions options) children h
              rw [hinner]
              exact ⟨_, rfl⟩
          | date =>
              cases hlayout : DateLayout.ofOptions options with
              | error error => exact ⟨[], rfl⟩
              | ok layout =>
                  rw [hlayout] at h
                  have hdated := h layout (by simp [Except.toOption])
                  obtain ⟨t, ht⟩ := Option.isSome_iff_exists.mp hdated
                  exact ⟨t, by simp only [DateLayout.text, ht]⟩
          | level | logger | message | fields => exact ⟨_, rfl⟩

theorem exists_meaning {e : Event} :
    ∀ nodes : List Node, Dated e (layouts nodes) →
    ∃ t, meaning e nodes = .ok t
  | [], _ => ⟨[], rfl⟩
  | node :: rest, h => by
      obtain ⟨hnode, hrest⟩ := List.forall_mem_append.mp h
      obtain ⟨text, htext⟩ := exists_nodeMeaning node hnode
      obtain ⟨more, hmore⟩ := exists_meaning rest hrest
      rw [meaning, htext, hmore]
      exact ⟨text ++ more, rfl⟩

theorem exists_coloredMeaning {e : Event} (c : Option Color) :
    ∀ nodes : List Node,
    Dated e (layouts nodes) → ∃ t, coloredMeaning e c nodes = .ok t
  | [], _ => ⟨[], rfl⟩
  | node :: rest, h => by
      obtain ⟨hnode, hrest⟩ := List.forall_mem_append.mp h
      obtain ⟨text, htext⟩ := exists_nodeMeaning node hnode
      obtain ⟨more, hmore⟩ := exists_coloredMeaning c rest hrest
      rw [coloredMeaning, htext, hmore]
      split_ifs <;> exact ⟨_, rfl⟩

end

/-- The compiled converters of a pattern put its meaning behind what is in the
buffer, whatever they have converted before, for every event whose dates can be
rendered. -/
theorem writeAll_compiled {ext : Extension κ} {nodes : List Node}
    {cs : List (Converter κ)}
    (hcompile : compile ext Registry.builtins nodes = .ok cs)
    (history : List (Event × Bytes)) {e : Event}
    (hdated : Dated e (layouts nodes)) (out : Bytes) :
    ∃ t, meaning e nodes = .ok t ∧
      (Converter.writeAll ext e (Converter.after ext history cs) out).out =
        out ++ t.utf8 ∧
      (Converter.writeAll ext e (Converter.after ext history cs) out).panic =
        none := by
  obtain ⟨t, ht⟩ := exists_meaning nodes hdated
  have happends := writeAll_after_appends hcompile history e out
  rw [ht] at happends
  exact ⟨t, ht, happends.1, happends.2⟩

namespace CompiledWitness

/-- A level between two other children of a color, one of them a color without
a name, and fields that hold a line feed. -/
def nodes : List Node :=
  [.converter "color".toList ["blue".toList]
      [.converter "level".toList [] [],
        .converter "color".toList []
          [.converter "date".toList ["06".toList] []],
        .converter "level".toList [] []],
    .literal [' '], .converter "logger".toList ["3".toList] [],
    .converter "message".toList [] [], .converter "fields".toList [] []]

def event : Event where
  level := .warn
  time := .epoch
  message := []
  logger := some "aa/bb".toList
  fields := [("k".toList, .string ['\n']), ("l".toList, .bool true)]

theorem writeAll_compiled_sample :
    ∃ cs, compile Sample.extension Registry.builtins nodes = .ok cs ∧
      Dated event (layouts nodes) ∧
      (Converter.writeAll Sample.extension event
          (Converter.after Sample.extension
            [(.new .info .epoch ['x'], [7]), (event, [])] cs) [10]).out =
        10 :: Text.utf8 ("\x1b[34m\x1b[33mWARN\x1b[0m\x1b[34m70\x1b[0m" ++
          "\x1b[33mWARN\x1b[0m\x1b[0m a/bb-k=\\n l=true").toList := by
  have hcompile : compile Sample.extension Registry.builtins nodes = .ok _ :=
    rfl
  have hdated : Dated event (layouts nodes) := by decide
  obtain ⟨t, ht, hout, -⟩ := writeAll_compiled hcompile
    [(.new .info .epoch ['x'], [7]), (event, [])] hdated [10]
  refine ⟨_, hcompile, hdated, hout.trans ?_⟩
  have hmeaning : meaning event nodes = .ok
      ("\x1b[34m\x1b[33mWARN\x1b[0m\x1b[34m70\x1b[0m" ++
        "\x1b[33mWARN\x1b[0m\x1b[0m a/bb-k=\\n l=true").toList := rfl
  rw [hmeaning] at ht
  rw [← Except.ok.inj ht]
  rfl

end CompiledWitness

end Pattern

end Logline
