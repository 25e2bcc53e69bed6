import Logline.Proofs.Converter.Terminal
import Logline.Proofs.Encoder.OneLine
/-!
Lines on a terminal.  What stands in a color is shown in that color, and a
level among it in the color of its severity, behind which the color goes on.
It does not go on behind another color: the sequence at the end of that one
clears all colors, and none is set again before the next level
(`encodeEvent_display`).
-/
namespace Logline

namespace Pattern

/-- A reference to the built-in color. -/
def isColor : Node → Bool
  | .literal _ => false
  | .converter name _ _ => Builtin.ofName? name == some .color

/-- The text of a node, if it can be given. -/
def leafText (e : Event) (node : Node) : Text :=
  (nodeMeaning e node).toOption.getD []

/-- What is written in behind a child of a color, if the child was begun in
`pen`. -/
def penBehind (own pen : Option Nat) (child : Node) : Option Nat :=
  if isLevel child then own else if isColor child then none else pen

mutual

/-- What is shown of a node that is begun in `pen`. -/
def nodeCells (e : Event) (pen : Option Nat) : Node → List Cell
  | .literal t => t.paint pen
  | .converter name options children =>
      match Builtin.ofName? name with
      | some .color =>
          let own := (Color.ofOptions options).map Color.code
          innerCells e own (own.or pen) children
      | _ => (leafText e (.converter name options children)).paint pen

/-- What is shown of the children of a color: the levels among them in the
color of the severity. -/
def innerCells (e : Event) (own pen : Option Nat) : List Node → List Cell
  | [] => []
  | child :: rest =>
      (if isLevel child then e.level.name.paint (some e.level.color.code)
        else nodeCells e pen child) ++
          innerCells e own (penBehind own pen child) rest

end

/-- There is a color among the nodes, and no level behind it. -/
def Interrupted : List Node → Prop
  | [] => False
  | node :: rest =>
      Interrupted rest ∨ isColor node = true ∧
        ∀ other ∈ rest, isLevel other = false

instance decidableInterrupted :
    ∀ nodes : List Node, Decidable (Interrupted nodes)
  | [] => inferInstanceAs (Decidable False)
  | node :: rest =>
      have := decidableInterrupted rest
      inferInstanceAs (Decidable (Interrupted rest ∨ isColor node = true ∧
        ∀ other ∈ rest, isLevel other = false))

/-- What is shown of a child behind other children of a color. -/
def childCells (e : Event) (c : Color) (before : List Node) (child : Node) :
    List Cell :=
  if isLevel child then e.level.name.paint (some e.level.color.code)
  else nodeCells e (if Interrupted before then none else some c.code) child

/-! ### What is written in behind children -/

theorem innerCells_append (e : Event) (own pen : Option Nat)
    (before behind : List Node) :
    innerCells e own pen (before ++ behind) =
      innerCells e own pen before ++
        innerCells e own (before.foldl (penBehind own) pen) behind := by
  induction before generalizing pen with
  | nil => rfl
  | cons child before ih =>
      rw [List.cons_append, innerCells, innerCells, ih, List.append_assoc,
        List.foldl_cons]

theorem isColor_eq_false_of_isLevel {node : Node} (h : isLevel node = true) :
    isColor node = false := by
  cases node with
  | literal t => rfl
  | converter name options children =>
      rw [isLevel, beq_iff_eq] at h
      rw [isColor, h]
      rfl

theorem interrupted_cons_iff {node : Node} {rest : List Node} :
    Interrupted (node :: rest) ↔
      Interrupted rest ∨ isColor node = true ∧
        ∀ other ∈ rest, isLevel other = false :=
  Iff.rfl

/-- Once no color is set, only a level sets one again. -/
theorem foldl_penBehind (own : Option Nat) (nodes : List Node) :
    nodes.foldl (penBehind own) own =
      (if Interrupted nodes then none else own) ∧
      nodes.foldl (penBehind own) none =
        (if Interrupted nodes ∨ ∀ node ∈ nodes, isLevel node = false then none
          else own) := by
  induction nodes with
  | nil => simp [Interrupted]
  | cons child rest ih =>
      obtain ⟨hown, hnone⟩ := ih
      simp only [List.foldl_cons, penBehind, interrupted_cons_iff,
        List.forall_mem_cons]
      by_cases hlevel : isLevel child = true
      · simp [hlevel, hown, isColor_eq_false_of_isLevel hlevel]
      · by_cases hcolor : isColor child = true
        · simp [hlevel, hcolor, hnone]
        · simp [hlevel, hcolor, hown, hnone]

/-- The color of a child is that of the color around it, unless it is
interrupted. -/
theorem innerCells_child (e : Event) (c : Color) (before : List Node)
    (child : Node) (behind : List Node) :
    ∃ more, innerCells e (some c.code) (some c.code)
      (before ++ child :: behind) =
      innerCells e (some c.code) (some c.code) before ++
        childCells e c before child ++ more := by
  rw [innerCells_append, (foldl_penBehind _ before).1, innerCells, childCells,
    ← List.append_assoc]
  exact ⟨_, rfl⟩

/-! ### What a terminal shows of a pattern -/

/-- A node that is no color writes no escapes. -/
theorem escapeFree_nodeMeaning {e : Event} (he : e.EscapeFree) {node : Node}
    (hcolor : isColor node = false)
    (hpieces : ∀ piece ∈ nodePieces node, piece.EscapeFree) {t : Text}
    (h : nodeMeaning e node = .ok t) : t.EscapeFree := by
  cases node with
  | literal text =>
      rw [nodeMeaning] at h
      obtain rfl := Except.ok.inj h
      exact hpieces text (by simp [nodePieces])
  | converter name options children =>
      rw [nodePieces] at hpieces
      obtain ⟨hoptions, -⟩ := List.forall_mem_append.mp hpieces
      rw [isColor] at hcolor
      rw [nodeMeaning] at h
      split at h
      · rename_i hname
        simp [hname] at hcolor
      · obtain rfl := Except.ok.inj h
        exact e.level.escapeFree_name
      · cases hlayout : DateLayout.ofOptions options with
        | error error =>
            rw [hlayout] at h
            obtain rfl := Except.ok.inj h
            exact Text.escapeFree_nil
        | ok layout =>
            rw [hlayout] at h
            exact DateLayout.escapeFree_text
              (DateLayout.escapeFree_format hoptions hlayout) h
      · obtain rfl := Except.ok.inj h
        exact he.loggerText _
      · obtain rfl := Except.ok.inj h
        exact he.messageText
      · obtain rfl := Except.ok.inj h
        exact he.fieldsText
      · obtain rfl := Except.ok.inj h
        exact Text.escapeFree_nil

theorem nodeCells_of_not_color {e : Event} {node : Node}
    (hcolor : isColor node = false) {t : Text} (h : nodeMeaning e node = .ok t)
    (pen : Option Nat) :
    nodeCells e pen node = t.paint pen := by
  cases node with
  | literal text =>
      rw [nodeMeaning] at h
      obtain rfl := Except.ok.inj h
      rw [nodeCells]
  | converter name options children =>
      rw [isColor] at hcolor
      rw [nodeCells, leafText, h]
      split
      · rename_i hname
        simp [hname] at hcolor
      · rfl

theorem shows_coloredName (level : Level) (pen : Option Nat) :
    Shows pen level.coloredName (level.name.paint (some level.color.code))
      none := by
  have hname := Shows.of_escapeFree (some level.color.code)
    level.escapeFree_name
  have hshows := ((Shows.sequence pen level.color).append hname).append .reset
  rwa [List.nil_append, List.append_nil] at hshows

mutual

theorem shows_node {e : Event} (he : e.EscapeFree) :
    ∀ (node : Node) (pen : Option Nat) (t : Text),
    (∀ piece ∈ nodePieces node, piece.EscapeFree) → nodeMeaning e node = .ok t →
      Shows pen t (nodeCells e pen node) (if isColor node then none else pen)
  | node, pen, t, hpieces, h => by
      by_cases hcolor : isColor node = true
      · cases node with
        | literal text => contradiction
        | converter name options children =>
            rw [isColor, beq_iff_eq] at hcolor
            rw [nodePieces] at hpieces
            rw [nodeMeaning, hcolor] at h
            obtain ⟨inner, hinner, h⟩ := Except.bind_eq_ok h
            obtain rfl := Except.ok.inj h
            have hstart := Shows.startText pen (Color.ofOptions options)
            obtain ⟨last, hchildren⟩ :=
              shows_inner he (Color.ofOptions options) children _ inner
                (List.forall_mem_append.mp hpieces).2 hinner
            have hshows := (hstart.append hchildren).append .reset
            rw [nodeCells, isColor, hcolor]
            simpa using hshows
      · rw [Bool.not_eq_true] at hcolor
        rw [nodeCells_of_not_color hcolor h, hcolor]
        exact Shows.of_escapeFree pen
          (escapeFree_nodeMeaning he hcolor hpieces h)

/-- Behind the last child it makes no difference which color is set: all are
cleared there. -/
theorem shows_inner {e : Event} (he : e.EscapeFree) (c : Option Color) :
    ∀ (nodes : List Node) (pen : Option Nat) (t : Text),
      (∀ piece ∈ pieces nodes, piece.EscapeFree) →
      coloredMeaning e c nodes = .ok t →
        ∃ last, Shows pen t (innerCells e (c.map Color.code) pen nodes) last
  | [], pen, t, _, h => by
      rw [coloredMeaning] at h
      obtain rfl := Except.ok.inj h
      exact ⟨pen, .nil⟩
  | child :: rest, pen, t, hpieces, h => by
      rw [pieces] at hpieces
      obtain ⟨hchild, hrest⟩ := List.forall_mem_append.mp hpieces
      rw [coloredMeaning] at h
      by_cases hlevel : isLevel child = true
      · rw [if_pos hlevel] at h
        obtain ⟨text, htext, h⟩ := Except.bind_eq_ok h
        obtain ⟨more, hmore, h⟩ := Except.bind_eq_ok h
        obtain rfl := Except.ok.inj h
        obtain rfl := Except.ok.inj htext
        have hname := shows_coloredName e.level pen
        rw [innerCells, if_pos hlevel, penBehind, if_pos hlevel]
        cases rest with
        | nil =>
            rw [coloredMeaning] at hmore
            obtain rfl := Except.ok.inj hmore
            exact ⟨none, by simpa [innerCells] using hname⟩
        | cons next rest =>
            have hagain := hname.append (Shows.startText none c)
            obtain ⟨last, hnext⟩ :=
              shows_inner he c (next :: rest) _ more hrest hmore
            refine ⟨last, ?_⟩
            simpa using hagain.append hnext
      · rw [if_neg hlevel] at h
        obtain ⟨text, htext, h⟩ := Except.bind_eq_ok h
        obtain ⟨more, hmore, h⟩ := Except.bind_eq_ok h
        obtain rfl := Except.ok.inj h
        obtain ⟨last, hnext⟩ := shows_inner he c rest _ more hrest hmore
        rw [innerCells, if_neg hlevel, penBehind, if_neg hlevel]
        exact ⟨last, (shows_node he child pen text hchild htext).append hnext⟩

end

/-- Outside of colors nothing has one. -/
theorem shows_pattern {e : Event} (he : e.EscapeFree) {nodes : List Node}
    {t : Text} (hpieces : ∀ piece ∈ pieces nodes, piece.EscapeFree)
    (h : meaning e nodes = .ok t) :
    Shows none t (nodes.flatMap (nodeCells e none)) none := by
  induction nodes generalizing t with
  | nil =>
      rw [meaning] at h
      obtain rfl := Except.ok.inj h
      exact .nil
  | cons node rest ih =>
      rw [pieces] at hpieces
      obtain ⟨hnode, hrest⟩ := List.forall_mem_append.mp hpieces
      rw [meaning] at h
      obtain ⟨text, htext, h⟩ := Except.bind_eq_ok h
      obtain ⟨more, hmore, h⟩ := Except.bind_eq_ok h
      obtain rfl := Except.ok.inj h
      have hfirst := shows_node he node none text hnode htext
      rw [ite_self] at hfirst
      exact hfirst.append (ih hrest hmore)

end Pattern

namespace Encoder

variable {κ : Type} {ext : Extension κ}

theorem escapeFree_defaultLayout : defaultLayout.EscapeFree := by
  decide +kernel

/-- What a terminal shows of the line of an event, whatever the encoder has
been asked before: a direct child of a color is shown in that color, and a
level in the color of its severity, but behind another color, up to the next
level, in none.  Neither the layout nor the event has escapes. -/
theorem encodeEvent_display {layout : Text} {encoder : Encoder κ}
    (hbuild : build ext Registry.builtins layout = .ok encoder)
    (hlayout : layout.EscapeFree) (calls : List Call) {e : Event}
    (he : e.EscapeFree) {line : Bytes}
    (hline : ((encoder.after ext calls).encodeEvent ext e).2 = .done line) :
    ∃ nodes, Pattern.read encoder.layout = .ok nodes ∧
      (Terminal.ready none).display line =
        nodes.flatMap (Pattern.nodeCells e none) ++ Text.paint none ['\n'] ∧
      ∀ (name : Text) (options : List Text) (c : Color)
        (before behind : List Node) (child : Node) (pen : Option Nat),
        Builtin.ofName? name = some .color →
          Color.ofOptions options = some c →
            ∃ more, Pattern.nodeCells e pen
                (.converter name options (before ++ child :: behind)) =
              Pattern.innerCells e (some c.code) (some c.code) before ++
                Pattern.childCells e c before child ++ more := by
  obtain ⟨hused, nodes, hread, hcompile⟩ := build_cases hbuild
  have hfree : encoder.layout.EscapeFree := by
    rw [hused]
    split_ifs
    · exact escapeFree_defaultLayout
    · exact hlayout
  have hpieces : ∀ piece ∈ Pattern.pieces nodes, piece.EscapeFree :=
    fun piece hpiece =>
      hfree.of_subset ((Pattern.read_sound hread).2.infix_of_mem_pieces piece
        hpiece).subset
  refine ⟨nodes, hread, ?_, ?_⟩
  · rw [encodeEvent_after hcompile calls e] at hline
    cases hmeaning : Pattern.meaning e nodes with
    | error p =>
        rw [hmeaning] at hline
        contradiction
    | ok t =>
        rw [hmeaning] at hline
        obtain rfl := Outcome.done.inj hline
        have hfeed := Shows.of_escapeFree none
          (by decide : Text.EscapeFree ['\n'])
        exact ((Pattern.shows_pattern he hpieces hmeaning).append hfeed).display
  · intro name options c before behind child pen hname hoptions
    rw [Pattern.nodeCells, hname, hoptions]
    exact Pattern.innerCells_child e c before child behind

namespace DisplayedWitness

def event : Event where
  level := .warn
  time := .epoch
  message := "m".toList
  logger := some "a/b".toList
  fields := [("k".toList, .list [.int 1, .string "v".toList])]

theorem escapeFree_event : event.EscapeFree where
  message := by decide
  logger := by simp [event]
  fields := by decide

/-- A direct child of blue behind a red one. -/
def nested : Text := "#color(#color(a)\x7bred\x7db)\x7bblue\x7d".toList

def nestedNodes : List Node :=
  [.converter "color".toList ["blue".toList]
    [.converter "color".toList ["red".toList] [.literal ['a']], .literal ['b']]]

def nestedEncoder : Encoder Sample where
  layout := nested
  converters :=
    [.color (some ⟨.blue, false⟩)
      [.color (some ⟨.red, false⟩) [.literal ['a']] [],
      .literal ['b']] []]

/-- The outer color does not go on behind the inner one: the last child of blue
has no color. -/
theorem outer_color_lost :
    build Sample.extension Registry.builtins nested = .ok nestedEncoder ∧
      Pattern.read nested = .ok nestedNodes ∧ nested.EscapeFree ∧
      event.EscapeFree ∧
      ∃ line, (nestedEncoder.encodeEvent Sample.extension event).2 =
        .done line ∧
        (Terminal.ready none).display line =
          [⟨0x61, some (Color.mk .red false).code⟩, ⟨0x62, none⟩,
            ⟨0x0a, none⟩] := by
  have hread : Pattern.read nested = .ok nestedNodes := by decide +kernel
  have hbuild : build Sample.extension Registry.builtins nested =
      .ok nestedEncoder := by
    rw [build, if_neg (by decide)]
    simp only [hread]
    rfl
  have hline : (nestedEncoder.encodeEvent Sample.extension event).2 =
      .done (Text.utf8 "\x1b[34m\x1b[31ma\x1b[0mb\x1b[0m\n".toList) := by
    decide +kernel
  exact ⟨hbuild, hread, by decide, escapeFree_event, _, hline,
    by decide +kernel⟩

/-- A level gives the color back. -/
def layout : Text := "#color(#color(a)\x7bred\x7db#level c)\x7bblue\x7d".toList

def encoder : Encoder Sample where
  layout := layout
  converters :=
    [.color (some ⟨.blue, false⟩)
      [.color (some ⟨.red, false⟩) [.literal ['a']] [],
      .literal ['b'], .level, .literal [' ', 'c']] []]

theorem encodeEvent_display_sample :
    build Sample.extension Registry.builtins layout = .ok encoder ∧
      layout.EscapeFree ∧ event.EscapeFree ∧ ∃ line,
        ((encoder.after Sample.extension [.event event]).encodeEvent
          Sample.extension event).2 = .done line ∧
        (Terminal.ready none).display line =
          Text.paint (some (Color.mk .red false).code) ['a'] ++
            Text.paint none ['b'] ++
            Text.paint (some (Color.mk .yellow false).code) "WARN".toList ++
            Text.paint (some (Color.mk .blue false).code) [' ', 'c'] ++
            Text.paint none ['\n'] := by
  have hread : Pattern.read layout = .ok
      [.converter "color".toList ["blue".toList]
        [.converter "color".toList ["red".toList] [.literal ['a']],
          .literal ['b'], .converter "level".toList [] [],
          .literal [' ', 'c']]] := by
    decide +kernel
  have hbuild : build Sample.extension Registry.builtins layout =
      .ok encoder := by
    rw [build, if_neg (by decide)]
    simp only [hread]
    rfl
  have hlayout : layout.EscapeFree := by decide
  have hline : ((encoder.after Sample.extension [.event event]).encodeEvent
      Sample.extension event).2 =
      .done (Text.utf8 ("\x1b[34m\x1b[31ma\x1b[0mb\x1b[33mWARN\x1b[0m" ++
        "\x1b[34m c\x1b[0m\n").toList) := by
    decide +kernel
  obtain ⟨nodes, hnodes, hdisplay, -⟩ :=
    encodeEvent_display hbuild hlayout [.event event] escapeFree_event hline
  obtain rfl := Except.ok.inj (hread.symm.trans hnodes)
  exact ⟨hbuild, hlayout, escapeFree_event, _, hline, hdisplay.trans rfl⟩

end DisplayedWitness

end Encoder

end Logline
