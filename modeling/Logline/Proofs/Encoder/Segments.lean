import Logline.Proofs.Encoder.Displayed
/-!
Segments of a line.  A line is the row of what its top-level nodes write, and
after each of them the terminal writes in no color again, however deep the
colors in it are nested.  So what stands outside of colors is shown without
one, the line feed at the end too (`encodeEvent_segments`).
-/
namespace Logline

namespace Pattern

/-- The text of a pattern is cut where the pattern is. -/
theorem meaning_append_cases {e : Event} {before behind : List Node} {t : Text}
    (h : meaning e (before ++ behind) = .ok t) :
    ∃ left right, meaning e before = .ok left ∧ meaning e behind = .ok right ∧
      t = left ++ right := by
  induction before generalizing t with
  | nil => exact ⟨[], t, by rw [meaning], h, rfl⟩
  | cons node before ih =>
      rw [List.cons_append, meaning] at h
      obtain ⟨text, htext, h⟩ := Except.bind_eq_ok h
      obtain ⟨more, hmore, h⟩ := Except.bind_eq_ok h
      obtain rfl := Except.ok.inj h
      obtain ⟨left, right, hleft, hright, rfl⟩ := ih hmore
      refine ⟨text ++ left, right, ?_, hright, (List.append_assoc _ _ _).symm⟩
      rw [meaning, htext, hleft]
      rfl

theorem pieces_append (before behind : List Node) :
    pieces (before ++ behind) = pieces before ++ pieces behind := by
  induction before with
  | nil => rw [pieces]; rfl
  | cons node before ih =>
      rw [List.cons_append, pieces, pieces, ih, List.append_assoc]

/-- A node of a pattern, at the top level, with the texts before it, of it and
behind it. -/
structure Segment (e : Event) (before : List Node) (node : Node)
    (behind : List Node) (left text right : Text) : Prop where
  left : meaning e before = .ok left
  text : nodeMeaning e node = .ok text
  right : meaning e behind = .ok right

theorem exists_segment {e : Event} {before behind : List Node} {node : Node}
    {t : Text} (h : meaning e (before ++ node :: behind) = .ok t) :
    ∃ left text right, Segment e before node behind left text right ∧
      t = left ++ text ++ right := by
  obtain ⟨left, more, hleft, hmore, rfl⟩ := meaning_append_cases h
  rw [meaning] at hmore
  obtain ⟨text, htext, hmore⟩ := Except.bind_eq_ok hmore
  obtain ⟨right, hright, hmore⟩ := Except.bind_eq_ok hmore
  obtain rfl := Except.ok.inj hmore
  exact ⟨left, text, right, ⟨hleft, htext, hright⟩,
    (List.append_assoc _ _ _).symm⟩

/-- What a terminal without a color shows of a segment: the texts one after the
other, each of them begun and ended without a color. -/
theorem Segment.shows {e : Event} (he : e.EscapeFree)
    {before behind : List Node} {node : Node} {left text right : Text}
    (h : Segment e before node behind left text right)
    (hpieces : ∀ piece ∈ pieces (before ++ node :: behind), piece.EscapeFree) :
    Shows none left (before.flatMap (nodeCells e none)) none ∧
      Shows none text (nodeCells e none node) none ∧
      Shows none right (behind.flatMap (nodeCells e none)) none := by
  rw [pieces_append, pieces] at hpieces
  obtain ⟨hbefore, hpieces⟩ := List.forall_mem_append.mp hpieces
  obtain ⟨hnode, hbehind⟩ := List.forall_mem_append.mp hpieces
  have hshows := shows_node he node none text hnode h.text
  rw [ite_self] at hshows
  exact ⟨shows_pattern he hbefore h.left, hshows,
    shows_pattern he hbehind h.right⟩

end Pattern

/-- A terminal that writes in no color does so again behind the text. -/
def Text.Closed (t : Text) : Prop :=
  (Terminal.ready none).after t.utf8 = .ready none

theorem Shows.closed {t : Text} {cells : List Cell}
    (h : Shows none t cells none) : t.Closed :=
  h.after

namespace Encoder

variable {κ : Type} {ext : Extension κ}

/-- A line is the meaning of the layout and a line feed; what the layout gives
to it has no escapes, if the layout has none. -/
theorem exists_body {layout : Text} {encoder : Encoder κ}
    (hbuild : build ext Registry.builtins layout = .ok encoder)
    (hlayout : layout.EscapeFree) (calls : List Call) {e : Event} {line : Bytes}
    (hline : ((encoder.after ext calls).encodeEvent ext e).2 = .done line) :
    ∃ nodes body, Pattern.read encoder.layout = .ok nodes ∧
      Pattern.meaning e nodes = .ok body ∧
      line = Text.utf8 (body ++ ['\n']) ∧
      ∀ piece ∈ Pattern.pieces nodes, piece.EscapeFree := by
  obtain ⟨hused, nodes, hread, hcompile⟩ := build_cases hbuild
  have hfree : encoder.layout.EscapeFree := by
    rw [hused]
    split_ifs
    · exact escapeFree_defaultLayout
    · exact hlayout
  rw [encodeEvent_after hcompile calls e] at hline
  cases hmeaning : Pattern.meaning e nodes with
  | error p =>
      rw [hmeaning] at hline
      contradiction
  | ok body =>
      rw [hmeaning] at hline
      obtain rfl := Outcome.done.inj hline
      exact ⟨nodes, body, hread, hmeaning, rfl, fun piece hpiece =>
        hfree.of_subset ((Pattern.read_sound hread).2.infix_of_mem_pieces piece
          hpiece).subset⟩

/-- On a terminal, no color goes on behind the top-level node that sets it,
whatever the encoder has been asked before: behind each of these nodes the
terminal writes in no color, what a node other than a color writes is shown in
none, and so is the line feed.  Neither the layout nor the event has
escapes. -/
theorem encodeEvent_segments {layout : Text} {encoder : Encoder κ}
    (hbuild : build ext Registry.builtins layout = .ok encoder)
    (hlayout : layout.EscapeFree) (calls : List Call) {e : Event}
    (he : e.EscapeFree) {line : Bytes}
    (hline : ((encoder.after ext calls).encodeEvent ext e).2 = .done line) :
    ∃ nodes body, Pattern.read encoder.layout = .ok nodes ∧
      line = Text.utf8 (body ++ ['\n']) ∧ body.Closed ∧
      Text.Closed (body ++ ['\n']) ∧
      (Terminal.ready none).display line =
        (Terminal.ready none).display body.utf8 ++ Text.paint none ['\n'] ∧
      ∀ before node behind, nodes = before ++ node :: behind →
        ∃ left text right, Pattern.Segment e before node behind
          left text right ∧
          body = left ++ text ++ right ∧ left.Closed ∧
          Text.Closed (left ++ text) ∧
          (Terminal.ready none).display body.utf8 =
            (Terminal.ready none).display left.utf8 ++
              (Terminal.ready none).display text.utf8 ++
              (Terminal.ready none).display right.utf8 ∧
          (Pattern.isColor node = false →
            (Terminal.ready none).display text.utf8 = text.paint none) := by
  obtain ⟨nodes, body, hread, hmeaning, rfl, hpieces⟩ :=
    exists_body hbuild hlayout calls hline
  have hbody := Pattern.shows_pattern he hpieces hmeaning
  have hfeed := Shows.of_escapeFree none (by decide : Text.EscapeFree ['\n'])
  have hall := hbody.append hfeed
  refine ⟨nodes, body, hread, rfl, hbody.closed, hall.closed, ?_, ?_⟩
  · rw [hall.display, hbody.display]
  · rintro before node behind rfl
    obtain ⟨left, text, right, hsegment, rfl⟩ := Pattern.exists_segment hmeaning
    obtain ⟨hleft, htext, hright⟩ := hsegment.shows he hpieces
    have hjoined := hleft.append htext
    refine ⟨left, text, right, hsegment, rfl, hleft.closed,
      hjoined.closed, ?_, ?_⟩
    · rw [(hjoined.append hright).display, hleft.display, htext.display,
        hright.display]
    · intro hcolor
      rw [htext.display, Pattern.nodeCells_of_not_color hcolor hsegment.text]

namespace SegmentsWitness

/-- A color with another one and a level in it, between two literals. -/
def layout : Text := "x#color(#color(a)\x7bred\x7d#level)\x7bblue\x7dy".toList

def segment : Node :=
  .converter "color".toList ["blue".toList]
    [.converter "color".toList ["red".toList] [.literal ['a']],
      .converter "level".toList [] []]

def encoder : Encoder Sample where
  layout := layout
  converters :=
    [.literal ['x'],
      .color (some ⟨.blue, false⟩)
        [.color (some ⟨.red, false⟩) [.literal ['a']] [], .level] [],
      .literal ['y']]

theorem encodeEvent_segments_sample :
    build Sample.extension Registry.builtins layout = .ok encoder ∧
      layout.EscapeFree ∧ DisplayedWitness.event.EscapeFree ∧ ∃ line,
        ((encoder.after Sample.extension
            [.event DisplayedWitness.event]).encodeEvent
          Sample.extension DisplayedWitness.event).2 = .done line ∧
        ∃ left text,
          Pattern.Segment DisplayedWitness.event [.literal ['x'], segment]
            (.literal ['y']) [] left text [] ∧
          line = Text.utf8 (left ++ text ++ ['\n']) ∧ left.Closed ∧
          (Terminal.ready none).display text.utf8 = Text.paint none ['y'] := by
  have hread : Pattern.read layout =
      .ok [.literal ['x'], segment, .literal ['y']] := by
    decide +kernel
  have hbuild : build Sample.extension Registry.builtins layout =
      .ok encoder := by
    rw [build, if_neg (by decide)]
    simp only [hread]
    rfl
  have hlayout : layout.EscapeFree := by decide
  have hline : ((encoder.after Sample.extension
      [.event DisplayedWitness.event]).encodeEvent
        Sample.extension DisplayedWitness.event).2 = .done (Text.utf8
        ("x\x1b[34m\x1b[31ma\x1b[0m\x1b[33mWARN\x1b[0m\x1b[0my\n").toList) := by
    decide +kernel
  obtain ⟨nodes, body, hnodes, hbody, -, -, -, hsegments⟩ :=
    encodeEvent_segments hbuild hlayout [.event DisplayedWitness.event]
      DisplayedWitness.escapeFree_event hline
  obtain rfl := Except.ok.inj (hread.symm.trans hnodes)
  obtain ⟨left, text, right, hsegment, rfl, hleft, -, -, htext⟩ :=
    hsegments [.literal ['x'], segment] (.literal ['y']) [] rfl
  obtain rfl : ['y'] = text := Except.ok.inj hsegment.text
  obtain rfl : [] = right := Except.ok.inj hsegment.right
  rw [List.append_nil] at hbody
  exact ⟨hbuild, hlayout, DisplayedWitness.escapeFree_event, _, hline, left, _,
    hsegment, hbody, hleft, htext rfl⟩

end SegmentsWitness

end Encoder

end Logline
