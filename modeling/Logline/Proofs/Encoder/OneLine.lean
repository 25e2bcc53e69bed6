import Logline.Proofs.Encoder.Calls
import Logline.Proofs.Json.OneLine
import Logline.Proofs.Pattern.Soundness
import Logline.Proofs.Time.OneLine
/-!
Lines of payloads.  Texts of an event are brought into one line on different
ways: the message when the event is made, the name of the logger and the fields
when they are written, and a value that is no string by its JSON text.  So no
payload can break the line of a layout that has no breaks of its own
(`encode_oneLine`).
-/
namespace Logline

/-! ### Events -/

/-- A message from a payload is one line, whatever value it comes from. -/
theorem Event.oneLine_messageOf (entries : Entries Json) :
    (Event.messageOf entries).OneLine := by
  rw [Event.messageOf]
  split
  · exact Text.oneLine_sanitize _
  · exact Text.oneLine_nil
  · exact Json.oneLine_text _
  · exact Text.oneLine_nil

theorem Event.oneLine_message_of_ofPayload {now : Timestamp} {payload : Bytes}
    {e : Event} (h : Event.ofPayload now payload = .ok e) :
    e.message.OneLine := by
  obtain ⟨entries, -, -, he⟩ := Event.ofPayload_cases h
  rw [he]
  exact Event.oneLine_messageOf entries

theorem Event.oneLine_loggerText (width : Option Nat) (logger : Option Text) :
    (Event.loggerText width logger).OneLine := by
  have hdash : Text.OneLine ['-'] := by decide
  rcases logger with _ | ⟨_ | ⟨c, rest⟩⟩
  · exact hdash
  · exact hdash
  · exact Text.oneLine_sanitize _

theorem Event.oneLine_messageText {message : Text} (h : message.OneLine) :
    (Event.messageText message).OneLine := by
  rw [Event.messageText]
  split_ifs
  · decide
  · exact h

theorem Level.oneLine_name (level : Level) : level.name.OneLine := by
  cases level <;> decide

theorem Color.oneLine_sequence (c : Color) : c.sequence.OneLine := by
  have hcode := Text.oneLine_ofNat c.code
  simp [Color.sequence, hcode]

theorem Color.oneLine_startText (c : Option Color) :
    (Color.startText c).OneLine := by
  cases c with
  | none => exact Text.oneLine_nil
  | some c => exact c.oneLine_sequence

theorem Color.oneLine_reset : Color.reset.OneLine := by
  decide

theorem Level.oneLine_coloredName (level : Level) :
    level.coloredName.OneLine := by
  simp [Level.coloredName, Color.oneLine_sequence, Level.oneLine_name,
    Color.oneLine_reset]

theorem DateLayout.unbroken_ofOptions {options : List Text}
    {layout : DateLayout} (hoptions : ∀ o ∈ options, o.Unbroken)
    (h : DateLayout.ofOptions options = .ok layout) :
    layout.format.Unbroken := by
  cases options with
  | nil =>
      obtain rfl := Except.ok.inj h
      exact DateLayout.unbroken_default
  | cons option options =>
      exact DateLayout.unbroken_ofOption (hoptions option List.mem_cons_self) h

theorem DateLayout.oneLine_text {layout : DateLayout}
    (hlayout : layout.format.Unbroken) {t : Timestamp} {text : Text}
    (h : layout.text t = .ok text) : text.OneLine := by
  rw [DateLayout.text] at h
  cases hrender : layout.render? t with
  | none =>
      rw [hrender] at h
      contradiction
  | some rendered =>
      rw [hrender] at h
      obtain rfl := Except.ok.inj h
      exact DateLayout.oneLine_render hlayout hrender

/-! ### Patterns -/

namespace Pattern

mutual

/-- The texts of a node that can show up in its line: its literal, or its
options and what its children have. -/
def nodePieces : Node → List Text
  | .literal t => [t]
  | .converter _ options children => options ++ pieces children

def pieces : List Node → List Text
  | [] => []
  | node :: rest => nodePieces node ++ pieces rest

end

theorem infix_join {separator part : Text} {parts : List Text}
    (h : part ∈ parts) :
    part <:+: Text.join separator parts := by
  induction parts with
  | nil => contradiction
  | cons first rest ih =>
      cases rest with
      | nil =>
          obtain rfl := List.mem_singleton.mp h
          simp [Text.join]
      | cons next rest =>
          rw [Text.join, List.intercalate_cons_cons]
          rcases List.mem_cons.mp h with rfl | hmem
          · rw [List.append_assoc]
            exact (List.prefix_append part _).isInfix
          · exact (ih hmem).trans (List.suffix_append _ _).isInfix

/-- The slot of a reference that has something to say is written. -/
theorem infix_slotsText {inner raw : Text} {slots : List Slot} {slot : Slot}
    (h : slot ∈ slots) :
    slot.text inner raw <:+: slotsText inner raw slots := by
  obtain ⟨before, behind, rfl⟩ := List.append_of_mem h
  exact ⟨slotsText inner raw before, slotsText inner raw behind,
    by simp [slotsText]⟩

theorem Spells.infix_of_mem_pieces {next : Option Char} {nodes : List Node}
    {t : Text} (h : Spells next nodes t) :
    ∀ piece ∈ pieces nodes, piece <:+: t := by
  induction h with
  | nil => simp [pieces]
  | literal hrest ih =>
      intro piece hpiece
      rw [pieces, nodePieces, List.singleton_append] at hpiece
      rcases List.mem_cons.mp hpiece with rfl | hpiece
      · exact (List.prefix_append _ _).isInfix
      · exact (ih piece hpiece).trans (List.suffix_append _ _).isInfix
  | @converter next name inner rest options children nodes slots _ hcovers
      _ _ ihchildren ihrest =>
      intro piece hpiece
      rw [pieces, nodePieces, List.append_assoc] at hpiece
      have hslots : slotsText inner (Text.join [','] options) slots <:+:
          marker :: name ++ slotsText inner (Text.join [','] options)
            slots ++ rest :=
        ⟨marker :: name, rest, rfl⟩
      rcases List.mem_append.mp hpiece with hoption | hpiece
      · have hwritten : .options ∈ slots := by
          by_contra hmissing
          rw [hcovers.options hmissing] at hoption
          contradiction
        exact ((infix_join hoption).trans ⟨['\x7b'], ['\x7d'], rfl⟩).trans
          ((infix_slotsText hwritten).trans hslots)
      · rcases List.mem_append.mp hpiece with hchild | hrest
        · have hwritten : .children ∈ slots := by
            by_contra hmissing
            rw [hcovers.children hmissing] at hchild
            contradiction
          exact ((ihchildren piece hchild).trans ⟨['('], [')'], rfl⟩).trans
            ((infix_slotsText hwritten).trans hslots)
        · exact (ihrest piece hrest).trans (List.suffix_append _ _).isInfix

mutual

theorem oneLine_nodeMeaning {e : Event} (he : e.message.OneLine) :
    ∀ (node : Node) (t : Text),
    (∀ piece ∈ nodePieces node, piece.Unbroken) →
    nodeMeaning e node = .ok t → t.OneLine
  | .literal text, t, hpieces, h => by
      rw [nodeMeaning] at h
      obtain rfl := Except.ok.inj h
      exact (hpieces text (by simp [nodePieces])).oneLine
  | .converter name options children, t, hpieces, h => by
      rw [nodePieces] at hpieces
      obtain ⟨hoptions, hchildren⟩ := List.forall_mem_append.mp hpieces
      rw [nodeMeaning] at h
      split at h
      · obtain ⟨inner, hinner, h⟩ := Except.bind_eq_ok h
        obtain rfl := Except.ok.inj h
        have hline := oneLine_coloredMeaning he _ children inner
          hchildren hinner
        simp [hline, Color.oneLine_startText, Color.oneLine_reset]
      · obtain rfl := Except.ok.inj h
        exact e.level.oneLine_name
      · cases hlayout : DateLayout.ofOptions options with
        | error error =>
            rw [hlayout] at h
            obtain rfl := Except.ok.inj h
            exact Text.oneLine_nil
        | ok layout =>
            rw [hlayout] at h
            exact DateLayout.oneLine_text
              (DateLayout.unbroken_ofOptions hoptions hlayout) h
      · obtain rfl := Except.ok.inj h
        exact Event.oneLine_loggerText _ _
      · obtain rfl := Except.ok.inj h
        exact Event.oneLine_messageText he
      · obtain rfl := Except.ok.inj h
        exact Text.oneLine_sanitize _
      · obtain rfl := Except.ok.inj h
        exact Text.oneLine_nil

/-- The meaning of a pattern is one line if the message of the event is, and
the pattern has no breaks of its own. -/
theorem oneLine_meaning {e : Event} (he : e.message.OneLine) :
    ∀ (nodes : List Node) (t : Text),
    (∀ piece ∈ pieces nodes, piece.Unbroken) →
    meaning e nodes = .ok t → t.OneLine
  | [], t, _, h => by
      rw [meaning] at h
      obtain rfl := Except.ok.inj h
      exact Text.oneLine_nil
  | node :: rest, t, hpieces, h => by
      rw [pieces] at hpieces
      obtain ⟨hnode, hrest⟩ := List.forall_mem_append.mp hpieces
      rw [meaning] at h
      obtain ⟨text, htext, h⟩ := Except.bind_eq_ok h
      obtain ⟨more, hmore, h⟩ := Except.bind_eq_ok h
      obtain rfl := Except.ok.inj h
      exact Text.oneLine_append_iff.mpr
        ⟨oneLine_nodeMeaning he node text hnode htext,
          oneLine_meaning he rest more hrest hmore⟩

theorem oneLine_coloredMeaning {e : Event} (he : e.message.OneLine)
    (c : Option Color) :
    ∀ (nodes : List Node) (t : Text), (∀ piece ∈ pieces nodes, piece.Unbroken) →
      coloredMeaning e c nodes = .ok t → t.OneLine
  | [], t, _, h => by
      rw [coloredMeaning] at h
      obtain rfl := Except.ok.inj h
      exact Text.oneLine_nil
  | node :: rest, t, hpieces, h => by
      rw [pieces] at hpieces
      obtain ⟨hnode, hrest⟩ := List.forall_mem_append.mp hpieces
      rw [coloredMeaning] at h
      have hafter : Text.OneLine (if rest.isEmpty then []
          else Color.startText c) := by
        split_ifs
        · exact Text.oneLine_nil
        · exact Color.oneLine_startText c
      obtain ⟨text, more, htext, hmore, rfl⟩ : ∃ text more, Text.OneLine text ∧
          coloredMeaning e c rest = .ok more ∧ t = text ++ more := by
        by_cases hlevel : isLevel node = true
        · rw [if_pos hlevel] at h
          obtain ⟨text, htext, h⟩ := Except.bind_eq_ok h
          obtain ⟨more, hmore, h⟩ := Except.bind_eq_ok h
          obtain rfl := Except.ok.inj htext
          exact ⟨_, more, Text.oneLine_append_iff.mpr
            ⟨e.level.oneLine_coloredName, hafter⟩, hmore,
            (Except.ok.inj h).symm⟩
        · rw [if_neg hlevel] at h
          obtain ⟨text, htext, h⟩ := Except.bind_eq_ok h
          obtain ⟨more, hmore, h⟩ := Except.bind_eq_ok h
          exact ⟨text, more, oneLine_nodeMeaning he node text hnode htext,
            hmore, (Except.ok.inj h).symm⟩
      exact Text.oneLine_append_iff.mpr
        ⟨htext, oneLine_coloredMeaning he c rest more hrest hmore⟩

end

end Pattern

namespace Encoder

variable {κ : Type} {ext : Extension κ}

theorem unbroken_defaultLayout : defaultLayout.Unbroken :=
  Text.unbroken_of_isChain (by decide +kernel) (by decide +kernel)

/-- A line of a payload ends in its only line feed and has no carriage return
and no tab, whatever is in the payload and whatever the encoder has been asked
before. -/
theorem encode_oneLine {layout : Text} {encoder : Encoder κ}
    (hbuild : build ext Registry.builtins layout = .ok encoder)
    (hlayout : layout.Unbroken) (calls : List Call) (now : Timestamp)
    (payload line : Bytes)
    (hline : ((encoder.after ext calls).encode ext now payload).2 =
      .done line) :
    ∃ body, line = body ++ [10] ∧ ∀ b ∈ body, b ≠ 10 ∧ b ≠ 13 ∧ b ≠ 9 := by
  obtain ⟨hused, nodes, hread, hcompile⟩ := build_cases hbuild
  have hunbroken : encoder.layout.Unbroken := by
    rw [hused]
    split_ifs
    · exact unbroken_defaultLayout
    · exact hlayout
  rw [encode] at hline
  cases hevent : Event.ofPayload now payload with
  | error error =>
      rw [hevent] at hline
      contradiction
  | ok e =>
      rw [hevent] at hline
      rw [encodeEvent_after hcompile calls e] at hline
      cases hmeaning : Pattern.meaning e nodes with
      | error p =>
          rw [hmeaning] at hline
          contradiction
      | ok t =>
          rw [hmeaning] at hline
          have hpieces : ∀ piece ∈ Pattern.pieces nodes, piece.Unbroken :=
            fun piece hpiece => hunbroken.of_infix
              ((Pattern.read_sound hread).2.infix_of_mem_pieces piece hpiece)
          have hone := Pattern.oneLine_meaning
            (Event.oneLine_message_of_ofPayload hevent) nodes t
            hpieces hmeaning
          obtain rfl := Outcome.done.inj hline
          refine ⟨t.utf8, by rw [Text.utf8_append]; rfl, fun b hb => ?_⟩
          have hbreak := Converter.not_isBreak_of_mem_utf8 hone hb
          simpa [Converter.isBreak, and_assoc] using hbreak

namespace OneLineWitness

def layout : Text :=
  "#color(#level #logger) #message".toList

def nodes : List Node :=
  [.converter "color".toList []
      [.converter "level".toList [] [], .literal [' '],
        .converter "logger".toList [] []],
    .literal [' '], .converter "message".toList [] []]

def encoder : Encoder Sample where
  layout := layout
  converters :=
    [.color none [.level, .literal [' '], .logger none] [],
      .literal [' '], .message]

/-- A tab in the name of the logger, and a message that is no string and holds
a line feed. -/
def payload : Bytes :=
  Text.utf8 "\x7b\"message\":[\"a\\nb\"],\n\"logger\":\"x\\ty\"\x7d".toList

def line : Bytes :=
  Text.utf8 "\x1b[32mINFO\x1b[0m x\\ty\x1b[0m [\"a\\nb\"]\n".toList

/-- A call that gives a line of its own, and one that is refused. -/
def calls : List Call :=
  [.event (.new .warn .epoch ['x']), .payload .epoch []]

theorem encode_oneLine_sample :
    build Sample.extension Registry.builtins layout = .ok encoder ∧
      layout.Unbroken ∧
      ((encoder.after Sample.extension calls).encode
          Sample.extension .epoch payload).2 = .done line ∧
      ∃ body, line = body ++ [10] ∧ ∀ b ∈ body, b ≠ 10 ∧ b ≠ 13 ∧ b ≠ 9 := by
  have hread : Pattern.read layout = .ok nodes := by decide +kernel
  have hbuild : build Sample.extension Registry.builtins layout =
      .ok encoder := by
    rw [build, if_neg (by decide)]
    simp only [hread]
    rfl
  have hlayout : layout.Unbroken :=
    Text.unbroken_of_isChain (by decide) (by decide)
  have hline : ((encoder.after Sample.extension calls).encode
      Sample.extension .epoch payload).2 = .done line := by
    decide +kernel
  exact ⟨hbuild, hlayout, hline,
    encode_oneLine hbuild hlayout calls _ _ line hline⟩

end OneLineWitness

end Encoder

end Logline
