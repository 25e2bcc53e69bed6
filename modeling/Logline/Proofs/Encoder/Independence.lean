import Logline.Converter.Samples
import Logline.Proofs.Encoder.Calls
import Logline.Proofs.Entries
/-!
Encoders that remember nothing.  A line leaves text behind in the buffer of the
encoder and in the scratch buffers of its colors, half a line if it panics, and
neither has a part in the next one.  So an encoder whose custom converters keep
their states gives for each of a row of payloads what it gives for this payload
alone (`encodeAll_eq_map_encode`).
-/
namespace Logline

/-! ### Converters that keep their states -/

variable {κ : Type} {ext : Extension κ}

/-- The custom converters in it keep their states, whatever options it takes
and whatever children. -/
structure Converter.Stateless (ext : Extension κ) (c : Converter κ) : Prop where
  steady : c.Steady ext
  options : ∀ options c', c.attachOptions ext options = .ok c' → c'.Steady ext

/-- No new converter of the registry ever changes its state. -/
def Registry.Stateless (ext : Extension κ) (registry : Registry κ) : Prop :=
  ∀ name c, registry.make? name = some c → c.Stateless ext

theorem Converter.Steady.attachChildren {c : Converter κ}
    {cs : List (Converter κ)} (h : c.Steady ext) (hcs : AllSteady ext cs) :
    (c.attachChildren cs).Steady ext := by
  cases c with
  | color _ _ _ => exact hcs
  | custom state _ => exact ⟨h.1, hcs⟩
  | literal _ | level | date _ | logger _ | message | fields => trivial

theorem Builtin.stateless_fresh (b : Builtin) :
    (b.fresh : Converter κ).Stateless ext where
  steady := by cases b <;> trivial
  options options c' h := by
    have hconfigured := configured_of_attachOptions h
    cases hconfigured <;> trivial

theorem Registry.stateless_builtins :
    (builtins : Registry κ).Stateless ext := by
  intro name c hmake
  rw [Builtin.make?_builtins] at hmake
  obtain ⟨b, -, rfl⟩ := Option.map_eq_some_iff.mp hmake
  exact b.stateless_fresh

theorem Registry.Stateless.register {registry : Registry κ}
    (h : registry.Stateless ext) {c : Converter κ} (hc : c.Stateless ext)
    (name : Text) :
    (registry.register name c).Stateless ext := by
  intro other c' hmake
  rw [make?, Registry.register, Entries.get?_insert] at hmake
  split_ifs at hmake with hname
  · rw [← Option.some.inj hmake]
    exact hc
  · exact h other c' hmake

namespace Pattern

mutual

theorem steady_of_compileNode {registry : Registry κ}
    (hregistry : registry.Stateless ext) :
    ∀ (node : Node) (c : Converter κ), compileNode ext registry node = .ok c →
    c.Steady ext
  | .literal t, c, h => by
      rw [compileNode] at h
      obtain rfl := Except.ok.inj h
      trivial
  | .converter name options children, c, h => by
      obtain ⟨new, configured, hmake, hattach, hchildren⟩ :=
        compileNode_reference_cases h
      have hnew := hregistry name new hmake
      have hconfigured : configured.Steady ext := by
        obtain ⟨-, rfl⟩ | hattach := hattach
        · exact hnew.steady
        · exact hnew.options options configured hattach
      obtain ⟨-, rfl⟩ | ⟨cs, hcs, rfl⟩ := hchildren
      · exact hconfigured
      · exact hconfigured.attachChildren
          (allSteady_of_compile hregistry children cs hcs)

/-- Compiled converters keep their states if the converters of the registry
do. -/
theorem allSteady_of_compile {registry : Registry κ}
    (hregistry : registry.Stateless ext) :
    ∀ (nodes : List Node) (cs : List (Converter κ)),
      compile ext registry nodes = .ok cs →
      Converter.AllSteady ext cs
  | [], cs, h => by
      rw [compile] at h
      obtain rfl := Except.ok.inj h
      trivial
  | node :: rest, cs, h => by
      obtain ⟨c, more, hc, hmore, rfl⟩ := compile_cons_cases h
      exact ⟨steady_of_compileNode hregistry node c hc,
        allSteady_of_compile hregistry rest more hmore⟩

end

end Pattern

/-! ### Payloads with a time of their own -/

/-- If the payload is a document of an event, then one with a time. -/
def Event.isTimed (payload : Bytes) : Bool :=
  match Json.read payload with
  | .ok (.object entries) => (Entries.get? timeKey entries).isSome
  | _ => true

/-- Such a payload reads alike at any time. -/
theorem Event.ofPayload_eq_of_isTimed {payload : Bytes}
    (h : isTimed payload = true) (now other : Timestamp) :
    ofPayload now payload = ofPayload other payload := by
  rw [isTimed] at h
  rw [ofPayload, ofPayload]
  cases hread : Json.read payload with
  | error fault => rfl
  | ok document =>
      rw [hread] at h
      cases document with
      | object entries =>
          obtain ⟨time, htime⟩ := Option.isSome_iff_exists.mp h
          have hsame : timeOf now entries = timeOf other entries := by
            rw [timeOf, timeOf, htime]
            cases time <;> rfl
          simp only [ofDocument, hsame]
      | null | bool _ | number _ | string _ | array _ => rfl

namespace Encoder

/-! ### Rows of payloads -/

/-- The outcomes of payloads that come in one after the other, each at a
time. -/
def encodeAll (ext : Extension κ) (encoder : Encoder κ) :
    List (Timestamp × Bytes) → List (Outcome Bytes)
  | [] => []
  | (now, payload) :: rest =>
      (encoder.encode ext now payload).2 ::
        encodeAll ext (encoder.encode ext now payload).1 rest

theorem after_snoc (encoder : Encoder κ) (calls : List Call) (c : Call) :
    encoder.after ext (calls ++ [c]) =
      ((encoder.after ext calls).call ext c).1 := by
  rw [after, List.foldl_append]
  rfl

/-- Whatever it has been asked before, an encoder gives for an event what it
gives for it at first. -/
theorem encodeEvent_after_eq {encoder : Encoder κ}
    (hsteady : Converter.AllSteady ext encoder.converters) (earlier : List Call)
    (e : Event) :
    ((encoder.after ext earlier).encodeEvent ext e).2 =
      (encoder.encodeEvent ext e).2 := by
  have hfirst := encodeEvent_of_appends
    (Converter.writeAll_appends ext e encoder.converters [])
  have hlater := encodeEvent_of_appends
    (Converter.writeAll_appends ext e (encoder.after ext earlier).converters [])
  obtain ⟨history, hhistory⟩ := exists_converters_after ext encoder earlier
  rw [hlater, hhistory, Converter.renderedAll_after hsteady, hfirst]

theorem encode_after_eq {encoder : Encoder κ}
    (hsteady : Converter.AllSteady ext encoder.converters) (earlier : List Call)
    {payload : Bytes} (htimed : Event.isTimed payload = true)
    (now other : Timestamp) :
    ((encoder.after ext earlier).encode ext now payload).2 =
      (encoder.encode ext other payload).2 := by
  rw [encode, encode, Event.ofPayload_eq_of_isTimed htimed now other]
  cases Event.ofPayload other payload with
  | error error => rfl
  | ok e => exact encodeEvent_after_eq hsteady earlier e

theorem encodeAll_after {encoder : Encoder κ}
    (hsteady : Converter.AllSteady ext encoder.converters)
    {arrivals : List (Timestamp × Bytes)}
    (htimed : ∀ arrival ∈ arrivals, Event.isTimed arrival.2 = true)
    (clock : Timestamp) (earlier : List Call) :
    (encoder.after ext earlier).encodeAll ext arrivals =
      arrivals.map fun arrival => (encoder.encode ext clock arrival.2).2 := by
  induction arrivals generalizing earlier with
  | nil => rfl
  | cons arrival rest ih =>
      obtain ⟨now, payload⟩ := arrival
      obtain ⟨hpayload, hrest⟩ := List.forall_mem_cons.mp htimed
      have hfirst := encode_after_eq hsteady earlier hpayload now clock
      have hnext := ih hrest (earlier ++ [.payload now payload])
      rw [after_snoc] at hnext
      rw [encodeAll, List.map_cons, hfirst]
      exact congrArg _ hnext

/-- An encoder whose custom converters keep their states gives for each of a
row of payloads the line, the error or the panic that it gives, newly built,
for this payload alone, at any time. -/
theorem encodeAll_eq_map_encode {registry : Registry κ}
    (hregistry : registry.Stateless ext) {layout : Text} {encoder : Encoder κ}
    (hbuild : build ext registry layout = .ok encoder)
    {arrivals : List (Timestamp × Bytes)}
    (htimed : ∀ arrival ∈ arrivals, Event.isTimed arrival.2 = true)
    (clock : Timestamp) :
    encoder.encodeAll ext arrivals =
      arrivals.map fun arrival => (encoder.encode ext clock arrival.2).2 := by
  obtain ⟨-, nodes, -, hcompile⟩ := build_cases hbuild
  exact encodeAll_after
    (Pattern.allSteady_of_compile hregistry nodes _ hcompile) htimed clock []

namespace IndependenceWitness

/-- The built-in converters, and one that writes before it panics. -/
def registry : Registry Sample :=
  Registry.builtins.register "bomb".toList (.custom .bomb [])

theorem stateless_bomb :
    (Converter.custom Sample.bomb []).Stateless Sample.extension where
  steady := ⟨fun _ => rfl, trivial⟩
  options options c' h := by
    obtain rfl := Except.ok.inj h
    exact ⟨fun _ => rfl, trivial⟩

def layout : Text :=
  "#color(#bomb #color(#message)\x7bblue\x7d)\x7bred\x7d".toList

def nodes : List Node :=
  [.converter "color".toList ["red".toList]
    [.converter "bomb".toList [] [], .literal [' '],
      .converter "color".toList ["blue".toList]
        [.converter "message".toList [] []]]]

def encoder : Encoder Sample where
  layout := layout
  converters :=
    [.color (some ⟨.red, false⟩)
      [.custom .bomb [], .literal [' '],
        .color (some ⟨.blue, false⟩) [.message] []] []]

def payload (message : Text) : Bytes :=
  Text.utf8 ("\x7b\"time\":\"2021-03-04T05:06:07Z\",\"message\":\"".toList ++
    message ++
    "\"\x7d".toList)

/-- A panic in the middle of a color, a payload that is refused, and a line. -/
def arrivals : List (Timestamp × Bytes) :=
  [(.epoch, payload "boom".toList), (.epoch, Text.utf8 ['?']),
    (.epoch, payload "hi".toList)]

theorem encodeAll_eq_map_encode_sample :
    registry.Stateless Sample.extension ∧
      build Sample.extension registry layout = .ok encoder ∧
      (∀ arrival ∈ arrivals, Event.isTimed arrival.2 = true) ∧
      encoder.encodeAll Sample.extension arrivals =
        [.panicked (.message "converter exploded".toList),
          .failed (.json .malformed),
          .done
            (Text.utf8 "\x1b[31mtick \x1b[34mhi\x1b[0m\x1b[0m\n".toList)] := by
  have hregistry : registry.Stateless Sample.extension :=
    Registry.stateless_builtins.register stateless_bomb _
  have hread : Pattern.read layout = .ok nodes := rfl
  have hbuild : build Sample.extension registry layout = .ok encoder := by
    rw [build, if_neg (by decide)]
    simp only [hread]
    rfl
  have htimed : ∀ arrival ∈ arrivals, Event.isTimed arrival.2 = true := by
    decide +kernel
  refine ⟨hregistry, hbuild, htimed, ?_⟩
  rw [encodeAll_eq_map_encode hregistry hbuild htimed .epoch]
  decide +kernel

end IndependenceWitness

end Encoder

end Logline
