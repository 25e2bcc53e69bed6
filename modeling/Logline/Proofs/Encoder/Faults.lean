import Logline.Encoder
import Logline.Proofs.Converter.References
/-!
The errors of encoders.  Those of building one are faults of its layout: the
pattern cannot be read, or a reference in it is not accepted.  Those of
encoding are faults of the payload, whatever the encoder is.  With the order in
which references fail, `compile_fails_at_first` puts them together.
-/
namespace Logline

variable {κ : Type}

/-! ### Errors of a layout -/

theorem DateLayout.isConfiguration_of_ofOption {option : Text} {e : Error}
    (h : ofOption option = .error e) : e.isConfiguration = true := by
  simp only [ofOption] at h
  split_ifs at h <;> (obtain rfl := Except.error.inj h; rfl)

theorem Builtin.isConfiguration_of_attachOptions {ext : Extension κ}
    {b : Builtin} {options : List Text} {e : Error}
    (h : b.fresh.attachOptions ext options = .error e) :
    e.isConfiguration = true := by
  rcases options with _ | ⟨option, options⟩
  · rw [attachOptions_nil] at h
    contradiction
  · cases b with
    | date =>
        rw [fresh, Converter.newDate, Converter.attachOptions] at h
        cases hlayout : DateLayout.ofOption option with
        | error fault =>
            rw [hlayout] at h
            obtain rfl := Except.error.inj h
            exact DateLayout.isConfiguration_of_ofOption hlayout
        | ok layout =>
            rw [hlayout] at h
            contradiction
    | logger =>
        rw [fresh, Converter.newLogger, Converter.attachOptions] at h
        cases hwidth : Converter.width? option with
        | none =>
            rw [hwidth] at h
            obtain rfl := Except.error.inj h
            rfl
        | some n =>
            rw [hwidth] at h
            contradiction
    | color | level | message | fields => contradiction

theorem Pattern.Reference.Fails.isConfiguration {ext : Extension κ}
    {r : Reference} {e : Error} (h : r.Fails ext Registry.builtins e) :
    e.isConfiguration = true := by
  rcases h with _ | ⟨hname, -, hattach⟩
  · rfl
  · rw [Builtin.make?_builtins] at hname
    obtain ⟨b, -, rfl⟩ := Option.map_eq_some_iff.mp hname
    exact Builtin.isConfiguration_of_attachOptions hattach

theorem Encoder.isConfiguration_of_build {ext : Extension κ} {layout : Text}
    {e : Error} (h : build ext Registry.builtins layout = .error e) :
    e.isConfiguration = true := by
  rw [build] at h
  generalize (if layout.isEmpty then defaultLayout else layout) = used at h
  cases hread : Pattern.read used with
  | error fault =>
      rw [hread] at h
      obtain rfl := Except.error.inj h
      rfl
  | ok nodes =>
      rw [hread] at h
      obtain ⟨-, r, -, -, hfails, -⟩ :=
        Pattern.compile_eq_error_iff.mp (eq_error_of_bind_ok h)
      exact hfails.isConfiguration

/-! ### Errors of a payload -/

theorem Event.isConfiguration_of_ofPayload {now : Timestamp} {payload : Bytes}
    {e : Error} (h : ofPayload now payload = .error e) :
    e.isConfiguration = false := by
  rw [ofPayload] at h
  cases hread : Json.read payload with
  | error fault =>
      rw [hread] at h
      obtain rfl := Except.error.inj h
      rfl
  | ok document =>
      rw [hread] at h
      obtain ⟨message, rfl⟩ := exists_of_ofDocument_eq_error h
      rfl

namespace Encoder

variable {ext : Extension κ}

theorem isConfiguration_of_encode {now : Timestamp} {encoder : Encoder κ}
    {payload : Bytes} {e : Error}
    (h : (encoder.encode ext now payload).2 = .failed e) :
    e.isConfiguration = false := by
  rw [encode] at h
  cases hevent : Event.ofPayload now payload with
  | error fault =>
      rw [hevent] at h
      obtain rfl := Outcome.failed.inj h
      exact Event.isConfiguration_of_ofPayload hevent
  | ok event =>
      rw [hevent] at h
      simp only [encodeEvent] at h
      split at h <;> contradiction

/-- A pattern compiles exactly if each of its references, depth first, is
accepted, and else fails with the error of the first one that is not.  There is
then one converter for each node, and the converters of two patterns one after
the other are those of both.  With the built-in converters alone, building an
encoder fails only by its configuration; encoding never does. -/
theorem compile_fails_at_first (ext : Extension κ) (registry : Registry κ)
    (nodes : List Node) :
    ((∃ cs, Pattern.compile ext registry nodes = .ok cs) ↔
      ∀ r ∈ Pattern.references nodes, r.Accepted ext registry) ∧
    (∀ e, Pattern.compile ext registry nodes = .error e ↔
      ∃ before r after, Pattern.references nodes = before ++ r :: after ∧
        r.Fails ext registry e ∧
        ∀ earlier ∈ before, earlier.Accepted ext registry) ∧
    (Pattern.references nodes).map Pattern.Reference.name =
      Pattern.names nodes ∧
    (∀ cs, Pattern.compile ext registry nodes = .ok cs →
      List.Forall₂ (fun node c => Pattern.compileNode ext registry node = .ok c)
        nodes cs) ∧
    (∀ more, Pattern.compile ext registry (nodes ++ more) =
      (Pattern.compile ext registry nodes >>= fun cs =>
        Pattern.compile ext registry more >>= fun cs' => .ok (cs ++ cs'))) ∧
    (∀ layout e, build ext Registry.builtins layout = .error e →
      e.isConfiguration = true) ∧
    (∀ encoder now payload e, (encode ext now encoder payload).2 = .failed e →
      e.isConfiguration = false) := by
  refine ⟨Pattern.exists_compile_iff, fun _ => Pattern.compile_eq_error_iff,
    Pattern.map_name_references nodes, fun _ => Pattern.forall₂_of_compile,
    Pattern.compile_append ext registry nodes, ?_, ?_⟩
  · exact fun _ _ => isConfiguration_of_build
  · exact fun _ _ _ _ => isConfiguration_of_encode

namespace FaultsWitness

open Pattern (Reference)

/-- An unknown reference below a converter that ignores its children, before
options that are refused. -/
def layout : Text := "#level(#nope\x7bx\x7d)#logger\x7bx\x7d".toList

def nodes : List Node :=
  [.converter "level".toList [] [.converter "nope".toList [['x']] []],
    .converter "logger".toList [['x']] []]

/-- A width that is accepted, alone and before one that is refused; the child
of the latter is unknown. -/
def accepted : List Node := [.converter "logger".toList [['5']] []]

def refused : List Node :=
  accepted ++
    [.converter "logger".toList [['x']] [.converter "nope".toList [] []]]

theorem accepted_logger : Reference.Accepted Sample.extension
    Registry.builtins ⟨"logger".toList, [['5']]⟩ :=
  ⟨.newLogger, rfl, fun _ => ⟨.logger (some 5), rfl⟩⟩

theorem compile_fails_at_first_sample :
    Pattern.compile Sample.extension Registry.builtins nodes =
      .error (.unknownConverter "nope".toList) ∧
    (∃ cs,
      Pattern.compile Sample.extension Registry.builtins accepted = .ok cs) ∧
    Pattern.compile Sample.extension Registry.builtins refused =
      .error (.invalidConfiguration "logger".toList
        "width 'x' is not a number".toList) ∧
    ∃ e, build Sample.extension Registry.builtins layout = .error e ∧
      e.isConfiguration = true := by
  obtain ⟨-, hfirst, -, -, -, hbuild, -⟩ :=
    compile_fails_at_first Sample.extension Registry.builtins nodes
  have hlevel : Reference.Accepted Sample.extension Registry.builtins
      ⟨"level".toList, []⟩ :=
    ⟨.level, rfl, fun hne => absurd rfl hne⟩
  have hcompile : Pattern.compile Sample.extension Registry.builtins nodes =
      .error (.unknownConverter "nope".toList) := by
    refine (hfirst _).mpr ⟨[⟨"level".toList, []⟩], ⟨"nope".toList, [['x']]⟩,
      [⟨"logger".toList, [['x']]⟩], rfl, .unknown rfl, ?_⟩
    exact List.forall_mem_singleton.mpr hlevel
  have haccepted : ∃ cs, Pattern.compile Sample.extension Registry.builtins
      accepted = .ok cs :=
    (compile_fails_at_first Sample.extension Registry.builtins accepted).1.mpr
      (List.forall_mem_singleton.mpr accepted_logger)
  have hrefused : Pattern.compile Sample.extension Registry.builtins refused =
      .error (.invalidConfiguration "logger".toList
        "width 'x' is not a number".toList) := by
    refine ((compile_fails_at_first _ _ refused).2.1 _).mpr
      ⟨[⟨"logger".toList, [['5']]⟩], ⟨"logger".toList, [['x']]⟩,
        [⟨"nope".toList, []⟩], rfl, .refused rfl (by decide) ?_, ?_⟩
    · rfl
    · exact List.forall_mem_singleton.mpr accepted_logger
  have hread : Pattern.read layout = .ok nodes := by decide +kernel
  have herror : build Sample.extension Registry.builtins layout =
      .error (.unknownConverter "nope".toList) := by
    rw [build, if_neg (by decide)]
    simp only [hread, hcompile]
    rfl
  exact ⟨hcompile, haccepted, hrefused, _, herror, hbuild _ _ herror⟩

end FaultsWitness

end Encoder

end Logline
