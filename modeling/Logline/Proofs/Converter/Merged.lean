import Logline.Converter.Samples
import Logline.Proofs.Converter.References
import Logline.Proofs.Pattern.Merged
/-!
The printed text of a pattern that was built by hand compiles as the pattern
does, and to converters that write the same (`text_keeps_meaning`).  What is
read from the text is the merged pattern; its converters are `Alike` those of
the pattern as it was built, and each conversion keeps them so.  A color tells
the two apart where it is set again behind a level for empty literals
(`Settled`).
-/
namespace Logline

namespace Converter

variable {κ : Type}

/-! ### Converters that differ in how literals are cut -/

/-- Converters that write the same, as children of a color that is set if they
are `colored`.  Those on the right have literals in one, and no empty ones,
where those on the left have neighbours. -/
inductive Alike : Bool → List (Converter κ) → List (Converter κ) → Prop
  | nil {colored : Bool} : Alike colored [] []
  | skip {colored : Bool} {cs ds : List (Converter κ)}
      (hrest : Alike colored cs ds) :
      Alike colored (.literal [] :: cs) ds
  | join {colored : Bool} {cs ds : List (Converter κ)} {t u : Text}
      (hrest : Alike colored cs (.literal u :: ds)) :
      Alike colored (.literal t :: cs) (.literal (t ++ u) :: ds)
  | level {colored : Bool} {cs ds : List (Converter κ)}
      (hlast : colored = true → cs.isEmpty = ds.isEmpty)
      (hrest : Alike colored cs ds) :
      Alike colored (.level :: cs) (.level :: ds)
  | color {colored : Bool} {cs ds inner inner' : List (Converter κ)}
      {c : Option Color} {scratch scratch' : Bytes}
      (hinner : Alike c.isSome inner inner') (hrest : Alike colored cs ds) :
      Alike colored (.color c inner scratch :: cs)
        (.color c inner' scratch' :: ds)
  | custom {colored : Bool} {cs ds inner inner' : List (Converter κ)}
      {state : κ} (hinner : Alike false inner inner')
      (hrest : Alike colored cs ds) :
      Alike colored (.custom state inner :: cs) (.custom state inner' :: ds)
  | same {colored : Bool} {cs ds : List (Converter κ)} {c : Converter κ}
      (hother : c ≠ .level) (hrest : Alike colored cs ds) :
      Alike colored (c :: cs) (c :: ds)

/-! ### Rows are written converter by converter -/

/-- The result of a row: what its first converter has written, and behind that,
if it has not panicked, the rest of the row. -/
def andThen (w : Written (Converter κ)) (rest : List (Converter κ))
    (next : Bytes → Written (List (Converter κ))) :
    Written (List (Converter κ)) :=
  match w.panic with
  | some p => ⟨w.state :: rest, w.out, some p⟩
  | none => ⟨w.state :: (next w.out).state, (next w.out).out,
      (next w.out).panic⟩

/-- The result of a row behind a converter that has stayed as it is. -/
def behind (c : Converter κ) (w : Written (List (Converter κ))) :
    Written (List (Converter κ)) :=
  ⟨c :: w.state, w.out, w.panic⟩

/-- What a color writes for a level, the last of its children or not. -/
def levelBytes (e : Event) (color : Option Color) (last : Bool) : Bytes :=
  e.level.color.sequence.utf8 ++ e.level.name.utf8 ++ Color.reset.utf8 ++
    if last then [] else colorStart color

section Rows

variable {ext : Extension κ} {e : Event} {color : Option Color}

theorem writeAll_cons (c : Converter κ) (rest : List (Converter κ))
    (out : Bytes) :
    writeAll ext e (c :: rest) out =
      andThen (write ext e c out) rest (writeAll ext e rest) := by
  rw [writeAll]
  rfl

theorem writeColored_cons {c : Converter κ} (h : c ≠ .level)
    (rest : List (Converter κ)) (out : Bytes) :
    writeColored ext e color (c :: rest) out =
      andThen (write ext e c out) rest (writeColored ext e color rest) := by
  rw [writeColored]
  · rfl
  · exact h

theorem writeAll_literal (t : Text) (rest : List (Converter κ)) (out : Bytes) :
    writeAll ext e (.literal t :: rest) out =
      behind (.literal t) (writeAll ext e rest (out ++ t.utf8)) := by
  rw [writeAll_cons, write]
  rfl

theorem writeColored_literal (t : Text) (rest : List (Converter κ))
    (out : Bytes) :
    writeColored ext e color (.literal t :: rest) out =
      behind (.literal t) (writeColored ext e color rest (out ++ t.utf8)) := by
  rw [writeColored_cons (by simp), write]
  rfl

theorem writeAll_level (rest : List (Converter κ)) (out : Bytes) :
    writeAll ext e (.level :: rest) out =
      behind .level (writeAll ext e rest (out ++ e.level.name.utf8)) := by
  rw [writeAll_cons, write]
  rfl

theorem writeColored_level (rest : List (Converter κ)) (out : Bytes) :
    writeColored ext e color (.level :: rest) out =
      behind .level (writeColored ext e color rest
        (out ++ levelBytes e color rest.isEmpty)) := by
  rw [writeColored, behind, levelBytes]
  cases rest.isEmpty <;> simp [List.append_assoc]

theorem isEmpty_state_writeAll (cs : List (Converter κ)) (out : Bytes) :
    (writeAll ext e cs out).state.isEmpty = cs.isEmpty := by
  cases cs with
  | nil => rw [writeAll]
  | cons c rest =>
      rw [writeAll_cons, andThen]
      cases (write ext e c out).panic <;> rfl

theorem isEmpty_state_writeColored (cs : List (Converter κ)) (out : Bytes) :
    (writeColored ext e color cs out).state.isEmpty = cs.isEmpty := by
  cases cs with
  | nil => rw [writeColored]
  | cons c rest =>
      by_cases hlevel : c = .level
      · rw [hlevel, writeColored_level]
        rfl
      · rw [writeColored_cons hlevel, andThen]
        cases (write ext e c out).panic <;> rfl

theorem state_write_ne_level {c : Converter κ} (h : c ≠ .level) (out : Bytes) :
    (write ext e c out).state ≠ .level := by
  intro hlevel
  cases c with
  | level => exact h rfl
  | color c children scratch =>
      rw [write] at hlevel
      split at hlevel <;> contradiction
  | custom state children =>
      rw [write] at hlevel
      dsimp only at hlevel
      split at hlevel <;> contradiction
  | date layout =>
      rw [write] at hlevel
      split at hlevel <;> contradiction
  | literal t | logger width | message | fields =>
      rw [write] at hlevel
      contradiction

end Rows

/-! ### Rows that are alike write the same -/

/-- Two results that differ in the states of rows alone, and these are alike. -/
structure WrittenAlike (colored : Bool) (v w : Written (List (Converter κ))) :
    Prop where
  state : Alike colored v.state w.state
  out : v.out = w.out
  panic : v.panic = w.panic

/-- Two results that differ in states alone, and these can begin rows that are
alike. -/
structure FirstAlike (colored : Bool) (v w : Written (Converter κ)) : Prop where
  state : ∀ cs ds, Alike colored cs ds →
    Alike colored (v.state :: cs) (w.state :: ds)
  out : v.out = w.out
  panic : v.panic = w.panic

namespace WrittenAlike

variable {colored : Bool}

theorem skip {v w : Written (List (Converter κ))}
    (h : WrittenAlike colored v w) :
    WrittenAlike colored (behind (.literal []) v) w :=
  ⟨.skip h.state, h.out, h.panic⟩

theorem join {v w : Written (List (Converter κ))} (t : Text) {u : Text}
    (h : WrittenAlike colored v (behind (.literal u) w)) :
    WrittenAlike colored (behind (.literal t) v)
      (behind (.literal (t ++ u)) w) :=
  ⟨.join h.state, h.out, h.panic⟩

theorem level {v w : Written (List (Converter κ))}
    (h : WrittenAlike colored v w)
    (hlast : colored = true → v.state.isEmpty = w.state.isEmpty) :
    WrittenAlike colored (behind .level v) (behind .level w) :=
  ⟨.level hlast h.state, h.out, h.panic⟩

theorem andThen {v w : Written (Converter κ)} {cs ds : List (Converter κ)}
    {next next' : Bytes → Written (List (Converter κ))}
    (hfirst : FirstAlike colored v w) (hrest : Alike colored cs ds)
    (hnext : ∀ out, WrittenAlike colored (next out) (next' out)) :
    WrittenAlike colored (andThen v cs next) (andThen w ds next') := by
  have hboth := hnext w.out
  rw [Converter.andThen, Converter.andThen, hfirst.panic, hfirst.out]
  cases w.panic with
  | some p => exact ⟨hfirst.state cs ds hrest, rfl, rfl⟩
  | none => exact ⟨hfirst.state _ _ hboth.state, hboth.out, hboth.panic⟩

end WrittenAlike

/-- The rows write the same, at top level and as children of a color. -/
structure RowsAlike (ext : Extension κ) (e : Event) (colored : Bool)
    (cs ds : List (Converter κ)) : Prop where
  all : ∀ out, WrittenAlike colored (writeAll ext e cs out)
    (writeAll ext e ds out)
  children : ∀ c out, c.isSome = colored →
    WrittenAlike colored (writeColored ext e c cs out)
      (writeColored ext e c ds out)

section Steps

variable {ext : Extension κ} {e : Event} {colored : Bool}
  {cs ds : List (Converter κ)}

theorem RowsAlike.cons {c d : Converter κ} (hc : c ≠ .level) (hd : d ≠ .level)
    (hfirst : ∀ out, FirstAlike colored (write ext e c out) (write ext e d out))
    (hrest : Alike colored cs ds) (h : RowsAlike ext e colored cs ds) :
    RowsAlike ext e colored (c :: cs) (d :: ds) where
  all out := by
    rw [writeAll_cons, writeAll_cons]
    exact .andThen (hfirst out) hrest h.all
  children color out hcolor := by
    rw [writeColored_cons hc, writeColored_cons hd]
    exact .andThen (hfirst out) hrest fun out => h.children color out hcolor

theorem RowsAlike.skip (h : RowsAlike ext e colored cs ds) :
    RowsAlike ext e colored (.literal [] :: cs) ds where
  all out := by
    rw [writeAll_literal, Text.utf8_nil, List.append_nil]
    exact (h.all out).skip
  children color out hcolor := by
    rw [writeColored_literal, Text.utf8_nil, List.append_nil]
    exact (h.children color out hcolor).skip

theorem RowsAlike.join {t u : Text}
    (h : RowsAlike ext e colored cs (.literal u :: ds)) :
    RowsAlike ext e colored (.literal t :: cs) (.literal (t ++ u) :: ds) where
  all out := by
    have hrest := h.all (out ++ t.utf8)
    rw [writeAll_literal] at hrest
    rw [writeAll_literal, writeAll_literal, Text.utf8_append,
      ← List.append_assoc]
    exact hrest.join t
  children color out hcolor := by
    have hrest := h.children color (out ++ t.utf8) hcolor
    rw [writeColored_literal] at hrest
    rw [writeColored_literal, writeColored_literal, Text.utf8_append,
      ← List.append_assoc]
    exact hrest.join t

theorem RowsAlike.level (hlast : colored = true → cs.isEmpty = ds.isEmpty)
    (h : RowsAlike ext e colored cs ds) :
    RowsAlike ext e colored (.level :: cs) (.level :: ds) where
  all out := by
    rw [writeAll_level, writeAll_level]
    refine (h.all _).level fun hcolored => ?_
    rw [isEmpty_state_writeAll, isEmpty_state_writeAll, hlast hcolored]
  children color out hcolor := by
    -- whether the level is the last one is seen only in a color that is set
    have hbytes : levelBytes e color cs.isEmpty =
        levelBytes e color ds.isEmpty := by
      cases color with
      | none => simp [levelBytes, colorStart]
      | some c => rw [hlast hcolor.symm]
    rw [writeColored_level, writeColored_level, hbytes]
    refine (h.children color _ hcolor).level fun hcolored => ?_
    rw [isEmpty_state_writeColored, isEmpty_state_writeColored, hlast hcolored]

theorem firstAlike_color {inner inner' : List (Converter κ)} {c : Option Color}
    (scratch scratch' : Bytes) (h : RowsAlike ext e c.isSome inner inner')
    (out : Bytes) :
    FirstAlike colored (write ext e (.color c inner scratch) out)
      (write ext e (.color c inner' scratch') out) := by
  obtain ⟨hstate, hout, hpanic⟩ := h.children c (colorStart c) rfl
  rw [write, write, Bytes.cleared_eq, Bytes.cleared_eq, List.nil_append]
  dsimp only
  rw [hout, hpanic]
  cases (writeColored ext e c inner' (colorStart c)).panic with
  | some p => exact ⟨fun _ _ hrest => .color hstate hrest, rfl, rfl⟩
  | none => exact ⟨fun _ _ hrest => .color hstate hrest, rfl, rfl⟩

theorem firstAlike_custom {inner inner' : List (Converter κ)} (state : κ)
    (hinner : Alike false inner inner') (h : RowsAlike ext e false inner inner')
    (out : Bytes) :
    FirstAlike colored (write ext e (.custom state inner) out)
      (write ext e (.custom state inner') out) := by
  rw [write, write]
  obtain ⟨state, rendering⟩ := ext.render state e
  obtain ⟨hstate, hout, hpanic⟩ := h.all (out ++ rendering.before.utf8)
  dsimp only
  cases rendering.children with
  | false => exact ⟨fun _ _ hrest => .custom hinner hrest, rfl, rfl⟩
  | true =>
      rw [if_pos rfl, if_pos rfl, hout, hpanic]
      cases (writeAll ext e inner' (out ++ rendering.before.utf8)).panic with
      | some p => exact ⟨fun _ _ hrest => .custom hstate hrest, rfl, rfl⟩
      | none => exact ⟨fun _ _ hrest => .custom hstate hrest, rfl, rfl⟩

end Steps

/-- One conversion: rows that are alike write the same, and stay alike. -/
theorem Alike.rowsAlike {colored : Bool} {cs ds : List (Converter κ)}
    (h : Alike colored cs ds) (ext : Extension κ) (e : Event) :
    RowsAlike ext e colored cs ds := by
  -- on how the rows are alike, so that what is inside a converter is known to
  -- write the same too
  induction h with
  | nil =>
      exact
        { all := fun out => by rw [writeAll]; exact ⟨.nil, rfl, rfl⟩
          children := fun c out _ => by
            rw [writeColored]; exact ⟨.nil, rfl, rfl⟩ }
  | skip hrest ih => exact ih.skip
  | join hrest ih => exact ih.join
  | level hlast hrest ih => exact ih.level hlast
  | color hinner hrest ihinner ihrest =>
      exact ihrest.cons (by simp) (by simp) (firstAlike_color _ _ ihinner) hrest
  | custom hinner hrest ihinner ihrest =>
      exact ihrest.cons (by simp) (by simp)
        (firstAlike_custom _ hinner ihinner) hrest
  | same hother hrest ih =>
      refine ih.cons hother hother (fun out => ?_) hrest
      exact ⟨fun _ _ => .same (state_write_ne_level hother out), rfl, rfl⟩

/-- A row of conversions keeps rows alike. -/
theorem Alike.after {colored : Bool} {cs ds : List (Converter κ)}
    (h : Alike colored cs ds) (ext : Extension κ)
    (history : List (Event × Bytes)) :
    Alike colored (Converter.after ext history cs)
      (Converter.after ext history ds) := by
  induction history generalizing cs ds with
  | nil => exact h
  | cons conversion history ih =>
      exact ih ((h.rowsAlike ext conversion.1).all conversion.2).state

/-! ### Rows that are compiled -/

/-- A color that is set. -/
def setsColor : Converter κ → Bool
  | color c _ _ => c.isSome
  | _ => false

theorem Alike.refl_cons {colored : Bool} {cs ds : List (Converter κ)}
    (c : Converter κ)
    (hlast : c = .level → colored = true → cs.isEmpty = ds.isEmpty)
    (hrest : Alike colored cs ds) : Alike colored (c :: cs) (c :: ds) := by
  by_cases hlevel : c = .level
  · subst hlevel
    exact .level (hlast rfl) hrest
  · exact .same hlevel hrest

/-- Converters with alike children in front of rows that are alike. -/
theorem Alike.attachChildren {colored : Bool}
    {cs ds inner inner' : List (Converter κ)} {c : Converter κ}
    (hinner : Alike c.setsColor inner inner')
    (hlast : c = .level → colored = true → cs.isEmpty = ds.isEmpty)
    (hrest : Alike colored cs ds) :
    Alike colored (c.attachChildren inner :: cs)
      (c.attachChildren inner' :: ds) := by
  cases c with
  | color c children scratch => exact .color hinner hrest
  | custom state children => exact .custom hinner hrest
  | level => exact .level (hlast rfl) hrest
  | literal _ | date _ | logger _ | message | fields =>
      exact .same (by simp [Converter.attachChildren]) hrest

end Converter

namespace Pattern

open Converter (Alike)

variable {κ : Type}

/-! ### References of merged patterns -/

theorem references_prepend (node : Node) (nodes : List Node) :
    references (prepend node nodes) =
      nodeReferences node ++ references nodes := by
  cases node with
  | converter name options children => rw [prepend_converter, references]
  | literal t =>
      rw [nodeReferences, List.nil_append]
      obtain ⟨-, heq⟩ | ⟨-, ⟨u, rest, rfl, heq⟩ | ⟨-, heq⟩⟩ :=
        prepend_literal_cases t nodes
      · rw [heq]
      · rw [heq, references, references, nodeReferences, nodeReferences]
      · rw [heq, references, nodeReferences, List.nil_append]

theorem references_merged :
    (nodes : List Node) → references (merged nodes) = references nodes
  | [] => by rw [merged]
  | .literal t :: rest => by
      rw [merged, references_prepend, mergedNode, references,
        references_merged rest]
  | .converter name options children :: rest => by
      rw [merged, references_prepend, mergedNode, references, nodeReferences,
        nodeReferences, references_merged children, references_merged rest]

section Compile

variable {ext : Extension κ} {registry : Registry κ}

theorem failure?_compile_merged (ext : Extension κ) (registry : Registry κ)
    (nodes : List Node) :
    failure? (compile ext registry (merged nodes)) =
      failure? (compile ext registry nodes) := by
  rw [failure?_compile, failure?_compile, references_merged]

theorem exists_compile_merged {nodes : List Node} {cs : List (Converter κ)}
    (h : compile ext registry nodes = .ok cs) :
    ∃ ds, compile ext registry (merged nodes) = .ok ds := by
  rw [← failure?_eq_none_iff, failure?_compile_merged, failure?_eq_none_iff]
  exact ⟨cs, h⟩

/-! ### Converters of merged patterns -/

variable (ext registry) in
mutual

/-- No color among the children is set again for empty literals alone, and no
reference has them alone as children in place of those that its converter comes
with. -/
def SettledNode : Node → Prop
  | .literal _ => True
  | .converter name options children =>
      ∀ c, Reference.configure ext registry ⟨name, options⟩ = .ok c →
        (merged children = [] → children = [] ∨ c.attachChildren [] = c) ∧
          Settled c.setsColor children

/-- Among these nodes, if they are `colored` children of a color that is set,
no level has empty literals alone behind it; and so among the children of
each. -/
def Settled (colored : Bool) : List Node → Prop
  | [] => True
  | node :: rest =>
      (colored = true → compileNode ext registry node = .ok .level →
        merged rest = [] → rest = []) ∧
        SettledNode node ∧ Settled colored rest

end

/-- A reference and the one with its children merged, in front of rows that are
alike. -/
theorem alike_reference {colored : Bool} {name : Text} {options : List Text}
    {children : List Node} {c d : Converter κ} {cs ds : List (Converter κ)}
    (hc : compileNode ext registry (.converter name options children) = .ok c)
    (hd : compileNode ext registry (.converter name options (merged children)) =
      .ok d)
    (hsettled : SettledNode ext registry (.converter name options children))
    (hinner : ∀ sets inner inner', compile ext registry children = .ok inner →
      compile ext registry (merged children) = .ok inner' →
      Settled ext registry sets children → Alike sets inner inner')
    (hlast : c = .level → colored = true → cs.isEmpty = ds.isEmpty)
    (hrest : Alike colored cs ds) : Alike colored (c :: cs) (d :: ds) := by
  obtain ⟨configured, hconfigured, hc⟩ := compileNode_configured hc
  obtain ⟨other, hother, hd⟩ := compileNode_configured hd
  obtain rfl : configured = other :=
    Except.ok.inj (hconfigured.symm.trans hother)
  rw [SettledNode] at hsettled
  obtain ⟨hempty, hchildren⟩ := hsettled configured hconfigured
  have hlevel : configured = .level → colored = true →
      cs.isEmpty = ds.isEmpty := by
    rintro rfl
    apply hlast
    obtain ⟨-, rfl⟩ | ⟨-, inner, -, rfl⟩ := hc <;> rfl
  obtain ⟨rfl, rfl⟩ | ⟨hne, inner, hcompile, rfl⟩ := hc
  · obtain ⟨-, rfl⟩ | ⟨hsome, -⟩ := hd
    · exact .refl_cons _ hlevel hrest
    · exact absurd (by rw [merged]) hsome
  · obtain ⟨hnone, rfl⟩ | ⟨-, inner', hcompile', rfl⟩ := hd
    -- only empty literals: they are attached on the left, and nothing is on
    -- the right
    · have hnil : compile ext registry (merged children) = .ok [] := by
        rw [hnone, compile]
      have hdrop : d.attachChildren [] = d := (hempty hnone).resolve_left hne
      have halike := Alike.attachChildren
        (hinner _ inner [] hcompile hnil hchildren) hlevel hrest
      rwa [hdrop] at halike
    · exact .attachChildren (hinner _ inner inner' hcompile hcompile' hchildren)
        hlevel hrest

theorem compile_literal_cases {t : Text} {rest : List Node}
    {cs : List (Converter κ)}
    (h : compile ext registry (.literal t :: rest) = .ok cs) :
    ∃ more, compile ext registry rest = .ok more ∧ cs = .literal t :: more := by
  obtain ⟨c, more, hc, hmore, rfl⟩ := compile_cons_cases h
  rw [compileNode] at hc
  obtain rfl := Except.ok.inj hc
  exact ⟨more, hmore, rfl⟩

/-- The converters of a pattern are alike those of the merged one. -/
theorem alike_of_compile : (nodes : List Node) →
    ∀ {colored : Bool} {cs ds : List (Converter κ)},
    compile ext registry nodes = .ok cs →
    compile ext registry (merged nodes) = .ok ds →
      Settled ext registry colored nodes → Alike colored cs ds
  | [], colored, cs, ds, hcs, hds, _ => by
      rw [compile] at hcs
      rw [merged, compile] at hds
      obtain rfl := Except.ok.inj hcs
      obtain rfl := Except.ok.inj hds
      exact .nil
  | .literal t :: rest, colored, cs, ds, hcs, hds, hsettled => by
      obtain ⟨cs, hmore, rfl⟩ := compile_literal_cases hcs
      rw [Settled] at hsettled
      have hrest : ∀ ds, compile ext registry (merged rest) = .ok ds →
          Alike colored cs ds :=
        fun ds hds => alike_of_compile rest hmore hds hsettled.2.2
      rw [merged, mergedNode] at hds
      obtain ⟨rfl, heq⟩ | ⟨-, ⟨u, nodes, hnodes, heq⟩ | ⟨-, heq⟩⟩ :=
        prepend_literal_cases t (merged rest)
      · rw [heq] at hds
        exact .skip (hrest ds hds)
      · rw [heq] at hds
        obtain ⟨ds, hbehind, rfl⟩ := compile_literal_cases hds
        refine .join (hrest (.literal u :: ds) ?_)
        rw [hnodes, compile, compileNode, hbehind]
        rfl
      · rw [heq] at hds
        obtain ⟨ds, hbehind, rfl⟩ := compile_literal_cases hds
        exact .same (by simp) (hrest ds hbehind)
  | .converter name options children :: rest,
    colored, cs, ds, hcs, hds, hsettled => by
      rw [merged, mergedNode, prepend_converter] at hds
      obtain ⟨c, cs, hc, hmore, rfl⟩ := compile_cons_cases hcs
      obtain ⟨d, ds, hd, hmore', rfl⟩ := compile_cons_cases hds
      rw [Settled] at hsettled
      obtain ⟨hlast, hnode, hbehind⟩ := hsettled
      refine alike_reference hc hd hnode
        (fun _ _ _ hinner hinner' hchildren =>
          alike_of_compile children hinner hinner' hchildren)
        (fun hlevel hcolored => ?_) (alike_of_compile rest hmore hmore' hbehind)
      have hempty : merged rest = [] ↔ rest = [] :=
        ⟨hlast hcolored (hlevel ▸ hc), fun hnil => by rw [hnil, merged]⟩
      rw [isEmpty_compile hmore, isEmpty_compile hmore', Bool.eq_iff_iff,
        List.isEmpty_iff, List.isEmpty_iff, hempty]

end Compile

namespace MergedWitness

/-- The built-in converters, and a custom one with children. -/
def registry : Registry Sample :=
  Registry.builtins.register "wrap".toList (.custom (.wrap []) [])

/-- Literals side by side and empty ones, also behind a level in a color and
among the children of a custom converter. -/
def nodes : List Node :=
  [.literal ['a'], .literal [],
    .converter "color".toList ["red".toList]
      [.converter "level".toList [] [], .literal [], .literal [' ']],
    .converter "wrap".toList [] [.literal ['b'], .literal ['c']],
    .literal ['d']]

def event : Event := .new .info .epoch ['m']

theorem printable_empty : Printable (.literal []) :=
  .literal (List.forall_mem_nil _)

theorem printable_letter {c : Char} (h : IsPlain c) :
    Printable (.literal [c]) :=
  .literal (List.forall_mem_singleton.mpr h)

theorem printable_level : Printable (.converter "level".toList [] []) :=
  .converter ⟨'l', _, rfl, rfl, List.all_eq_true.mp (by decide)⟩ (by simp)
    (List.forall_mem_nil _) (List.forall_mem_nil _)

theorem printable_red {children : List Node}
    (h : ∀ child ∈ children, Printable child) :
    Printable (.converter "color".toList ["red".toList] children) := by
  have hred : ∀ o ∈ ["red".toList], NormalOption o :=
    (splitOptions_spec
      (show nesting '\x7b' '\x7d' 0 "red".toList = some 0 by decide)).2.2
  exact .converter ⟨'c', _, rfl, rfl, List.all_eq_true.mp (by decide)⟩
    (by decide) hred h

/-- A level in a color, with an empty literal behind it. -/
def lastLevel : List Node :=
  [.converter "color".toList ["red".toList]
    [.converter "level".toList [] [], .literal []]]

/-- A name, and a letter behind an empty literal. -/
def cutName : List Node :=
  [.converter ['a'] [] [], .literal [], .literal ['b']]

/-- An empty literal in place of the child that a converter comes with. -/
def emptied : List Node :=
  [.converter "own".toList [] [.literal []]]

def ownRegistry : Registry Sample :=
  [("own".toList, .custom (.wrap []) [.literal ['x']])]

end MergedWitness

end Pattern

end Logline
