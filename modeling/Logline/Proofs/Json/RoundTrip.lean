import Logline.Json.Reader
import Logline.Proofs.Entries
import Logline.Proofs.Json.Steps
import Logline.Proofs.Json.Tokens
import Logline.Proofs.Text.Utf8
/-!
Reading what is written.  A value without doubles, whose integers have 64 bits
and whose objects have no key twice, is read from its compact text as it is
(`read_text`), if it is not nested deeper than the reader goes.
-/
namespace Logline

namespace Json

mutual

/-- How many arrays and objects are around the innermost value. -/
def depth : Json → Nat
  | .array items => depthAll items + 1
  | .object entries => depthEntries entries + 1
  | _ => 0

def depthAll : List Json → Nat
  | [] => 0
  | v :: rest => max (depth v) (depthAll rest)

def depthEntries : List (Text × Json) → Nat
  | [] => 0
  | (_, v) :: rest => max (depth v) (depthEntries rest)

end

mutual

/-- The text of the value says all of it. -/
def Exact : Json → Prop
  | .number (.integer n) => InRange n
  | .number (.double _) => False
  | .array items => ExactAll items
  | .object entries => (entries.map Prod.fst).Nodup ∧ ExactEntries entries
  | _ => True

def ExactAll : List Json → Prop
  | [] => True
  | v :: rest => Exact v ∧ ExactAll rest

def ExactEntries : List (Text × Json) → Prop
  | [] => True
  | (_, v) :: rest => Exact v ∧ ExactEntries rest

end

theorem exactEntries_iff {entries : List (Text × Json)} :
    ExactEntries entries ↔ ∀ entry ∈ entries, Exact entry.2 := by
  induction entries with
  | nil => simp [ExactEntries]
  | cons entry entries ih => simp [ExactEntries, ih]

theorem depthEntries_le_iff {entries : List (Text × Json)} {n : Nat} :
    depthEntries entries ≤ n ↔ ∀ entry ∈ entries, depth entry.2 ≤ n := by
  induction entries with
  | nil => simp [depthEntries]
  | cons entry entries ih =>
      rw [depthEntries, Nat.max_le, ih, List.forall_mem_cons]

theorem commaJoin_cons (t : Text) (ts : List Text) :
    commaJoin (t :: ts) = t ++ ts.flatMap (',' :: ·) :=
  intercalate_cons ',' t ts

namespace Reader

/-- The reader after the tokens of these symbols. -/
def after (r : Reader) (s : List Symbol) : Except Fault Reader :=
  (tokensFrom 0 s).foldlM step r

theorem after_token {r next : Reader} {token : Token} {s rest : List Symbol}
    (htokens : tokensFrom 0 s = token :: tokensFrom 0 rest)
    (hstep : r.step token = .ok next) :
    r.after s = next.after rest := by
  rw [after, htokens, List.foldlM_cons, hstep, Except.ok_bind]
  rfl

/-- What follows a value in an array or object, or a document, ends an
integer. -/
theorem endsInteger_flatMap (ts : List Text) {closer : Char}
    {rest : List Symbol} (hcloser : EndsInteger (some closer :: rest)) :
    EndsInteger ((ts.flatMap (',' :: ·)).map some ++ some closer :: rest) := by
  cases ts with
  | nil => exact hcloser
  | cons t ts => exact ⟨by decide, by decide, by decide, by decide⟩

theorem tokensFrom_closeArray (rest : List Symbol) :
    tokensFrom 0 (some ']' :: rest) = .closeArray :: tokensFrom 0 rest := rfl

theorem tokensFrom_closeObject (rest : List Symbol) :
    tokensFrom 0 (some '\x7d' :: rest) = .closeObject :: tokensFrom 0 rest :=
  rfl

theorem endsInteger_closeArray (rest : List Symbol) :
    EndsInteger (some ']' :: rest) :=
  ⟨by decide, by decide, by decide, by decide⟩

theorem endsInteger_closeObject (rest : List Symbol) :
    EndsInteger (some '\x7d' :: rest) :=
  ⟨by decide, by decide, by decide, by decide⟩

mutual

/-- The text of a value takes the reader to where the value is complete. -/
theorem after_text :
    ∀ (v : Json) (opened : Bool) (frames : List Frame) (rest : List Symbol),
    Exact v → frames.length + depth v ≤ maxDepth → EndsInteger rest →
      (Reader.mk (.value opened) frames).after (v.text.map some ++ rest) =
        (complete v frames).after rest
  | .null, opened, frames, rest, _, _, _ => after_token rfl rfl
  | .bool true, opened, frames, rest, _, _, _ => after_token rfl rfl
  | .bool false, opened, frames, rest, _, _, _ => after_token rfl rfl
  | .number (.integer n), opened, frames, rest, hexact, _, hrest =>
      after_token (tokensFrom_ofInt hexact hrest) rfl
  | .number (.double _), _, _, _, hexact, _, _ => absurd hexact id
  | .string t, opened, frames, rest, _, _, _ =>
      after_token (tokensFrom_quoted t rest) rfl
  | .array [], opened, frames, rest, _, hdepth, _ => by
      have hopen := step_openArray opened frames
        (by rw [depth] at hdepth; omega)
      have hbracket : tokensFrom 0 (some '[' :: some ']' :: rest) =
          .openArray :: tokensFrom 0 (some ']' :: rest) := rfl
      exact (after_token hbracket hopen).trans
        (after_token (tokensFrom_closeArray rest) rfl)
  | .array (v :: items), opened, frames, rest, hexact, hdepth, _ => by
      have hopen := step_openArray opened frames
        (by rw [depth] at hdepth; omega)
      have hnested : (Frame.array [] :: frames).length +
          max (depth v) (depthAll items) ≤
          maxDepth := by
        rw [depth, depthAll] at hdepth
        rw [List.length_cons]
        omega
      have htext : (text (.array (v :: items))).map some ++ rest =
          some '[' :: (v.text.map some ++
            (((itemTexts items).flatMap (',' :: ·)).map some ++
              some ']' :: rest)) := by
        rw [text, itemTexts, commaJoin_cons]
        simp
      rw [htext, after_token rfl hopen,
        after_text v true _ _ hexact.1 (by omega)
          (endsInteger_flatMap _ (endsInteger_closeArray rest))]
      exact after_items items [v] frames rest hexact.2
        (by rw [List.length_cons] at hnested; omega)
  | .object [], opened, frames, rest, _, hdepth, _ => by
      have hopen := step_openObject opened frames
        (by rw [depth] at hdepth; omega)
      have hbrace : tokensFrom 0 (some '\x7b' :: some '\x7d' :: rest) =
          .openObject :: tokensFrom 0 (some '\x7d' :: rest) := rfl
      exact (after_token hbrace hopen).trans
        (after_token (tokensFrom_closeObject rest) rfl)
  | .object ((key, v) :: entries), opened, frames, rest, hexact, hdepth, _ => by
      have hopen := step_openObject opened frames
        (by rw [depth] at hdepth; omega)
      have hnested : (Frame.object [] key :: frames).length +
          max (depth v) (depthEntries entries) ≤ maxDepth := by
        rw [depth, depthEntries] at hdepth
        rw [List.length_cons]
        omega
      have htext : (text (.object ((key, v) :: entries))).map some ++ rest =
          some '\x7b' :: ((quoted key).map some ++
            some ':' :: (v.text.map some ++
            (((entryTexts entries).flatMap (',' :: ·)).map some ++
              some '\x7d' :: rest))) := by
        rw [text, entryTexts, commaJoin_cons]
        simp
      rw [htext, after_token rfl hopen,
        after_token (tokensFrom_quoted key _) rfl, after_token rfl rfl,
        after_text v false (.object [] key :: frames) _ hexact.2.1 (by omega)
          (endsInteger_flatMap _ (endsInteger_closeObject rest))]
      exact after_entries entries [(key, v)] key frames rest hexact.2.2 hexact.1
        (by rw [List.length_cons] at hnested; omega)

/-- The items behind the first ones of an array. -/
theorem after_items :
    ∀ (items done : List Json) (frames : List Frame) (rest : List Symbol),
    ExactAll items → frames.length + 1 + depthAll items ≤ maxDepth →
      (Reader.mk .separator (.array done.reverse :: frames)).after
          (((itemTexts items).flatMap (',' :: ·)).map some ++
            some ']' :: rest) =
        (complete (.array (done ++ items)) frames).after rest
  | [], done, frames, rest, _, _ => by
      rw [List.append_nil]
      refine (after_token (tokensFrom_closeArray rest) rfl).trans ?_
      rw [List.reverse_reverse]
  | v :: items, done, frames, rest, hexact, hdepth => by
      have hnested : (Frame.array done.reverse :: frames).length +
          max (depth v) (depthAll items) ≤ maxDepth := by
        rw [depthAll] at hdepth
        rw [List.length_cons]
        omega
      have htext : ((itemTexts (v :: items)).flatMap (',' :: ·)).map some ++
          some ']' :: rest =
          some ',' :: (v.text.map some ++
            (((itemTexts items).flatMap (',' :: ·)).map some ++
              some ']' :: rest)) := by
        rw [itemTexts, List.flatMap_cons]
        simp
      have hdone : v :: done.reverse = (done ++ [v]).reverse := by
        simp
      rw [htext, after_token rfl rfl, after_text v false _ _ hexact.1 (by omega)
          (endsInteger_flatMap _ (endsInteger_closeArray rest)),
          complete, hdone,
        after_items items (done ++ [v]) frames rest hexact.2
          (by rw [List.length_cons] at hnested; omega),
        List.append_assoc, List.singleton_append]

/-- The entries behind the first ones of an object. -/
theorem after_entries :
    ∀ (entries : List (Text × Json)) (done : Entries Json) (old : Text)
      (frames : List Frame) (rest : List Symbol), ExactEntries entries →
      ((done ++ entries).map Prod.fst).Nodup →
      frames.length + 1 + depthEntries entries ≤ maxDepth →
      (Reader.mk .separator (.object done old :: frames)).after
          (((entryTexts entries).flatMap (',' :: ·)).map some ++
            some '\x7d' :: rest) =
        (complete (.object (done ++ entries)) frames).after rest
  | [], done, old, frames, rest, _, _, _ => by
      rw [List.append_nil]
      exact after_token (tokensFrom_closeObject rest) rfl
  | (key, v) :: entries, done, old, frames, rest, hexact, hnodup, hdepth => by
      have hnested : (Frame.object done key :: frames).length +
          max (depth v) (depthEntries entries) ≤ maxDepth := by
        rw [depthEntries] at hdepth
        rw [List.length_cons]
        omega
      have htext :
          ((entryTexts ((key, v) :: entries)).flatMap (',' :: ·)).map some ++
            some '\x7d' :: rest =
          some ',' :: ((quoted key).map some ++ some ':' :: (v.text.map some ++
            (((entryTexts entries).flatMap (',' :: ·)).map some ++
              some '\x7d' :: rest))) := by
        rw [entryTexts, List.flatMap_cons]
        simp
      have hinsert : done.insert key v = done ++ [(key, v)] := by
        apply Entries.insert_of_not_mem
        intro hmem
        rw [List.map_append, List.nodup_append] at hnodup
        exact hnodup.2.2 key hmem key (by simp) rfl
      have hsplit : done ++ (key, v) :: entries =
          (done ++ [(key, v)]) ++ entries := by
        simp
      rw [hsplit] at hnodup ⊢
      rw [htext, after_token rfl rfl, after_token (tokensFrom_quoted key _) rfl,
        after_token rfl rfl,
        after_text v false (.object done key :: frames) _ hexact.1 (by omega)
          (endsInteger_flatMap _ (endsInteger_closeObject rest)),
          complete, hinsert,
        after_entries entries (done ++ [(key, v)]) key frames rest
          hexact.2 hnodup
          (by rw [List.length_cons] at hnested; omega)]

end

end Reader

/-- A value is read from its text. -/
theorem read_text {v : Json} (hexact : Exact v)
    (hdepth : depth v ≤ Reader.maxDepth) :
    read (Text.utf8 v.text) = .ok v := by
  have hafter := Reader.after_text v false [] [] hexact
    (by simpa using hdepth) trivial
  rw [List.append_nil] at hafter
  rw [read, ofTokens, tokens, Utf8.symbols_utf8]
  change Reader.start.after (v.text.map some) >>= Reader.finish = .ok v
  rw [Reader.start, hafter]
  rfl

end Json

end Logline
