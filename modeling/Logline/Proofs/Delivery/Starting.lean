import Logline.Proofs.Delivery.Order
/-!
What a start leaves.  The sink is out of the delivery before the thread of the
worker is spawned, and does not come back if that fails.  So the first start
decides: if it succeeds, the worker has the sink, and no later start does
anything; if it does not, no later start does anything either, and although
each of them answers that all is well, nothing ever reaches the sink
(`start_decided_by_first`).
-/
namespace Logline.Delivery

variable {σ : Type}

/-- What spawning a thread of this name comes to, if the system has one to
spare. -/
def spawn (name : Text) : Outcome Unit :=
  if name.contains '\x00' then .panicked (threadNameFailure name) else .done ()

/-- A start for which spawning the worker's thread comes to `spawned`. -/
def startWith (spawned : Outcome Unit) (d : Delivery σ) :
    Delivery σ × Outcome Unit :=
  match d.pending with
  | none => (d, .done ())
  | some sink =>
    let d := { d with pending := none }
    match spawned with
    | .done () =>
      ({ d with worker := some (.new sink), joinable := true, started := true },
        .done ())
    | refused => (d, refused)

theorem start_eq_startWith (d : Delivery σ) :
    d.start = d.startWith (spawn d.threadName) := by
  rw [start, startWith, spawn]
  cases d.pending with
  | none => rfl
  | some sink =>
      dsimp only
      split <;> rfl

section StartWith

variable {d : Delivery σ} {sink : σ} {spawned : Outcome Unit}

theorem startWith_of_decided (hpending : d.pending = none) :
    d.startWith spawned = (d, .done ()) := by
  rw [startWith, hpending]

theorem startWith_done (hpending : d.pending = some sink) :
    d.startWith (.done ()) =
      ({ d with
          pending := none
          worker := some (.new sink)
          joinable := true
          started := true }, .done ()) := by
  rw [startWith, hpending]

theorem startWith_refused (hpending : d.pending = some sink)
    (hrefused : spawned ≠ .done ()) :
    d.startWith spawned = ({ d with pending := none }, spawned) := by
  rw [startWith, hpending]
  cases spawned with
  | done => exact absurd rfl hrefused
  | failed e => rfl
  | panicked p => rfl

end StartWith

namespace Session

/-- A session that can be reached, with the answers of its starts so far.  What
spawning a thread comes to is for the system to say, each time anew. -/
inductive Reaches (ds : Downstream σ) (d : Delivery σ) :
    List (Outcome Unit) → Session σ → Prop
  | new : Reaches ds d [] (new d)
  | act {answers : List (Outcome Unit)} {s s' : Session σ} {action : Action} :
      Reaches ds d answers s → action ≠ .start → s.act ds action = some s' →
      Reaches ds d answers s'
  | start {answers : List (Outcome Unit)} {s : Session σ}
      (spawned : Outcome Unit) :
      Reaches ds d answers s → s.producer = .idle →
      Reaches ds d (answers ++ [(s.delivery.startWith spawned).2])
        { s with delivery := (s.delivery.startWith spawned).1 }

/-- What the starts so far have made of the sink and the worker. -/
structure Decided (sink₀ : σ) (answers : List (Outcome Unit)) (s : Session σ) :
    Prop where
  queue_valid : s.queue.Valid
  undecided : answers = [] → s.delivery.pending = some sink₀
  decided : answers ≠ [] → s.delivery.pending = none
  later : ∀ answer ∈ answers.tail, answer = .done ()
  started_iff : s.delivery.started = true ↔ answers.head? = some (.done ())
  worker_iff : s.delivery.worker.isSome = true ↔ answers.head? = some (.done ())
  untouched : s.delivery.worker = none →
    s.calls = [] ∧ s.queue.contents = s.accepted

section Actions

variable {ds : Downstream σ} {sink₀ : σ} {answers : List (Outcome Unit)}
  {s s' : Session σ}

theorem decided_new {config : Config} {d : Delivery σ}
    (hnew : Delivery.new config sink₀ = .ok d) : (new d).Decided sink₀ [] := by
  obtain ⟨queue, hqueue, rfl⟩ := eq_of_new hnew
  obtain ⟨hvalid, -, hcontents, -⟩ := Ring.valid_of_new hqueue
  refine ⟨hvalid, fun _ => rfl, ?_, ?_, ?_, ?_, fun _ => ⟨rfl, hcontents⟩⟩
  · intro hne
    contradiction
  · intro answer hmem
    contradiction
  · simp [new]
  · simp [new]

/-- Only a start touches the sink that is pending and the flag, or makes a
worker. -/
theorem act_pending_of_ne_start {action : Action}
    (hact : s.act ds action = some s') (hne : action ≠ .start) :
    s'.delivery.pending = s.delivery.pending ∧
      s'.delivery.started = s.delivery.started ∧
      s'.delivery.worker.isSome = s.delivery.worker.isSome := by
  by_cases hwork : action = .work
  · subst hwork
    obtain ⟨w, w', x', hworker, -, rfl⟩ := work_eq_some hact
    rw [hworker]
    exact ⟨rfl, rfl, rfl⟩
  · obtain ⟨joinable, x, hframe⟩ := act_frame hact hne hwork
    rw [hframe]
    exact ⟨rfl, rfl, rfl⟩

theorem Decided.act (h : s.Decided sink₀ answers) {action : Action}
    (hact : s.act ds action = some s') (hne : action ≠ .start) :
    s'.Decided sink₀ answers := by
  obtain ⟨hpending, hstarted, hworker⟩ := act_pending_of_ne_start hact hne
  refine ⟨act_queue_valid h.queue_valid hact, ?_, ?_, h.later, ?_, ?_, ?_⟩
  · rw [hpending]
    exact h.undecided
  · rw [hpending]
    exact h.decided
  · rw [hstarted]
    exact h.started_iff
  · rw [hworker]
    exact h.worker_iff
  · intro hnone
    rw [hnone, Option.isSome_none, eq_comm, Option.isSome_eq_false_iff,
      Option.isNone_iff_eq_none] at hworker
    have hidle : action ≠ .work := by
      rintro rfl
      obtain ⟨w, w', x', hsome, -⟩ := work_eq_some hact
      rw [hworker] at hsome
      contradiction
    obtain ⟨hcalls, new, haccepted, hcontents⟩ :=
      act_calls_of_ne_work h.queue_valid hact hidle
    obtain ⟨hsilent, hqueued⟩ := h.untouched hworker
    rw [hcalls, hcontents, haccepted, hqueued]
    exact ⟨hsilent, rfl⟩

theorem Decided.start (h : s.Decided sink₀ answers) (spawned : Outcome Unit) :
    { s with delivery := (s.delivery.startWith spawned).1 }.Decided sink₀
      (answers ++ [(s.delivery.startWith spawned).2]) := by
  cases answers with
  | cons first rest =>
      rw [startWith_of_decided (h.decided (List.cons_ne_nil _ _))]
      refine ⟨h.queue_valid, ?_, ?_, ?_, h.started_iff,
        h.worker_iff, h.untouched⟩
      · intro hnil
        contradiction
      · exact fun _ => h.decided (List.cons_ne_nil _ _)
      · intro answer hmem
        rcases List.mem_append.mp hmem with hmem | hmem
        · exact h.later answer hmem
        · exact List.mem_singleton.mp hmem
  | nil =>
      have hpending := h.undecided rfl
      have hlater : ∀ answer ∈ [].tail, answer = Outcome.done () := h.later
      by_cases hdone : spawned = .done ()
      · rw [hdone, startWith_done hpending]
        refine ⟨h.queue_valid, ?_, fun _ => rfl, hlater, ?_, ?_, ?_⟩
        · intro hnil
          contradiction
        · simp
        · simp
        · intro hnone
          contradiction
      · have hstarted := h.started_iff
        have hworker := h.worker_iff
        rw [startWith_refused hpending hdone]
        refine ⟨h.queue_valid, ?_, fun _ => rfl, hlater, ?_, ?_, h.untouched⟩
        · intro hnil
          contradiction
        · simpa [hdone] using hstarted
        · simpa [hdone] using hworker

theorem Reaches.decided {config : Config} {d : Delivery σ}
    (hnew : Delivery.new config sink₀ = .ok d) (h : Reaches ds d answers s) :
    s.Decided sink₀ answers := by
  induction h with
  | new => exact decided_new hnew
  | act _ hne hact ih => exact ih.act hact hne
  | start spawned _ _ ih => exact ih.start spawned

/-- A start in a run is one for which spawning the thread comes to what its name
says. -/
theorem Reaches.run {d : Delivery σ} (h : ∃ answers, Reaches ds d answers s)
    {actions : List Action} (hrun : s.run ds actions = some s') :
    ∃ answers, Reaches ds d answers s' := by
  refine run_induction (P := fun s => ∃ answers, Reaches ds d answers s)
    ?_ hrun h
  rintro before after action hact ⟨answers, hbefore⟩
  by_cases hstart : action = .start
  · subst hstart
    obtain ⟨hidle, rfl⟩ := eq_of_act_start hact
    rw [start_eq_startWith]
    exact ⟨_, hbefore.start _ hidle⟩
  · exact ⟨answers, hbefore.act hstart hact⟩

end Actions

/-- The first start decides.  A delivery has started, and a worker has its sink,
exactly if the first start has succeeded; if it has not, nothing has been asked
of the sink, and all that was accepted is in the queue.  The first start loses
the sink if the thread of the worker cannot be spawned, and fails as that does.
Every later start changes nothing and succeeds. -/
theorem start_decided_by_first {ds : Downstream σ} {config : Config} {sink : σ}
    {d : Delivery σ} (hnew : Delivery.new config sink = .ok d)
    {answers : List (Outcome Unit)} {s : Session σ}
    (h : Reaches ds d answers s) :
    (s.delivery.started = true ↔ answers.head? = some (.done ())) ∧
    (s.delivery.worker.isSome = true ↔ answers.head? = some (.done ())) ∧
    (answers.head? ≠ some (.done ()) →
      s.calls = [] ∧ s.queue.contents = s.accepted) ∧
    (∀ answer ∈ answers.tail, answer = .done ()) ∧
    (answers = [] →
      s.delivery.startWith (.done ()) =
        ({ s.delivery with
            pending := none
            worker := some (.new sink)
            joinable := true
            started := true }, .done ()) ∧
      ∀ spawned, spawned ≠ .done () →
        s.delivery.startWith spawned =
          ({ s.delivery with pending := none }, spawned)) ∧
    (answers ≠ [] → ∀ spawned,
      s.delivery.startWith spawned = (s.delivery, .done ())) := by
  have hdecided := h.decided hnew
  refine ⟨hdecided.started_iff, hdecided.worker_iff, ?_, hdecided.later, ?_, ?_⟩
  · intro hfirst
    apply hdecided.untouched
    rw [← Option.isNone_iff_eq_none, ← Option.not_isSome, Bool.not_eq_true',
      Bool.eq_false_iff, ne_eq, hdecided.worker_iff]
    exact hfirst
  · intro hfresh
    have hpending := hdecided.undecided hfresh
    exact ⟨startWith_done hpending,
      fun _ hrefused => startWith_refused hpending hrefused⟩
  · exact fun hlater _ => startWith_of_decided (hdecided.decided hlater)

namespace StartingWitness

open OrderWitness (downstream)

/-- After a start that the system had no thread for. -/
def refused : Session Unit :=
  ⟨{ OrderWitness.delivery with pending := none }, .idle, []⟩

/-- A second start, after a write. -/
theorem start_decided_by_first_sample :
    Delivery.new ⟨4, 1, []⟩ () = .ok OrderWitness.delivery ∧
    ∃ s : Session Unit,
      Reaches downstream OrderWitness.delivery [.failed (.io []), .done ()] s ∧
      s.accepted = [[5]] ∧ s.delivery.started = false ∧
      s.delivery.worker.isSome = false ∧ s.calls = [] ∧
      s.queue.contents = [[5]] ∧
      ∀ spawned, s.delivery.startWith spawned = (s.delivery, .done ()) := by
  have hnew : Delivery.new ⟨4, 1, []⟩ () = .ok OrderWitness.delivery := rfl
  have hrefused : Reaches downstream OrderWitness.delivery
      [.failed (.io [])] refused :=
    Reaches.new.start (.failed (.io [])) rfl
  have hoffered : Reaches downstream OrderWitness.delivery [.failed (.io [])]
      (refused.offer [5]) :=
    hrefused.act (by decide : Action.offer [5] ≠ .start) rfl
  have hcounted : Reaches downstream OrderWitness.delivery [.failed (.io [])]
      { (refused.offer [5]).withExchange
          ((refused.offer [5]).delivery.exchange.tally true) with
        producer := .idle } :=
    hoffered.act (by decide : Action.count ≠ .start) rfl
  have hagain := hcounted.start (.done ()) rfl
  obtain ⟨hstarted, hworker, huntouched, -, -, hlater⟩ :=
    start_decided_by_first hnew hagain
  have hfirst : ([.failed (.io []), .done ()] : List (Outcome Unit)).head? ≠
      some (.done ()) := by decide
  obtain ⟨hcalls, hcontents⟩ := huntouched hfirst
  refine ⟨hnew, _, hagain, rfl, ?_, ?_, hcalls, hcontents,
    hlater (List.cons_ne_nil _ _)⟩
  · exact Bool.eq_false_iff.mpr (mt hstarted.mp hfirst)
  · exact Bool.eq_false_iff.mpr (mt hworker.mp hfirst)

/-- No thread can have this name. -/
def unnamable : Delivery Unit :=
  { OrderWitness.delivery with threadName := ['\x00'] }

/-- The thread's name makes the first start panic.  The sink is gone with it,
and the next start succeeds without starting anything. -/
theorem start_after_refusal :
    Delivery.new ⟨4, 1, ['\x00']⟩ () = .ok unnamable ∧
    unnamable.start =
      ({ unnamable with pending := none },
        .panicked (threadNameFailure unnamable.threadName)) ∧
    unnamable.start.1 ≠ unnamable ∧
    unnamable.start.1.start = (unnamable.start.1, .done ()) ∧
    unnamable.start.1.start.1.started = false ∧
    unnamable.start.1.start.1.worker = none := by
  refine ⟨rfl, rfl, ?_, rfl, rfl, rfl⟩
  intro hsame
  have hpending := congrArg Delivery.pending hsame
  contradiction

end StartingWitness

end Session

end Logline.Delivery
