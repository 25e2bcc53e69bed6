import Logline.Proofs.Delivery.Order
/-!
What a stop answers.  It closes the queue and waits for the worker, but there
is only one worker to wait for: a stop that gives up has used it up, and every
later one finds nothing to wait for and answers that all is well.  So a stop of
a delivery that has started answers true exactly if the worker has ended, with
everything done, or if an earlier stop has given up (`run_stop_answer`).
-/
namespace Logline.Delivery.Session

variable {σ : Type}

/-- The answer of a stop that returns with this action. -/
def answer (s : Session σ) : Action → List Bool
  | .join timeout => [(s.delivery.join timeout).1]
  | _ => []

/-- The answers of the stops in a run, in order. -/
def answers (ds : Downstream σ) (s : Session σ) : List Action → List Bool
  | [] => []
  | action :: rest =>
      s.answer action ++
        match s.act ds action with
        | some next => next.answers ds rest
        | none => []

/-- Where the worker and its handle are after stops with these answers. -/
structure Joins (answered : List Bool) (s : Session σ) : Prop where
  started : s.delivery.started = true →
    s.delivery.pending = none ∧ s.delivery.worker.isSome = true
  joinable : s.delivery.joinable = true →
    s.delivery.started = true ∧ false ∉ answered
  joined : s.delivery.started = true → s.delivery.joinable = false →
    s.IsEnded ∨ false ∈ answered
  refused : false ∈ answered → s.delivery.started = true

/-! ### The end of a stop -/

/-- A stop that returns has done well if there is nothing to wait for, or the
worker has ended. -/
theorem join_eq_true_iff (timeout : Duration) {d : Delivery σ} {w : Worker σ}
    (hworker : d.worker = some w) :
    (d.join timeout).1 = true ↔ d.joinable = false ∨ w.phase = .ended := by
  rw [Delivery.join, hworker, Option.map_some]
  cases hjoinable : d.joinable with
  | false => simp
  | true => cases hphase : w.phase <;> simp

/-- After a stop there is nothing to wait for. -/
theorem join_joinable (timeout : Duration) (d : Delivery σ) :
    (d.join timeout).2.joinable = false := by
  rw [Delivery.join]
  cases hjoinable : d.joinable with
  | false => simpa using hjoinable
  | true =>
      simp only [Bool.not_true, Bool.false_eq_true, ↓reduceIte]
      split <;> rfl

/-- Before the start there is nothing to wait for. -/
theorem join_of_not_joinable (timeout : Duration) {d : Delivery σ}
    (hjoinable : d.joinable = false) : (d.join timeout).1 = true := by
  rw [Delivery.join, hjoinable]
  rfl

section Actions

variable {ds : Downstream σ} {sink₀ : σ} {answered : List Bool}
  {s s' : Session σ}

/-! ### One action -/

/-- What the parties share has no part in it. -/
theorem Joins.of_exchange (h : s.Joins answered) {x : Exchange}
    (hdelivery : s'.delivery = { s.delivery with exchange := x }) :
    s'.Joins answered := by
  obtain ⟨delivery, producer, accepted⟩ := s'
  subst hdelivery
  exact ⟨h.started, h.joinable, h.joined, h.refused⟩

theorem Joins.offer (h : s.Joins answered) (payload : Bytes) :
    (s.offer payload).Joins answered := by
  rcases s.offer_cases payload with ⟨-, -, hoffer⟩ | hoffer <;> rw [hoffer]
  · exact h.of_exchange rfl
  · exact h.of_exchange rfl

theorem Joins.start (h : s.Joins answered) :
    { s with delivery := s.delivery.start.1 }.Joins answered := by
  rw [Delivery.start]
  cases hpending : s.delivery.pending with
  | none => exact h
  | some sink =>
      have hstarted : s.delivery.started = false := by
        by_contra hstarted
        rw [(h.started (Bool.eq_true_of_not_eq_false hstarted)).1] at hpending
        contradiction
      have hrefused : false ∉ answered := by
        intro hmem
        rw [h.refused hmem] at hstarted
        contradiction
      dsimp only
      split
      · refine ⟨?_, h.joinable, h.joined, h.refused⟩
        intro hstarted'
        rw [hstarted] at hstarted'
        contradiction
      · refine ⟨fun _ => ⟨rfl, rfl⟩, fun _ => ⟨rfl, hrefused⟩, ?_, fun _ => rfl⟩
        intro _ hjoinable
        contradiction

theorem Joins.join (h : s.Joins answered) (timeout : Duration)
    (producer : Producer) :
    { s with delivery := (s.delivery.join timeout).2, producer }.Joins
      (answered ++ [(s.delivery.join timeout).1]) := by
  have hjoinable := join_joinable timeout s.delivery
  obtain ⟨joinable, x, heq, -, -⟩ := join_eq timeout s.delivery
  rw [heq] at hjoinable ⊢
  refine ⟨h.started, ?_, ?_, ?_⟩
  · intro hyes
    rw [hjoinable] at hyes
    contradiction
  · intro hstarted _
    obtain ⟨w, hworker⟩ := Option.isSome_iff_exists.mp (h.started hstarted).2
    cases hbefore : s.delivery.joinable with
    | false =>
        exact (h.joined hstarted hbefore).imp id (List.mem_append_left _)
    | true =>
        by_cases hended : w.phase = .ended
        · exact .inl ⟨w, hworker, hended⟩
        · have hanswer : (s.delivery.join timeout).1 = false := by
            rw [Bool.eq_false_iff, ne_eq, join_eq_true_iff timeout hworker,
              hbefore]
            simpa using hended
          rw [hanswer]
          exact .inr (List.mem_append_right _ (List.mem_singleton_self false))
  · intro hmem
    rcases List.mem_append.mp hmem with hmem | hmem
    · exact h.refused hmem
    · have hbefore : s.delivery.joinable = true := by
        by_contra hbefore
        rw [join_of_not_joinable timeout (Bool.eq_false_of_not_eq_true hbefore)]
          at hmem
        simp at hmem
      exact (h.joinable hbefore).1

theorem Joins.work (h : s.Joins answered) (hwork : s.work ds = some s') :
    s'.Joins answered := by
  obtain ⟨w, w', x', hworker, hstep, rfl⟩ := work_eq_some hwork
  refine ⟨fun hstarted => ⟨(h.started hstarted).1, rfl⟩, h.joinable,
    ?_, h.refused⟩
  intro hstarted hjoinable
  refine (h.joined hstarted hjoinable).imp_left ?_
  -- a worker at its end takes no step
  rintro ⟨w₀, hworker₀, hphase⟩
  rw [hworker] at hworker₀
  obtain rfl := Option.some.inj hworker₀
  rw [Worker.step, hphase] at hstep
  contradiction

theorem act_joins (h : s.Joins answered) {action : Action}
    (hact : s.act ds action = some s') :
    s'.Joins (answered ++ s.answer action) := by
  rcases act_cases hact with ⟨payload, rfl, -, rfl⟩ | ⟨accepted, rfl, -, rfl⟩ |
    ⟨rfl, -, rfl⟩ | ⟨rfl, -, rfl⟩ | ⟨timeout, rfl, -, rfl⟩ | ⟨rfl, hwork⟩
  · simpa [answer] using h.offer payload
  · have hcount : { s.withExchange (s.delivery.exchange.tally accepted) with
        producer := .idle }.Joins answered := h.of_exchange rfl
    simpa [answer] using hcount
  · simpa [answer] using h.start
  · have hclose : { s with
        delivery := s.delivery.close, producer := .stopping }.Joins answered :=
      h.of_exchange rfl
    simpa [answer] using hclose
  · exact h.join timeout .idle
  · simpa [answer] using h.work hwork

theorem run_joins {actions : List Action} (h : s.Joins answered)
    (hrun : s.run ds actions = some s') :
    s'.Joins (answered ++ s.answers ds actions) := by
  induction actions generalizing s answered with
  | nil =>
      rw [run, Option.some.injEq] at hrun
      rw [answers, List.append_nil]
      exact hrun ▸ h
  | cons action rest ih =>
      obtain ⟨next, hnext, hrest⟩ := Option.bind_eq_some_iff.mp hrun
      have hafter := ih (act_joins h hnext) hrest
      rw [List.append_assoc] at hafter
      rw [answers, hnext]
      exact hafter

theorem joins_new {config : Config} {d : Delivery σ}
    (hnew : Delivery.new config sink₀ = .ok d) : (new d).Joins [] := by
  obtain ⟨queue, -, rfl⟩ := eq_of_new hnew
  constructor
  all_goals
    intro h
    contradiction

end Actions

/-- A stop of a delivery that has started answers true exactly if the worker
has ended or an earlier stop has answered false.  At the end of the worker the
queue is empty, and everything has been done for each accepted payload. -/
theorem run_stop_answer {ds : Downstream σ} {config : Config} {sink : σ}
    {d : Delivery σ} (hnew : Delivery.new config sink = .ok d)
    {actions : List Action} {s : Session σ}
    (hrun : (new d).run ds actions = some s)
    (hstarted : s.delivery.started = true) (timeout : Duration) :
    ((s.delivery.join timeout).1 = true ↔
      s.IsEnded ∨ false ∈ (new d).answers ds actions) ∧
    (s.IsEnded → s.queue.count = 0 ∧ s.held = [] ∧
      ∃ jobs : List Job, jobs.filterMap Job.payload? = s.accepted ∧
        s.calls = (ds.performAll jobs sink).2) := by
  have hjoins := run_joins (joins_new hnew) hrun
  obtain ⟨jobs, hfaithful⟩ := run_faithful ⟨[], faithful_new hnew⟩ hrun
  rw [List.nil_append] at hjoins
  obtain ⟨w, hworker⟩ := Option.isSome_iff_exists.mp (hjoins.started hstarted).2
  have hended : s.IsEnded ↔ w.phase = .ended := by
    rw [IsEnded, hworker]
    simp
  refine ⟨?_, fun hend => ?_⟩
  · rw [join_eq_true_iff timeout hworker, ← hended]
    cases hjoinable : s.delivery.joinable with
    | false => simpa using hjoins.joined hstarted hjoinable
    | true => simp [(hjoins.joinable hjoinable).2]
  · obtain ⟨hcount, hjobs⟩ := hfaithful.of_ended hend
    have hbegun : s.begun ds = [] := by
      rw [begun, hworker, Option.map_some, Option.getD_some, Worker.begun,
        hended.mp hend]
    refine ⟨hcount, held_of_isEnded hend, jobs, hjobs, ?_⟩
    rw [hfaithful.calls_eq, hbegun, List.append_nil]

namespace StoppingWitness

open OrderWitness (downstream)

/-- The first stop waits until the worker is through with `5` and `6`. -/
def drained : List Action :=
  [.start, .offer [5], .count, .work, .offer [6], .count, .close] ++
    List.replicate 14 .work

theorem run_stop_answer_sample :
    Delivery.new ⟨4, 1, []⟩ () = .ok OrderWitness.delivery ∧
    ∃ s, (new OrderWitness.delivery).run downstream drained = some s ∧
      s.delivery.started = true ∧
      (s.delivery.join ⟨0, 0⟩).1 = true ∧ s.IsEnded ∧
      s.queue.count = 0 ∧ s.held = [] ∧
      ∃ jobs : List Job, jobs.filterMap Job.payload? = [[5], [6]] ∧
        s.calls = (downstream.performAll jobs ()).2 := by
  have hnew : Delivery.new ⟨4, 1, []⟩ () = .ok OrderWitness.delivery := rfl
  have hsome : ((new OrderWitness.delivery).run downstream drained).map
      (fun s => (s.delivery.started, (s.delivery.join ⟨0, 0⟩).1, s.accepted)) =
      some (true, true, [[5], [6]]) := by
    rfl
  have hanswers : (new OrderWitness.delivery).answers downstream drained = [] :=
    rfl
  obtain ⟨s, hrun, hs⟩ := Option.map_eq_some_iff.mp hsome
  simp only [Prod.mk.injEq] at hs
  obtain ⟨hstarted, htrue, haccepted⟩ := hs
  obtain ⟨hanswer, hdone⟩ := run_stop_answer hnew hrun hstarted ⟨0, 0⟩
  have hended : s.IsEnded := by
    simpa [hanswers] using hanswer.mp htrue
  obtain ⟨hcount, hheld, jobs, hjobs, hcalls⟩ := hdone hended
  exact ⟨hnew, s, hrun, hstarted, htrue, hended, hcount, hheld, jobs,
    hjobs.trans haccepted, hcalls⟩

/-- The worker is in the write of `5` when the first stop gives up. -/
def givenUp : List Action :=
  [.start, .offer [5], .count, .work, .work, .work, .offer [6], .count, .close,
    .join ⟨0, 0⟩, .close]

/-- The next stop answers true all the same, with `6` in the queue. -/
theorem stop_after_given_up :
    ∃ s, (new OrderWitness.delivery).run downstream givenUp = some s ∧
      s.delivery.started = true ∧
      (new OrderWitness.delivery).answers downstream givenUp = [false] ∧
      (s.delivery.join ⟨0, 0⟩).1 = true ∧
      ¬ s.IsEnded ∧ s.held = [[5]] ∧ s.queue.contents = [[6]] := by
  have hsome : ((new OrderWitness.delivery).run downstream givenUp).map
      (fun s => (s.delivery.started, (s.delivery.join ⟨0, 0⟩).1, s.held,
        s.queue.contents, s.delivery.worker.map Worker.phase)) =
      some (true, true, [[5]], [[6]], some (.writing [5, 10])) := by
    rfl
  obtain ⟨s, hrun, hs⟩ := Option.map_eq_some_iff.mp hsome
  simp only [Prod.mk.injEq] at hs
  obtain ⟨hstarted, htrue, hheld, hcontents, hphase⟩ := hs
  refine ⟨s, hrun, hstarted, rfl, htrue, ?_, hheld, hcontents⟩
  rintro ⟨w, hworker, hended⟩
  rw [hworker, Option.map_some, hended] at hphase
  contradiction

end StoppingWitness

end Logline.Delivery.Session
