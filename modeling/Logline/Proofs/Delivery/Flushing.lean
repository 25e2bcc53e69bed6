import Logline.Proofs.Delivery.Order
/-!
When what has been written is flushed.  The worker looks for a backlog after
each write, and flushes if there is none; but it goes straight to the next
payload where the filter drops one or the encoder fails.  So a worker that waits
on an empty queue has flushed all that it wrote, unless the payload that came
last was skipped: then a write before it found a backlog, and its bytes lie
there until another payload comes or the delivery stops
(`run_flushed_unless_skipped`).
-/
namespace Logline.Delivery

variable {σ : Type}

/-- Every write among these calls has a flush somewhere behind it. -/
def Flushed (calls : List Call) : Prop :=
  ∀ before bytes after, calls = before ++ .write bytes :: after →
    Call.flush ∈ after

theorem flushed_nil : Flushed [] := by
  intro before bytes after hcalls
  simp at hcalls

theorem flushed_concat_flush (calls : List Call) :
    Flushed (calls ++ [.flush]) := by
  intro before bytes after hcalls
  have hlast : (Call.write bytes :: after).getLast? = some .flush := by
    have := congrArg List.getLast? hcalls
    simpa [List.getLast?_append] using this.symm
  simpa using List.mem_of_getLast? hlast

/-! ### How the worker comes to wait -/

namespace Downstream

variable {ds : Downstream σ} {payload : Bytes} {sink sink' : σ}

/-- A payload that goes no further has been seen by the filter. -/
theorem siftCalls_of_sift_eq_none
    (hsift : ds.sift payload sink = (sink', none)) :
    ds.siftCalls payload = [.filter payload] := by
  rw [sift] at hsift
  rw [siftCalls]
  cases hfilter : ds.filter with
  | none => simp [hfilter] at hsift
  | some filter => rfl

/-- A payload without a translation has been seen by the encoder. -/
theorem translateCalls_of_translate_eq_none
    (htranslate : ds.translate payload sink = (sink', none)) :
    ds.translateCalls payload = [.encode payload] := by
  rw [translate] at htranslate
  rw [translateCalls]
  cases hencode : ds.encode with
  | none => simp [hencode] at htranslate
  | some encode => rfl

end Downstream

namespace Worker

/-- The payload in the buffer is not written, and the worker records that. -/
def skips (w : Worker σ) : Bool :=
  match w.phase with
  | .reporting .encode _ => true
  | .counting .filtered => true
  | .counting .encodeFailed => true
  | _ => false

/-- The worker records how a flush went. -/
def hasFlushed (w : Worker σ) : Bool :=
  match w.phase with
  | .reporting .flush _ => true
  | .reporting .lastFlush _ => true
  | _ => false

/-- The step comes neither to a record of a skipped payload or of a flush, nor
to the end, nor to wait for a payload that is not there. -/
structure Proceeds (w' : Worker σ) (x' : Exchange) : Prop where
  skips_eq : w'.skips = false
  hasFlushed_eq : w'.hasFlushed = false
  not_ended : w'.phase ≠ .ended
  backlog : w'.phase = .waiting → x'.queue.count ≠ 0

variable {ds : Downstream σ} {w w' : Worker σ} {x x' : Exchange}

/-- A step is a flush, or comes after one; or it asks the filter or the encoder
about a payload that goes no further, or comes after that; or it proceeds. -/
theorem step_flushes (hstep : w.step ds x = some (w', x')) :
    w'.skips = false ∧
        ((∃ before, x'.calls = before ++ [.flush]) ∨
          w.hasFlushed = true ∧ x'.calls = x.calls) ∨
      (w'.hasFlushed = false ∧ w'.phase ≠ .ended ∧ x'.queue = x.queue ∧
        w'.buffer = w.buffer ∧
        (w.held = [w.buffer] ∧
            (x'.calls = x.calls ++ [.filter w.buffer] ∨
              x'.calls = x.calls ++ [.encode w.buffer]) ∨
          w.skips = true ∧ x'.calls = x.calls)) ∨
      w'.Proceeds x' := by
  cases hw : w.phase with
  | waiting =>
      refine .inr (.inr ?_)
      rcases step_waiting_cases hw hstep with ⟨-, hphase, -⟩ | ⟨-, -, hphase, -⟩
      · constructor <;> simp [skips, hasFlushed, hphase]
      · constructor <;> simp [skips, hasFlushed, hphase]
  | filtering =>
      simp only [step, hw, Option.some.injEq] at hstep
      obtain ⟨hqueue, hcalls, hbuffer,
          ⟨-, hphase⟩ | ⟨hsift, hphase | ⟨-, p, hphase⟩⟩⟩ :=
        stepFiltering_cases hstep
      · refine .inr (.inr ?_)
        constructor <;> simp [skips, hasFlushed, hphase]
      · rw [Downstream.siftCalls_of_sift_eq_none hsift] at hcalls
        refine .inr (.inl ⟨?_, ?_, hqueue, hbuffer, .inl ⟨?_, .inl hcalls⟩⟩)
        · rw [hasFlushed, hphase]
        · simp [hphase]
        · rw [held, hw]
      · refine .inr (.inr ?_)
        constructor <;> simp [skips, hasFlushed, hphase]
  | encoding =>
      simp only [step, hw, Option.some.injEq] at hstep
      obtain ⟨hqueue, hcalls, hbuffer,
          ⟨bytes, -, hphase⟩ | ⟨htranslate, message, hphase⟩⟩ :=
        stepEncoding_cases hstep
      · refine .inr (.inr ?_)
        constructor <;> simp [skips, hasFlushed, hphase]
      · rw [Downstream.translateCalls_of_translate_eq_none htranslate] at hcalls
        refine .inr (.inl ⟨?_, ?_, hqueue, hbuffer, .inl ⟨?_, .inr hcalls⟩⟩)
        · rw [hasFlushed, hphase]
        · simp [hphase]
        · rw [held, hw]
  | writing bytes =>
      simp only [step, hw, Option.some.injEq] at hstep
      obtain ⟨-, -, -, hphase | ⟨message, hphase⟩⟩ := stepWriting_cases hstep
      · refine .inr (.inr ?_)
        constructor <;> simp [skips, hasFlushed, hphase]
      · refine .inr (.inr ?_)
        constructor <;> simp [skips, hasFlushed, hphase]
  | reporting failure message =>
      simp only [step, hw, Option.some.injEq, Prod.mk.injEq] at hstep
      obtain ⟨rfl, rfl⟩ := hstep
      have hcalls : (x.report message).calls = x.calls :=
        Exchange.calls_report x message
      cases failure with
      | encode =>
          refine .inr (.inl ⟨rfl, ?_, rfl, rfl, .inr ⟨?_, hcalls⟩⟩)
          · simp [Failure.next]
          · rw [skips, hw]
      | write =>
          refine .inr (.inr ?_)
          constructor <;> simp [skips, hasFlushed, Failure.next]
      | flush => exact .inl ⟨rfl, .inr ⟨by rw [hasFlushed, hw], hcalls⟩⟩
      | lastFlush => exact .inl ⟨rfl, .inr ⟨by rw [hasFlushed, hw], hcalls⟩⟩
  | counting fate =>
      simp only [step, hw, Option.some.injEq, Prod.mk.injEq] at hstep
      obtain ⟨rfl, rfl⟩ := hstep
      cases fate with
      | filtered =>
          refine .inr (.inl ⟨rfl, ?_, rfl, rfl, .inr ⟨?_, rfl⟩⟩)
          · simp [Fate.next]
          · rw [skips, hw]
      | encodeFailed =>
          refine .inr (.inl ⟨rfl, ?_, rfl, rfl, .inr ⟨?_, rfl⟩⟩)
          · simp [Fate.next]
          · rw [skips, hw]
      | delivered =>
          refine .inr (.inr ?_)
          constructor <;> simp [skips, hasFlushed, Fate.next]
      | writeFailed =>
          refine .inr (.inr ?_)
          constructor <;> simp [skips, hasFlushed, Fate.next]
  | checking =>
      simp only [step, hw, Option.some.injEq, Prod.mk.injEq] at hstep
      obtain ⟨rfl, rfl⟩ := hstep
      refine .inr (.inr ?_)
      by_cases hcount : x.queue.count = 0
      · constructor <;> simp [skips, hasFlushed, Ring.isEmpty, hcount]
      · constructor <;> simp [skips, hasFlushed, Ring.isEmpty, hcount]
  | flushing =>
      simp only [step, hw, Option.some.injEq] at hstep
      obtain ⟨-, hcalls, -, hphase⟩ := stepFlush_cases hstep
      refine .inl ⟨?_, .inl ⟨_, hcalls⟩⟩
      rcases hphase with hphase | ⟨message, hphase⟩ | ⟨-, p, hphase⟩ <;>
        simp [skips, hphase, Failure.next]
  | closing =>
      simp only [step, hw, Option.some.injEq] at hstep
      obtain ⟨-, hcalls, -, hphase⟩ := stepFlush_cases hstep
      refine .inl ⟨?_, .inl ⟨_, hcalls⟩⟩
      rcases hphase with hphase | ⟨message, hphase⟩ | ⟨-, p, hphase⟩ <;>
        simp [skips, hphase, Failure.next]
  | ended => simp [step, hw] at hstep
  | crashed p => simp [step, hw] at hstep

end Worker

namespace Session

/-- The worker waits for a payload, and the queue is open and empty. -/
def IsIdle (s : Session σ) : Prop :=
  ∃ w, s.delivery.worker = some w ∧ w.phase = .waiting ∧
    s.queue.count = 0 ∧ s.queue.closed = false

/-- The last that has been asked of the sink is what it makes of the payload
accepted last, and with that the payload was done with. -/
def SkippedLast (s : Session σ) : Prop :=
  ∃ payload before, s.accepted.getLast? = some payload ∧
    (s.calls = before ++ [.filter payload] ∨
      s.calls = before ++ [.encode payload])

/-- The last that has been asked of the sink is what it makes of this payload,
and the queue holds all that was accepted behind it. -/
def Skips (payload : Bytes) (s : Session σ) : Prop :=
  ∃ front before, s.accepted = front ++ payload :: s.queue.contents ∧
    (s.calls = before ++ [.filter payload] ∨
      s.calls = before ++ [.encode payload])

theorem Skips.last {payload : Bytes} {s : Session σ} (h : s.Skips payload)
    (hcontents : s.queue.contents = []) : s.SkippedLast := by
  obtain ⟨front, before, haccepted, hcalls⟩ := h
  refine ⟨payload, before, ?_, hcalls⟩
  rw [haccepted, hcontents, List.getLast?_concat]

/-- Where a worker that has nothing to do, or is about to have nothing to do,
has left its sink. -/
structure Prompt (s : Session σ) : Prop where
  fresh : s.delivery.worker = none → s.calls = []
  skipping : ∀ w, s.delivery.worker = some w → w.skips = true →
    s.Skips w.buffer
  flushed : ∀ w, s.delivery.worker = some w → w.hasFlushed = true →
    ∃ before, s.calls = before ++ [.flush]
  idle : s.IsIdle → Flushed s.calls ∨ s.SkippedLast
  ended : s.IsEnded → Flushed s.calls

section Actions

variable {ds : Downstream σ} {sink₀ : σ} {jobs : List Job}
  {s s' : Session σ}

/-! ### One action -/

/-- Nothing that leaves the worker and the sink alone makes a difference,
unless it makes the worker idle. -/
theorem Prompt.of_calls_eq (h : s.Prompt)
    (hworker : s'.delivery.worker = s.delivery.worker)
    (hcalls : s'.calls = s.calls)
    (hqueued : ∃ new, s'.accepted = s.accepted ++ new ∧
      s'.queue.contents = s.queue.contents ++ new)
    (hidle : s'.IsIdle → s.IsIdle ∧ s'.accepted = s.accepted) :
    s'.Prompt where
  fresh hnone := by
    rw [hcalls]
    exact h.fresh (hworker ▸ hnone)
  skipping w hw hskips := by
    obtain ⟨front, before, haccepted, hasked⟩ :=
      h.skipping w (hworker ▸ hw) hskips
    obtain ⟨new, haccepted', hcontents'⟩ := hqueued
    rw [Skips, hcalls]
    refine ⟨front, before, ?_, hasked⟩
    rw [haccepted', hcontents', haccepted, List.append_assoc, List.cons_append]
  flushed w hw hflushed := by
    rw [hcalls]
    exact h.flushed w (hworker ▸ hw) hflushed
  idle hs' := by
    obtain ⟨hs, haccepted⟩ := hidle hs'
    rw [SkippedLast, hcalls, haccepted]
    exact h.idle hs
  ended hs' := by
    rw [IsEnded, hworker] at hs'
    rw [hcalls]
    exact h.ended hs'

/-- What the producer does apart from a start leaves worker and sink alone, and
makes no worker idle. -/
theorem Prompt.act_of_ne (h : s.Prompt) (hvalid : s.queue.Valid)
    {action : Action} (hact : s.act ds action = some s')
    (hstart : action ≠ .start) (hwork : action ≠ .work) : s'.Prompt := by
  obtain ⟨joinable, x, hframe⟩ := act_frame hact hstart hwork
  obtain ⟨hcalls, hqueued⟩ := act_calls_of_ne_work hvalid hact hwork
  have hworker : s'.delivery.worker = s.delivery.worker := by rw [hframe]
  refine h.of_calls_eq hworker hcalls hqueued ?_
  rintro ⟨w, hw, hwaiting, hcount, hopen⟩
  rw [hworker] at hw
  rcases act_queue_cases hact with ⟨hqueue, haccepted, -⟩ |
    ⟨payload, -, -, -, hqueue, -⟩ | ⟨-, hqueue, -⟩ | ⟨buffer, hwork', -⟩
  · rw [hqueue] at hcount hopen
    exact ⟨⟨w, hw, hwaiting, hcount, hopen⟩, haccepted⟩
  · rw [hqueue] at hcount
    contradiction
  · rw [hqueue] at hopen
    contradiction
  · contradiction

theorem Prompt.start (h : s.Prompt) (hfaithful : s.Faithful ds sink₀ jobs) :
    { s with delivery := s.delivery.start.1 }.Prompt := by
  rw [Delivery.start]
  cases hpending : s.delivery.pending with
  | none => exact h
  | some sink =>
      have hcalls : s.calls = [] :=
        h.fresh (hfaithful.pending sink hpending).2
      dsimp only
      split
      · exact h.of_calls_eq rfl rfl ⟨[], by simp, by simp [queue]⟩
          fun hidle => ⟨hidle, rfl⟩
      · refine ⟨fun _ => hcalls, ?_, ?_, fun _ => .inl ?_, fun _ => ?_⟩
        · rintro w hw hskips
          obtain rfl := Option.some.inj hw
          contradiction
        · rintro w hw hflushed
          obtain rfl := Option.some.inj hw
          contradiction
        · change Flushed s.calls
          exact hcalls ▸ flushed_nil
        · change Flushed s.calls
          exact hcalls ▸ flushed_nil

theorem isEnded_withWorker (s : Session σ) (w : Worker σ) (x : Exchange) :
    (s.withWorker w x).IsEnded ↔ w.phase = .ended := by
  simp [IsEnded, withWorker]

theorem isIdle_withWorker (s : Session σ) (w : Worker σ) (x : Exchange) :
    (s.withWorker w x).IsIdle ↔
      w.phase = .waiting ∧ x.queue.count = 0 ∧ x.queue.closed = false := by
  simp [IsIdle, withWorker, queue]

theorem Prompt.work (h : s.Prompt) (hfaithful : s.Faithful ds sink₀ jobs)
    (hwork : s.work ds = some s') : s'.Prompt := by
  obtain ⟨w, w', x', hworker, hstep, rfl⟩ := work_eq_some hwork
  have hsome : ∀ v, (s.withWorker w' x').delivery.worker = some v → v = w' :=
    fun v hv => (Option.some.inj hv).symm
  have hfresh : (s.withWorker w' x').delivery.worker = none →
      (s.withWorker w' x').calls = [] := by
    intro hnone
    contradiction
  rcases Worker.step_flushes hstep with ⟨hskips, hflush⟩ |
    ⟨hflushed, hended, hqueue, hbuffer, hskipped⟩ | hproceeds
  · obtain ⟨before, hcalls⟩ : ∃ before, x'.calls = before ++ [.flush] := by
      rcases hflush with hflush | ⟨hflushed, hcalls⟩
      · exact hflush
      · rw [hcalls]
        exact h.flushed w hworker hflushed
    have hflushed : Flushed (s.withWorker w' x').calls := by
      change Flushed x'.calls
      exact hcalls ▸ flushed_concat_flush before
    refine ⟨hfresh, fun v hv hskips' => ?_, fun _ _ _ => ⟨before, hcalls⟩,
      fun _ => .inl hflushed, fun _ => hflushed⟩
    rw [hsome v hv, hskips] at hskips'
    contradiction
  · have hskips : (s.withWorker w' x').Skips w'.buffer := by
      have hqueue' : (s.withWorker w' x').queue = s.queue := hqueue
      rw [Skips, hqueue', hbuffer]
      rcases hskipped with ⟨hhand, hcalls⟩ | ⟨hskips, hcalls⟩
      · have hheld : s.held = [w.buffer] := by
          rw [held, hworker, Option.map_some, Option.getD_some, hhand]
        refine ⟨jobs.filterMap Job.payload?, s.calls, ?_, hcalls⟩
        rw [withWorker, hfaithful.accepted_eq, hheld, List.append_assoc,
          List.singleton_append]
      · obtain ⟨front, before, haccepted, hasked⟩ :=
          h.skipping w hworker hskips
        have hcalls' : (s.withWorker w' x').calls = s.calls := hcalls
        rw [hcalls']
        exact ⟨front, before, haccepted, hasked⟩
    refine ⟨hfresh, fun v hv _ => hsome v hv ▸ hskips, fun v hv hflushed' => ?_,
      fun hidle => .inr (hskips.last ?_),
      fun hs' => absurd ((isEnded_withWorker s w' x').mp hs') hended⟩
    · rw [hsome v hv, hflushed] at hflushed'
      contradiction
    · obtain ⟨-, hcount, -⟩ := (isIdle_withWorker s w' x').mp hidle
      exact (Ring.contents_eq_nil_iff _).mpr hcount
  · refine ⟨hfresh, fun v hv hskips => ?_, fun v hv hflushed => ?_,
      fun hidle => ?_, fun hs' => absurd ((isEnded_withWorker s w' x').mp hs')
        hproceeds.not_ended⟩
    · rw [hsome v hv, hproceeds.skips_eq] at hskips
      contradiction
    · rw [hsome v hv, hproceeds.hasFlushed_eq] at hflushed
      contradiction
    · obtain ⟨hphase, hcount, -⟩ := (isIdle_withWorker s w' x').mp hidle
      exact absurd hcount (hproceeds.backlog hphase)

theorem act_prompt (hfaithful : s.Faithful ds sink₀ jobs) (h : s.Prompt)
    {action : Action} (hact : s.act ds action = some s') : s'.Prompt := by
  by_cases hstart : action = .start
  · subst hstart
    obtain ⟨-, rfl⟩ := eq_of_act_start hact
    exact h.start hfaithful
  · by_cases hwork : action = .work
    · subst hwork
      exact h.work hfaithful hact
    · exact h.act_of_ne hfaithful.queue_valid hact hstart hwork

theorem run_prompt {actions : List Action}
    (h : (∃ jobs, s.Faithful ds sink₀ jobs) ∧ s.Prompt)
    (hrun : s.run ds actions = some s') : s'.Prompt := by
  refine (run_induction (P := fun s => (∃ jobs, s.Faithful ds sink₀ jobs) ∧
    s.Prompt) ?_ hrun h).2
  rintro before after action hact ⟨⟨jobs, hfaithful⟩, hprompt⟩
  obtain ⟨new, hafter⟩ := act_faithful hfaithful hact
  exact ⟨⟨jobs ++ new, hafter⟩, act_prompt hfaithful hprompt hact⟩

theorem prompt_new {config : Config} {d : Delivery σ}
    (hnew : Delivery.new config sink₀ = .ok d) : (new d).Prompt := by
  obtain ⟨queue, -, rfl⟩ := eq_of_new hnew
  refine ⟨fun _ => rfl, ?_, ?_, fun _ => .inl flushed_nil, fun _ => flushed_nil⟩
  · intro w hworker
    contradiction
  · intro w hworker
    contradiction

end Actions

/-- When the worker waits on an open, empty queue, each write has been followed
by a flush, or the filter or the encoder has seen to it that the payload
accepted last is not written.  At the end of the worker each write has been
followed by a flush in any case. -/
theorem run_flushed_unless_skipped {ds : Downstream σ} {config : Config}
    {sink : σ} {d : Delivery σ} (hnew : Delivery.new config sink = .ok d)
    {actions : List Action} {s : Session σ}
    (hrun : (new d).run ds actions = some s) :
    (s.IsIdle → Flushed s.calls ∨ s.SkippedLast) ∧
      (s.IsEnded → Flushed s.calls) := by
  have hprompt := run_prompt ⟨⟨[], faithful_new hnew⟩, prompt_new hnew⟩ hrun
  exact ⟨hprompt.idle, hprompt.ended⟩

namespace FlushingWitness

open OrderWitness (downstream)

/-- The write of `5` finds a backlog, and that is `0`, which the filter
drops. -/
def skipped : List Action :=
  [.offer [5], .count, .offer [0], .count, .start] ++ List.replicate 9 .work

def skippedCalls : List Call :=
  [.filter [5], .encode [5], .write [5, 10], .filter [0]]

theorem run_skipped : ∃ s,
    (new OrderWitness.delivery).run downstream skipped = some s ∧
      s.IsIdle ∧ s.calls = skippedCalls ∧
      s.delivery.exchange.metrics.delivered = 1 := by
  have hsome : ((new OrderWitness.delivery).run downstream skipped).map
      (fun s => (s.delivery.worker.map Worker.phase, s.queue.count,
        s.queue.closed, s.calls, s.delivery.exchange.metrics.delivered)) =
      some (some .waiting, 0, false, skippedCalls, 1) := by
    rfl
  obtain ⟨s, hrun, hs⟩ := Option.map_eq_some_iff.mp hsome
  simp only [Prod.mk.injEq] at hs
  obtain ⟨hphase, hcount, hclosed, hcalls, hdelivered⟩ := hs
  obtain ⟨w, hworker, hwaiting⟩ := Option.map_eq_some_iff.mp hphase
  exact ⟨s, hrun, ⟨w, hworker, hwaiting, hcount, hclosed⟩, hcalls, hdelivered⟩

theorem not_flushed_skippedCalls : ¬ Flushed skippedCalls := by
  intro hflushed
  have hmem := hflushed [.filter [5], .encode [5]] [5, 10] [.filter [0]] rfl
  simp at hmem

theorem run_flushed_unless_skipped_sample :
    Delivery.new ⟨4, 1, []⟩ () = .ok OrderWitness.delivery ∧
    ∃ s, (new OrderWitness.delivery).run downstream skipped = some s ∧
      s.IsIdle ∧ s.SkippedLast := by
  have hnew : Delivery.new ⟨4, 1, []⟩ () = .ok OrderWitness.delivery := rfl
  obtain ⟨s, hrun, hidle, hcalls, -⟩ := run_skipped
  refine ⟨hnew, s, hrun, hidle, ?_⟩
  refine ((run_flushed_unless_skipped hnew hrun).1 hidle).resolve_left ?_
  exact hcalls ▸ not_flushed_skippedCalls

/-- Although every flush succeeds, what has been delivered lies there while the
worker is idle. -/
theorem idle_not_flushed :
    (∀ sink, (downstream.flush sink).2 = .done ()) ∧
    ∃ s, (new OrderWitness.delivery).run downstream skipped = some s ∧
      s.IsIdle ∧ s.delivery.exchange.metrics.delivered = 1 ∧
      ¬ Flushed s.calls := by
  obtain ⟨s, hrun, hidle, hcalls, hdelivered⟩ := run_skipped
  refine ⟨fun _ => rfl, s, hrun, hidle, hdelivered, ?_⟩
  exact hcalls ▸ not_flushed_skippedCalls

end FlushingWitness

end Session

end Logline.Delivery
