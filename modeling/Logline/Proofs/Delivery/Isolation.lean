import Logline.Proofs.Delivery.Order
/-!
Which failures the worker survives.  It goes on after every error and after the
panics of the encoder and of writes.  A panic of the filter or of a flush is
fatal: the worker is gone, and what is in the queue stays there.  In a run
without fatal panics a worker that stands still has nothing left to do
(`run_survives_unless_fatal`).
-/
namespace Logline.Delivery

variable {σ : Type}

/-- The panic that a call ends the worker with.  Those of the encoder and of
writes are caught. -/
def Downstream.fatal? (ds : Downstream σ) (sink : σ) : Call → Option Panic
  | .filter payload =>
      match ds.filter with
      | none => none
      | some filter =>
        match (filter sink payload).2 with
        | .error p => some p
        | .ok _ => none
  | .encode _ => none
  | .write _ => none
  | .flush =>
      match (ds.flush sink).2 with
      | .panicked p => some p
      | .failed _ => none
      | .done _ => none

/-! ### Steps of the worker -/

namespace Worker

/-- The panic that the worker has ended with. -/
def crash? (w : Worker σ) : Option Panic :=
  match w.phase with
  | .crashed p => some p
  | _ => none

/-- What the next step asks of the sink. -/
def asks (ds : Downstream σ) (w : Worker σ) : List Call :=
  match w.phase with
  | .filtering => ds.siftCalls w.buffer
  | .encoding => ds.translateCalls w.buffer
  | .writing bytes => [.write bytes]
  | .flushing => [.flush]
  | .closing => [.flush]
  | _ => []

section Steps

variable {ds : Downstream σ} {w w' : Worker σ} {x x' : Exchange}

theorem stepWaiting_calls (hstep : w.stepWaiting x = some (w', x')) :
    x'.calls = x.calls ∧ w'.crash? = none := by
  rw [stepWaiting] at hstep
  split at hstep
  · obtain ⟨rfl, rfl⟩ := Prod.mk.inj (Option.some.inj hstep)
    exact ⟨rfl, rfl⟩
  · obtain ⟨rfl, rfl⟩ := Prod.mk.inj (Option.some.inj hstep)
    exact ⟨rfl, rfl⟩
  · contradiction

theorem stepFiltering_crash (hstep : stepFiltering ds w x = (w', x')) :
    w'.crash? = (ds.siftCalls w.buffer).findSome? (ds.fatal? w.sink) := by
  rw [stepFiltering] at hstep
  rw [Downstream.siftCalls]
  cases hfilter : ds.filter with
  | none =>
      simp only [hfilter, Prod.mk.injEq] at hstep
      obtain ⟨rfl, -⟩ := hstep
      rfl
  | some filter =>
      rcases hanswer : filter w.sink w.buffer with ⟨sink, p | ⟨_ | _⟩⟩
      all_goals
        simp only [hfilter, hanswer, Prod.mk.injEq] at hstep
        obtain ⟨rfl, -⟩ := hstep
        simp [crash?, Downstream.fatal?, hfilter, hanswer]

theorem stepEncoding_crash (hstep : stepEncoding ds w x = (w', x')) :
    w'.crash? = (ds.translateCalls w.buffer).findSome? (ds.fatal? w.sink) := by
  have hnone : (ds.translateCalls w.buffer).findSome? (ds.fatal? w.sink) =
      none := by
    rw [Downstream.translateCalls]
    split <;> rfl
  obtain ⟨-, -, -, ⟨bytes, -, hphase⟩ | ⟨-, message, hphase⟩⟩ :=
    stepEncoding_cases hstep
  all_goals rw [hnone, crash?, hphase]

theorem stepFlush_crash {failure : Failure}
    (hstep : stepFlush ds failure w x = (w', x')) :
    w'.crash? = [Call.flush].findSome? (ds.fatal? w.sink) := by
  rw [stepFlush] at hstep
  rcases hanswer : ds.flush w.sink with ⟨sink, ⟨⟩ | e | p⟩
  all_goals
    simp only [hanswer, Prod.mk.injEq] at hstep
    obtain ⟨rfl, -⟩ := hstep
  · cases failure <;>
      simp [crash?, Failure.next, Downstream.fatal?, hanswer]
  · simp [crash?, Downstream.fatal?, hanswer]
  · simp [crash?, Downstream.fatal?, hanswer]

/-- A step crashes exactly with the panic that is fatal among what it asks. -/
theorem step_calls_crash (hstep : w.step ds x = some (w', x')) :
    x'.calls = x.calls ++ w.asks ds ∧
      w'.crash? = (w.asks ds).findSome? (ds.fatal? w.sink) := by
  rw [asks]
  cases hw : w.phase with
  | waiting =>
      rw [step, hw] at hstep
      obtain ⟨hcalls, hcrash⟩ := stepWaiting_calls hstep
      exact ⟨by rw [hcalls, List.append_nil], hcrash⟩
  | filtering =>
      simp only [step, hw, Option.some.injEq] at hstep
      exact ⟨(stepFiltering_cases hstep).2.1, stepFiltering_crash hstep⟩
  | encoding =>
      simp only [step, hw, Option.some.injEq] at hstep
      exact ⟨(stepEncoding_cases hstep).2.1, stepEncoding_crash hstep⟩
  | writing bytes =>
      simp only [step, hw, Option.some.injEq] at hstep
      obtain ⟨-, hcalls, -, hphase⟩ := stepWriting_cases hstep
      refine ⟨hcalls, ?_⟩
      rcases hphase with hphase | ⟨message, hphase⟩
      · rw [crash?, hphase]
        rfl
      · rw [crash?, hphase]
        rfl
  | reporting failure message =>
      simp only [step, hw, Option.some.injEq, Prod.mk.injEq] at hstep
      obtain ⟨rfl, rfl⟩ := hstep
      refine ⟨?_, ?_⟩
      · rw [Exchange.calls_report, List.append_nil]
      · cases failure <;> rfl
  | counting fate =>
      simp only [step, hw, Option.some.injEq, Prod.mk.injEq] at hstep
      obtain ⟨rfl, rfl⟩ := hstep
      refine ⟨(List.append_nil _).symm, ?_⟩
      cases fate <;> rfl
  | checking =>
      simp only [step, hw, Option.some.injEq, Prod.mk.injEq] at hstep
      obtain ⟨rfl, rfl⟩ := hstep
      refine ⟨(List.append_nil _).symm, ?_⟩
      cases hempty : x.queue.isEmpty <;> simp [crash?]
  | flushing =>
      simp only [step, hw, Option.some.injEq] at hstep
      exact ⟨(stepFlush_cases hstep).2.1, stepFlush_crash hstep⟩
  | closing =>
      simp only [step, hw, Option.some.injEq] at hstep
      exact ⟨(stepFlush_cases hstep).2.1, stepFlush_crash hstep⟩
  | ended => simp [step, hw] at hstep
  | crashed p => simp [step, hw] at hstep

/-- A crashed worker takes no step. -/
theorem crash?_of_step (hstep : w.step ds x = some (w', x')) :
    w.crash? = none := by
  rw [crash?]
  split
  · next p hw =>
    rw [step, hw] at hstep
    contradiction
  · rfl

/-- A worker that stands still has crashed or ended, or it waits on an open,
empty queue. -/
theorem standstill_cases (hstep : w.step ds x = none)
    (hcrash : w.crash? = none) :
    w.phase = .ended ∨
      w.phase = .waiting ∧ x.queue.count = 0 ∧ x.queue.closed = false := by
  rw [step] at hstep
  rw [crash?] at hcrash
  cases hw : w.phase with
  | waiting =>
      rw [hw] at hstep
      simp only [stepWaiting, Ring.takeInto] at hstep
      by_cases hcount : x.queue.count = 0
      · cases hclosed : x.queue.closed with
        | false => exact .inr ⟨rfl, hcount, rfl⟩
        | true => simp [hcount, hclosed] at hstep
      · simp [hcount] at hstep
  | ended => exact .inl rfl
  | crashed p =>
      rw [hw] at hcrash
      contradiction
  | _ =>
      rw [hw] at hstep
      contradiction

end Steps

end Worker

/-! ### Runs -/

namespace Session

/-- The panic that the worker has ended with. -/
def crash? (s : Session σ) : Option Panic :=
  s.delivery.worker.bind Worker.crash?

/-- The fatal panic among what has been asked of the sink on the way to `s'`. -/
def fatal? (ds : Downstream σ) (s s' : Session σ) : Option Panic :=
  s.delivery.worker.bind fun w =>
    (s'.calls.drop s.calls.length).findSome? (ds.fatal? w.sink)

/-- The fatal panics in a run. -/
def fatals (ds : Downstream σ) (s : Session σ) : List Action → List Panic
  | [] => []
  | action :: rest =>
      match s.act ds action with
      | some next => (s.fatal? ds next).toList ++ next.fatals ds rest
      | none => []

section Actions

variable {ds : Downstream σ} {sink₀ : σ} {jobs : List Job}
  {s s' : Session σ}

/-- Nothing but a step of the worker crashes. -/
theorem act_crash_of_ne_work (h : s.Faithful ds sink₀ jobs) {action : Action}
    (hact : s.act ds action = some s') (hne : action ≠ .work) :
    s'.crash? = s.crash? := by
  by_cases hstart : action = .start
  · subst hstart
    obtain ⟨-, rfl⟩ := eq_of_act_start hact
    rw [Delivery.start]
    cases hpending : s.delivery.pending with
    | none => rfl
    | some sink =>
        have hworker := (h.pending sink hpending).2
        have hcrash : s.crash? = none := by
          rw [crash?, hworker, Option.bind_none]
        rw [hcrash]
        dsimp only
        split
        · rw [← hcrash]
          rfl
        · rfl
  · obtain ⟨joinable, x, hframe⟩ := act_frame hact hstart hne
    rw [crash?, hframe, crash?]

/-- A session crashes exactly with a fatal panic, and never twice. -/
theorem act_crash (h : s.Faithful ds sink₀ jobs) {action : Action}
    (hact : s.act ds action = some s') :
    s'.crash?.toList = s.crash?.toList ++ (s.fatal? ds s').toList := by
  by_cases hne : action = .work
  · subst hne
    obtain ⟨w, w', x', hworker, hstep, rfl⟩ := work_eq_some hact
    obtain ⟨hcalls, hcrash⟩ := Worker.step_calls_crash hstep
    have hasked : (s.withWorker w' x').calls.drop s.calls.length =
        w.asks ds := by
      change x'.calls.drop s.delivery.exchange.calls.length = w.asks ds
      rw [hcalls, List.drop_left]
    have hbefore : s.crash? = none := by
      rw [crash?, hworker, Option.bind_some, Worker.crash?_of_step hstep]
    rw [hbefore, fatal?, hworker, Option.bind_some, hasked, ← hcrash]
    rfl
  · have hcalls := (act_calls_of_ne_work h.queue_valid hact hne).1
    have hcrash := act_crash_of_ne_work h hact hne
    have hnone : s.fatal? ds s' = none := by
      rw [fatal?, hcalls, List.drop_length]
      cases s.delivery.worker <;> rfl
    rw [hcrash, hnone]
    exact (List.append_nil _).symm

theorem run_crash {actions : List Action} (h : ∃ jobs, s.Faithful ds sink₀ jobs)
    (hrun : s.run ds actions = some s') :
    s'.crash?.toList = s.crash?.toList ++ s.fatals ds actions := by
  induction actions generalizing s with
  | nil =>
      rw [run, Option.some.injEq] at hrun
      rw [hrun, fatals, List.append_nil]
  | cons action rest ih =>
      obtain ⟨next, hnext, hrest⟩ := Option.bind_eq_some_iff.mp hrun
      obtain ⟨jobs, hfaithful⟩ := h
      obtain ⟨new, hafter⟩ := act_faithful hfaithful hnext
      rw [ih ⟨_, hafter⟩ hrest, act_crash hfaithful hnext, fatals, hnext,
        List.append_assoc]

/-! ### After a crash -/

/-- Nobody takes anything from the queue of a crashed worker. -/
theorem act_crashed (h : s.Faithful ds sink₀ jobs) {p : Panic}
    (hcrash : s.crash? = some p) {action : Action}
    (hact : s.act ds action = some s') :
    s'.crash? = some p ∧ s'.calls = s.calls ∧
      s.queue.contents <+: s'.queue.contents := by
  have hne : action ≠ .work := by
    rintro rfl
    obtain ⟨w, w', x', hworker, hstep, -⟩ := work_eq_some hact
    rw [crash?, hworker, Option.bind_some, Worker.crash?_of_step hstep]
      at hcrash
    contradiction
  obtain ⟨hcalls, new, -, hcontents⟩ :=
    act_calls_of_ne_work h.queue_valid hact hne
  refine ⟨(act_crash_of_ne_work h hact hne).trans hcrash, hcalls, ?_⟩
  rw [hcontents]
  exact List.prefix_append _ _

theorem run_crashed {more : List Action} (h : ∃ jobs, s.Faithful ds sink₀ jobs)
    {p : Panic} (hcrash : s.crash? = some p) (hrun : s.run ds more = some s') :
    s'.crash? = some p ∧ s'.calls = s.calls ∧
      s.queue.contents <+: s'.queue.contents := by
  induction more generalizing s with
  | nil =>
      rw [run, Option.some.injEq] at hrun
      subst hrun
      exact ⟨hcrash, rfl, List.prefix_rfl⟩
  | cons action rest ih =>
      obtain ⟨next, hnext, hrest⟩ := Option.bind_eq_some_iff.mp hrun
      obtain ⟨jobs, hfaithful⟩ := h
      obtain ⟨new, hafter⟩ := act_faithful hfaithful hnext
      obtain ⟨hcrash', hcalls, hstays⟩ := act_crashed hfaithful hcrash hnext
      obtain ⟨hcrash'', hcalls', hstays'⟩ := ih ⟨_, hafter⟩ hcrash' hrest
      exact ⟨hcrash'', hcalls'.trans hcalls, hstays.trans hstays'⟩

/-! ### Without a crash -/

/-- A worker that stands still without a crash has finished with everything,
and has ended if nothing more can come. -/
theorem Faithful.of_standstill (h : s.Faithful ds sink₀ jobs)
    (hworker : s.delivery.worker.isSome = true) (hcrash : s.crash? = none)
    (hstill : s.work ds = none) :
    s.queue.count = 0 ∧ jobs.filterMap Job.payload? = s.accepted ∧
      s.calls = (ds.performAll jobs sink₀).2 ∧
      (s.queue.closed = true → s.IsEnded) := by
  obtain ⟨w, hw⟩ := Option.isSome_iff_exists.mp hworker
  have hstep : w.step ds s.delivery.exchange = none := by
    rw [Session.work, hw, Option.map_eq_none_iff] at hstill
    exact hstill
  rw [crash?, hw, Option.bind_some] at hcrash
  have hphase := Worker.standstill_cases hstep hcrash
  have hbegun : s.begun ds = [] := by
    rw [begun, hw, Option.map_some, Option.getD_some, Worker.begun]
    rcases hphase with hended | ⟨hwaiting, -⟩
    · rw [hended]
    · rw [hwaiting]
  have hcalls : s.calls = (ds.performAll jobs sink₀).2 := by
    rw [h.calls_eq, hbegun, List.append_nil]
  rcases hphase with hended | ⟨hwaiting, hcount, hopen⟩
  · have hisEnded : s.IsEnded := ⟨w, hw, hended⟩
    obtain ⟨hcount, hjobs⟩ := h.of_ended hisEnded
    exact ⟨hcount, hjobs, hcalls, fun _ => hisEnded⟩
  · have hheld : s.held = [] := by
      rw [held, hw, Option.map_some, Option.getD_some, Worker.held, hwaiting]
    have hcontents : s.queue.contents = [] :=
      (Ring.contents_eq_nil_iff _).mpr hcount
    refine ⟨hcount, ?_, hcalls, fun hclosed => ?_⟩
    · rw [h.accepted_eq, hheld, hcontents, List.append_nil, List.append_nil]
    · rw [queue, hopen] at hclosed
      contradiction

/-- Left to itself, the worker comes to a standstill. -/
theorem exists_run_standstill (hworker : s.delivery.worker.isSome = true) :
    ∃ n s', s.run ds (List.replicate n .work) = some s' ∧
      s'.work ds = none := by
  obtain ⟨w, hw⟩ := Option.isSome_iff_exists.mp hworker
  obtain ⟨n, hrun⟩ :=
    exists_run_runFor ds (w.effort s.delivery.exchange) s hw
  refine ⟨n, _, hrun, ?_⟩
  have hstill := Worker.advance_run ds false w s.delivery.exchange
  rw [Worker.advance, Bool.false_and, if_neg Bool.false_ne_true] at hstill
  rw [Session.work, withWorker, Option.map_eq_none_iff]
  exact hstill

end Actions

/-- The worker crashes exactly with the fatal panics of a run: every other
failure of a call it survives.  It ends only when the queue is closed and
empty.  Left to itself it comes to a standstill, and if it has not crashed then,
each accepted payload has been handled, and it has ended if the queue is closed.
Once it has crashed, nothing more is asked of the sink, and no payload leaves
the queue. -/
theorem run_survives_unless_fatal {ds : Downstream σ} {config : Config}
    {sink : σ} {d : Delivery σ} (hnew : Delivery.new config sink = .ok d)
    {actions : List Action} {s : Session σ}
    (hrun : (new d).run ds actions = some s) :
    (new d).fatals ds actions = s.crash?.toList ∧
    (s.IsEnded → s.queue.closed = true ∧ s.queue.count = 0) ∧
    (s.delivery.worker.isSome = true →
      (∃ n s', s.run ds (List.replicate n .work) = some s' ∧
        s'.work ds = none) ∧
      (s.work ds = none → s.crash? = none →
        s.queue.count = 0 ∧
        (∃ jobs : List Job, jobs.filterMap Job.payload? = s.accepted ∧
          s.calls = (ds.performAll jobs sink).2) ∧
        (s.queue.closed = true → s.IsEnded))) ∧
    (∀ p, s.crash? = some p → ∀ more s', s.run ds more = some s' →
      s'.crash? = some p ∧ s'.calls = s.calls ∧
      s.queue.contents <+: s'.queue.contents) := by
  have hfirst : ∃ jobs, (new d).Faithful ds sink jobs := ⟨[], faithful_new hnew⟩
  obtain ⟨jobs, hfaithful⟩ := run_faithful hfirst hrun
  have hfresh : (new d).crash? = none := by
    obtain ⟨queue, -, rfl⟩ := eq_of_new hnew
    rfl
  refine ⟨?_, hfaithful.drained,
    fun hworker => ⟨exists_run_standstill hworker, ?_⟩, ?_⟩
  · rw [run_crash hfirst hrun, hfresh]
    rfl
  · intro hstill hcrash
    obtain ⟨hcount, hjobs, hcalls, hends⟩ :=
      hfaithful.of_standstill hworker hcrash hstill
    exact ⟨hcount, ⟨jobs, hjobs, hcalls⟩, hends⟩
  · intro p hcrash more s' hmore
    exact run_crashed ⟨jobs, hfaithful⟩ hcrash hmore

namespace IsolationWitness

/-- The filter panics at `0`; encoding fails at `1` and panics at `2`; writing
fails for `3` and panics for `4`.  The first flush fails, the third panics. -/
def downstream : Downstream Nat where
  name := []
  filter := some fun flushes payload =>
    (flushes, if payload = [0] then .error .other else .ok false)
  encode := some fun flushes payload =>
    (flushes,
      if payload = [1] then .failed .queueClosed
      else if payload = [2] then .panicked .other
      else .done payload)
  write flushes bytes :=
    (flushes,
      if bytes = [3] then .failed .queueClosed
      else if bytes = [4] then .panicked .other
      else .done bytes.length)
  flush flushes :=
    (flushes + 1,
      if flushes = 0 then .failed .queueClosed
      else if flushes = 2 then .panicked .other
      else .done ())

/-- A delivery whose sink has been flushed so many times. -/
def delivery (flushes : Nat) : Delivery Nat where
  guardBand := 1
  threadName := []
  exchange := .new ⟨Array.replicate 8 [], 0, 0, 0, false⟩
  pending := some flushes
  worker := none
  joinable := false
  started := false

/-- Each call but the filter's fails once. -/
def survived : List Action :=
  [.offer [1], .count, .offer [2], .count, .offer [3], .count,
    .offer [4], .count, .offer [5], .count, .start,
    .close] ++ List.replicate 34 .work

theorem run_survives_unless_fatal_sample :
    Delivery.new ⟨8, 1, []⟩ 0 = .ok (delivery 0) ∧
    ∃ s, (new (delivery 0)).run downstream survived = some s ∧
      (new (delivery 0)).fatals downstream survived = [] ∧ s.IsEnded ∧
      ∃ jobs : List Job,
        jobs.filterMap Job.payload? = [[1], [2], [3], [4], [5]] ∧
        s.calls = (downstream.performAll jobs 0).2 := by
  have hnew : Delivery.new ⟨8, 1, []⟩ 0 = .ok (delivery 0) := rfl
  have hsome : ((new (delivery 0)).run downstream survived).map
      (fun s => (s.delivery.worker.isSome, (s.work downstream).isNone,
        s.crash?, s.queue.closed, s.accepted)) =
      some (true, true, none, true, [[1], [2], [3], [4], [5]]) := by
    rfl
  obtain ⟨s, hrun, hs⟩ := Option.map_eq_some_iff.mp hsome
  simp only [Prod.mk.injEq, Option.isNone_iff_eq_none] at hs
  obtain ⟨hworker, hstill, hcrash, hclosed, haccepted⟩ := hs
  obtain ⟨hfatals, -, hworks, -⟩ := run_survives_unless_fatal hnew hrun
  obtain ⟨-, ⟨jobs, hjobs, hcalls⟩, hends⟩ := (hworks hworker).2 hstill hcrash
  refine ⟨hnew, s, hrun, ?_, hends hclosed, jobs, hjobs.trans haccepted, hcalls⟩
  rw [hfatals, hcrash]
  rfl

/-- The filter panics at the first of two payloads. -/
def filterPanics : List Action :=
  [.offer [0], .count, .offer [5], .count, .start, .work, .work, .close]

/-- The flush behind the first of two payloads panics. -/
def flushPanics : List Action :=
  [.start, .offer [5], .count] ++ List.replicate 7 .work ++
    [.offer [6], .count, .close]

/-- What lies in the queue when the worker crashes is never taken. -/
theorem stranded {flushes : Nat} {actions : List Action} {s : Session Nat}
    (hrun : (new (delivery flushes)).run downstream actions = some s)
    {p : Panic} (hcrash : s.crash? = some p) {payload : Bytes}
    (hcontents : s.queue.contents = [payload]) {more : List Action}
    {s' : Session Nat} (hmore : s.run downstream more = some s') :
    payload ∈ s'.queue.contents ∧ s'.calls = s.calls ∧ ¬ s'.IsEnded := by
  have hnew : Delivery.new ⟨8, 1, []⟩ flushes = .ok (delivery flushes) := rfl
  have hfaithful := run_faithful ⟨[], faithful_new hnew⟩ hrun
  obtain ⟨hcrash', hcalls, hstays⟩ := run_crashed hfaithful hcrash hmore
  rw [hcontents] at hstays
  refine ⟨hstays.subset (List.mem_singleton_self payload), hcalls, ?_⟩
  rintro ⟨w, hworker, hphase⟩
  rw [crash?, hworker, Option.bind_some, Worker.crash?, hphase] at hcrash'
  contradiction

/-- A panic of the filter keeps `5` from being handled, and one of a flush `6`:
although the queue has taken them and is closed, nothing that happens later
brings them to the sink. -/
theorem later_payload_stranded :
    (∃ s, (new (delivery 0)).run downstream filterPanics = some s ∧
      s.accepted = [[0], [5]] ∧ s.queue.closed = true ∧
      ∀ more s', s.run downstream more = some s' →
        [5] ∈ s'.queue.contents ∧ s'.calls = [.filter [0]] ∧ ¬ s'.IsEnded) ∧
    (∃ s, (new (delivery 2)).run downstream flushPanics = some s ∧
      s.accepted = [[5], [6]] ∧ s.queue.closed = true ∧
      ∀ more s', s.run downstream more = some s' →
        [6] ∈ s'.queue.contents ∧
        s'.calls = [.filter [5], .encode [5], .write [5], .flush] ∧
        ¬ s'.IsEnded) := by
  have hfilter : ((new (delivery 0)).run downstream filterPanics).map
      (fun s => (s.accepted, s.queue.closed, s.crash?,
        s.queue.contents, s.calls)) =
      some ([[0], [5]], true, some .other, [[5]], [.filter [0]]) := by
    rfl
  have hflush : ((new (delivery 2)).run downstream flushPanics).map
      (fun s => (s.accepted, s.queue.closed, s.crash?,
        s.queue.contents, s.calls)) =
      some ([[5], [6]], true, some .other, [[6]],
        [.filter [5], .encode [5], .write [5], .flush]) := by
    rfl
  constructor
  · obtain ⟨s, hrun, hs⟩ := Option.map_eq_some_iff.mp hfilter
    simp only [Prod.mk.injEq] at hs
    obtain ⟨haccepted, hclosed, hcrash, hcontents, hcalls⟩ := hs
    refine ⟨s, hrun, haccepted, hclosed, fun more s' hmore => ?_⟩
    rw [← hcalls]
    exact stranded hrun hcrash hcontents hmore
  · obtain ⟨s, hrun, hs⟩ := Option.map_eq_some_iff.mp hflush
    simp only [Prod.mk.injEq] at hs
    obtain ⟨haccepted, hclosed, hcrash, hcontents, hcalls⟩ := hs
    refine ⟨s, hrun, haccepted, hclosed, fun more s' hmore => ?_⟩
    rw [← hcalls]
    exact stranded hrun hcrash hcontents hmore

end IsolationWitness

end Session

end Logline.Delivery
