import Logline.Proofs.Delivery.Order
/-!
The metrics of a delivery as its accounts.  A `Ledger` is what could be counted
from outside: the writes, what the sink has answered, what the worker has
reported.  `Balanced` says how the metrics, the queue and the worker add up to
that; as long as there are fewer writes than a counter can hold it is kept by
every action, and with no write in progress it is the account of
`run_metrics_account`.

The worker records what a call has come to in steps of their own, so the
counters and the reports are behind the calls by the one that it is recording.
-/
namespace Logline.Delivery

variable {σ : Type}

/-! ### The counters -/

namespace Metrics

/-- What a counter shows. -/
def count (m : Metrics) (counter : Counter) : Nat := (m.get counter).toNat

/-- One more in a counter, and in no other, unless it starts again from
zero. -/
theorem count_record {m : Metrics} {counter : Counter}
    (hroom : m.count counter + 1 < UInt64.size) (other : Counter) :
    (m.record counter).count other =
      m.count other + if other = counter then 1 else 0 := by
  rw [count, get_record]
  split_ifs with hsame
  · subst hsame
    rw [UInt64.toNat_add]
    exact Nat.mod_eq_of_lt hroom
  · rw [UInt64.add_zero, count, Nat.add_zero]

end Metrics

namespace Counter

/-- The counter says what has become of a payload from the queue. -/
def isOutcome : Counter → Bool
  | .enqueued => false
  | .dropped => false
  | _ => true

theorem ne_of_isOutcome {counter : Counter} (h : counter.isOutcome) :
    enqueued ≠ counter ∧ dropped ≠ counter := by
  cases counter <;> simp_all [isOutcome]

end Counter

theorem Fate.isOutcome_counter (fate : Fate) : fate.counter.isOutcome := by
  cases fate <;> rfl

namespace Metrics

/-- How many payloads have been done with, whatever came of them. -/
def settled (m : Metrics) : Nat :=
  m.count .filtered + m.count .delivered + m.count .encodeFailures +
    m.count .writeFailures

theorem settled_record {m : Metrics} {counter : Counter}
    (hroom : m.count counter + 1 < UInt64.size) :
    (m.record counter).settled =
      m.settled + if counter.isOutcome then 1 else 0 := by
  simp only [settled, count_record hroom]
  cases counter <;> simp [Counter.isOutcome] <;> omega

theorem count_le_settled {counter : Counter} (houtcome : counter.isOutcome)
    (m : Metrics) : m.count counter ≤ m.settled := by
  rw [settled]
  cases counter with
  | enqueued => contradiction
  | dropped => contradiction
  | _ => omega

/-- The sum of the counters does not start again from zero either. -/
theorem processed_toNat {m : Metrics} (hroom : m.settled < UInt64.size) :
    m.processed.toNat = m.settled := by
  simp only [processed, settled, count, get, UInt64.toNat_add] at hroom ⊢
  change _ < 2 ^ 64 at hroom
  omega

end Metrics

/-! ### The steps of the worker -/

namespace Exchange

@[simp] theorem reports_ask (x : Exchange) (call : Call) :
    (x.ask call).reports = x.reports := by
  simp [ask, reports, Note.report?]

@[simp] theorem reports_report (x : Exchange) (message : Text) :
    (x.report message).reports = x.reports ++ [message] := by
  simp [report, reports, Note.report?]

@[simp] theorem reports_count (x : Exchange) (counter : Counter) :
    (x.count counter).reports = x.reports := rfl

end Exchange

namespace Phase

/-- How many payloads the worker has taken and not counted yet, whatever has
come of them. -/
def unsettled : Phase → Nat
  | filtering => 1
  | encoding => 1
  | writing _ => 1
  | reporting .encode _ => 1
  | reporting .write _ => 1
  | counting _ => 1
  | _ => 0

/-- How many writes the sink has taken that are not counted yet. -/
def uncountedWrites : Phase → Nat
  | counting .delivered => 1
  | _ => 0

/-- How many failures have been reported that are not counted yet. -/
def uncountedFailures : Phase → Nat
  | counting .encodeFailed => 1
  | counting .writeFailed => 1
  | _ => 0

/-- How many flushes have failed that are not reported yet. -/
def unreportedFlushes : Phase → Nat
  | reporting .flush _ => 1
  | reporting .lastFlush _ => 1
  | _ => 0

/-- How many reports the next step makes. -/
def reports : Phase → Nat
  | reporting _ _ => 1
  | _ => 0

/-- The worker records what a call has come to. -/
def isRecording : Phase → Bool
  | reporting _ _ => true
  | counting _ => true
  | _ => false

theorem nothing_unrecorded {phase : Phase} (h : phase.isRecording = false) :
    phase.uncountedWrites = 0 ∧ phase.uncountedFailures = 0 ∧
      phase.unreportedFlushes = 0 := by
  cases phase with
  | reporting failure message => contradiction
  | counting fate => contradiction
  | _ => exact ⟨rfl, rfl, rfl⟩

/-- With what has become of a payload counted, nothing is left to record. -/
theorem settled_next (fate : Fate) :
    fate.next.unsettled = 0 ∧ fate.next.uncountedWrites = 0 ∧
      fate.next.uncountedFailures = 0 ∧ fate.next.unreportedFlushes = 0 := by
  cases fate <;> exact ⟨rfl, rfl, rfl, rfl⟩

end Phase

namespace Worker

/-- How many writes the sink takes in the next step. -/
def delivers (ds : Downstream σ) (w : Worker σ) : Nat :=
  match w.phase with
  | .writing bytes =>
    match (ds.write w.sink bytes).2 with
    | .done _ => 1
    | _ => 0
  | _ => 0

/-- How many flushes fail in the next step. -/
def failsFlush (ds : Downstream σ) (w : Worker σ) : Nat :=
  match w.phase with
  | .flushing | .closing =>
    match (ds.flush w.sink).2 with
    | .failed _ => 1
    | _ => 0
  | _ => 0

/-- The step counts nothing: what comes of its call is still to be recorded, and
what it reports was still to be reported or is still to be counted. -/
structure Carries (ds : Downstream σ) (w : Worker σ) (x : Exchange)
    (w' : Worker σ) (x' : Exchange) : Prop where
  metrics_eq : x'.metrics = x.metrics
  left_eq : x'.queue.count + w'.phase.unsettled =
    x.queue.count + w.phase.unsettled
  closed_eq : x'.queue.closed = x.queue.closed
  writes_eq : w'.phase.uncountedWrites =
    w.phase.uncountedWrites + w.delivers ds
  reports_eq : x'.reports.length = x.reports.length + w.phase.reports
  recorded_eq :
    w.phase.reports + w'.phase.unreportedFlushes + w.phase.uncountedFailures =
      w.phase.unreportedFlushes + w.failsFlush ds + w'.phase.uncountedFailures

section Steps

variable {ds : Downstream σ} {w w' : Worker σ} {x x' : Exchange}

theorem stepWaiting_carries (hw : w.phase = .waiting)
    (hstep : w.stepWaiting x = some (w', x')) : w.Carries ds x w' x' := by
  obtain ⟨phase, sink, buffer⟩ := w
  obtain rfl : phase = .waiting := hw
  rw [stepWaiting, Ring.takeInto] at hstep
  by_cases hcount : x.queue.count = 0
  · cases hclosed : x.queue.closed with
    | false => simp [hcount, hclosed] at hstep
    | true =>
        simp only [hcount, hclosed, ↓reduceIte, Option.some.injEq,
          Prod.mk.injEq] at hstep
        obtain ⟨rfl, rfl⟩ := hstep
        exact ⟨rfl, rfl, rfl, rfl, rfl, rfl⟩
  · simp only [hcount, ↓reduceIte, Option.some.injEq, Prod.mk.injEq] at hstep
    obtain ⟨rfl, rfl⟩ := hstep
    -- what leaves the queue is in the worker's hands
    have hleft : x.queue.count - 1 + 1 = x.queue.count :=
      Nat.sub_one_add_one hcount
    exact ⟨rfl, hleft, rfl, rfl, rfl, rfl⟩

theorem stepFiltering_carries (hsteady : ds.Steady) (hw : w.phase = .filtering)
    (hstep : stepFiltering ds w x = (w', x')) : w.Carries ds x w' x' := by
  obtain ⟨phase, sink, buffer⟩ := w
  obtain rfl : phase = .filtering := hw
  rw [stepFiltering] at hstep
  cases hfilter : ds.filter with
  | none =>
      simp only [hfilter, Prod.mk.injEq] at hstep
      obtain ⟨rfl, rfl⟩ := hstep
      exact ⟨rfl, rfl, rfl, rfl, rfl, rfl⟩
  | some filter =>
      rcases hanswer : filter sink buffer with ⟨sink', p | ⟨_ | _⟩⟩
      all_goals
        simp only [hfilter, hanswer, Prod.mk.injEq] at hstep
        obtain ⟨rfl, rfl⟩ := hstep
      · exact absurd (congrArg Prod.snd hanswer)
          (hsteady.filter filter hfilter sink buffer p)
      · exact ⟨rfl, rfl, rfl, rfl, by simp [Phase.reports], rfl⟩
      · exact ⟨rfl, rfl, rfl, rfl, by simp [Phase.reports], rfl⟩

theorem stepEncoding_carries (hw : w.phase = .encoding)
    (hstep : stepEncoding ds w x = (w', x')) : w.Carries ds x w' x' := by
  obtain ⟨phase, sink, buffer⟩ := w
  obtain rfl : phase = .encoding := hw
  rw [stepEncoding] at hstep
  cases hencode : ds.encode with
  | none =>
      simp only [hencode, Prod.mk.injEq] at hstep
      obtain ⟨rfl, rfl⟩ := hstep
      exact ⟨rfl, rfl, rfl, rfl, rfl, rfl⟩
  | some encode =>
      rcases hanswer : encode sink buffer with ⟨sink', bytes | e | p⟩
      all_goals
        simp only [hencode, hanswer, Prod.mk.injEq] at hstep
        obtain ⟨rfl, rfl⟩ := hstep
        exact ⟨rfl, rfl, rfl, rfl, by simp [Phase.reports], rfl⟩

theorem stepWriting_carries {bytes : Bytes} (hw : w.phase = .writing bytes)
    (hstep : stepWriting ds bytes w x = (w', x')) : w.Carries ds x w' x' := by
  obtain ⟨phase, sink, buffer⟩ := w
  obtain rfl : phase = .writing bytes := hw
  rw [stepWriting] at hstep
  rcases hanswer : ds.write sink bytes with ⟨sink', n | e | p⟩
  all_goals
    simp only [hanswer, Prod.mk.injEq] at hstep
    obtain ⟨rfl, rfl⟩ := hstep
    refine ⟨rfl, rfl, rfl, ?_, by simp [Phase.reports], rfl⟩
    simp [delivers, hanswer, Phase.uncountedWrites]

/-- A flush that fails is reported in the next step, and counted by nobody. -/
theorem stepFlush_carries (hsteady : ds.Steady) {failure : Failure}
    (hw : w.phase = .flushing ∧ failure = .flush ∨
      w.phase = .closing ∧ failure = .lastFlush)
    (hstep : stepFlush ds failure w x = (w', x')) : w.Carries ds x w' x' := by
  obtain ⟨phase, sink, buffer⟩ := w
  rw [stepFlush] at hstep
  rcases hanswer : ds.flush sink with ⟨sink', ⟨⟩ | e | p⟩
  all_goals
    simp only [hanswer, Prod.mk.injEq] at hstep
    obtain ⟨rfl, rfl⟩ := hstep
  · obtain ⟨rfl, rfl⟩ | ⟨rfl, rfl⟩ := hw
    all_goals
      refine ⟨rfl, rfl, rfl, rfl, by simp [Phase.reports], ?_⟩
      rw [failsFlush, hanswer]
      rfl
  · obtain ⟨rfl, rfl⟩ | ⟨rfl, rfl⟩ := hw
    all_goals
      refine ⟨rfl, rfl, rfl, rfl, by simp [Phase.reports], ?_⟩
      rw [failsFlush, hanswer]
      rfl
  · exact absurd (congrArg Prod.snd hanswer) (hsteady.flush sink p)

/-- Every step of the worker counts what has become of a payload, and does
nothing else, or leaves the metrics as they are. -/
theorem step_accounts (hsteady : ds.Steady)
    (hstep : w.step ds x = some (w', x')) :
    (∃ fate, w.phase = .counting fate ∧ w' = { w with phase := fate.next } ∧
        x' = x.count fate.counter) ∨
      w.Carries ds x w' x' := by
  cases hw : w.phase with
  | waiting =>
      rw [step, hw] at hstep
      exact .inr (stepWaiting_carries hw hstep)
  | filtering =>
      simp only [step, hw, Option.some.injEq] at hstep
      exact .inr (stepFiltering_carries hsteady hw hstep)
  | encoding =>
      simp only [step, hw, Option.some.injEq] at hstep
      exact .inr (stepEncoding_carries hw hstep)
  | writing bytes =>
      simp only [step, hw, Option.some.injEq] at hstep
      exact .inr (stepWriting_carries hw hstep)
  | reporting failure message =>
      simp only [step, hw, Option.some.injEq, Prod.mk.injEq] at hstep
      obtain ⟨rfl, rfl⟩ := hstep
      obtain ⟨phase, sink, buffer⟩ := w
      obtain rfl : phase = .reporting failure message := hw
      refine .inr ?_
      cases failure <;>
        exact ⟨rfl, rfl, rfl, rfl, by simp [Phase.reports], rfl⟩
  | counting fate =>
      simp only [step, hw, Option.some.injEq, Prod.mk.injEq] at hstep
      exact .inl ⟨fate, rfl, hstep.1.symm, hstep.2.symm⟩
  | checking =>
      simp only [step, hw, Option.some.injEq, Prod.mk.injEq] at hstep
      obtain ⟨rfl, rfl⟩ := hstep
      obtain ⟨phase, sink, buffer⟩ := w
      obtain rfl : phase = .checking := hw
      refine .inr ?_
      cases hempty : x.queue.isEmpty <;> exact ⟨rfl, rfl, rfl, rfl, rfl, rfl⟩
  | flushing =>
      simp only [step, hw, Option.some.injEq] at hstep
      exact .inr (stepFlush_carries hsteady (.inl ⟨hw, rfl⟩) hstep)
  | closing =>
      simp only [step, hw, Option.some.injEq] at hstep
      exact .inr (stepFlush_carries hsteady (.inr ⟨hw, rfl⟩) hstep)
  | ended => simp [step, hw] at hstep
  | crashed p => simp [step, hw] at hstep

end Steps

end Worker

/-! ### The accounts of a session -/

namespace Producer

/-- How many payloads a write in progress has yet to count. -/
def uncounted : Producer → Nat
  | .counting _ => 1
  | _ => 0

/-- How many of them are in the queue already. -/
def unentered : Producer → Nat
  | .counting true => 1
  | _ => 0

theorem uncounted_eq_zero {p : Producer}
    (h : ∀ accepted, p ≠ .counting accepted) : p.uncounted = 0 := by
  cases p with
  | counting accepted => exact absurd rfl (h accepted)
  | _ => rfl

theorem unentered_le_uncounted (p : Producer) :
    p.unentered ≤ p.uncounted := by
  cases p with
  | counting accepted => cases accepted <;> simp [unentered, uncounted]
  | _ => exact Nat.le_refl _

end Producer

/-- What can be counted from outside. -/
structure Ledger where
  /-- The writes that have begun. -/
  writes : Nat
  /-- The writes that the sink has taken. -/
  delivered : Nat
  /-- The flushes that have failed. -/
  failedFlushes : Nat
  /-- What the worker has reported. -/
  reports : Nat
deriving DecidableEq, Repr

namespace Session

/-- What comes into the ledger with an action that leads to `s'`. -/
def enter (ds : Downstream σ) (s : Session σ) (action : Action)
    (s' : Session σ) (l : Ledger) : Ledger :=
  match action with
  | .offer _ => { l with writes := l.writes + 1 }
  | .work =>
    match s.delivery.worker with
    | some w =>
        { l with
          delivered := l.delivered + w.delivers ds
          failedFlushes := l.failedFlushes + w.failsFlush ds
          reports := l.reports + (s'.delivery.exchange.reports.length -
            s.delivery.exchange.reports.length) }
    | none => l
  | _ => l

/-- The ledger after a run that began with `l`. -/
def ledger (ds : Downstream σ) (s : Session σ) (l : Ledger) :
    List Action → Ledger
  | [] => l
  | action :: rest =>
      match s.act ds action with
      | some next => next.ledger ds (s.enter ds action next l) rest
      | none => l

def metrics (s : Session σ) : Metrics := s.delivery.exchange.metrics

/-- What the worker does next, as if it waited already before the start. -/
def phase (s : Session σ) : Phase :=
  (s.delivery.worker.map Worker.phase).getD .waiting

theorem phase_eq {s : Session σ} {w : Worker σ}
    (hworker : s.delivery.worker = some w) : s.phase = w.phase := by
  rw [phase, hworker, Option.map_some, Option.getD_some]

/-- The payloads that have got into the queue and are not counted as done
with. -/
def left (s : Session σ) : Nat := s.queue.count + s.phase.unsettled

/-- The metrics agree with the ledger, up to what is under way. -/
structure Balanced (l : Ledger) (s : Session σ) : Prop where
  writes_eq : l.writes = s.metrics.count .enqueued +
    s.metrics.count .dropped + s.producer.uncounted
  enqueued_eq : s.metrics.count .enqueued + s.producer.unentered =
    s.metrics.settled + s.left
  delivered_eq : s.metrics.count .delivered + s.phase.uncountedWrites =
    l.delivered
  reports_eq : l.reports + s.phase.unreportedFlushes =
    s.metrics.count .encodeFailures + s.metrics.count .writeFailures +
      s.phase.uncountedFailures + l.failedFlushes
  closed : s.queue.closed = true → s.producer.unentered = 0

section Actions

variable {ds : Downstream σ} {sink₀ : σ} {jobs : List Job} {l : Ledger}
  {s s' : Session σ}

theorem enter_work {w : Worker σ} (hworker : s.delivery.worker = some w) :
    s.enter ds .work s' l =
      { l with
        delivered := l.delivered + w.delivers ds
        failedFlushes := l.failedFlushes + w.failsFlush ds
        reports := l.reports + (s'.delivery.exchange.reports.length -
          s.delivery.exchange.reports.length) } := by
  rw [enter, hworker]

theorem writes_le_enter (action : Action) :
    l.writes ≤ (s.enter ds action s' l).writes := by
  cases action with
  | offer payload => exact Nat.le_succ _
  | work =>
      rw [enter]
      split
      · exact Nat.le_refl _
      · exact Nat.le_refl _
  | _ => exact Nat.le_refl _

theorem writes_le_ledger (actions : List Action) :
    l.writes ≤ (s.ledger ds l actions).writes := by
  induction actions generalizing s l with
  | nil => exact Nat.le_refl _
  | cons action rest ih =>
      rw [ledger]
      split
      · exact (writes_le_enter action).trans ih
      · exact Nat.le_refl _

/-! ### One action -/

/-- What is neither counted nor taken makes no difference. -/
theorem Balanced.of_metrics_eq (h : s.Balanced l)
    (hmetrics : s'.metrics = s.metrics)
    (hcount : s'.queue.count = s.queue.count) (hphase : s'.phase = s.phase)
    (huncounted : s'.producer.uncounted = s.producer.uncounted)
    (hunentered : s'.producer.unentered = s.producer.unentered)
    (hclosed : s'.queue.closed = true → s'.producer.unentered = 0) :
    s'.Balanced l where
  writes_eq := by rw [hmetrics, huncounted, h.writes_eq]
  enqueued_eq := by
    rw [hmetrics, hunentered, h.enqueued_eq, left, left, hcount, hphase]
  delivered_eq := by rw [hmetrics, hphase, h.delivered_eq]
  reports_eq := by rw [hmetrics, hphase, h.reports_eq]
  closed := hclosed

theorem Balanced.offer (h : s.Balanced l) (hidle : s.producer = .idle)
    (payload : Bytes) :
    (s.offer payload).Balanced { l with writes := l.writes + 1 } := by
  have hwrites := h.writes_eq
  have henqueued := h.enqueued_eq
  rw [hidle] at hwrites henqueued
  rcases s.offer_cases payload with ⟨hopen, -, hoffer⟩ | hoffer <;> rw [hoffer]
  · refine ⟨congrArg (· + 1) hwrites, ?_, h.delivered_eq, h.reports_eq, ?_⟩
    · rw [left] at henqueued
      change s.metrics.count .enqueued + 0 = _ at henqueued
      change s.metrics.count .enqueued + 1 =
        s.metrics.settled + (s.queue.count + 1 + s.phase.unsettled)
      omega
    · intro hclosed
      exact absurd (hopen.symm.trans hclosed) Bool.false_ne_true
  · exact ⟨congrArg (· + 1) hwrites, henqueued, h.delivered_eq, h.reports_eq,
      fun _ => rfl⟩

/-- A write counts once, as taken exactly if the queue took its payload, and
never as an outcome. -/
theorem tally_counter (accepted : Bool) {counter : Counter}
    (hcounter : counter = if accepted then .enqueued else .dropped) :
    (if Counter.enqueued = counter then 1 else 0) =
        (Producer.counting accepted).unentered ∧
      (if Counter.enqueued = counter then 1 else 0) +
        (if Counter.dropped = counter then 1 else 0) = 1 ∧
      ∀ other : Counter, other.isOutcome → other ≠ counter := by
  subst hcounter
  refine ⟨?_, ?_, ?_⟩
  · cases accepted <;> rfl
  · cases accepted <;> rfl
  · rintro other houtcome rfl
    cases accepted <;> contradiction

theorem Balanced.count (h : s.Balanced l) (hfew : l.writes < UInt64.size)
    {accepted : Bool} (hproducer : s.producer = .counting accepted) :
    { s.withExchange (s.delivery.exchange.tally accepted) with
      producer := .idle }.Balanced l := by
  obtain ⟨counter, hcounter⟩ : ∃ counter : Counter,
      counter = if accepted then .enqueued else .dropped := ⟨_, rfl⟩
  obtain ⟨hentered, hone, hother⟩ := tally_counter accepted hcounter
  have hwrites := h.writes_eq
  have henqueued := h.enqueued_eq
  rw [hproducer] at hwrites henqueued
  rw [Producer.uncounted] at hwrites
  have hroom : s.metrics.count counter + 1 < UInt64.size := by
    rw [hcounter]
    split <;> omega
  have hno : ¬ counter.isOutcome := fun houtcome => hother _ houtcome rfl
  have hcount := Metrics.count_record hroom
  have hsettled := Metrics.settled_record hroom
  have hmetrics : ({ s.withExchange (s.delivery.exchange.tally accepted) with
      producer := .idle } : Session σ).metrics = s.metrics.record counter := by
    rw [hcounter]
    rfl
  refine ⟨?_, ?_, ?_, ?_, fun _ => rfl⟩
  · rw [hmetrics, hcount, hcount]
    change _ = _ + 0
    omega
  · rw [hmetrics, hcount, hsettled, hentered, if_neg hno]
    exact henqueued
  · rw [hmetrics, hcount, if_neg (hother _ rfl)]
    exact h.delivered_eq
  · rw [hmetrics, hcount, hcount, if_neg (hother _ rfl), if_neg (hother _ rfl)]
    exact h.reports_eq

theorem Balanced.start (h : s.Balanced l)
    (hfaithful : s.Faithful ds sink₀ jobs) :
    { s with delivery := s.delivery.start.1 }.Balanced l := by
  have hphase : ({ s with delivery := s.delivery.start.1 } : Session σ).phase =
      s.phase := by
    rw [Delivery.start]
    cases hpending : s.delivery.pending with
    | none => rfl
    | some sink =>
        dsimp only
        split
        · rfl
        · rw [phase, phase, (hfaithful.pending sink hpending).2]
          rfl
  have hexchange := start_exchange s.delivery
  apply h.of_metrics_eq
  · rw [metrics, metrics, hexchange]
  · rw [queue, queue, hexchange]
  · exact hphase
  · rfl
  · rfl
  · rw [queue, hexchange]
    exact h.closed

theorem Balanced.close (h : s.Balanced l) (hidle : s.producer = .idle) :
    { s with delivery := s.delivery.close, producer := .stopping }.Balanced
      l := by
  refine h.of_metrics_eq rfl rfl rfl ?_ ?_ fun _ => rfl
  · rw [hidle]
    rfl
  · rw [hidle]
    rfl

theorem join_metrics (timeout : Duration) (d : Delivery σ) :
    (d.join timeout).2.exchange.metrics = d.exchange.metrics := by
  rw [Delivery.join]
  split
  · rfl
  · split <;> rfl

theorem Balanced.join (h : s.Balanced l) (hstopping : s.producer = .stopping)
    (timeout : Duration) :
    { s with
      delivery := (s.delivery.join timeout).2, producer := .idle }.Balanced
      l := by
  have hmetrics := join_metrics timeout s.delivery
  obtain ⟨joinable, x, heq, hqueue, -⟩ := join_eq timeout s.delivery
  rw [heq] at hmetrics ⊢
  refine h.of_metrics_eq hmetrics (congrArg Ring.count hqueue) rfl ?_ ?_
    fun _ => rfl
  · rw [hstopping]
    rfl
  · rw [hstopping]
    rfl

/-- The queue and the worker hold no more than has been written. -/
theorem Balanced.settled_le (h : s.Balanced l) :
    s.metrics.settled + s.left ≤ l.writes := by
  have hwrites := h.writes_eq
  have henqueued := h.enqueued_eq
  have hunentered := s.producer.unentered_le_uncounted
  omega

/-- A step that counts is nothing that the ledger sees. -/
theorem enter_counting {w : Worker σ} (hworker : s.delivery.worker = some w)
    {fate : Fate} (hphase : w.phase = .counting fate)
    (hreports : s'.delivery.exchange.reports = s.delivery.exchange.reports) :
    s.enter ds .work s' l = l := by
  rw [enter_work hworker, Worker.delivers, Worker.failsFlush, hphase, hreports,
    Nat.sub_self]
  rfl

/-- The worker counts a payload, which it has in its hands no more, and the
counters are up with the calls and the reports. -/
theorem Balanced.settle (h : s.Balanced l) (hfew : l.writes < UInt64.size)
    {w : Worker σ} (hworker : s.delivery.worker = some w) {fate : Fate}
    (hphase : w.phase = .counting fate) :
    (s.withWorker { w with phase := fate.next }
      (s.delivery.exchange.count fate.counter)).Balanced l := by
  have hbefore : s.phase = .counting fate := (phase_eq hworker).trans hphase
  have henqueued := h.enqueued_eq
  have hdelivered := h.delivered_eq
  have hreports := h.reports_eq
  rw [left, hbefore, show (Phase.counting fate).unsettled = 1 from rfl]
    at henqueued
  rw [hbefore] at hdelivered hreports
  rw [show (Phase.counting fate).unreportedFlushes = 0 from rfl] at hreports
  have hroom : s.metrics.count fate.counter + 1 < UInt64.size := by
    have hless := Metrics.count_le_settled fate.isOutcome_counter s.metrics
    have hwrites := h.writes_eq
    have hunentered := s.producer.unentered_le_uncounted
    omega
  have hcount := Metrics.count_record hroom
  have hsettled := Metrics.settled_record hroom
  rw [if_pos fate.isOutcome_counter] at hsettled
  have hmetrics : (s.withWorker { w with phase := fate.next }
      (s.delivery.exchange.count fate.counter)).metrics =
      s.metrics.record fate.counter := rfl
  have hnext : (s.withWorker { w with phase := fate.next }
      (s.delivery.exchange.count fate.counter)).phase = fate.next := rfl
  obtain ⟨hsettles, hwrites, hfailures, hflushes⟩ := Phase.settled_next fate
  obtain ⟨hwritten, hdropped⟩ := Counter.ne_of_isOutcome fate.isOutcome_counter
  have htaken : (if Counter.delivered = fate.counter then 1 else 0) =
      (Phase.counting fate).uncountedWrites := by
    cases fate <;> rfl
  have hfailed : (if Counter.encodeFailures = fate.counter then 1 else 0) +
      (if Counter.writeFailures = fate.counter then 1 else 0) =
      (Phase.counting fate).uncountedFailures := by
    cases fate <;> rfl
  refine ⟨?_, ?_, ?_, ?_, h.closed⟩
  · rw [hmetrics, hcount, hcount, if_neg hwritten, if_neg hdropped]
    exact h.writes_eq
  · rw [left, hnext, hsettles, hmetrics, hcount, if_neg hwritten, hsettled]
    change s.metrics.count .enqueued + 0 + s.producer.unentered =
      s.metrics.settled + 1 + (s.queue.count + 0)
    omega
  · rw [hnext, hwrites, hmetrics, hcount, htaken]
    exact hdelivered
  · rw [hnext, hflushes, hfailures, hmetrics, hcount, hcount]
    omega

theorem Balanced.carry (h : s.Balanced l) {w w' : Worker σ} {x' : Exchange}
    (hworker : s.delivery.worker = some w)
    (hstep : w.Carries ds s.delivery.exchange w' x') :
    (s.withWorker w' x').Balanced
      (s.enter ds .work (s.withWorker w' x') l) := by
  have hbefore : s.phase = w.phase := phase_eq hworker
  have hnext : (s.withWorker w' x').phase = w'.phase := rfl
  have hmetrics : (s.withWorker w' x').metrics = s.metrics := hstep.metrics_eq
  have hleft : (s.withWorker w' x').left = s.left := by
    rw [left, left, hbefore]
    exact hstep.left_eq
  rw [enter_work hworker]
  refine ⟨?_, ?_, ?_, ?_, ?_⟩
  · rw [hmetrics]
    exact h.writes_eq
  · rw [hmetrics, hleft]
    exact h.enqueued_eq
  · have hdelivered := h.delivered_eq
    rw [hmetrics, hnext, hstep.writes_eq, ← hbefore]
    dsimp only
    omega
  · have hreports := h.reports_eq
    have hrecorded := hstep.recorded_eq
    rw [hbefore] at hreports
    change l.reports + (x'.reports.length - s.delivery.exchange.reports.length)
      + w'.phase.unreportedFlushes = _
    rw [hstep.reports_eq, Nat.add_sub_cancel_left, hmetrics, hnext]
    dsimp only
    omega
  · intro hclosed
    rw [queue_withWorker, hstep.closed_eq] at hclosed
    exact h.closed hclosed

theorem Balanced.work (h : s.Balanced l) (hfew : l.writes < UInt64.size)
    (hsteady : ds.Steady) (hwork : s.work ds = some s') :
    s'.Balanced (s.enter ds .work s' l) := by
  obtain ⟨w, w', x', hworker, hstep, rfl⟩ := work_eq_some hwork
  rcases Worker.step_accounts hsteady hstep with
    ⟨fate, hphase, rfl, rfl⟩ | hcarries
  · rw [enter_counting hworker hphase]
    · exact h.settle hfew hworker hphase
    · rfl
  · exact h.carry hworker hcarries

theorem act_balanced (h : s.Balanced l) (hfaithful : s.Faithful ds sink₀ jobs)
    (hsteady : ds.Steady) {action : Action}
    (hact : s.act ds action = some s')
    (hfew : (s.enter ds action s' l).writes < UInt64.size) :
    s'.Balanced (s.enter ds action s' l) := by
  have hfew' := (writes_le_enter action).trans_lt hfew
  rcases act_cases hact with ⟨payload, rfl, hidle, rfl⟩ |
    ⟨accepted, rfl, hcounting, rfl⟩ | ⟨rfl, -, rfl⟩ | ⟨rfl, hidle, rfl⟩ |
    ⟨timeout, rfl, hstopping, rfl⟩ | ⟨rfl, hwork⟩
  · exact h.offer hidle payload
  · exact h.count hfew' hcounting
  · exact h.start hfaithful
  · exact h.close hidle
  · exact h.join hstopping timeout
  · exact h.work hfew' hsteady hwork

theorem run_balanced (hsteady : ds.Steady) {actions : List Action}
    (h : s.Balanced l) (hfaithful : s.Faithful ds sink₀ jobs)
    (hrun : s.run ds actions = some s')
    (hfew : (s.ledger ds l actions).writes < UInt64.size) :
    s'.Balanced (s.ledger ds l actions) := by
  induction actions generalizing s l jobs with
  | nil =>
      rw [run, Option.some.injEq] at hrun
      exact hrun ▸ h
  | cons action rest ih =>
      obtain ⟨next, hnext, hrest⟩ := Option.bind_eq_some_iff.mp hrun
      obtain ⟨new, hfaithful'⟩ := act_faithful hfaithful hnext
      rw [ledger, hnext] at hfew ⊢
      have hnow := act_balanced h hfaithful hsteady hnext
        ((writes_le_ledger rest).trans_lt hfew)
      exact ih hnow hfaithful' hrest hfew

theorem balanced_new {config : Config} {d : Delivery σ}
    (hnew : Delivery.new config sink₀ = .ok d) :
    (new d).Balanced ⟨0, 0, 0, 0⟩ := by
  obtain ⟨queue, hqueue, rfl⟩ := eq_of_new hnew
  have hcount : queue.count = 0 := by
    rw [← Ring.contents_eq_nil_iff]
    exact (Ring.valid_of_new hqueue).2.2.1
  refine ⟨rfl, ?_, rfl, rfl, fun _ => rfl⟩
  change 0 = 0 + (queue.count + 0)
  rw [hcount]

end Actions

namespace AccountsWitness

/-- A sink whose flushes all fail. -/
def downstream : Downstream Unit :=
  { OrderWitness.downstream with
    flush := fun sink => (sink, .failed .queueClosed) }

theorem downstream_steady : downstream.Steady where
  filter := OrderWitness.downstream_steady.filter
  flush := by
    intro sink p hpanic
    contradiction

/-- `0` is dropped by the filter, `1` fails, `5` is delivered, and `6` finds
the queue nearly full; the sink has taken `5`, and the worker has not counted
that. -/
def recording : List Action :=
  [.start, .offer [0], .count, .offer [1], .count, .offer [5], .count,
    .offer [6], .count] ++ List.replicate 12 .work

/-- The worker has asked the filter about `7`, and `8` waits behind it. -/
def inUse : List Action :=
  recording ++ List.replicate 4 .work ++
    [.offer [7], .count, .work, .offer [8], .count, .work]

def drained : List Action := inUse ++ .close :: List.replicate 15 .work

end AccountsWitness

end Session

end Logline.Delivery
