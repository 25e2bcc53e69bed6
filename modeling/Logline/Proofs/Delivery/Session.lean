import Logline.Delivery.Basic
/-!
A delivery in use.  One producer writes, starts and stops while the worker goes
its own way: a `Session` takes one atomic step of either party at a time, in
any order.  A write is two steps, at the queue and at the counters, and so is a
stop, closing the queue and the end of the waiting; `run_write` and `run_stop`
put them together again.
-/
namespace Logline.Delivery

/-- What the producer is in the middle of. -/
inductive Producer
  | idle
  /-- A write, between the queue and the counters. -/
  | counting (accepted : Bool)
  /-- A stop that has closed the queue. -/
  | stopping
deriving DecidableEq, Repr

/-- One step of either party. -/
inductive Action
  /-- A write puts its payload into the queue or discards it. -/
  | offer (payload : Bytes)
  /-- The write counts that, and returns. -/
  | count
  | start
  /-- A stop closes the queue. -/
  | close
  /-- The stop returns: the worker is over, or the time is. -/
  | join (timeout : Duration)
  /-- The worker does what comes next. -/
  | work
deriving DecidableEq, Repr

/-- A delivery, what its producer is in the middle of, and the payloads that
writes have put into the queue so far, in order. -/
structure Session (σ : Type) where
  delivery : Delivery σ
  producer : Producer
  accepted : List Bytes

/-- A payload gets into the queue exactly if the queue is open and more slots
are free than the guard band.  An offer never fails: a queue with free slots
beyond the band is not full. -/
theorem Exchange.offer_eq (guardBand : Nat) (payload : Bytes) (x : Exchange) :
    x.offer guardBand payload =
      if x.queue.closed = false ∧ guardBand < x.queue.remaining then
        .ok (true, { x with queue := x.queue.accept payload })
      else .ok (false, x) := by
  rw [offer, Ring.putIfAbove]
  by_cases hroom : guardBand < x.queue.remaining
  · have hfull : x.queue.count ≠ x.queue.capacity := by
      rw [Ring.remaining] at hroom
      omega
    rw [if_neg (Nat.not_le_of_lt hroom), Ring.put, if_neg hfull]
    cases hclosed : x.queue.closed <;> simp [hroom, Except.map]
  · rw [if_pos (Nat.le_of_not_lt hroom), if_neg (fun h => hroom h.2)]

namespace Session

variable {σ : Type}

def new (d : Delivery σ) : Session σ := ⟨d, .idle, []⟩

/-- A delivery that could be made has an empty queue, and its sink still. -/
theorem eq_of_new {config : Config} {sink : σ} {d : Delivery σ}
    (hnew : Delivery.new config sink = .ok d) :
    ∃ queue, Ring.new config.capacity = .ok queue ∧
      d = ⟨config.guardBand, config.threadName, .new queue, some sink, none,
        false, false⟩ := by
  rw [Delivery.new] at hnew
  obtain ⟨-, -, hnew⟩ := Except.bind_eq_ok hnew
  obtain ⟨queue, hqueue, hnew⟩ := Except.bind_eq_ok hnew
  exact ⟨queue, hqueue, (Except.ok.inj hnew).symm⟩

def queue (s : Session σ) : Ring := s.delivery.exchange.queue

/-- What has been asked of the sink, in order. -/
def calls (s : Session σ) : List Call := s.delivery.exchange.calls

/-- The session with other values in what its two parties share. -/
def withExchange (s : Session σ) (x : Exchange) : Session σ :=
  { s with delivery := { s.delivery with exchange := x } }

/-- The queue's part of a write.  An error ends the write at once. -/
def offer (payload : Bytes) (s : Session σ) : Session σ :=
  match s.delivery.exchange.offer s.delivery.guardBand payload with
  | .ok (true, x) =>
      { s.withExchange x with
        producer := .counting true
        accepted := s.accepted ++ [payload] }
  | .ok (false, x) => { s.withExchange x with producer := .counting false }
  | .error _ => s

/-- The queue takes the payload as a whole, or nothing but the write itself has
changed. -/
theorem offer_cases (s : Session σ) (payload : Bytes) :
    (s.queue.closed = false ∧ s.delivery.guardBand < s.queue.remaining ∧
        s.offer payload =
          { s.withExchange { s.delivery.exchange with
              queue := s.queue.accept payload } with
            producer := .counting true
            accepted := s.accepted ++ [payload] }) ∨
      s.offer payload = { s with producer := .counting false } := by
  rw [offer, Exchange.offer_eq]
  by_cases haccept : s.delivery.exchange.queue.closed = false ∧
      s.delivery.guardBand < s.delivery.exchange.queue.remaining
  · rw [if_pos haccept]
    exact .inl ⟨haccept.1, haccept.2, rfl⟩
  · rw [if_neg haccept]
    exact .inr rfl

/-- The session with its worker in another state. -/
def withWorker (s : Session σ) (w : Worker σ) (x : Exchange) : Session σ :=
  { s with delivery := { s.delivery with worker := some w, exchange := x } }

/-- One step of the worker, if there is one and it can do anything. -/
def work (ds : Downstream σ) (s : Session σ) : Option (Session σ) :=
  match s.delivery.worker with
  | none => none
  | some w =>
      (w.step ds s.delivery.exchange).map fun next => s.withWorker next.1 next.2

theorem work_eq_some {ds : Downstream σ} {s s' : Session σ}
    (hwork : s.work ds = some s') :
    ∃ w w' x', s.delivery.worker = some w ∧
      w.step ds s.delivery.exchange = some (w', x') ∧
      s' = s.withWorker w' x' := by
  rw [work] at hwork
  split at hwork
  · contradiction
  · next w hworker =>
    obtain ⟨⟨w', x'⟩, hstep, heq⟩ := Option.map_eq_some_iff.mp hwork
    exact ⟨w, w', x', hworker, hstep, heq.symm⟩

/-- The session after an action, if that can happen now. -/
def act (ds : Downstream σ) (s : Session σ) : Action → Option (Session σ)
  | .offer payload =>
      if s.producer = .idle then some (s.offer payload) else none
  | .count =>
      match s.producer with
      | .counting accepted =>
          some { s.withExchange (s.delivery.exchange.tally accepted) with
            producer := .idle }
      | _ => none
  | .start =>
      if s.producer = .idle then
        some { s with delivery := s.delivery.start.1 }
      else none
  | .close =>
      if s.producer = .idle then
        some { s with delivery := s.delivery.close, producer := .stopping }
      else none
  | .join timeout =>
      if s.producer = .stopping then
        some { s with
          delivery := (s.delivery.join timeout).2, producer := .idle }
      else none
  | .work => s.work ds

/-- What an action can be, and what it leaves. -/
theorem act_cases {ds : Downstream σ} {s s' : Session σ} {action : Action}
    (hact : s.act ds action = some s') :
    (∃ payload, action = .offer payload ∧ s.producer = .idle ∧
        s' = s.offer payload) ∨
      (∃ accepted, action = .count ∧ s.producer = .counting accepted ∧
        s' = { s.withExchange (s.delivery.exchange.tally accepted) with
          producer := .idle }) ∨
      (action = .start ∧ s.producer = .idle ∧
        s' = { s with delivery := s.delivery.start.1 }) ∨
      (action = .close ∧ s.producer = .idle ∧
        s' = { s with delivery := s.delivery.close, producer := .stopping }) ∨
      (∃ timeout, action = .join timeout ∧ s.producer = .stopping ∧
        s' = { s with
          delivery := (s.delivery.join timeout).2, producer := .idle }) ∨
      (action = .work ∧ s.work ds = some s') := by
  cases action with
  | offer payload => simpa [act, eq_comm] using hact
  | count =>
      rw [act] at hact
      split at hact
      · next accepted hproducer =>
          simpa [hproducer, eq_comm] using hact
      · contradiction
  | start => simpa [act, eq_comm] using hact
  | close => simpa [act, eq_comm] using hact
  | join timeout => simpa [act, eq_comm] using hact
  | work => simpa [act] using hact

/-- The session after actions in this order, if they can happen so. -/
def run (ds : Downstream σ) (s : Session σ) : List Action → Option (Session σ)
  | [] => some s
  | action :: rest => (s.act ds action).bind fun next => next.run ds rest

theorem run_append (ds : Downstream σ) (s : Session σ)
    (first second : List Action) :
    s.run ds (first ++ second) =
      (s.run ds first).bind fun next => next.run ds second := by
  induction first generalizing s with
  | nil => rfl
  | cons action rest ih =>
      simp only [List.cons_append, run]
      cases s.act ds action with
      | none => rfl
      | some next => exact ih next

/-- What holds at first and is kept by every action holds after every run. -/
theorem run_induction {ds : Downstream σ} {P : Session σ → Prop}
    (hact : ∀ s s' action, s.act ds action = some s' → P s → P s')
    {s s' : Session σ} {actions : List Action}
    (hrun : s.run ds actions = some s') (hs : P s) : P s' := by
  induction actions generalizing s with
  | nil =>
      rw [run, Option.some.injEq] at hrun
      exact hrun ▸ hs
  | cons action rest ih =>
      obtain ⟨next, hnext, hrest⟩ := Option.bind_eq_some_iff.mp hrun
      exact ih hrest (hact s next action hnext hs)

/-! ### Writes and stops as a whole -/

/-- A write in one go: its payload is among the accepted ones, or the write
answers zero. -/
theorem run_write (ds : Downstream σ) {s : Session σ} {payload : Bytes}
    {length : Nat} {d : Delivery σ} (hidle : s.producer = .idle)
    (hwrite : s.delivery.write payload = .ok (length, d)) :
    ∃ accepted,
      s.run ds [.offer payload, .count] = some ⟨d, .idle, accepted⟩ ∧
      (accepted = s.accepted ++ [payload] ∧ length = payload.length ∨
        accepted = s.accepted ∧ length = 0) := by
  rw [Delivery.write] at hwrite
  cases hoffer : s.delivery.exchange.offer s.delivery.guardBand payload with
  | error e => simp [hoffer, bind, Except.bind] at hwrite
  | ok offered =>
      obtain ⟨accepted, x⟩ := offered
      simp only [hoffer, bind, Except.bind, pure, Except.pure,
        Except.ok.injEq, Prod.mk.injEq] at hwrite
      obtain ⟨rfl, rfl⟩ := hwrite
      cases accepted with
      | true =>
          refine ⟨s.accepted ++ [payload], ?_, Or.inl ⟨rfl, rfl⟩⟩
          simp [run, act, offer, hidle, hoffer, withExchange]
      | false =>
          refine ⟨s.accepted, ?_, Or.inr ⟨rfl, rfl⟩⟩
          simp [run, act, offer, hidle, hoffer, withExchange]

/-- A worker that goes on for as long as it can takes steps of its own only. -/
theorem exists_run_runFor (ds : Downstream σ) (fuel : Nat) (s : Session σ)
    {w : Worker σ} (hworker : s.delivery.worker = some w) :
    ∃ n, s.run ds (List.replicate n .work) =
      some (s.withWorker (w.runFor ds false fuel s.delivery.exchange).1
        (w.runFor ds false fuel s.delivery.exchange).2) := by
  induction fuel generalizing s w with
  | zero =>
      refine ⟨0, ?_⟩
      simp only [List.replicate_zero, run, Worker.runFor, withWorker,
        ← hworker]
  | succ fuel ih =>
      cases hstep : w.step ds s.delivery.exchange with
      | none =>
          refine ⟨0, ?_⟩
          simp only [List.replicate_zero, run, Worker.runFor,
            Worker.advance, Bool.false_and, Bool.false_eq_true, ↓reduceIte,
            hstep, withWorker, ← hworker]
      | some next =>
          obtain ⟨n, hn⟩ := ih (s.withWorker next.1 next.2) rfl
          refine ⟨n + 1, ?_⟩
          simpa [List.replicate_succ, run, act, work, hworker, hstep,
            Worker.runFor, Worker.advance, withWorker] using hn

/-- A stop in one go, while the worker is free to write: closing, what the
worker can still do, and the end of the waiting. -/
theorem run_stop (ds : Downstream σ) {s : Session σ} (timeout : Duration)
    (hidle : s.producer = .idle) :
    ∃ n, s.run ds (.close :: (List.replicate n .work ++ [.join timeout])) =
      some { s with delivery := (s.delivery.stop ds false timeout).2 } := by
  let closed : Session σ :=
    { s with delivery := s.delivery.close, producer := .stopping }
  have hsettle : ∃ n, closed.run ds (List.replicate n .work) =
      some { closed with delivery := s.delivery.close.settle ds false } := by
    cases hworker : s.delivery.close.worker with
    | none => exact ⟨0, by simp [run, Delivery.settle, hworker, closed]⟩
    | some w =>
        obtain ⟨n, hn⟩ := closed.exists_run_runFor ds
          (w.effort s.delivery.close.exchange) hworker
        refine ⟨n, hn.trans ?_⟩
        simp [Delivery.settle, hworker, Worker.run, closed, withWorker]
  obtain ⟨n, hn⟩ := hsettle
  refine ⟨n, ?_⟩
  simp only [run, act, hidle, ↓reduceIte, Option.bind_some]
  rw [run_append, hn]
  simp [run, act, closed, Delivery.stop]

end Session

end Logline.Delivery
