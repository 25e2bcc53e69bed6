import Logline.Delivery.Exchange
/-!
The worker of a delivery: it takes payloads from the queue one by one, filters
and encodes them, and has the sink write them.  Failures are reported and the
payload is skipped; nothing is tried twice.  The sink is flushed when a write
leaves no backlog behind, and at the end.  A panic of the encoder or of a write
is a failure like any other, one of the filter or of a flush ends the worker.

A call of the sink, a report and a count are steps of their own, so that whoever
looks at the metrics in between sees what has happened so far.
-/
namespace Logline.Delivery

/-- What can become of a payload that the worker has taken. -/
inductive Fate
  | filtered
  | delivered
  | encodeFailed
  | writeFailed
deriving DecidableEq, Repr

/-- What can fail without ending the worker. -/
inductive Failure
  | encode
  | write
  | flush
  /-- The flush at the end. -/
  | lastFlush
deriving DecidableEq, Repr

/-- What a worker does next. -/
inductive Phase
  /-- It takes the next payload. -/
  | waiting
  | filtering
  | encoding
  | writing (bytes : Bytes)
  | reporting (failure : Failure) (message : Text)
  /-- It counts what has become of the payload. -/
  | counting (fate : Fate)
  /-- It looks for a backlog. -/
  | checking
  | flushing
  /-- It flushes for the last time. -/
  | closing
  | ended
  | crashed (p : Panic)
deriving DecidableEq, Repr

namespace Fate

def counter : Fate → Counter
  | filtered => .filtered
  | delivered => .delivered
  | encodeFailed => .encodeFailures
  | writeFailed => .writeFailures

/-- What the worker does after counting.  Only a write makes it look for a
backlog. -/
def next : Fate → Phase
  | filtered => .waiting
  | delivered => .checking
  | encodeFailed => .waiting
  | writeFailed => .checking

end Fate

/-- What the worker does after reporting. -/
def Failure.next : Failure → Phase
  | encode => .counting .encodeFailed
  | write => .counting .writeFailed
  | flush => .waiting
  | lastFlush => .ended

/-- A worker with its sink, and the buffer that it takes payloads into. -/
structure Worker (σ : Type) where
  phase : Phase
  sink : σ
  buffer : Bytes

namespace Worker

variable {σ : Type}

/-- A worker before its first payload. -/
def new (sink : σ) : Worker σ := ⟨.waiting, sink, []⟩

def isWriting (w : Worker σ) : Bool :=
  match w.phase with
  | .writing _ => true
  | _ => false

/-- Takes the next payload, if there is one to take or none will come. -/
def stepWaiting (w : Worker σ) (x : Exchange) : Option (Worker σ × Exchange) :=
  match x.queue.takeInto w.buffer with
  | some (true, buffer, queue) =>
    some ({ w with phase := .filtering, buffer }, { x with queue })
  | some (false, buffer, queue) =>
    some ({ w with phase := .closing, buffer }, { x with queue })
  | none => none

def stepFiltering (d : Downstream σ) (w : Worker σ) (x : Exchange) :
    Worker σ × Exchange :=
  match d.filter with
  | none => ({ w with phase := .encoding }, x)
  | some filter =>
    let x := x.ask (.filter w.buffer)
    match filter w.sink w.buffer with
    | (sink, .ok true) => ({ w with phase := .counting .filtered, sink }, x)
    | (sink, .ok false) => ({ w with phase := .encoding, sink }, x)
    | (sink, .error p) => ({ w with phase := .crashed p, sink }, x)

def stepEncoding (d : Downstream σ) (w : Worker σ) (x : Exchange) :
    Worker σ × Exchange :=
  match d.encode with
  | none => ({ w with phase := .writing w.buffer }, x)
  | some encode =>
    let x := x.ask (.encode w.buffer)
    match encode w.sink w.buffer with
    | (sink, .done bytes) => ({ w with phase := .writing bytes, sink }, x)
    | (sink, .failed e) =>
      let message := "async writer encode error: ".toList ++ e.message
      ({ w with phase := .reporting .encode message, sink }, x)
    | (sink, .panicked p) =>
      let message := "async writer encoder panicked: ".toList ++ p.text
      ({ w with phase := .reporting .encode message, sink }, x)

def stepWriting (d : Downstream σ) (bytes : Bytes) (w : Worker σ)
    (x : Exchange) : Worker σ × Exchange :=
  let x := x.ask (.write bytes)
  match d.write w.sink bytes with
  | (sink, .done _) => ({ w with phase := .counting .delivered, sink }, x)
  | (sink, .failed e) =>
    let message := "async writer write error (".toList ++ d.name ++
      "): ".toList ++ e.message
    ({ w with phase := .reporting .write message, sink }, x)
  | (sink, .panicked p) =>
    let message := "async writer downstream '".toList ++ d.name ++
      "' panicked: ".toList ++ p.text
    ({ w with phase := .reporting .write message, sink }, x)

/-- Flushes the sink, and goes on unless the sink panics; `failure` says which
flush it is. -/
def stepFlush (d : Downstream σ) (failure : Failure) (w : Worker σ)
    (x : Exchange) : Worker σ × Exchange :=
  let x := x.ask .flush
  match d.flush w.sink with
  | (sink, .done ()) => ({ w with phase := failure.next, sink }, x)
  | (sink, .failed e) =>
    let message := "async writer flush error: ".toList ++ e.message
    ({ w with phase := .reporting failure message, sink }, x)
  | (sink, .panicked p) => ({ w with phase := .crashed p, sink }, x)

/-- One step of the worker; there is none while it waits on an open, empty queue
or is over. -/
def step (d : Downstream σ) (w : Worker σ) (x : Exchange) :
    Option (Worker σ × Exchange) :=
  match w.phase with
  | .waiting => w.stepWaiting x
  | .filtering => some (stepFiltering d w x)
  | .encoding => some (stepEncoding d w x)
  | .writing bytes => some (stepWriting d bytes w x)
  | .reporting failure message =>
    some ({ w with phase := failure.next }, x.report message)
  | .counting fate => some ({ w with phase := fate.next }, x.count fate.counter)
  | .checking =>
    some ({ w with
      phase := if x.queue.isEmpty then .flushing else .waiting }, x)
  | .flushing => some (stepFlush d .flush w x)
  | .closing => some (stepFlush d .lastFlush w x)
  | .ended => none
  | .crashed _ => none

/-- An upper bound of the steps that are left while nobody adds a payload: nine
for each payload in the queue, and those up to the next one. -/
def effort (w : Worker σ) (x : Exchange) : Nat :=
  9 * x.queue.count + match w.phase with
    | .filtering => 11
    | .encoding => 10
    | .writing _ => 9
    | .reporting .encode _ => 8
    | .reporting .write _ => 8
    | .counting _ => 7
    | .checking => 6
    | .flushing => 5
    | .reporting .flush _ => 4
    | .waiting => 3
    | .closing => 2
    | .reporting .lastFlush _ => 1
    | .ended => 0
    | .crashed _ => 0

/-- One step of the worker, except that it is held in front of a write while
`held`. -/
def advance (d : Downstream σ) (held : Bool) (w : Worker σ) (x : Exchange) :
    Option (Worker σ × Exchange) :=
  if held && w.isWriting then none else w.step d x

/-- At most so many steps. -/
def runFor (d : Downstream σ) (held : Bool) :
    Nat → Worker σ → Exchange → Worker σ × Exchange
  | 0, w, x => (w, x)
  | fuel + 1, w, x =>
    match w.advance d held x with
    | some (w, x) => runFor d held fuel w x
    | none => (w, x)

/-- Lets the worker go on for as long as it can. -/
def run (d : Downstream σ) (held : Bool) (w : Worker σ) (x : Exchange) :
    Worker σ × Exchange :=
  runFor d held (w.effort x) w x

theorem effort_step {d : Downstream σ} {w w' : Worker σ} {x x' : Exchange}
    (h : w.step d x = some (w', x')) : w'.effort x' < w.effort x := by
  obtain ⟨phase, sink, buffer⟩ := w
  cases phase with
  | waiting =>
    simp only [step, stepWaiting, Ring.takeInto] at h
    grind [effort, Ring.advance]
  | filtering =>
    simp only [step, stepFiltering, Option.some.injEq] at h
    grind [effort, Exchange.ask]
  | encoding =>
    simp only [step, stepEncoding, Option.some.injEq] at h
    grind [effort, Exchange.ask]
  | writing bytes =>
    simp only [step, stepWriting, Option.some.injEq] at h
    grind [effort, Exchange.ask]
  | reporting failure message =>
    simp only [step, Option.some.injEq] at h
    cases failure <;> grind [effort, Failure.next, Exchange.report]
  | counting fate =>
    simp only [step, Option.some.injEq] at h
    cases fate <;> grind [effort, Fate.next, Exchange.count]
  | checking =>
    simp only [step, Option.some.injEq] at h
    grind [effort]
  | flushing =>
    simp only [step, stepFlush, Option.some.injEq] at h
    grind [effort, Failure.next, Exchange.ask]
  | closing =>
    simp only [step, stepFlush, Option.some.injEq] at h
    grind [effort, Failure.next, Exchange.ask]
  | ended => simp [step] at h
  | crashed p => simp [step] at h

theorem advance_runFor {d : Downstream σ} {held : Bool} (fuel : Nat)
    (w : Worker σ) (x : Exchange) (h : w.effort x ≤ fuel) :
    (runFor d held fuel w x).1.advance d held (runFor d held fuel w x).2 =
      none := by
  induction fuel generalizing w x with
  | zero =>
    cases hs : w.advance d held x with
    | none => exact hs
    | some next =>
      have hstep : w.step d x = some (next.1, next.2) := by grind [advance]
      have := effort_step hstep
      omega
  | succ fuel ih =>
    cases hs : w.advance d held x with
    | none => simp [runFor, hs]
    | some next =>
      have hstep : w.step d x = some (next.1, next.2) := by grind [advance]
      have := effort_step hstep
      simpa [runFor, hs] using ih next.1 next.2 (by omega)

/-- After a run the worker can do nothing more by itself. -/
theorem advance_run (d : Downstream σ) (held : Bool) (w : Worker σ)
    (x : Exchange) :
    (w.run d held x).1.advance d held (w.run d held x).2 = none :=
  advance_runFor (w.effort x) w x (Nat.le_refl _)

end Worker

end Logline.Delivery
