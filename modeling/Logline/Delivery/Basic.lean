import Logline.Delivery.Config
import Logline.Delivery.Worker
import Logline.Time.Duration
/-!
Lossy delivery: a producer hands payloads over without ever waiting, a worker
of its own brings them to a sink.  Payloads that come while the queue is nearly
full or closed are discarded.  The sink is handed to the worker when the
delivery starts; stopping closes the queue and waits for the worker to drain
it, but not longer than a given time, and only the first stop waits at all.
-/
namespace Logline

open Delivery

/-- A delivery to a sink with states in `σ`. -/
structure Delivery (σ : Type) where
  guardBand : Nat
  threadName : Text
  exchange : Exchange
  /-- The sink before the start. -/
  pending : Option σ
  worker : Option (Worker σ)
  /-- Nobody has waited for the worker yet. -/
  joinable : Bool
  started : Bool

namespace Delivery

variable {σ : Type}

/-- A delivery that has not started. -/
def new (config : Config) (sink : σ) : Except Error (Delivery σ) := do
  config.validate
  let queue ← Ring.new config.capacity
  return {
    guardBand := config.guardBand
    threadName := config.threadName
    exchange := .new queue
    pending := some sink
    worker := none
    joinable := false
    started := false }

/-- Hands a payload over, and answers with its length, or with zero if it is
discarded. -/
def write (payload : Bytes) (d : Delivery σ) :
    Except Error (Nat × Delivery σ) := do
  let (accepted, x) ← d.exchange.offer d.guardBand payload
  return (if accepted then payload.length else 0,
    { d with exchange := x.tally accepted })

/-- What starting panics with if the name of the thread cannot be given to one:
where its first null byte stands, and all its bytes. -/
def threadNameFailure (name : Text) : Panic :=
  let bytes := name.utf8.map fun b => Text.ofNat b.toNat
  .message
  ("thread name may not contain interior null bytes: NulError(".toList ++
    Text.ofNat (name.utf8.idxOf 0) ++ ", ".toList ++
      Inspect.list bytes ++ [')'])

example : threadNameFailure ['a', '\x00'] = .message
    "thread name may not contain interior null bytes: NulError(1, [97, 0])".toList := by
  decide +kernel

/-- Starts the worker, unless the sink is gone.  A name with a null character
makes the start panic, and the sink is lost with it. -/
def start (d : Delivery σ) : Delivery σ × Outcome Unit :=
  match d.pending with
  | none => (d, .done ())
  | some sink =>
    let d := { d with pending := none }
    if d.threadName.contains '\x00' then
      (d, .panicked (threadNameFailure d.threadName))
    else
      ({ d with worker := some (.new sink), joinable := true, started := true },
        .done ())

/-- Lets the worker go on for as long as it can; `held` keeps it from
writing. -/
def settle (downstream : Downstream σ) (held : Bool) (d : Delivery σ) :
    Delivery σ :=
  match d.worker with
  | none => d
  | some w =>
    let (w, exchange) := w.run downstream held d.exchange
    { d with worker := some w, exchange }

/-- Closes the queue. -/
def close (d : Delivery σ) : Delivery σ :=
  { d with exchange := { d.exchange with queue := d.exchange.queue.close } }

/-- The end of a stop, when the worker is over or `timeout` has passed: whether
it ended well.  Without a worker to wait for there is nothing that could have
gone wrong. -/
def join (timeout : Duration) (d : Delivery σ) : Bool × Delivery σ :=
  if !d.joinable then (true, d)
  else
    let reported := fun message =>
      (false, { d with
        joinable := false, exchange := d.exchange.report message })
    match d.worker.map Worker.phase with
    | none => (true, { d with joinable := false })
    | some .ended => (true, { d with joinable := false })
    | some (.crashed p) =>
      reported
        ("async writer worker panicked during shutdown: ".toList ++ p.text)
    | some _ =>
      reported ("async writer worker did not finish within ".toList ++
        timeout.text ++
        "; ".toList ++ Text.ofNat d.exchange.queue.count ++
          " payloads may be lost".toList)

/-- Closes the queue and waits for the worker. -/
def stop (downstream : Downstream σ) (held : Bool) (timeout : Duration)
    (d : Delivery σ) : Bool × Delivery σ :=
  (d.close.settle downstream held).join timeout

/-- How long a delivery that is given up waits for its worker. -/
def shutdownTimeout : Duration := .ofParts 5 0

/-- The name of a delivery where it stands for a sink itself. -/
def name : Text := "async".toList

/-- The delivery for inspection. -/
def inspect (d : Delivery σ) : Text :=
  Inspect.record "AsyncWriter".toList
    [("queue".toList, d.exchange.queue.inspect),
      ("guard_band".toList, Text.ofNat d.guardBand),
      ("started".toList, Inspect.bool d.started)]

end Delivery

end Logline
