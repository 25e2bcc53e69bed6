import Logline.Delivery.Downstream
import Logline.Delivery.Metrics
import Logline.Queue.Ring
/-!
What the two sides of a delivery share: the producer puts payloads into the
queue, the worker takes them out, and both count.
-/
namespace Logline.Delivery

structure Exchange where
  queue : Ring
  metrics : Metrics
  /-- What has happened at the sink and what has been reported, in order. -/
  notes : List Note
deriving DecidableEq, Repr

namespace Exchange

def new (queue : Ring) : Exchange := ⟨queue, .zero, []⟩

/-- What has been asked of the sink, in order. -/
def calls (x : Exchange) : List Call := x.notes.filterMap Note.call?

/-- What has been reported, in order. -/
def reports (x : Exchange) : List Text := x.notes.filterMap Note.report?

def count (counter : Counter) (x : Exchange) : Exchange :=
  { x with metrics := x.metrics.record counter }

def ask (call : Call) (x : Exchange) : Exchange :=
  { x with notes := x.notes ++ [.call call] }

def report (message : Text) (x : Exchange) : Exchange :=
  { x with notes := x.notes ++ [.report message] }

/-- Puts a payload into the queue and says whether it did: not if the queue is
closed or too few slots are free. -/
def offer (guardBand : Nat) (payload : Bytes) (x : Exchange) :
    Except Error (Bool × Exchange) :=
  match x.queue.putIfAbove payload guardBand with
  | .ok (accepted, queue) => .ok (accepted, { x with queue })
  | .error .queueClosed => .ok (false, x)
  | .error e => .error e

/-- Counts a payload that was offered. -/
def tally (accepted : Bool) (x : Exchange) : Exchange :=
  x.count (if accepted then .enqueued else .dropped)

end Exchange

end Logline.Delivery
