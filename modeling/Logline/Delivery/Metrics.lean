import Logline.Number.Double
/-!
What became of the payloads of a delivery, in six counters.  A counter starts
again from zero after its greatest value.
-/
namespace Logline.Delivery

inductive Counter
  /-- Payloads that the queue took. -/
  | enqueued
  /-- Payloads that were discarded because the queue was nearly full or
  closed. -/
  | dropped
  /-- Payloads that the filter dropped. -/
  | filtered
  /-- Payloads that the sink took. -/
  | delivered
  | encodeFailures
  /-- Errors and panics of the sink. -/
  | writeFailures
deriving DecidableEq, Repr

structure Metrics where
  enqueued : UInt64
  dropped : UInt64
  filtered : UInt64
  delivered : UInt64
  encodeFailures : UInt64
  writeFailures : UInt64
deriving DecidableEq, Repr

namespace Metrics

def zero : Metrics := ⟨0, 0, 0, 0, 0, 0⟩

def get (m : Metrics) : Counter → UInt64
  | .enqueued => m.enqueued
  | .dropped => m.dropped
  | .filtered => m.filtered
  | .delivered => m.delivered
  | .encodeFailures => m.encodeFailures
  | .writeFailures => m.writeFailures

/-- The metrics with one more in a counter. -/
def record (m : Metrics) : Counter → Metrics
  | .enqueued => { m with enqueued := m.enqueued + 1 }
  | .dropped => { m with dropped := m.dropped + 1 }
  | .filtered => { m with filtered := m.filtered + 1 }
  | .delivered => { m with delivered := m.delivered + 1 }
  | .encodeFailures => { m with encodeFailures := m.encodeFailures + 1 }
  | .writeFailures => { m with writeFailures := m.writeFailures + 1 }

/-- One more in a counter, and in no other. -/
theorem get_record (m : Metrics) (counter other : Counter) :
    (m.record counter).get other =
      m.get other + if other = counter then 1 else 0 := by
  cases counter <;> cases other <;> simp [record, get]

/-- The payloads that were taken from the queue and are done with, whatever
came of them. -/
def processed (m : Metrics) : UInt64 :=
  m.filtered + m.delivered + m.encodeFailures + m.writeFailures

/-- The discarded payloads in percent of all; zero if there were none. -/
def dropRate (m : Metrics) : Double :=
  let dropped := Double.ofNat m.dropped.toNat
  let total := (Double.ofNat m.enqueued.toNat).addMagnitudes dropped
  if total.isZero then .zero else (dropped.div total).mul (.ofNat 100)

example : (Metrics.mk 2 1 0 0 0 0).dropRate.bits = 0x4040AAAAAAAAAAAA := by
  decide +kernel

end Metrics

end Logline.Delivery
