import Logline.Sink.Basic
/-!
Sample filters, and a sample sink whose faults are planned: they happen for
bytes that hold certain others, and at certain flushes.
-/
namespace Logline

/-- Planned faults.  No bytes hold the empty ones, so that these plan nothing,
and flushes are counted from one. -/
structure FaultPlan where
  fail : Bytes
  failIo : Bytes
  panic : Bytes
  /-- A panic that tells the number of bytes. -/
  panicCounting : Bytes
  /-- A panic with something that is no text. -/
  panicOther : Bytes
  /-- A write that takes nothing. -/
  takeNothing : Bytes
  panicAtFlush : Nat
  failAtFlush : Nat
deriving DecidableEq, Repr

namespace Bytes

/-- The bytes hold the others, of which there is at least one. -/
def mentions (bytes part : Bytes) : Bool :=
  !part.isEmpty && Bytes.includes bytes part

end Bytes

namespace Filter

/-- Drops payloads that hold some bytes. -/
def dropping (part : Bytes) : Filter :=
  fun payload => .ok (Bytes.mentions payload part)

/-- Panics at payloads that hold some bytes, and keeps all others. -/
def panicking (part : Bytes) : Filter := fun payload =>
  if Bytes.mentions payload part then .error (.message "filter exploded".toList)
    else .ok false

end Filter

namespace FaultPlan

def none : FaultPlan := ⟨[], [], [], [], [], [], 0, 0⟩

/-- How a write ends: the first fault that is planned for its bytes. -/
def outcome (plan : FaultPlan) (bytes : Bytes) : Outcome Nat :=
  let mentions := Bytes.mentions bytes
  if mentions plan.fail then .failed (.writer "refused".toList)
  else if mentions plan.failIo then .failed (.io "disk full".toList)
  else if mentions plan.panic then .panicked (.message "sink exploded".toList)
  else if mentions plan.panicCounting then
    .panicked (.message ("sink exploded at ".toList ++ Text.ofNat bytes.length))
  else if mentions plan.panicOther then .panicked .other
  else if mentions plan.takeNothing then .done 0
  else .done bytes.length

/-- How the flush with this number ends. -/
def flushOutcome (plan : FaultPlan) (number : Nat) : Outcome Unit :=
  if number = plan.panicAtFlush then
    .panicked (.message "flush exploded".toList)
  else if number = plan.failAtFlush then
    .failed (.writer "flush refused".toList)
  else .done ()

/-- The sink with these faults; its state is the number of flushes so far. -/
def sink (plan : FaultPlan) (name : Text) : Sink Nat where
  name
  write flushes bytes := (flushes, plan.outcome bytes)
  flush flushes := (flushes + 1, plan.flushOutcome (flushes + 1))

end FaultPlan

end Logline
