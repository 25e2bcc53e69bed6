import Logline.Outcome
/-!
What a delivery needs of the sink at its far end.
-/
namespace Logline.Delivery

/-- A sink with states in `σ`: it writes and flushes, and may have a filter for
payloads and an encoder that turns them into the bytes to write.  Each of them
may panic; what it leaves behind then is its next state all the same. -/
structure Downstream (σ : Type) where
  name : Text
  filter : Option (σ → Bytes → σ × Except Panic Bool)
  encode : Option (σ → Bytes → σ × Outcome Bytes)
  write : σ → Bytes → σ × Outcome Nat
  flush : σ → σ × Outcome Unit

/-- What the worker asks of a sink. -/
inductive Call
  | filter (payload : Bytes)
  | encode (payload : Bytes)
  | write (bytes : Bytes)
  | flush
deriving DecidableEq, Repr

/-- What can be seen of a delivery from outside: what is asked of its sink, and
what it reports to whoever watches it. -/
inductive Note
  | call (c : Call)
  | report (message : Text)
deriving DecidableEq, Repr

namespace Note

def call? : Note → Option Call
  | call c => some c
  | report _ => none

def report? : Note → Option Text
  | call _ => none
  | report message => some message

end Note

end Logline.Delivery
