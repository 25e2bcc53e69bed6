import Logline.Delivery.Downstream
import Logline.Encoder
import Logline.Filter
/-!
Sinks: where log lines end up.  A sink writes bytes as they are; it may be
equipped with an encoder and a filter, which a delivery to it applies to the
payloads first.
-/
namespace Logline

/-- The behaviour of a sink with states in `σ`. -/
structure Sink (σ : Type) where
  name : Text
  write : σ → Bytes → σ × Outcome Nat
  flush : σ → σ × Outcome Unit

/-- A sink together with the encoder and the filter that belong to it. -/
structure Equipped (κ σ : Type) where
  encoder : Option (Encoder κ)
  filter : Option Filter
  state : σ

namespace Equipped

variable {κ σ : Type}

/-- The line of a payload, if there is an encoder. -/
def encode? (ext : Extension κ) (now : Timestamp) (s : Equipped κ σ)
    (payload : Bytes) : Option (Equipped κ σ × Outcome Bytes) :=
  s.encoder.map fun encoder =>
    let (encoder, outcome) := encoder.encode ext now payload
    ({ s with encoder := some encoder }, outcome)

/-- Whether a payload is dropped, if there is a filter. -/
def drops? (s : Equipped κ σ) (payload : Bytes) : Option (Except Panic Bool) :=
  s.filter.map (· payload)

/-- The sink at the far end of a delivery, which asks once whether there are an
encoder and a filter. -/
def downstream (ext : Extension κ) (now : Timestamp) (sink : Sink σ)
    (s : Equipped κ σ) : Delivery.Downstream (Equipped κ σ) where
  name := sink.name
  filter := s.filter.map fun filter s payload => (s, filter payload)
  encode := s.encoder.map fun _ s payload =>
    (s.encode? ext now payload).getD (s, .done payload)
  write s bytes :=
    let (state, outcome) := sink.write s.state bytes
    ({ s with state }, outcome)
  flush s :=
    let (state, outcome) := sink.flush s.state
    ({ s with state }, outcome)

end Equipped

end Logline
