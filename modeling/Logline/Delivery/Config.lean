import Logline.Error
import Logline.Json.Record
/-!
The configuration of a delivery: how large its queue is, and from where on
payloads are discarded.
-/
namespace Logline.Delivery

structure Config where
  /-- The number of slots of the queue. -/
  capacity : Nat
  /-- As many slots stay free: payloads are discarded that would use one of
  them. -/
  guardBand : Nat
  /-- The name of the thread that the worker runs on. -/
  threadName : Text
deriving DecidableEq, Repr

namespace Config

instance : Inhabited Config := ⟨256, 16, "async-writer".toList⟩

def capacityKey : Text := "capacity".toList

def guardBandKey : Text := "guard_band".toList

def threadNameKey : Text := "thread_name".toList

/-- The fields of a configuration. -/
def fields : List (Json.Field Config) :=
  [.ofNat capacityKey fun config n => { config with capacity := n },
    .ofNat guardBandKey fun config n => { config with guardBand := n },
    .ofString threadNameKey fun config t => { config with threadName := t }]

/-- The configuration in a JSON text; what it leaves out has its default. -/
def read (payload : Bytes) : Except Json.Fault Config :=
  Json.readRecord fields default payload

def toJson (config : Config) : Json :=
  .object
    [(capacityKey, .number (.integer config.capacity)),
      (guardBandKey, .number (.integer config.guardBand)),
      (threadNameKey, .string config.threadName)]

/-- A queue needs a slot, and one slot at least beyond the guard band. -/
def validate (config : Config) : Except Error Unit :=
  if config.capacity = 0 then
    .error <| .invalidConfiguration "AsyncWriter".toList
      "capacity must be greater than zero".toList
  else if config.capacity ≤ config.guardBand then
    .error <| .invalidConfiguration "AsyncWriter".toList
      ("guard band ".toList ++ Text.ofNat config.guardBand ++
        " leaves no usable slots in a queue of ".toList ++
          Text.ofNat config.capacity)
  else .ok ()

end Config

end Logline.Delivery
