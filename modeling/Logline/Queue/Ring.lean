import Logline.Error
import Logline.Text.Inspect
/-!
A bounded queue of payloads in a ring of slots.  The live slots are the `count`
slots from `takeIndex` on, around the end of the ring; all others are empty.
Nothing here waits: a taker that would have to is told so.
-/
namespace Logline

structure Ring where
  slots : Array Bytes
  count : Nat
  putIndex : Nat
  takeIndex : Nat
  closed : Bool
deriving DecidableEq, Repr

namespace Ring

/-- An open queue of empty slots; there has to be one at least. -/
def new (capacity : Nat) : Except Error Ring :=
  if capacity = 0 then
    .error <| .invalidConfiguration "BoundedEventQueue".toList
      "capacity must be greater than zero".toList
  else .ok ⟨Array.replicate capacity [], 0, 0, 0, false⟩

def capacity (q : Ring) : Nat := q.slots.size

/-- The number of free slots. -/
def remaining (q : Ring) : Nat := q.capacity - q.count

def isEmpty (q : Ring) : Bool := q.count == 0

/-- The slot after this one, around the ring. -/
def next (q : Ring) (index : Nat) : Nat := (index + 1) % q.capacity

/-- What a slot holds. -/
def slot (q : Ring) (index : Nat) : Bytes := q.slots[index]?.getD []

/-- The queue with a payload in the next free slot, whose buffer is cleared
first. -/
def accept (payload : Bytes) (q : Ring) : Ring :=
  { q with
    slots := q.slots.setIfInBounds q.putIndex
      ((q.slot q.putIndex).cleared ++ payload)
    putIndex := q.next q.putIndex
    count := q.count + 1 }

/-- Puts a payload, unless the queue is closed or full. -/
def put (payload : Bytes) (q : Ring) : Except Error Ring :=
  if q.closed then .error .queueClosed
  else if q.count = q.capacity then .error (.queueFull q.count q.capacity)
  else .ok (q.accept payload)

/-- Puts a payload if more than `guard` slots are free, and says whether it
did. -/
def putIfAbove (payload : Bytes) (guard : Nat) (q : Ring) :
    Except Error (Bool × Ring) :=
  if q.remaining ≤ guard then .ok (false, q) else (q.put payload).map (true, ·)

/-- What the oldest slot holds. -/
def front (q : Ring) : Bytes := q.slot q.takeIndex

/-- The queue with its oldest slot free, and `buffer` in that slot. -/
def advance (buffer : Bytes) (q : Ring) : Ring :=
  { q with
    slots := q.slots.setIfInBounds q.takeIndex buffer
    takeIndex := q.next q.takeIndex
    count := q.count - 1 }

/-- A copy of the oldest payload, whose slot is cleared, or nothing if the
queue is closed and drained; a taker has to wait if it is open and empty. -/
def take (q : Ring) : Option (Option Bytes × Ring) :=
  if q.count = 0 then if q.closed then some (none, q) else none
  else some (some q.front, q.advance q.front.cleared)

/-- Clears the taker's buffer `out` and exchanges it for the oldest slot, and
says whether there was one. -/
def takeInto (out : Bytes) (q : Ring) : Option (Bool × Bytes × Ring) :=
  if q.count = 0 then if q.closed then some (false, out, q) else none
  else some (true, q.front, q.advance out.cleared)

/-- The queue refusing payloads from now on; those in it can still be taken. -/
def close (q : Ring) : Ring := { q with closed := true }

/-- The queue for inspection. -/
def inspect (q : Ring) : Text :=
  Inspect.record "BoundedEventQueue".toList
    [("capacity".toList, Text.ofNat q.capacity),
      ("count".toList, Text.ofNat q.count),
      ("put_index".toList, Text.ofNat q.putIndex),
      ("take_index".toList, Text.ofNat q.takeIndex),
      ("closed".toList, Inspect.bool q.closed)]

end Ring

end Logline
